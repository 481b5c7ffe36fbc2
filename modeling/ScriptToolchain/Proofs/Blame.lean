import ScriptToolchain.Proofs.Acceptance

/-!
# What the compiler blames on a unit

Internal errors are of two kinds. Some are about the shape of the tree, and a
tree of the right shape leads to none of them. The others are about labels,
loops and variables, which the generator keeps for itself, and no tree at all
leads to one of these. In particular every label that a finished function has
given out got its target once.
-/

namespace ScriptToolchain

/-! ## Labels of a finished function -/

namespace Directive

/-- The directive sets the target of this label. -/
def resolves (label : LabelId) : Directive → Bool
  | .resolve k _ => k = label
  | _ => false

/-- How often a label gets a target. -/
def resolutions (label : LabelId) (ds : List Directive) : Nat :=
  ds.countP (·.resolves label)

end Directive

namespace LabelTable

instance (t : LabelTable) (label : LabelId) : Decidable (t.IsOpen label) :=
  decidable_of_iff (t.labels[label]?.any (·.target.isNone) = true) <| by
  rw [Option.any_eq_true]
  constructor
  · rintro ⟨⟨operandAt, target⟩, hlabel, hnone⟩
    obtain rfl := Option.isNone_iff_eq_none.mp hnone
    exact ⟨operandAt, hlabel⟩
  · rintro ⟨operandAt, hlabel⟩
    exact ⟨_, hlabel, rfl⟩

theorem not_isOpen_of_unresolved {t : LabelTable} (h : t.unresolved = 0) (label : LabelId) :
    ¬ t.IsOpen label := by
  rintro ⟨operandAt, hlabel⟩
  rw [unresolved, Array.countP_eq_zero] at h
  exact h _ (Array.mem_of_getElem? hlabel) rfl

end LabelTable

namespace Draft

variable {d d' : Draft}

/-- A label is open behind a directive if it was open or is new, and did not get its target. -/
theorem isOpen_apply {x : Directive} (h : x.apply d = .ok () d') (label : Nat) :
    d'.labels.size = d.labels.size + x.labels ∧
      (d'.labels.IsOpen label ↔
        (d.labels.IsOpen label ∨ d.labels.size ≤ label ∧ label < d'.labels.size) ∧
          x.resolves label = false) ∧
      (x.resolves label → d.labels.IsOpen label) := by
  have hnew : ¬ (d.labels.size ≤ label ∧ label < d.labels.size) := by omega
  cases x with
  | line n =>
    cases h
    rw [labels_markLine]
    simp [Directive.labels, Directive.resolves]
  | emit op x =>
    cases h
    have hlabels : (d.emit op x).labels = d.labels := by rw [Draft.emit]
    rw [hlabels]
    simp [Directive.labels, Directive.resolves]
  | branch op =>
    cases h
    obtain ⟨hsize, hopen⟩ := d.labels_branch op
    have hnext : label = d.labels.size ↔
        d.labels.size ≤ label ∧ label < d.labels.size + 1 := by omega
    rw [hsize, hopen, List.mem_singleton, hnext]
    simp [Directive.labels, Directive.resolves]
  | resolve k t =>
    obtain ⟨a, ha, rfl⟩ := apply_resolve_inv h
    have hsize : (d.closed k a t).labels.size = d.labels.size := by
      rw [LabelTable.size, Draft.closed, Array.size_setIfInBounds, LabelTable.size]
    rw [hsize, isOpen_closed, or_iff_left hnew]
    refine ⟨rfl, ?_, ?_⟩
    · simp [Directive.resolves, eq_comm]
    · simp only [Directive.resolves, decide_eq_true_eq]
      rintro rfl
      exact ⟨a, ha⟩

/-- A label gets its target once between two drafts if it was open or is new, and is not open. -/
theorem Takes.resolutions {ds : List Directive} (h : d.Takes ds d') (label : Nat) :
    d'.labels.size = d.labels.size + Directive.labelCount ds ∧
      Directive.resolutions label ds + (if d'.labels.IsOpen label then 1 else 0) =
        if d.labels.IsOpen label ∨ d.labels.size ≤ label ∧ label < d'.labels.size then 1
        else 0 := by
  induction ds generalizing d with
  | nil =>
    obtain rfl := takes_nil.mp h
    have hnew : ¬ (d'.labels.size ≤ label ∧ label < d'.labels.size) := by omega
    exact ⟨rfl, (Nat.zero_add _).trans (if_congr (or_iff_left hnew).symm rfl rfl)⟩
  | cons x rest ih =>
    obtain ⟨m, hx, hm⟩ := takes_cons.mp h
    obtain ⟨hsize, hopen, hresolves⟩ := isOpen_apply hx label
    obtain ⟨hsize', hcount⟩ := ih hm
    have hold : d.labels.IsOpen label → label < d.labels.size := isOpen_lt
    refine ⟨by rw [hsize', hsize, Directive.labelCount_cons, Nat.add_assoc], ?_⟩
    rw [Directive.resolutions, List.countP_cons, ← Directive.resolutions]
    -- the first directive either closes the label, and then it is never open again, or leaves it
    grind

end Draft

namespace Compile.Frame

/-- How often a label of the frame got its target. -/
def resolutions (f : Frame) (label : LabelId) : Nat :=
  Directive.resolutions label f.directives

/-- Every label that the frame has given out got its target once, and no other label got one. -/
def ResolvesOnce (f : Frame) : Prop :=
  ∀ label, f.resolutions label = if label < Directive.labelCount f.directives then 1 else 0

/-- A frame is finished only if every label got its target, and none twice. -/
theorem resolvesOnce_of_finish {f : Frame} {root debug : Bool} {function : CompiledFunction}
    (h : f.finish root debug = .ok function) : f.ResolvesOnce := by
  intro label
  rw [finish] at h
  split at h
  · cases h
  · rename_i done htakes
    have hopen : ¬ done.labels.IsOpen label := by
      split at h
      · rename_i hdone
        rw [Draft.finish] at hdone
        split at hdone
        · cases hdone
        · rename_i hzero
          exact LabelTable.not_isOpen_of_unresolved (Nat.eq_zero_of_not_pos hzero) label
      · cases h
    obtain ⟨hsize, hcount⟩ := Draft.Takes.resolutions htakes label
    rw [if_neg hopen, Nat.add_zero] at hcount
    have hnone : ¬ (LabelTable.IsOpen {} label) := by
      rintro ⟨operandAt, hlabel⟩
      cases hlabel
    rw [resolutions, hcount, hsize]
    refine if_congr ?_ rfl rfl
    show LabelTable.IsOpen {} label ∨ 0 ≤ label ∧ label < 0 + _ ↔ _
    rw [or_iff_right hnone, Nat.zero_add, and_iff_right (Nat.zero_le _)]

end Compile.Frame

namespace Compile.Gen

/-! ## Frames of finished functions -/

section

variable {σ α β : Type}

theorem bind_ok {x : Gen σ α} {f : α → Gen σ β} {s s' : State σ} {b : β}
    (h : (x >>= f) s = .ok b s') : ∃ a m, x s = .ok a m ∧ f a m = .ok b s' := by
  simp only [Bind.bind, EStateM.bind] at h
  split at h
  · exact ⟨_, _, by assumption, h⟩
  · cases h

theorem close_ok {frame : Frame} {root : Bool} {o : Options} {line : UInt32} {s s' : State σ}
    {f : CompiledFunction} (h : close frame root o line s = .ok f s') :
    frame.finish root o.debug = .ok f ∧ s' = s := by
  rw [close] at h
  cases hfinish : frame.finish root o.debug with
  | ok function =>
    rw [hfinish] at h
    cases h
    exact ⟨rfl, rfl⟩
  | error e =>
    rw [hfinish] at h
    cases h

end

variable {σ : Type} [Host σ] (o : Options)

/-- What a function is made of, between its start and its end. -/
def inside (line : UInt32) (params : List Node) (body : Node) : Gen σ Unit := do
  declareParameters line params
  node o .statement body
  emit .ret

theorem unit_eq (n : Node) :
    (unit o n : Gen σ CompiledFunction) = (do
      inside o n.line [] n
      close (← read id) true o n.line) := by
  simp only [unit, inside, declareParameters, bind_assoc, pure_bind]

/-- A function literal with its name. -/
def literal (m : Mark) (params : List Node) (body : Node) (name : Option String) :
    Gen σ Unit := do
  let id ← ask Host.functionId
  let outer ← swapFrame { id, name }
  inside o m.line params body
  let inner ← swapFrame outer
  keep (← close inner false o m.line)
  emitWord .pushFunction id

theorem node_function (role : Role) (m : Mark) (params : List Node) (body : Node) :
    (node o role (.function m params body) : Gen σ Unit) =
      asValue o role m (literal o m params body) := by
  rw [node.eq_def]
  refine congrArg (asValue o role m) (funext fun name => ?_)
  simp only [literal, inside, bind_assoc]

/--
The function was finished from the frame that its inside left. The frame was new before, and each
label of it got its target once.
-/
def Finished (σ : Type) [Host σ] (o : Options) (root : Bool) (line : UInt32) (params : List Node)
    (body : Node) (f : CompiledFunction) : Prop :=
  ∃ (s s' : State σ) (id : UInt64) (name : Option String), s.frame = { id, name } ∧
    inside o line params body s = .ok () s' ∧ s'.frame.finish root o.debug = .ok f ∧
    s'.frame.ResolvesOnce

theorem literal_ok {m : Mark} {params : List Node} {body : Node} {name : Option String}
    {s s' : State σ} (h : literal o m params body name s = .ok () s') :
    ∃ f kept, s'.latest = f :: kept ∧ Finished σ o false m.line params body f := by
  obtain ⟨id, s₁, _, h⟩ := bind_ok h
  obtain ⟨outer, s₂, hswap, h⟩ := bind_ok h
  obtain ⟨_, s₃, hinside, h⟩ := bind_ok h
  obtain ⟨inner, s₄, hback, h⟩ := bind_ok h
  obtain ⟨f, s₅, hclose, h⟩ := bind_ok h
  cases hswap
  cases hback
  obtain ⟨hfinish, rfl⟩ := close_ok hclose
  cases h
  exact ⟨f, s₃.latest, rfl, _, s₃, id, name, rfl, hinside, hfinish,
    Frame.resolvesOnce_of_finish hfinish⟩

/-- A function literal that is generated has been finished and is kept. -/
theorem node_function_ok {role : Role} {m : Mark} {params : List Node} {body : Node}
    {s s' : State σ} (h : node o role (.function m params body) s = .ok () s') :
    ∃ f kept, s'.latest = f :: kept ∧ Finished σ o false m.line params body f := by
  rw [node_function] at h
  obtain ⟨_, s₁, -, h⟩ := bind_ok h
  cases role with
  | value name => exact literal_ok o h
  | statement =>
    obtain ⟨_, s₂, hliteral, h⟩ := bind_ok h
    obtain ⟨f, kept, hlatest, hfinished⟩ := literal_ok o hliteral
    refine ⟨f, kept, ?_, hfinished⟩
    rw [← hlatest]
    split at h
    · cases h
      rfl
    · cases h
      rfl

/-- The root function of a unit is finished, and it is the last one. -/
theorem generate_root {n : Node} {host : σ} {root : UInt64}
    (h : (generate o n host).root = some root) :
    ∃ f, (generate o n host).functions.getLast? = some f ∧ Finished σ o true n.line [] n f := by
  rw [generate] at h ⊢
  dsimp only at h ⊢
  split at h
  · rename_i f s' hunit
    refine ⟨f, by simp, ?_⟩
    rw [unit_eq] at hunit
    obtain ⟨_, m, hinside, hrest⟩ := bind_ok hunit
    obtain ⟨frame, _, hread, hclose⟩ := bind_ok hrest
    cases hread
    obtain ⟨hfinish, rfl⟩ := close_ok hclose
    exact ⟨_, s', _, _, rfl, hinside, hfinish, Frame.resolvesOnce_of_finish hfinish⟩
  · cases h

end Compile.Gen

/-! ## Words of findings -/

namespace Finding

/-- The first character of the words for a finding. -/
def initial (f : Finding) : Option Char :=
  f.message.toList.head?

theorem head?_append {s t : String} {c : Char} (h : s.toList.head? = some c) :
    (s ++ t).toList.head? = some c := by
  rw [String.toList_append, List.head?_append, h, Option.some_or]

/-- The errors about labels, loops and variables start with one of these characters. -/
theorem initial_of_bookkeeping {f : Finding} (h : f.isBookkeeping) :
    ∃ c, f.initial = some c ∧ (c.isDigit ∨ c ∈ ['c', 'l', 'u']) := by
  cases f with
  | undeclarable name => exact ⟨'c', head?_append (head?_append (by decide)), .inr (by decide)⟩
  | noLoop => exact ⟨'l', by decide, .inr (by decide)⟩
  | label e =>
    cases e with
    | unknown label => exact ⟨'u', head?_append (by decide), .inr (by decide)⟩
    | alreadyResolved label target =>
      exact ⟨'l', head?_append (head?_append (head?_append (by decide))), .inr (by decide)⟩
  | openBranches e =>
    cases hdigits : Nat.toDigits 10 e.count with
    | nil => exact absurd hdigits Nat.toDigits_ne_nil
    | cons c rest =>
      have hcount : (toString e.count).toList.head? = some c := by
        rw [show (toString e.count).toList = _ from Nat.toList_repr, hdigits, List.head?_cons]
      have hdigit : c ∈ Nat.toDigits 10 e.count := hdigits ▸ List.mem_cons_self ..
      exact ⟨c, head?_append (head?_append hcount),
        .inl (Nat.isDigit_of_mem_toDigits (by decide) (by decide) hdigit)⟩
  | _ => cases h

/-- The other internal errors do not. -/
theorem initial_of_internal {f : Finding} (h : f.isBookkeeping = false)
    (hsev : f.severity = .internal) :
    ∃ c, f.initial = some c ∧ c ∈ ['a', 'd', 'e', 'f', 'i', 'o', 'p'] := by
  cases f with
  | strayParameter name => exact ⟨'p', head?_append (head?_append (by decide)), by decide⟩
  | dotOperands => exact ⟨'d', by decide, by decide⟩
  | assignOperands => exact ⟨'a', by decide, by decide⟩
  | indexOperands => exact ⟨'i', by decide, by decide⟩
  | notAnExpression => exact ⟨'e', by decide, by decide⟩
  | operandCount op count =>
    exact ⟨'o', head?_append (head?_append (head?_append (head?_append (by decide)))), by decide⟩
  | notAParameter => exact ⟨'f', by decide, by decide⟩
  | undeclarable | noLoop | label | openBranches => cases h
  | _ => cases hsev

/-- A report tells whether its finding is about labels, loops and variables. -/
theorem report_ne {f g : Finding} (hf : f.isBookkeeping) (hg : g.isBookkeeping = false)
    (line line' : UInt32) : g.report line ≠ f.report line' := by
  intro heq
  have hsev : f.severity = .internal := by
    cases f <;> first | rfl | cases hf
  have hseverity : g.severity = f.severity := congrArg Diagnostic.severity heq
  have hmessage : g.message = f.message := congrArg Diagnostic.message heq
  -- the words alone tell the two kinds apart, by their first characters
  obtain ⟨c, hc, hfirst⟩ := initial_of_bookkeeping hf
  obtain ⟨c', hc', hother⟩ := initial_of_internal hg (hseverity.trans hsev)
  rw [initial, hmessage, ← initial, hc] at hc'
  cases hc'
  simp only [List.mem_cons, List.not_mem_nil, or_false] at hother
  rcases hother with rfl | rfl | rfl | rfl | rfl | rfl | rfl <;> exact absurd hfirst (by decide)

end Finding

/-! ## Reports of a compilation -/

namespace Compile

theorem Warned.blamed {shaped : Prop} {reports : List Diagnostic} (h : Warned shaped [] reports) :
    ∀ d ∈ reports, ∃ f line, Finding.Blames shaped f ∧ d = f.report line := by
  obtain ⟨new, rfl, hnew⟩ := h
  rw [List.append_nil]
  intro d hd
  obtain ⟨f, line, hf, -, rfl⟩ := hnew d hd
  exact ⟨f, line, hf, rfl⟩

theorem Blocked.blamed {shaped : Prop} {reports : List Diagnostic}
    (h : Blocked shaped [] reports) :
    ∀ d ∈ reports, ∃ f line, Finding.Blames shaped f ∧ d = f.report line := by
  obtain ⟨f, line, rest, hf, -, hrest, rfl⟩ := h
  intro d hd
  rcases List.mem_cons.mp hd with rfl | hd
  · exact ⟨f, line, hf, rfl⟩
  · exact hrest.blamed d hd

variable {σ : Type} [Host σ]

/-- A refusal by the host is blamed on the function that it refuses. -/
theorem deliverAll_blamed {host : σ} {fs : List CompiledFunction} {d : Diagnostic}
    (h : (deliverAll host fs).1 = some d) :
    ∃ id reason, d = (Finding.rejected id reason).report 0 := by
  induction fs generalizing host with
  | nil => cases h
  | cons f rest ih =>
    rw [deliverAll] at h
    split at h
    · exact ih h
    · cases h
      exact ⟨_, _, rfl⟩

/-- The reports that a compilation records: they go with a failure, or stay with the compiler. -/
def Compiler.recorded (c : Compiler) (n : Node) (host : σ) : List Diagnostic :=
  match c.compile n host with
  | (.error e, _) => e.diagnostics
  | (.ok _, after, _) => after.pending

theorem recorded_eq (c : Compiler) (n : Node) (host : σ) :
    let g := generate c.options n (Host.started c.options.debug host)
    c.recorded n host = g.reports ++ (handOver c.options g).1.toList := by
  intro g
  obtain ⟨hverdict, -⟩ := compile_eq c n host
  have hrecorded : c.recorded n host =
      match verdict c.options g (handOver c.options g).1 with
      | (.error e, _) => e.diagnostics
      | (.ok _, pending) => pending := by
    rw [← hverdict, Compiler.recorded]
    rcases c.compile n host with ⟨answer, after, host⟩
    cases answer <;> rfl
  rw [hrecorded, verdict]
  cases g.root with
  | none => rfl
  | some root =>
    dsimp only
    split <;> rename_i h <;> split at h <;> cases h <;> rfl

/-- Every report is blamed on something that the tree allows. -/
theorem recorded_blamed (shaped : Prop) (c : Compiler) {n : Node} (host : σ)
    (hshape : shaped → n.RightShape) {d : Diagnostic} (hd : d ∈ c.recorded n host) :
    ∃ f line, Finding.Blames shaped f ∧ d = f.report line := by
  rw [recorded_eq, List.mem_append, Option.mem_toList] at hd
  rcases hd with hd | hd
  · have hreports := List.mem_reverse.mpr hd
    rcases generate_decides False shaped c.options (Host.started c.options.debug host)
      False.elim hshape with ⟨-, -, hwarned⟩ | ⟨-, -, hblocked⟩
    · exact hwarned.blamed d hreports
    · exact hblocked.blamed d hreports
  · rw [handOver] at hd
    split at hd
    · cases hd
    · obtain ⟨id, reason, rfl⟩ := deliverAll_blamed hd
      exact ⟨.rejected id reason, 0, Finding.blames_of_error Severity.noConfusion, rfl⟩

/--
A tree of the right shape leads to no internal error, whatever else is wrong with it. No tree at
all leads to an internal error about labels, loops or variables. Where a function is finished, the
root function or that of a literal, each label that was given out got its target once.
-/
theorem internal_errors_unreachable (c : Compiler) (n : Node) (host : σ) :
    (n.RightShape → ∀ d ∈ c.recorded n host, d.severity ≠ .internal) ∧
      (∀ d ∈ c.recorded n host, ∀ (f : Finding) line, f.isBookkeeping → d ≠ f.report line) ∧
      (∀ root, (generate c.options n host).root = some root →
        ∃ f, (generate c.options n host).functions.getLast? = some f ∧
          Gen.Finished σ c.options true n.line [] n f) ∧
      ∀ role m params body (s s' : State σ),
        Gen.node c.options role (.function m params body) s = .ok () s' →
          ∃ f kept, s'.latest = f :: kept ∧
            Gen.Finished σ c.options false m.line params body f := by
  refine ⟨fun hshape d hd => ?_, fun d hd f line hf => ?_, fun _ => Gen.generate_root _,
    fun _ _ _ _ _ _ => Gen.node_function_ok _⟩
  · obtain ⟨f, line, hf, rfl⟩ := recorded_blamed n.RightShape c host id hd
    exact hf.shape hshape
  · obtain ⟨g, line', hg, rfl⟩ := recorded_blamed False c host False.elim hd
    exact Finding.report_ne hf hg.outside line' line

/-- A unit of the right shape that declares a name twice and leaves a loop where there is none. -/
def mistakenUnit : Node :=
  .block {} [
    .declaration {} .local "a",
    .declaration { line := 2 } .global "a",
    .whileLoop { line := 3 } (.identifier {} "a") (.breakLoop { line := 4 }),
    .breakLoop { line := 5 }]

theorem internal_errors_unreachable_samples :
    mistakenUnit.RightShape ∧
      (∀ d ∈ Compiler.recorded { options := {} } mistakenUnit ({} : Counter),
        d.severity ≠ .internal) ∧
      ∃ f, Gen.Finished Counter {} true 0 [] searchUnit f := by
  have hshape : mistakenUnit.RightShape := by decide +kernel
  refine ⟨hshape,
    (internal_errors_unreachable { options := {} } mistakenUnit ({} : Counter)).1 hshape, ?_⟩
  have hroot : (generate {} searchUnit ({} : Counter)).root = some 0 := by decide +kernel
  obtain ⟨f, -, hf⟩ :=
    (internal_errors_unreachable { options := {} } searchUnit ({} : Counter)).2.2.1 0 hroot
  exact ⟨f, hf⟩

end Compile

end ScriptToolchain
