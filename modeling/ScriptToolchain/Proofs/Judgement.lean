import ScriptToolchain.Proofs.Lowering
import ScriptToolchain.Proofs.Naming

/-!
# When lowering succeeds, and what it reports

A step of lowering is judged by a condition on the tree: it succeeds where the
condition holds and gives up where it does not. A success reports warnings
only; giving up adds one report that is no warning, behind all others. Every
report is blamed on something that the tree allows: on its shape, if need be,
and never on the bookkeeping of the generator.

The names of the function take part as an invariant of its table. Where names
do not fit, giving up says nothing of the tree, hence the proposition `named`;
and `shaped` tells that the shape of the tree is right.
-/

namespace ScriptToolchain

namespace Finding

/-- The finding is about labels, loops and variables that the generator keeps for itself. -/
def isBookkeeping : Finding → Bool
  | .noLoop | .label _ | .openBranches _ | .undeclarable _ => true
  | _ => false

/-- The finding may be made of a tree, of one of the right shape only if it is not internal. -/
structure Blames (shaped : Prop) (f : Finding) : Prop where
  outside : f.isBookkeeping = false
  shape : shaped → f.severity ≠ .internal

theorem blames_of_error {shaped : Prop} {f : Finding} (h : f.severity ≠ .internal) :
    f.Blames shaped := by
  refine ⟨?_, fun _ => h⟩
  cases f <;> first | rfl | exact absurd rfl h

theorem blames_of_not {shaped : Prop} {f : Finding} (hf : f.isBookkeeping = false)
    (h : ¬ shaped) : f.Blames shaped :=
  ⟨hf, fun hs => absurd hs h⟩

end Finding

namespace Compile

/-- The reports `after` are warnings in front of those `before`. -/
def Warned (shaped : Prop) (before after : List Diagnostic) : Prop :=
  ∃ new, after = new ++ before ∧ ∀ d ∈ new, ∃ f line,
    Finding.Blames shaped f ∧ f.severity = .warning ∧ d = f.report line

/-- The latest report of `after` is no warning; the others are warnings in front of those
`before`. -/
def Blocked (shaped : Prop) (before after : List Diagnostic) : Prop :=
  ∃ f line rest, Finding.Blames shaped f ∧ f.severity ≠ .warning ∧ Warned shaped before rest ∧
    after = f.report line :: rest

section

variable {shaped : Prop} {a b c : List Diagnostic}

theorem warned_refl (a : List Diagnostic) : Warned shaped a a :=
  ⟨[], rfl, nofun⟩

theorem Warned.trans (h : Warned shaped a b) (h' : Warned shaped b c) : Warned shaped a c := by
  obtain ⟨new, rfl, hnew⟩ := h
  obtain ⟨newer, rfl, hnewer⟩ := h'
  refine ⟨newer ++ new, (List.append_assoc ..).symm, fun d hd => ?_⟩
  rcases List.mem_append.mp hd with hd | hd
  · exact hnewer d hd
  · exact hnew d hd

theorem Warned.blocked (h : Warned shaped a b) (h' : Blocked shaped b c) : Blocked shaped a c := by
  obtain ⟨f, line, rest, hf, hsev, hrest, rfl⟩ := h'
  exact ⟨f, line, rest, hf, hsev, h.trans hrest, rfl⟩

end

namespace Lowering

/--
What has come of a step that stands for the condition `P`, with the reports `before` it: a success
shows `P`, and giving up refutes it where the names fit.
-/
inductive Verdict {σ α : Type} (named shaped : Prop) (J : α → VariableTable → Prop) (P : Prop)
    (before : List Diagnostic) : Lowered σ α → Prop where
  | accepts {a code c} : P → J a c.names → Warned shaped before c.reports →
      Verdict named shaped J P before (.ok a code c)
  | refuses {c} : (named → ¬ P) → Blocked shaped before c.reports →
      Verdict named shaped J P before (.error c)

/-- From a table with `I` the step stands for the condition `P`; a success leaves `J`. -/
def Judges {σ α : Type} (named shaped : Prop) (I : VariableTable → Prop)
    (J : α → VariableTable → Prop) (P : Prop) (l : Lowering σ α) : Prop :=
  ∀ c, I c.names → Verdict named shaped J P c.reports (l c)

/-- The step stands for the condition `P` and keeps `I`. -/
abbrev Decides {σ α : Type} (named shaped : Prop) (I : VariableTable → Prop) (P : Prop)
    (l : Lowering σ α) : Prop :=
  l.Judges named shaped I (fun _ => I) P

variable {σ α β : Type} {named shaped : Prop} {I : VariableTable → Prop}
  {J : α → VariableTable → Prop} {K : β → VariableTable → Prop} {P Q : Prop}

theorem Verdict.of_iff {before : List Diagnostic} {r : Lowered σ α} (hpq : P ↔ Q)
    (h : Verdict named shaped J P before r) : Verdict named shaped J Q before r := by
  cases h with
  | accepts hp hj hw => exact .accepts (hpq.mp hp) hj hw
  | refuses hp hb => exact .refuses (fun hn hq => hp hn (hpq.mpr hq)) hb

theorem Verdict.bind {l : Lowering σ α} {f : α → Lowering σ β} {c : Scope σ}
    {before : List Diagnostic} (h : Verdict named shaped J P before (l c))
    (hf : ∀ a, (f a).Judges named shaped (J a) K Q) :
    Verdict named shaped K (P ∧ Q) before ((l >>= f) c) := by
  simp only [Bind.bind]
  generalize l c = r at h
  cases h with
  | accepts hp hj hw =>
    rename_i a code c'
    have hrest := hf a c' hj
    simp only
    generalize f a c' = r' at hrest
    cases hrest with
    | accepts hq hk hw' => exact .accepts ⟨hp, hq⟩ hk (hw.trans hw')
    | refuses hq hb => exact .refuses (fun hn hpq => hq hn hpq.2) (hw.blocked hb)
  | refuses hp hb => exact .refuses (fun hn hpq => hp hn hpq.1) hb

namespace Judges

theorem of_iff {l : Lowering σ α} (hpq : P ↔ Q) (h : l.Judges named shaped I J P) :
    l.Judges named shaped I J Q :=
  fun c hc => (h c hc).of_iff hpq

theorem bind {l : Lowering σ α} {f : α → Lowering σ β} (h : l.Judges named shaped I J P)
    (hf : ∀ a, (f a).Judges named shaped (J a) K Q) :
    (l >>= f).Judges named shaped I K (P ∧ Q) :=
  fun c hc => (h c hc).bind hf

/-- What is known before a step, of its table or not, may be used for it. -/
theorem assume {A : Prop} {l : Lowering σ α} (h : A → l.Judges named shaped I J P) :
    l.Judges named shaped (fun t => A ∧ I t) J P :=
  fun c hc => h hc.1 c hc.2

theorem weaken {I' : VariableTable → Prop} {l : Lowering σ α}
    (h : l.Judges named shaped I J P) (hi : ∀ t, I' t → I t) : l.Judges named shaped I' J P :=
  fun c hc => h c (hi _ hc)

/-- A step that always succeeds comes first. -/
theorem next {l : Lowering σ α} {f : α → Lowering σ β} (h : l.Judges named shaped I J True)
    (hf : ∀ a, (f a).Judges named shaped (J a) K Q) :
    (l >>= f).Judges named shaped I K Q :=
  (h.bind hf).of_iff (Iff.of_eq (true_and _))

/-- A step that always succeeds comes last. -/
theorem done {l : Lowering σ α} {f : α → Lowering σ β} (h : l.Judges named shaped I J P)
    (hf : ∀ a, (f a).Judges named shaped (J a) K True) :
    (l >>= f).Judges named shaped I K P :=
  (h.bind hf).of_iff (Iff.of_eq (and_true _))

/-! ## Steps -/

/-- A step that leaves names and reports alone. -/
theorem of_quiet {l : Lowering σ α}
    (h : ∀ c, ∃ a code c', l c = .ok a code c' ∧ c'.names = c.names ∧ c'.reports = c.reports) :
    l.Decides named shaped I True := by
  intro c hc
  obtain ⟨a, code, c', hl, hnames, hreports⟩ := h c
  rw [hl]
  refine .accepts trivial (hnames ▸ hc) ?_
  rw [hreports]
  exact warned_refl _

theorem answer (a : α) (h : ∀ t, I t → J a t) :
    (Pure.pure a : Lowering σ α).Judges named shaped I J True :=
  fun c hc => .accepts trivial (h c.names hc) (warned_refl _)

theorem pure (a : α) : (Pure.pure a : Lowering σ α).Decides named shaped I True :=
  answer a fun _ ht => ht

theorem put (b : Block) : (Lowering.put b : Lowering σ Unit).Decides named shaped I True :=
  of_quiet fun c => ⟨(), b, c, rfl, rfl, rfl⟩

theorem table : (Lowering.table : Lowering σ VariableTable).Decides named shaped I True :=
  of_quiet fun c => ⟨c.names, .empty, c, rfl, rfl, rfl⟩

theorem ask (f : σ → α × σ) : (Lowering.ask f).Decides named shaped I True :=
  of_quiet fun c => ⟨(f c.host).1, .empty, _, rfl, rfl, rfl⟩

theorem markLine (line : UInt32) :
    (Lowering.markLine line : Lowering σ Unit).Decides named shaped I True := by
  refine of_quiet fun c => ?_
  rw [Lowering.markLine]
  split
  · exact ⟨_, _, _, rfl, rfl, rfl⟩
  · exact ⟨_, _, _, rfl, rfl, rfl⟩

/-- Giving up: with these names the condition does not hold, and the finding is to blame. -/
theorem fail_of {f : Finding} (line : UInt32) (hp : ∀ t, I t → named → ¬ P)
    (hf : f.Blames shaped) (hsev : f.severity ≠ .warning) :
    (Lowering.fail line f : Lowering σ α).Judges named shaped I J P :=
  fun c hc => .refuses (hp c.names hc) ⟨f, line, c.reports, hf, hsev, warned_refl _, rfl⟩

/-- Giving up for an error that any tree may have. -/
theorem fail {f : Finding} (line : UInt32) (hp : ¬ P) (hsev : f.severity = .error) :
    (Lowering.fail line f : Lowering σ α).Judges named shaped I J P :=
  fail_of line (fun _ _ _ => hp) (Finding.blames_of_error (by rw [hsev]; decide))
    (by rw [hsev]; decide)

/-- Giving up over a tree of the wrong shape. -/
theorem fail_shape {f : Finding} (line : UInt32) (hp : ¬ P) (hs : ¬ shaped)
    (hf : f.isBookkeeping = false) (hsev : f.severity = .internal) :
    (Lowering.fail line f : Lowering σ α).Judges named shaped I J P :=
  fail_of line (fun _ _ _ => hp) (Finding.blames_of_not hf hs) (by rw [hsev]; decide)

theorem warn {f : Finding} (line : UInt32) (hsev : f.severity = .warning) :
    (Lowering.report line f : Lowering σ Unit).Decides named shaped I True := by
  intro c hc
  refine .accepts trivial hc ⟨[f.report line], rfl, fun d hd => ?_⟩
  have hf : f.Blames shaped := Finding.blames_of_error (by rw [hsev]; decide)
  exact ⟨f, line, hf, hsev, List.mem_singleton.mp hd⟩

theorem names {f : VariableTable → α × VariableTable} (h : ∀ t, I t → J (f t).1 (f t).2) :
    (Lowering.names f : Lowering σ α).Judges named shaped I J True :=
  fun c hc => .accepts trivial (h c.names hc) (warned_refl _)

theorem emitSymbol [Host σ] (op : Opcode) (name : String) :
    (Lowering.emitSymbol op name : Lowering σ Unit).Decides named shaped I True :=
  (ask _).next fun _ => put _

/-! ## Shapes of blocks -/

theorem captured {l : Lowering σ Unit} (h : l.Decides named shaped I P) :
    (captured l).Decides named shaped I P := by
  intro c hc
  have hl := h c hc
  rw [Lowering.captured]
  generalize l c = r at hl
  cases hl with
  | accepts hp hi hw => exact .accepts hp hi hw
  | refuses hp hb => exact .refuses hp hb

theorem skip {l : Lowering σ Unit} (op : Opcode) (h : l.Decides named shaped I P) :
    (Lowering.skip op l).Decides named shaped I P :=
  h.captured.done fun _ => put _

theorem either {yes no : Lowering σ Unit} (hyes : yes.Decides named shaped I P)
    (hno : no.Decides named shaped I Q) :
    (Lowering.either yes no).Decides named shaped I (P ∧ Q) :=
  hyes.captured.bind fun _ => hno.captured.done fun _ => put _

theorem tested {test body : Lowering σ Unit} (htest : test.Decides named shaped I P)
    (hbody : body.Decides named shaped I Q) :
    (Lowering.tested test body).Decides named shaped I (P ∧ Q) :=
  htest.bind fun _ => (put _).next fun _ => hbody

theorem loop {body tail : Lowering σ Unit} (back : Opcode) (resume : Resume)
    (hbody : body.Decides named shaped I P) (htail : tail.Decides named shaped I Q) :
    (Lowering.loop body tail back resume).Decides named shaped I (P ∧ Q) :=
  hbody.captured.bind fun _ => htail.captured.done fun _ => put _

theorem jump (inLoop : Bool) (j : Jump) (line : UInt32) :
    (Lowering.jump inLoop j line : Lowering σ Unit).Decides named shaped I (inLoop = true) := by
  rw [Lowering.jump]
  split
  · exact (put _).of_iff ⟨fun _ => ‹_›, fun _ => trivial⟩
  · exact fail line ‹_› rfl

/-- The steps of a function start with an empty table, and the names around it stay. -/
theorem function [Host σ] {l : Lowering σ Unit} {J : Unit → VariableTable → Prop}
    (name : Option String) (h : l.Judges named shaped (fun t => t = {}) J P) :
    (Lowering.function name l).Decides named shaped I P := by
  refine (ask Host.functionId).next fun id c hc => ?_
  have hl := h { c with names := {}, line := 0 } rfl
  generalize l { c with names := {}, line := 0 } = r at hl
  cases hl with
  | accepts hp _ hw => exact .accepts hp hc hw
  | refuses hp hb => exact .refuses hp hb

end Judges

end Lowering

end Compile

end ScriptToolchain
