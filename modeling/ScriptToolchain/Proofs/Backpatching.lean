import ScriptToolchain.Proofs.Assembly
import ScriptToolchain.Proofs.CodeRoundTrip

/-!
# Filling in open branches

Branches with an open operand and the instructions that are emitted between a
branch and its target may follow each other in any order, and a label may be
resolved again, never, or before there is one. What comes of it is the code
that would have been emitted at once, had the targets been known: the operand
of a branch is the target of the first resolution that finds its label, zero
without one (`direct`). The proof keeps a draft linked with the emitted
directives, whichever resolutions succeed (`Linked.edit`). No resolution stops
the emitter: it stops where it would in one pass, and at steps that break an
assertion (`Draft.stopped_edit`).
-/

namespace ScriptToolchain

/-- One step of writing code with branches that are filled in later. -/
inductive Edit where
  | emit (op : Opcode) (operand : Operand)
  /-- A branch with an open operand; its label is the number of such branches before it. -/
  | reserve (op : Opcode)
  | resolve (label : LabelId) (target : UInt32)
  /-- The cursor is the target. -/
  | resolveHere (label : LabelId)
deriving Repr, DecidableEq

namespace Edit

/-- Carries out a step. -/
def apply : Edit → EStateM LabelError Draft Unit
  | .emit op operand => modify (·.emit op operand)
  | .reserve op => modify (·.reserve op)
  | .resolve label target => Draft.resolve label target
  | .resolveHere label => Draft.resolveHere label

/-- The label that a step resolves and its target. -/
def aim? (d : Draft) : Edit → Option (LabelId × UInt32)
  | .resolve label target => some (label, target)
  | .resolveHere label => some (label, d.emitter.here)
  | _ => none

/-- The draft behind a step, refused or not. -/
def after (d : Draft) (x : Edit) : Draft :=
  match x.apply d with
  | .ok _ d' => d'
  | .error _ d' => d'

/-- The label that a step resolves successfully. -/
def filled? (d : Draft) (x : Edit) : Option LabelId :=
  match x.apply d with
  | .ok _ _ => (x.aim? d).map Prod.fst
  | .error _ _ => none

/-- The number of bytes that the code grows by. -/
def size : Edit → Nat
  | .emit _ operand => Opcode.tagSize + operand.kind.size
  | .reserve _ => Opcode.tagSize + Emitter.patchSize
  | _ => 0

/-- What a step emits. -/
def directive? : Edit → Option Directive
  | .emit op operand => some (.emit op operand)
  | .reserve op => some (.branch op)
  | _ => none

/-- The step breaks an assertion: an immediate is left out, or no branch is to be left open. -/
def misused : Edit → Bool
  | .emit op operand => !Emitter.wellFormed op operand
  | .reserve op => !op.isBranch
  | _ => false

/-! ## The code at once -/

/-- The target of the first resolution that finds the label, from an address on, where `next`
labels were given out before. -/
def firstTarget? (label : LabelId) : Nat → Nat → List Edit → Option UInt32
  | _, _, [] => none
  | address, next, .resolve k target :: rest =>
    if k = label ∧ k < next then some target else firstTarget? label address next rest
  | address, next, .resolveHere k :: rest =>
    if k = label ∧ k < next then some (saturate32 address) else firstTarget? label address next rest
  | address, next, .reserve op :: rest =>
    firstTarget? label (address + (reserve op).size) (next + 1) rest
  | address, next, .emit op operand :: rest =>
    firstTarget? label (address + (emit op operand).size) next rest

/-- The instructions with the targets filled in from the start. -/
def direct : Nat → Nat → List Edit → List (Opcode × Operand)
  | _, _, [] => []
  | address, next, .reserve op :: rest =>
    let behind := address + (reserve op).size
    (op, .word ((firstTarget? next behind (next + 1) rest).getD 0).toUInt64) ::
      direct behind (next + 1) rest
  | address, next, .emit op operand :: rest =>
    (op, operand) :: direct (address + (emit op operand).size) next rest
  | address, next, .resolve .. :: rest | address, next, .resolveHere _ :: rest =>
    direct address next rest

end Edit

/-- An open label was given out and has no target. -/
theorem LabelTable.isOpen_iff {t : LabelTable} {label : LabelId} :
    t.IsOpen label ↔ label < t.size ∧ t.target? label = none := by
  constructor
  · intro h
    obtain ⟨operandAt, ha⟩ := h
    exact ⟨(Array.getElem?_eq_some_iff.mp ha).1, target?_of_isOpen ⟨operandAt, ha⟩⟩
  · rintro ⟨hlt, hnone⟩
    refine ⟨t.labels[label].operandAt, ?_⟩
    rw [target?, Array.getElem?_eq_getElem hlt] at hnone
    rw [Array.getElem?_eq_getElem hlt, ← hnone]
    rfl

/-- An emitter that did not stop is known by its instructions and what it recorded. -/
theorem Emitter.Holds.eq {e e' : Emitter} {is : List Instruction} (h : e.Holds is)
    (h' : e'.Holds is) (hgoes : e.stopped = false) (hgoes' : e'.stopped = false)
    (hrecorder : e.recorder = e'.recorder) : e = e' := by
  have hdata := h.data.trans h'.data.symm
  have hcursor := h.cursor.trans h'.cursor.symm
  have hstack := (h.stack hgoes).trans (h'.stack hgoes').symm
  obtain ⟨⟨_, _⟩, _, _, _⟩ := e
  obtain ⟨⟨_, _⟩, _, _, _⟩ := e'
  cases hdata
  cases hcursor
  cases hstack
  cases hrecorder
  cases hgoes
  cases hgoes'
  rfl

theorem LineRecorder.eq_of_toList {r r' : LineRecorder} (hon : r.enabled = r'.enabled)
    (hline : r.line = r'.line) (hentries : r.entries.toList = r'.entries.toList) : r = r' := by
  obtain ⟨_, _, _⟩ := r
  obtain ⟨_, _, _⟩ := r'
  cases hon
  cases hline
  cases Array.toList_inj.mp hentries
  rfl

namespace Draft

/-- The draft behind some steps; what is refused is passed over. -/
def edit (d : Draft) (xs : List Edit) : Draft :=
  xs.foldl Edit.after d

/-- The labels that some steps resolve successfully, in order. -/
def filled (d : Draft) : List Edit → List LabelId
  | [] => []
  | x :: rest => (x.filled? d).toList ++ filled (x.after d) rest

variable {d d' : Draft} {done : List Directive} {label : LabelId} {target : UInt32}

/-! ## Resolutions -/

/-- A resolution closes an open label, or it is refused and changes nothing. -/
theorem resolve_cases (d : Draft) (label : LabelId) (target : UInt32) :
    (∃ operandAt, d.labels.labels[label]? = some { operandAt, target := none } ∧
      d.resolve label target = .ok () (d.closed label operandAt target)) ∨
    (¬d.labels.IsOpen label ∧ ∃ e, d.resolve label target = .error e d) := by
  by_cases hopen : d.labels.IsOpen label
  · obtain ⟨operandAt, ha⟩ := hopen
    exact .inl ⟨operandAt, ha, apply_resolve ha target⟩
  · refine .inr ⟨hopen, ?_⟩
    rw [Draft.resolve]
    split
    case h_1 hr => exact absurd (LabelTable.resolve_isOpen hr) hopen
    case h_2 e _ => exact ⟨e, rfl⟩

/-- A label that is filled in is not linked any differently from one whose target was known. -/
theorem Linked.forget (h : d.Linked (done ++ [.resolve label target])) : d.Linked done where
  emitter := by
    have hd := h.emitter
    rwa [link_snoc, Directive.instruction?, Option.toList_none, List.append_nil] at hd
  operands := by
    have hd := h.operands
    rwa [openings_snoc, Directive.labels, List.replicate_zero, List.append_nil] at hd
    rintro _ ⟨⟩
  resolved k t hm := h.resolved k t (List.mem_append_left _ hm)
  line := by
    have hd := h.line
    rwa [List.foldl_append] at hd
  entries := by
    have hd := h.entries
    rwa [entries_snoc, Directive.entry?, Option.toList_none, List.append_nil] at hd

/-! ## Steps -/

theorem edit_cons (d : Draft) (x : Edit) (xs : List Edit) :
    d.edit (x :: xs) = (x.after d).edit xs :=
  rfl

theorem edit_append (d : Draft) (xs ys : List Edit) : d.edit (xs ++ ys) = (d.edit xs).edit ys :=
  List.foldl_append

/-- All that a step can do, with the label that it resolves. -/
inductive Steps (d : Draft) : Edit → Option LabelId → Draft → Prop where
  | emit (op : Opcode) (operand : Operand) :
    Steps d (.emit op operand) none (d.emit op operand)
  | reserve (op : Opcode) : Steps d (.reserve op) none (d.reserve op)
  | fill {x : Edit} {label : LabelId} {operandAt target : UInt32}
    (haim : x.aim? d = some (label, target))
    (h : d.labels.labels[label]? = some { operandAt, target := none }) :
    Steps d x (some label) (d.closed label operandAt target)
  | refuse {x : Edit} {label : LabelId} {target : UInt32} (haim : x.aim? d = some (label, target))
    (h : ¬d.labels.IsOpen label) : Steps d x none d

theorem steps (d : Draft) (x : Edit) : d.Steps x (x.filled? d) (x.after d) := by
  have resolved (x : Edit) (label : LabelId) (target : UInt32)
      (haim : x.aim? d = some (label, target)) (happly : x.apply d = d.resolve label target) :
      d.Steps x (x.filled? d) (x.after d) := by
    rw [Edit.filled?, Edit.after, happly, haim]
    obtain ⟨operandAt, ha, hr⟩ | ⟨hclosed, e, hr⟩ := d.resolve_cases label target
    · rw [hr]
      exact .fill haim ha
    · rw [hr]
      exact .refuse haim hclosed
  cases x with
  | emit op operand => exact .emit op operand
  | reserve op => exact .reserve op
  | resolve label target => exact resolved _ label target rfl rfl
  | resolveHere label => exact resolved _ label d.emitter.here rfl rfl

variable {x : Edit} {filled : Option LabelId}

theorem directive?_of_aim? {aim : LabelId × UInt32} (h : x.aim? d = some aim) :
    x.directive? = none := by
  cases x with
  | emit | reserve => cases h
  | resolve | resolveHere => rfl

theorem Steps.size_le (h : d.Steps x filled d') :
    d.emitter.buffer.data.size ≤ d'.emitter.buffer.data.size := by
  cases h with
  | emit op operand => exact Emitter.size_le_emit d.emitter op operand
  | reserve op =>
    rw [emitter_reserve]
    exact Emitter.size_le_emitOpen (d.emitter.require op.isBranch) op 0
  | @fill _ _ operandAt target => exact Emitter.size_le_patch d.emitter operandAt target.toUInt64
  | refuse => exact Nat.le_refl _

theorem size_le_edit (d : Draft) (xs : List Edit) :
    d.emitter.buffer.data.size ≤ (d.edit xs).emitter.buffer.data.size := by
  induction xs generalizing d with
  | nil => exact Nat.le_refl _
  | cons x rest ih => exact Nat.le_trans (d.steps x).size_le (ih _)

/-- A step keeps a draft linked with what was emitted. -/
theorem Steps.linked (h : d.Steps x filled d') (hd : d.Linked done)
    (hlt : d'.emitter.buffer.data.size < 2 ^ 32) : d'.Linked (done ++ x.directive?.toList) := by
  have hle := h.size_le
  cases h with
  | emit op operand => exact hd.emit op operand
  | reserve op => exact hd.reserve op
  | fill haim ha =>
    -- the operand is patched, and what was emitted is the same
    rw [directive?_of_aim? haim, Option.toList_none, List.append_nil]
    exact (hd.closed ha _ (Nat.lt_of_le_of_lt hle hlt)).forget
  | refuse haim =>
    rwa [directive?_of_aim? haim, Option.toList_none, List.append_nil]

/-- Steps keep a draft linked with what was emitted. -/
theorem Linked.edit (h : d.Linked done) (xs : List Edit)
    (hlt : (d.edit xs).emitter.buffer.data.size < 2 ^ 32) :
    (d.edit xs).Linked (done ++ xs.filterMap Edit.directive?) := by
  induction xs generalizing d done with
  | nil =>
    rw [List.filterMap_nil, List.append_nil]
    exact h
  | cons x rest ih =>
    have hstep := (d.steps x).linked h (Nat.lt_of_le_of_lt ((x.after d).size_le_edit rest) hlt)
    have hrest := ih hstep hlt
    rw [List.append_assoc] at hrest
    rw [List.filterMap_cons]
    cases hx : x.directive? with
    | none => rwa [hx] at hrest
    | some directive => rwa [hx] at hrest

/-! ## Targets -/

theorem Steps.target?_filled (h : d.Steps x (some label) d') :
    d.labels.target? label = none ∧
      ∃ target, x.aim? d = some (label, target) ∧ d'.labels.target? label = some target := by
  cases h with
  | fill haim ha =>
    refine ⟨LabelTable.target?_of_isOpen ⟨_, ha⟩, _, haim, ?_⟩
    rw [target?_closed ha, if_pos rfl]

theorem Steps.target?_ne (h : d.Steps x filled d') (hne : filled ≠ some label) :
    d'.labels.target? label = d.labels.target? label := by
  cases h with
  | emit op operand => rfl
  | reserve op => rw [labels_reserve, LabelTable.target?_reserve]
  | fill _ ha => rw [target?_closed ha, if_neg fun heq => hne (congrArg some heq.symm)]
  | refuse => rfl

/-- A label keeps its target. -/
theorem target?_edit_of_some (h : d.labels.target? label = some target) (xs : List Edit) :
    (d.edit xs).labels.target? label = some target := by
  induction xs generalizing d with
  | nil => exact h
  | cons x rest ih =>
    refine ih ?_
    rw [(d.steps x).target?_ne, h]
    intro hx
    have hstep := d.steps x
    rw [hx] at hstep
    rw [hstep.target?_filled.1] at h
    cases h

/-- The labels that are resolved are those that get a target. -/
theorem mem_filled (d : Draft) (xs : List Edit) :
    label ∈ d.filled xs ↔
      d.labels.target? label = none ∧ (d.edit xs).labels.target? label ≠ none := by
  induction xs generalizing d with
  | nil =>
    rw [Draft.filled, edit, List.foldl_nil]
    exact ⟨fun h => absurd h (List.not_mem_nil), fun h => absurd h.1 h.2⟩
  | cons x rest ih =>
    rw [Draft.filled, List.mem_append, ih, edit_cons, Option.mem_toList]
    have hstep := d.steps x
    by_cases hx : x.filled? d = some label
    · rw [hx] at hstep
      obtain ⟨hnone, target, -, hsome⟩ := hstep.target?_filled
      simp [hx, hnone, target?_edit_of_some hsome]
    · rw [hstep.target?_ne hx]
      simp [hx]

/-- A label is resolved once. -/
theorem nodup_filled (d : Draft) (xs : List Edit) : (d.filled xs).Nodup := by
  induction xs generalizing d with
  | nil => exact List.nodup_nil
  | cons x rest ih =>
    rw [Draft.filled]
    have hstep := d.steps x
    cases hx : x.filled? d with
    | none => exact ih _
    | some label =>
      rw [hx] at hstep
      obtain ⟨-, target, -, hsome⟩ := hstep.target?_filled
      refine List.nodup_cons.mpr ⟨fun hmem => ?_, ih _⟩
      rw [((x.after d).mem_filled rest).mp hmem |>.1] at hsome
      cases hsome

theorem unresolved_closed {operandAt : UInt32}
    (h : d.labels.labels[label]? = some { operandAt, target := none }) (target : UInt32) :
    (d.closed label operandAt target).labels.unresolved + 1 = d.labels.unresolved := by
  obtain ⟨hlt, hat⟩ := Array.getElem?_eq_some_iff.mp h
  have hpos : 0 < d.labels.unresolved :=
    Array.countP_pos_iff.mpr ⟨d.labels.labels[label], Array.getElem_mem hlt, by rw [hat]; rfl⟩
  rw [LabelTable.unresolved, closed, Array.setIfInBounds, dif_pos hlt, Array.countP_set, hat]
  exact Nat.sub_add_cancel hpos

theorem Steps.unresolved (h : d.Steps x filled d') :
    d'.labels.unresolved + filled.toList.length + d.labels.size =
      d.labels.unresolved + d'.labels.size := by
  cases h with
  | emit op operand => rfl
  | reserve op =>
    have hsize : (d.reserve op).labels.size = d.labels.size + 1 := by
      rw [LabelTable.size, labels_reserve, LabelTable.reserve_labels, Array.size_push]
      rfl
    have hopen : (d.reserve op).labels.unresolved = d.labels.unresolved + 1 := by
      rw [LabelTable.unresolved, labels_reserve, LabelTable.reserve_labels, Array.countP_push]
      rfl
    rw [hsize, hopen, Option.toList_none, List.length_nil]
    omega
  | @fill _ label operandAt target haim ha =>
    have hsize : (d.closed label operandAt target).labels.size = d.labels.size :=
      Array.size_setIfInBounds
    rw [hsize, Option.toList_some, List.length_singleton, unresolved_closed ha]
  | refuse => rfl

/-- Labels are resolved, or they are still open. -/
theorem unresolved_edit (d : Draft) (xs : List Edit) :
    (d.edit xs).labels.unresolved + (d.filled xs).length + d.labels.size =
      d.labels.unresolved + (d.edit xs).labels.size := by
  induction xs generalizing d with
  | nil => rfl
  | cons x rest ih =>
    have hstep := (d.steps x).unresolved
    have hrest := ih (x.after d)
    rw [Draft.filled, List.length_append, edit_cons]
    omega

/-- A resolution fills in its target unless the label is not given out yet; `firstTarget?` says the
same of the steps alone. -/
theorem firstTarget?_aim {address next k : Nat} {rest : List Edit}
    (haim : x.aim? d = some (label, target)) (hhere : d.emitter.here = saturate32 address) :
    Edit.firstTarget? k address next (x :: rest) =
      if label = k ∧ label < next then some target else Edit.firstTarget? k address next rest := by
  cases x with
  | emit | reserve => cases haim
  | resolve => cases haim; rfl
  | resolveHere =>
    cases haim
    rw [hhere]
    rfl

/-- A label has the target that it had, or the first one that finds it. -/
theorem Linked.target?_edit (h : d.Linked done) (xs : List Edit) (label : LabelId)
    (hlt : (d.edit xs).emitter.buffer.data.size < 2 ^ 32) :
    (d.edit xs).labels.target? label = (d.labels.target? label).or
      (Edit.firstTarget? label (Directive.length done) (Directive.labelCount done) xs) := by
  induction xs generalizing d done with
  | nil => exact Option.or_none.symm
  | cons x rest ih =>
    have hstep := d.steps x
    have hlinked := hstep.linked h (Nat.lt_of_le_of_lt ((x.after d).size_le_edit rest) hlt)
    rw [edit_cons, ih hlinked hlt, Directive.length_append, Directive.labelCount_append]
    generalize x.after d = d', x.filled? d = filled at hstep
    cases hstep with
    | emit op operand => rfl
    | reserve op =>
      rw [labels_reserve, LabelTable.target?_reserve]
      rfl
    | @fill _ k operandAt target haim ha =>
      have hlt : k < Directive.labelCount done := by
        rw [← h.size_labels]
        exact (Array.getElem?_eq_some_iff.mp ha).1
      rw [directive?_of_aim? haim, firstTarget?_aim haim h.here, target?_closed ha]
      by_cases hk : label = k
      · subst hk
        rw [if_pos rfl, if_pos ⟨rfl, hlt⟩, LabelTable.target?_of_isOpen ⟨_, ha⟩]
        rfl
      · rw [if_neg hk, if_neg fun h => hk h.1.symm]
        rfl
    | @refuse _ k target haim hopen =>
      rw [directive?_of_aim? haim, firstTarget?_aim haim h.here]
      split
      case isTrue hk =>
        -- the label was given out and is not open, so it has a target already
        obtain ⟨rfl, hk⟩ := hk
        rw [← h.size_labels] at hk
        obtain ⟨kept, hkept⟩ := Option.ne_none_iff_exists'.mp fun hnone =>
          hopen (LabelTable.isOpen_iff.mpr ⟨hk, hnone⟩)
        rw [hkept]
        rfl
      case isFalse => rfl

/-! ## One pass -/

/-- Operations are emitted one behind the other. -/
def emitOps (d : Draft) (ops : List (Opcode × Operand)) : Draft :=
  ops.foldl (fun d op => d.emit op.1 op.2) d

theorem emitter_emitOps (d : Draft) (ops : List (Opcode × Operand)) :
    (d.emitOps ops).emitter = d.emitter.emitAll ops := by
  induction ops generalizing d with
  | nil => rfl
  | cons op rest ih => exact ih _

theorem Linked.emitOps (h : d.Linked done) (ops : List (Opcode × Operand)) :
    (d.emitOps ops).Linked (done ++ ops.map fun op => .emit op.1 op.2) := by
  induction ops generalizing d done with
  | nil =>
    rw [List.map_nil, List.append_nil]
    exact h
  | cons op rest ih =>
    have hrest := ih (h.emit op.1 op.2)
    rwa [List.append_assoc] at hrest

variable {targets targets' : LabelId → UInt32}

/-- Branches that are linked with their first targets are the operations of one pass. -/
theorem link_direct {address next label : Nat} {xs : List Edit}
    (h : ∀ k, next ≤ k → targets k = (Edit.firstTarget? k address next xs).getD 0) :
    Directive.link targets address next (xs.filterMap Edit.directive?) =
      Directive.link targets' address label
        ((Edit.direct address next xs).map fun op => .emit op.1 op.2) := by
  induction xs generalizing address next with
  | nil => rfl
  | cons x rest ih =>
    cases x with
    | emit op operand =>
      exact congrArg (List.cons ⟨saturate32 address, op, operand⟩) (ih h)
    | reserve op =>
      -- the label of this branch is `next`, those of later branches are greater
      have hhead := h next (Nat.le_refl _)
      have htail := ih fun k hk => h k (Nat.le_of_succ_le hk)
      exact congrArg₂ (fun (t : UInt32) (is : List Instruction) =>
        ⟨saturate32 address, op, .word t.toUInt64⟩ :: is) hhead htail
    | resolve k target =>
      refine ih fun label hlabel => (h label hlabel).trans ?_
      exact congrArg (Option.getD · 0) (if_neg fun ⟨heq, hlt⟩ => Nat.not_lt.mpr hlabel (heq ▸ hlt))
    | resolveHere k =>
      refine ih fun label hlabel => (h label hlabel).trans ?_
      exact congrArg (Option.getD · 0) (if_neg fun ⟨heq, hlt⟩ => Nat.not_lt.mpr hlabel (heq ▸ hlt))

theorem entries_direct (line : UInt32) (address next : Nat) (xs : List Edit) :
    Directive.entries line address (xs.filterMap Edit.directive?) =
      Directive.entries line address
        ((Edit.direct address next xs).map fun op => .emit op.1 op.2) := by
  induction xs generalizing address next with
  | nil => rfl
  | cons x rest ih =>
    cases x with
    | emit | reserve => exact congrArg (List.cons _) (ih _ _)
    | resolve | resolveHere => exact ih _ _

theorem foldl_lineAfter_directive? (line : UInt32) (xs : List Edit) :
    (xs.filterMap Edit.directive?).foldl Directive.lineAfter line = line := by
  induction xs with
  | nil => rfl
  | cons x rest ih => cases x <;> exact ih

theorem foldl_lineAfter_emit (line : UInt32) (ops : List (Opcode × Operand)) :
    (ops.map fun op => Directive.emit op.1 op.2).foldl Directive.lineAfter line = line := by
  induction ops with
  | nil => rfl
  | cons op rest ih => exact ih

theorem Steps.enabled (h : d.Steps x filled d') :
    d'.emitter.recorder.enabled = d.emitter.recorder.enabled := by
  cases h with
  | emit op operand =>
    rw [Draft.emit, Emitter.recorder_emit, LineRecorder.enabled_record]
  | reserve op =>
    rw [recorder_reserve, LineRecorder.enabled_record]
  | fill => rw [closed, Emitter.recorder_patch]
  | refuse => rfl

theorem enabled_edit (d : Draft) (xs : List Edit) :
    (d.edit xs).emitter.recorder.enabled = d.emitter.recorder.enabled := by
  induction xs generalizing d with
  | nil => rfl
  | cons x rest ih => exact (ih _).trans (d.steps x).enabled

theorem enabled_emitOps (d : Draft) (ops : List (Opcode × Operand)) :
    (d.emitOps ops).emitter.recorder.enabled = d.emitter.recorder.enabled := by
  induction ops generalizing d with
  | nil => rfl
  | cons op rest ih =>
    exact (ih _).trans (Steps.emit op.1 op.2).enabled

/-! ## Where steps stop -/

theorem stack_reserve (d : Draft) (op : Opcode) :
    (d.reserve op).emitter.stack = (d.emitter.stack.step? op 0).getD d.emitter.stack := by
  rw [emitter_reserve, Emitter.stack_emitOpen, Emitter.require]

theorem stopped_reserve (d : Draft) (op : Opcode) :
    (d.reserve op).emitter.stopped =
      (d.emitter.stopped || !op.isBranch || (d.emitter.stack.step? op 0).isNone) := by
  rw [emitter_reserve, Emitter.stopped_emitOpen, Emitter.require]

/-- Resolving changes neither the depth nor whether the emitter stopped. -/
theorem Steps.same_depth (h : d.Steps x filled d') {aim : LabelId × UInt32}
    (haim : x.aim? d = some aim) :
    d'.emitter.stack = d.emitter.stack ∧ d'.emitter.stopped = d.emitter.stopped := by
  cases h with
  | emit | reserve => cases haim
  | fill => exact ⟨Emitter.stack_patch .., Emitter.stopped_patch ..⟩
  | refuse => exact ⟨rfl, rfl⟩

/-- Steps stop the emitter where they are misused, and where one pass overflows. -/
theorem stopped_edit {d : Draft} (hdepth : Word.Signed d.emitter.depth) (address next : Nat)
    (xs : List Edit) :
    (d.edit xs).emitter.stopped = true ↔ d.emitter.stopped = true ∨
      (∃ x ∈ xs, x.misused = true) ∨
        Code.Overflows d.emitter.depth (Edit.direct address next xs) := by
  induction xs generalizing d address next with
  | nil => simp [edit, Edit.direct, Code.not_overflows_nil hdepth]
  | cons x rest ih =>
    -- a step that resolves is no step of the one pass
    have resolves (aim : LabelId × UInt32) (haim : x.aim? d = some aim) (hused : x.misused = false)
        (hdirect : Edit.direct address next (x :: rest) = Edit.direct address next rest) :
        (d.edit (x :: rest)).emitter.stopped = true ↔ d.emitter.stopped = true ∨
          (∃ y ∈ x :: rest, y.misused = true) ∨
          Code.Overflows d.emitter.depth (Edit.direct address next (x :: rest)) := by
      obtain ⟨hstack, hstopped⟩ := (d.steps x).same_depth haim
      have hsame : (x.after d).emitter.depth = d.emitter.depth :=
        congrArg StackReport.finalDepth hstack
      rw [edit_cons, ih (hsame ▸ hdepth) address next, hstopped, hsame, hdirect]
      simp [hused]
    cases x with
    | emit op operand =>
      have hafter : (Edit.emit op operand).after d = d.emit op operand := rfl
      rw [edit_cons, hafter, Edit.direct, Emitter.stopped_cons hdepth
        (d.emitter.stack_emit op operand) (d.emitter.stopped_emit op operand)
        fun hin => ih (d := d.emit op operand) hin (address + (Edit.emit op operand).size) next]
      simp [Edit.misused]
    | reserve op =>
      have hafter : (Edit.reserve op).after d = d.reserve op := rfl
      let behind := address + (Edit.reserve op).size
      let target := (Edit.firstTarget? next behind (next + 1) rest).getD 0
      rw [edit_cons, hafter, Edit.direct, Emitter.stopped_cons (x := .word target.toUInt64) hdepth
        (d.stack_reserve op) (d.stopped_reserve op)
        fun hin => ih (d := d.reserve op) hin behind (next + 1)]
      simp [Edit.misused, behind, target]
    | resolve label target => exact resolves (label, target) rfl rfl rfl
    | resolveHere label => exact resolves (label, d.emitter.here) rfl rfl rfl

theorem wellFormed_direct {address next : Nat} {xs : List Edit} (h : ¬∃ x ∈ xs, x.misused = true) :
    ¬∃ op ∈ Edit.direct address next xs, Emitter.wellFormed op.1 op.2 = false := by
  induction xs generalizing address next with
  | nil => simp [Edit.direct]
  | cons x rest ih =>
    have hrest : ¬∃ y ∈ rest, y.misused = true := fun ⟨y, hy, hbad⟩ =>
      h ⟨y, List.mem_cons_of_mem _ hy, hbad⟩
    cases x with
    | emit op operand =>
      rintro ⟨y, hy, hill⟩
      rcases List.mem_cons.mp hy with rfl | hy
      · exact h ⟨_, List.mem_cons_self .., Bool.not_eq_true' _ ▸ hill⟩
      · exact ih hrest ⟨y, hy, hill⟩
    | reserve op =>
      rintro ⟨y, hy, hill⟩
      rcases List.mem_cons.mp hy with rfl | hy
      · cases hill
      · exact ih hrest ⟨y, hy, hill⟩
    | resolve | resolveHere => exact ih hrest

/-! ## Steps on an empty draft -/

variable {start : Draft} {xs : List Edit}

theorem target?_start (h : start.Linked []) (label : LabelId) :
    start.labels.target? label = none := by
  have hsize : start.labels.labels.size = 0 := h.size_labels
  rw [LabelTable.target?, Array.getElem?_eq_none (by rw [hsize]; exact Nat.zero_le label)]
  rfl

/-- The labels have the targets that the steps alone tell. -/
theorem target?_edit (h : start.Linked [])
    (hlt : (start.edit xs).emitter.buffer.data.size < 2 ^ 32) (label : LabelId) :
    (start.edit xs).labels.target? label = Edit.firstTarget? label 0 0 xs := by
  rw [h.target?_edit xs label hlt, target?_start h, Option.none_or]
  rfl

/-- Steps on an empty draft write what one pass writes, unless they stop. -/
theorem emitter_edit (h : start.Linked []) (hdepth : Word.Signed start.emitter.depth)
    (hlt : (start.edit xs).emitter.buffer.data.size < 2 ^ 32)
    (hgoes : (start.edit xs).emitter.stopped = false) :
    (start.edit xs).emitter = start.emitter.emitAll (Edit.direct 0 0 xs) := by
  have hpatched := h.edit xs hlt
  have hdirect := h.emitOps (Edit.direct 0 0 xs)
  rw [List.nil_append] at hpatched hdirect
  have hlink : Directive.link (start.edit xs).labels.target 0 0 (xs.filterMap Edit.directive?) =
      Directive.link (start.emitOps (Edit.direct 0 0 xs)).labels.target 0 0
        ((Edit.direct 0 0 xs).map fun op => .emit op.1 op.2) :=
    link_direct fun label _ => congrArg (Option.getD · 0) (target?_edit h hlt label)
  have hgoes' : (start.emitter.emitAll (Edit.direct 0 0 xs)).stopped = false := by
    rw [← Bool.not_eq_true, stopped_edit hdepth 0 0] at hgoes
    rw [← Bool.not_eq_true, Emitter.stopped_emitAll hdepth]
    rintro (hstopped | hill | hover)
    · exact hgoes (.inl hstopped)
    · exact wellFormed_direct (fun hmisused => hgoes (.inr (.inl hmisused))) hill
    · exact hgoes (.inr (.inr hover))
  rw [← emitter_emitOps] at hgoes' ⊢
  refine hpatched.emitter.eq (hlink ▸ hdirect.emitter) hgoes hgoes'
    (LineRecorder.eq_of_toList ?_ ?_ ?_)
  · rw [enabled_edit, enabled_emitOps]
  · rw [hpatched.line, hdirect.line, foldl_lineAfter_directive?, foldl_lineAfter_emit]
  · rw [hpatched.entries, hdirect.entries, enabled_edit, enabled_emitOps, entries_direct]

/-- The labels that were resolved behind some steps. -/
structure Settles (start : Draft) (xs : List Edit) : Prop where
  /-- They are those that a resolution finds. -/
  mem_filled : ∀ label, label ∈ start.filled xs ↔ Edit.firstTarget? label 0 0 xs ≠ none
  nodup_filled : (start.filled xs).Nodup
  filled_lt : ∀ label ∈ start.filled xs, label < (start.edit xs).labels.size
  unresolved : (start.edit xs).labels.unresolved + (start.filled xs).length =
    (start.edit xs).labels.size

theorem settles_edit (h : start.Linked []) (hopen : start.labels.unresolved = 0)
    (hlt : (start.edit xs).emitter.buffer.data.size < 2 ^ 32) : start.Settles xs where
  mem_filled label := by
    rw [Draft.mem_filled, target?_start h, target?_edit h hlt]
    exact and_iff_right rfl
  nodup_filled := start.nodup_filled xs
  filled_lt label hmem := by
    by_contra hge
    refine ((start.mem_filled xs).mp hmem).2 ?_
    rw [LabelTable.target?, Array.getElem?_eq_none (Nat.not_lt.mp hge)]
    rfl
  unresolved := by
    have hcount := start.unresolved_edit xs
    rwa [hopen, h.size_labels, Nat.zero_add] at hcount

/-- What a resolution leaves alone. -/
structure SameButCode (d d' : Draft) : Prop where
  cursor : d'.emitter.buffer.cursor = d.emitter.buffer.cursor
  depth : d'.emitter.depth = d.emitter.depth
  maxDepth : d'.emitter.maxDepth = d.emitter.maxDepth
  stopped : d'.emitter.stopped = d.emitter.stopped
  recorder : d'.emitter.recorder = d.emitter.recorder

theorem Steps.sameButCode (h : d.Steps x filled d') {aim : LabelId × UInt32}
    (haim : x.aim? d = some aim) (hd : d.Linked done)
    (hlt : d'.emitter.buffer.data.size < 2 ^ 32) : d.SameButCode d' := by
  have hd' := h.linked hd hlt
  rw [directive?_of_aim? haim, Option.toList_none, List.append_nil] at hd'
  obtain ⟨hstack, hstopped⟩ := h.same_depth haim
  refine ⟨?_, congrArg StackReport.finalDepth hstack, congrArg StackReport.maxDepth hstack,
    hstopped, ?_⟩
  · rw [hd'.emitter.cursor, hd.emitter.cursor, Directive.length_link, Directive.length_link]
  · cases h with
    | emit | reserve => cases haim
    | refuse => rfl
    | fill => exact Emitter.recorder_patch ..

theorem Steps.filled_eq (h : d.Steps x filled d') {label : LabelId} {target : UInt32}
    (haim : x.aim? d = some (label, target)) :
    (filled = some label ∧ d.labels.IsOpen label) ∨
      (filled = none ∧ ¬d.labels.IsOpen label ∧ d' = d) := by
  cases h with
  | emit | reserve => cases haim
  | fill haim' ha =>
    cases haim.symm.trans haim'
    exact .inl ⟨rfl, _, ha⟩
  | refuse haim' hopen =>
    cases haim.symm.trans haim'
    exact .inr ⟨rfl, hopen, rfl⟩

/-- Emissions, branches whose targets come later and resolutions in any order, also of labels that
are unknown or resolved before, stop the emitter where a step breaks an assertion or where one pass
overflows, and nowhere else. If they do not stop it, they write what one pass writes, where every
branch goes to the first target of its label and to zero without one. A resolution touches nothing
but the operand of its branch, and one that is refused changes nothing. -/
theorem backpatching (id : UInt64) (name : Option String) (debug : Bool) (xs : List Edit)
    (hsize : ((empty id name debug).edit xs).emitter.code.size < 2 ^ 32) :
    (((empty id name debug).edit xs).emitter.stopped = true ↔
      (∃ x ∈ xs, x.misused = true) ∨ Code.Overflows 0 (Edit.direct 0 0 xs)) ∧
    (((empty id name debug).edit xs).emitter.stopped = false →
      ((empty id name debug).edit xs).emitter =
        Emitter.emitAll { recorder := { enabled := debug } } (Edit.direct 0 0 xs)) ∧
    (empty id name debug).Settles xs ∧
    ∀ before x after label target, xs = before ++ x :: after →
      x.aim? ((empty id name debug).edit before) = some (label, target) →
      SameButCode ((empty id name debug).edit before)
        (x.after ((empty id name debug).edit before)) ∧
      (x.filled? ((empty id name debug).edit before) = some label ↔
        label < ((empty id name debug).edit before).labels.size ∧
          Edit.firstTarget? label 0 0 before = none) ∧
      (x.filled? ((empty id name debug).edit before) = none →
        x.after ((empty id name debug).edit before) = (empty id name debug).edit before) := by
  have hstart : (empty id name debug).Linked [] := linked_empty id name {} debug
  have hzero : Word.Signed 0 := by decide
  have hdepth : Word.Signed (empty id name debug).emitter.depth := hzero
  refine ⟨?_, emitter_edit hstart hdepth hsize, settles_edit hstart rfl hsize, ?_⟩
  · rw [stopped_edit hdepth 0 0]
    exact or_iff_right Bool.false_ne_true
  rintro before x after label target rfl haim
  generalize hd : (empty id name debug).edit before = d at haim ⊢
  have hstep := d.steps x
  rw [edit_append, edit_cons, hd] at hsize
  have hlt := Nat.lt_of_le_of_lt ((x.after d).size_le_edit after) hsize
  have hlt' := Nat.lt_of_le_of_lt hstep.size_le hlt
  have hlinked := hstart.edit before (hd ▸ hlt')
  have htarget := target?_edit hstart (hd ▸ hlt') label
  rw [hd] at hlinked htarget
  refine ⟨hstep.sameButCode haim hlinked hlt, ?_⟩
  rw [← htarget, ← LabelTable.isOpen_iff]
  obtain ⟨hfilled, hopen⟩ | ⟨hrefused, hclosed, hsame⟩ := hstep.filled_eq haim
  · simp [hfilled, hopen]
  · simp [hrefused, hclosed, hsame]

/-- A branch forward that is resolved twice and one that stays open; label 9 is unknown. -/
def twoBranches : List Edit := [
  .emit .pushInt1 .none,
  .reserve .branchZero,
  .emit .nop .none,
  .resolveHere 0,
  .resolve 0 7,
  .reserve .branch,
  .resolve 9 3]

/-- The first branch goes to the address of the second one, which goes to zero. -/
theorem backpatching_twoBranches :
    ((empty 0 none true).edit twoBranches).emitter.code.size < 2 ^ 32 ∧
    ((empty 0 none true).edit twoBranches).emitter =
      Emitter.emitAll { recorder := { enabled := true } }
        [(.pushInt1, .none), (.branchZero, .word 20), (.nop, .none), (.branch, .word 0)] ∧
    (empty 0 none true).filled twoBranches = [0] ∧
    ((empty 0 none true).edit twoBranches).labels.unresolved = 1 := by
  have hsize : ((empty 0 none true).edit twoBranches).emitter.code.size < 2 ^ 32 := by
    decide +kernel
  obtain ⟨-, hemitter, hsettles, -⟩ := backpatching 0 none true twoBranches hsize
  have hfilled : (empty 0 none true).filled twoBranches = [0] := by decide +kernel
  have hlabels : ((empty 0 none true).edit twoBranches).labels.size = 2 := by decide +kernel
  have hcount := hsettles.unresolved
  rw [hfilled, hlabels] at hcount
  exact ⟨hsize, hemitter (by decide +kernel), hfilled, Nat.succ.inj hcount⟩

/-- Steps that break no assertion stop at a call with the greatest argument count of a signed
word. -/
theorem backpatching_stops :
    ¬∀ xs : List Edit, (∀ x ∈ xs, x.misused = false) →
      ((empty 0 none false).edit xs).emitter.code.size < 2 ^ 32 →
      ((empty 0 none false).edit xs).emitter.stopped = false := by
  intro goes
  have hgoes := goes [.reserve .branch, .emit .call (.int 0x7FFFFFFF), .resolveHere 0] (by decide)
    (by decide +kernel)
  exact absurd hgoes (by decide +kernel)

end Draft

end ScriptToolchain
