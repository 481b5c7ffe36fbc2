import ScriptToolchain.Proofs.Linking

/-!
# Assembling a draft

Carrying directives out on an empty draft gives exactly the linked directives,
as long as the code stays below the largest address; a draft never loses a
byte, so a bound on the finished code bounds every step. A `resolve` succeeds
when its label is open, and a draft finishes when none is.
-/

namespace ScriptToolchain

namespace LineRecorder

theorem enabled_record (r : LineRecorder) (address : UInt32) :
    (r.record address).enabled = r.enabled := by
  rw [record]
  split <;> rfl

theorem line_record (r : LineRecorder) (address : UInt32) :
    (r.record address).line = r.line := by
  rw [record]
  split <;> rfl

end LineRecorder

namespace LabelTable

/-- The label was given out and has no target yet. -/
def IsOpen (t : LabelTable) (label : LabelId) : Prop :=
  ∃ operandAt, t.labels[label]? = some { operandAt, target := none }

variable {t : LabelTable} {e : Emitter}

theorem target?_of_isOpen {label : LabelId} (h : t.IsOpen label) : t.target? label = none := by
  obtain ⟨a, ha⟩ := h
  rw [target?, ha]
  rfl

theorem reserve_labels (t : LabelTable) (e : Emitter) (op : Opcode) :
    (t.reserve e op).1.labels = t.labels.push { operandAt := (e.emitOpen op 0).1 } := by
  simp only [reserve, Emitter.emitOpen_fst, Emitter.buffer_require]

theorem target?_reserve (t : LabelTable) (e : Emitter) (op : Opcode) (label : Nat) :
    (t.reserve e op).1.target? label = t.target? label := by
  rw [target?, target?, reserve_labels, Array.getElem?_push]
  split
  case isTrue h => rw [h, Array.getElem?_size]; rfl
  case isFalse => rfl

theorem isOpen_reserve (t : LabelTable) (e : Emitter) (op : Opcode) (label : Nat) :
    (t.reserve e op).1.IsOpen label ↔ t.IsOpen label ∨ label = t.size := by
  simp only [IsOpen, reserve_labels, Array.getElem?_push, size]
  split
  case isTrue h => exact ⟨fun _ => .inr h, fun _ => ⟨_, rfl⟩⟩
  case isFalse h => simp [h]

/-- What a successful resolution does. -/
theorem resolve_ok {label : LabelId} {at' target : UInt32}
    (h : t.labels[label]? = some { operandAt := at', target := none }) :
    t.resolve e label target =
      .ok ({ labels := t.labels.setIfInBounds label { operandAt := at', target := some target } },
        e.patch at' target.toUInt64) := by
  rw [resolve, h]

/-- A resolution succeeds on open labels only. -/
theorem resolve_isOpen {label : LabelId} {target : UInt32} {r : LabelTable × Emitter}
    (h : t.resolve e label target = .ok r) : t.IsOpen label := by
  rw [resolve] at h
  split at h
  · cases h
  · cases h
  · rename_i operandAt hl
    exact ⟨operandAt, hl⟩

theorem unresolved_eq_zero (h : ∀ label, ¬t.IsOpen label) : t.unresolved = 0 := by
  rw [unresolved, Array.countP_eq_zero]
  intro l hl hnone
  obtain ⟨k, hk, rfl⟩ := Array.getElem_of_mem hl
  refine h k ⟨t.labels[k].operandAt, ?_⟩
  rw [Array.getElem?_eq_getElem hk, ← Option.isNone_iff_eq_none.mp hnone]

end LabelTable

namespace Draft

/-! ## What one directive does to the labels -/

/-- Directives that are carried out on `d` end at `d'`. -/
def Takes (d : Draft) (ds : List Directive) (d' : Draft) : Prop :=
  Directive.applyAll ds d = .ok () d'

theorem takes_nil {d d' : Draft} : d.Takes [] d' ↔ d' = d := by
  constructor
  · intro h
    cases h
    rfl
  · rintro rfl
    rfl

theorem takes_cons {d d' : Draft} {x : Directive} {ds : List Directive} :
    d.Takes (x :: ds) d' ↔ ∃ m, x.apply d = .ok () m ∧ m.Takes ds d' := by
  simp only [Takes, Directive.applyAll, bind, EStateM.bind]
  constructor
  · intro h
    split at h
    · exact ⟨_, by assumption, h⟩
    · cases h
  · rintro ⟨m, hx, hm⟩
    rw [hx]
    exact hm

theorem takes_append {d d' : Draft} {xs ys : List Directive} :
    d.Takes (xs ++ ys) d' ↔ ∃ m, d.Takes xs m ∧ m.Takes ys d' := by
  induction xs generalizing d with
  | nil => simp [takes_nil]
  | cons x rest ih =>
    simp only [List.cons_append, takes_cons, ih]
    exact ⟨fun ⟨a, ha, b, hb, hc⟩ => ⟨b, ⟨a, ha, hb⟩, hc⟩,
      fun ⟨b, ⟨a, ha, hb⟩, hc⟩ => ⟨a, ha, b, hb, hc⟩⟩

/-- The draft in which a label whose operand stands at `operandAt` has got its target. -/
def closed (d : Draft) (label : Nat) (operandAt target : UInt32) : Draft :=
  { d with
    labels :=
      { labels := d.labels.labels.setIfInBounds label { operandAt, target := some target } }
    emitter := d.emitter.patch operandAt target.toUInt64 }

/-- Resolving an open label closes it. -/
theorem apply_resolve {d : Draft} {label : Nat} {operandAt : UInt32}
    (h : d.labels.labels[label]? = some { operandAt, target := none }) (target : UInt32) :
    (Directive.resolve label target).apply d = .ok () (d.closed label operandAt target) := by
  simp only [Directive.apply, Draft.resolve, LabelTable.resolve_ok h, closed]

/-- A resolution that is carried out found its label open. -/
theorem apply_resolve_inv {d d' : Draft} {label : Nat} {target : UInt32}
    (h : (Directive.resolve label target).apply d = .ok () d') :
    ∃ operandAt, d.labels.labels[label]? = some { operandAt, target := none } ∧
      d' = d.closed label operandAt target := by
  have hopen : d.labels.IsOpen label := by
    simp only [Directive.apply, Draft.resolve] at h
    split at h
    case h_1 hr => exact LabelTable.resolve_isOpen hr
    case h_2 => cases h
  obtain ⟨a, ha⟩ := hopen
  rw [apply_resolve ha] at h
  cases h
  exact ⟨a, ha, rfl⟩

theorem isOpen_closed (d : Draft) (label : Nat) (operandAt target : UInt32) (k : Nat) :
    (d.closed label operandAt target).labels.IsOpen k ↔ d.labels.IsOpen k ∧ k ≠ label := by
  simp only [LabelTable.IsOpen, closed, Array.getElem?_setIfInBounds]
  split
  case isTrue hk =>
    subst hk
    split <;> simp
  case isFalse hk => simp [Ne.symm hk]

/-! ## What a draft holds -/

/-- The draft holds these directives, linked with the targets that its labels have by now. -/
structure Linked (d : Draft) (done : List Directive) : Prop where
  emitter : d.emitter.Holds (Directive.link d.labels.target 0 0 done)
  /-- The operand of a branch stands behind its tag. -/
  operands : d.labels.labels.toList.map (·.operandAt) =
    (Directive.openings 0 done).map fun p => saturate32 (p + 4)
  resolved : ∀ label target, .resolve label target ∈ done → d.labels.target? label = some target
  line : d.emitter.recorder.line = done.foldl Directive.lineAfter 0
  entries : d.emitter.recorder.entries.toList =
    if d.emitter.recorder.enabled then Directive.entries 0 0 done else []

variable {d d' : Draft} {done : List Directive}

theorem linked_empty (id : UInt64) (name : Option String) (names : VariableTable) (debug : Bool) :
    Linked { empty id name debug with names } [] where
  emitter := Emitter.holds_nil _
  operands := rfl
  resolved _ _ h := by cases h
  line := rfl
  entries := by
    simp only [Directive.entries, ite_self]
    rfl

theorem Linked.size_labels (h : d.Linked done) : d.labels.size = Directive.labelCount done := by
  have hlen := congrArg List.length h.operands
  rw [List.length_map, List.length_map, Directive.length_openings, Array.length_toList] at hlen
  exact hlen

theorem Linked.here (h : d.Linked done) : d.emitter.here = saturate32 (Directive.length done) := by
  rw [h.emitter.here, Directive.length_link]

theorem link_snoc (target : LabelId → UInt32) (done : List Directive) (x : Directive) :
    Directive.link target 0 0 (done ++ [x]) =
      Directive.link target 0 0 done ++
        (x.instruction? target (Directive.length done) (Directive.labelCount done)).toList := by
  rw [Directive.link_append, Nat.zero_add, Nat.zero_add, Directive.link, Directive.link,
    List.append_nil]

theorem entries_snoc (done : List Directive) (x : Directive) :
    Directive.entries 0 0 (done ++ [x]) =
      Directive.entries 0 0 done ++
        (x.entry? (done.foldl Directive.lineAfter 0) (Directive.length done)).toList := by
  rw [Directive.entries_append, Nat.zero_add, Directive.entries, Directive.entries,
    List.append_nil]

theorem openings_snoc (done : List Directive) (x : Directive) :
    Directive.openings 0 (done ++ [x]) =
      Directive.openings 0 done ++ List.replicate x.labels (Directive.length done) := by
  rw [Directive.openings_append, Nat.zero_add, Directive.openings, Directive.openings,
    List.append_nil]

/-- What the recorder notes at the end of a linked draft. -/
theorem Linked.record (h : d.Linked done) (line : UInt32) (x : Directive)
    (hx : x.entry? (done.foldl Directive.lineAfter 0) (Directive.length done) =
      some ⟨saturate32 (Directive.length done), line⟩) :
    ({ d.emitter.recorder with line }.record d.emitter.here).entries.toList =
      if d.emitter.recorder.enabled then Directive.entries 0 0 (done ++ [x]) else [] := by
  have he := h.entries
  rw [h.here, entries_snoc, hx]
  cases hon : d.emitter.recorder.enabled with
  | true =>
    rw [hon, if_pos rfl] at he
    simp only [LineRecorder.record, hon, if_true, Array.toList_push, he, Option.toList]
  | false =>
    rw [hon, if_neg Bool.false_ne_true] at he
    simp only [LineRecorder.record, hon, Bool.false_eq_true, if_false, he]

/-- Emitting an instruction keeps a draft linked. -/
theorem Linked.emit (h : d.Linked done) (op : Opcode) (x : Operand) :
    (d.emit op x).Linked (done ++ [.emit op x]) where
  emitter := by
    rw [link_snoc]
    exact h.emitter.emit _ op x
  operands := by
    rw [openings_snoc, Directive.labels, List.replicate_zero, List.append_nil]
    · exact h.operands
    · rintro _ ⟨⟩
  resolved label target hm := h.resolved label target (by simpa using hm)
  line := by
    rw [Draft.emit, Emitter.recorder_emit, LineRecorder.line_record, List.foldl_append, h.line]
    rfl
  entries := by
    rw [Draft.emit, Emitter.recorder_emit, LineRecorder.enabled_record]
    exact h.record d.emitter.recorder.line (.emit op x) (by rw [h.line]; rfl)

theorem emitter_markLine (d : Draft) (n : UInt32) :
    (d.markLine n).emitter = (d.emitter.setLine n).emit .line .none :=
  rfl

theorem labels_markLine (d : Draft) (n : UInt32) : (d.markLine n).labels = d.labels := by
  rw [Draft.markLine]

/-- Marking a line keeps a draft linked. -/
theorem Linked.markLine (h : d.Linked done) (n : UInt32) :
    (d.markLine n).Linked (done ++ [.line n]) := by
  have hrecorder : (d.markLine n).emitter.recorder =
      { d.emitter.recorder with line := n }.record d.emitter.here := by
    rw [emitter_markLine, Emitter.recorder_emit]
    rfl
  constructor
  · rw [link_snoc, emitter_markLine, labels_markLine]
    exact (h.emitter.setLine n).emit _ .line .none
  · rw [labels_markLine, openings_snoc, Directive.labels, List.replicate_zero, List.append_nil]
    · exact h.operands
    · rintro _ ⟨⟩
  · intro label target hm
    rw [labels_markLine]
    exact h.resolved label target (by simpa using hm)
  · rw [hrecorder, LineRecorder.line_record, List.foldl_append]
    rfl
  · rw [hrecorder, LineRecorder.enabled_record]
    exact h.record n (.line n) rfl

theorem emitter_reserve (d : Draft) (op : Opcode) :
    (d.reserve op).emitter = ((d.emitter.require op.isBranch).emitOpen op 0).2 := by
  simp only [Draft.reserve, LabelTable.reserve]

theorem recorder_reserve (d : Draft) (op : Opcode) :
    (d.reserve op).emitter.recorder = d.emitter.recorder.record d.emitter.here := by
  rw [emitter_reserve, Emitter.recorder_emitOpen, Emitter.recorder_require, Emitter.here_require]

theorem labels_reserve (d : Draft) (op : Opcode) :
    (d.reserve op).labels = (d.labels.reserve d.emitter op).1 := by
  simp only [Draft.reserve]

/-- A branch with an open target keeps a draft linked. -/
theorem Linked.reserve (h : d.Linked done) (op : Opcode) :
    (d.reserve op).Linked (done ++ [.branch op]) := by
  have htarget : (d.reserve op).labels.target = d.labels.target := by
    funext k
    rw [LabelTable.target, LabelTable.target, labels_reserve, LabelTable.target?_reserve]
  have hnext : d.labels.target (Directive.labelCount done) = 0 := by
    rw [← h.size_labels, LabelTable.target, LabelTable.target?, LabelTable.size,
      Array.getElem?_size]
    rfl
  constructor
  · rw [htarget, link_snoc, Directive.instruction?, hnext, emitter_reserve]
    exact (h.emitter.require op.isBranch).emitOpen _ op
  · rw [openings_snoc, labels_reserve, LabelTable.reserve_labels, Array.toList_push,
      List.map_append, List.map_append, h.operands, Directive.labels, List.replicate_one,
      List.map_singleton, List.map_singleton, Emitter.emitOpen_fst, h.emitter.cursor,
      Directive.length_link]
  · intro label target hm
    rw [labels_reserve, LabelTable.target?_reserve]
    exact h.resolved label target (by simpa using hm)
  · rw [recorder_reserve, LineRecorder.line_record, List.foldl_append, h.line]
    rfl
  · rw [recorder_reserve, LineRecorder.enabled_record]
    exact h.record d.emitter.recorder.line (.branch op) (by rw [h.line]; rfl)

theorem target?_closed {label : Nat} {operandAt : UInt32}
    (h : d.labels.labels[label]? = some { operandAt, target := none }) (target : UInt32)
    (k : Nat) :
    (d.closed label operandAt target).labels.target? k =
      if k = label then some target else d.labels.target? k := by
  have hlt : label < d.labels.labels.size := by
    by_contra hge
    rw [Array.getElem?_eq_none (by omega)] at h
    cases h
  rw [LabelTable.target?, closed, Array.getElem?_setIfInBounds]
  split
  case isTrue hk => rw [if_pos hk.symm]; rfl
  case isFalse hk => rw [if_neg (Ne.symm hk)]; rfl

/-- The branch of an open label, split off from the linked code. -/
theorem Linked.split (h : d.Linked done) {label : Nat} {operandAt : UInt32}
    (ha : d.labels.labels[label]? = some { operandAt, target := none }) :
    ∃ before op after, done = before ++ .branch op :: after ∧
      Directive.labelCount before = label ∧
        operandAt = saturate32 (Directive.length before + 4) := by
  have hat := congrArg (·[label]?) h.operands
  simp only [List.getElem?_map, Array.getElem?_toList, ha, Option.map_some] at hat
  obtain ⟨p, hp, hsat⟩ := Option.map_eq_some_iff.mp hat.symm
  obtain ⟨before, op, after, hdone, hlabel, hlen⟩ := Directive.split_of_openings hp
  rw [Nat.zero_add] at hlen
  exact ⟨before, op, after, hdone, hlabel, by rw [← hsat, hlen]⟩

/-- Linking around one branch. -/
theorem link_split (target : LabelId → UInt32) (before after : List Directive) (op : Opcode) :
    Directive.link target 0 0 (before ++ .branch op :: after) =
      Directive.link target 0 0 before ++
        ⟨saturate32 (Directive.length before), op,
          .word (target (Directive.labelCount before)).toUInt64⟩ ::
        Directive.link target (Directive.length before + 12) (Directive.labelCount before + 1)
          after := by
  rw [Directive.link_append, Nat.zero_add, Nat.zero_add, Directive.link, Directive.instruction?,
    Option.toList_some, List.singleton_append]
  rfl

/-- Resolving a label keeps a draft linked, if all addresses can be told apart. -/
theorem Linked.closed (h : d.Linked done) {label : Nat} {operandAt : UInt32}
    (ha : d.labels.labels[label]? = some { operandAt, target := none }) (target : UInt32)
    (hlt : d.emitter.buffer.data.size < 2 ^ 32) :
    (d.closed label operandAt target).Linked (done ++ [.resolve label target]) := by
  have htarget := target?_closed ha target
  have hopen : d.labels.target? label = none := LabelTable.target?_of_isOpen ⟨_, ha⟩
  have hother : ∀ k : Nat, k ≠ label →
      d.labels.target k = (d.closed label operandAt target).labels.target k := by
    intro k hk
    rw [LabelTable.target, LabelTable.target, htarget, if_neg hk]
  have hself : (d.closed label operandAt target).labels.target label = target := by
    rw [LabelTable.target, htarget, if_pos rfl]
    rfl
  constructor
  · obtain ⟨before, op, after, rfl, hlabel, hat⟩ := h.split ha
    have hold := h.emitter
    rw [link_split, hlabel] at hold
    have hnew := hold.patch target.toUInt64 hlt
    rw [Directive.length_link, ← hat] at hnew
    rw [link_snoc, Directive.instruction?, Option.toList_none, List.append_nil, link_split, hlabel,
      hself]
    have hbehind (start : Nat) (ds : List Directive) :
        Directive.link (d.closed label operandAt target).labels.target start (label + 1) ds =
          Directive.link d.labels.target start (label + 1) ds :=
      Directive.link_congr fun k hk _ => (hother k (by omega)).symm
    rw [Directive.link_congr fun k _ hk => (hother k (by omega)).symm, hbehind]
    exact hnew
  · rw [openings_snoc, Directive.labels, List.replicate_zero, List.append_nil, ← h.operands]
    · apply List.ext_getElem?
      intro k
      rw [Draft.closed, Array.toList_setIfInBounds, List.map_set, List.getElem?_set]
      split
      case isTrue hk =>
        have hat : (d.labels.labels.toList.map (·.operandAt))[k]? = some operandAt := by
          rw [← hk, List.getElem?_map, Array.getElem?_toList, ha]
          rfl
        obtain ⟨hlen, -⟩ := List.getElem?_eq_some_iff.mp hat
        rw [hk, if_pos hlen, hat]
      case isFalse => rfl
    · rintro _ ⟨⟩
  · intro k t hm
    rw [htarget]
    rcases List.mem_append.mp hm with hm | hm
    · have hk := h.resolved k t hm
      have hne : k ≠ label := by
        rintro rfl
        rw [hopen] at hk
        cases hk
      rw [if_neg hne, hk]
    · cases List.mem_singleton.mp hm
      rw [if_pos rfl]
  · rw [Draft.closed, Emitter.recorder_patch, List.foldl_append, h.line]
    rfl
  · rw [Draft.closed, Emitter.recorder_patch, h.entries, entries_snoc]
    simp [Directive.entry?]

/-! ## Running directives -/

theorem size_le_apply {x : Directive} (h : x.apply d = .ok () d') :
    d.emitter.buffer.data.size ≤ d'.emitter.buffer.data.size := by
  cases x with
  | line n =>
    cases h
    rw [emitter_markLine]
    exact Emitter.size_le_emit (d.emitter.setLine n) .line .none
  | emit op x =>
    cases h
    exact Emitter.size_le_emit d.emitter op x
  | branch op =>
    cases h
    rw [emitter_reserve]
    exact Emitter.size_le_emitOpen (d.emitter.require op.isBranch) op 0
  | resolve label target =>
    obtain ⟨a, -, rfl⟩ := apply_resolve_inv h
    exact Emitter.size_le_patch d.emitter a target.toUInt64

/-- A draft loses no byte. -/
theorem Takes.size_le {ds : List Directive} (h : d.Takes ds d') :
    d.emitter.buffer.data.size ≤ d'.emitter.buffer.data.size := by
  induction ds generalizing d with
  | nil =>
    rw [takes_nil.mp h]
  | cons x rest ih =>
    obtain ⟨m, hx, hm⟩ := takes_cons.mp h
    exact Nat.le_trans (size_le_apply hx) (ih hm)

/-- What a directive leaves alone: the id, the name, the names and whether lines are recorded. -/
def head (d : Draft) : UInt64 × Option String × VariableTable × Bool :=
  (d.id, d.name, d.names, d.emitter.recorder.enabled)

theorem head_apply {x : Directive} (h : x.apply d = .ok () d') : d'.head = d.head := by
  cases x with
  | line n =>
    cases h
    rw [head, emitter_markLine, Emitter.recorder_emit, LineRecorder.enabled_record]
    simp only [Draft.markLine, Emitter.setLine, head]
  | emit op x =>
    cases h
    simp only [head, Draft.emit, Emitter.recorder_emit, LineRecorder.enabled_record]
  | branch op =>
    cases h
    rw [head, recorder_reserve, LineRecorder.enabled_record]
    simp only [Draft.reserve, head]
  | resolve label target =>
    obtain ⟨a, -, rfl⟩ := apply_resolve_inv h
    rw [head, Draft.closed, Emitter.recorder_patch, head]

theorem Takes.head_eq {ds : List Directive} (h : d.Takes ds d') : d'.head = d.head := by
  induction ds generalizing d with
  | nil => rw [takes_nil.mp h]
  | cons x rest ih =>
    obtain ⟨m, hx, hm⟩ := takes_cons.mp h
    rw [ih hm, head_apply hx]

/-- A directive keeps a draft linked. -/
theorem Linked.apply (h : d.Linked done) {x : Directive} (hx : x.apply d = .ok () d')
    (hlt : d'.emitter.buffer.data.size < 2 ^ 32) : d'.Linked (done ++ [x]) := by
  have hle := size_le_apply hx
  cases x with
  | line n =>
    cases hx
    exact h.markLine n
  | emit op x =>
    cases hx
    exact h.emit op x
  | branch op =>
    cases hx
    exact h.reserve op
  | resolve label target =>
    obtain ⟨a, ha, rfl⟩ := apply_resolve_inv hx
    exact h.closed ha target (Nat.lt_of_le_of_lt hle hlt)

/-- A run of directives ends in a linked draft. -/
theorem Linked.takes (h : d.Linked done) {ds : List Directive} (hds : d.Takes ds d')
    (hlt : d'.emitter.buffer.data.size < 2 ^ 32) : d'.Linked (done ++ ds) := by
  induction ds generalizing d done with
  | nil => rwa [takes_nil.mp hds, List.append_nil]
  | cons x rest ih =>
    obtain ⟨m, hx, hm⟩ := takes_cons.mp hds
    have hstep := h.apply hx (Nat.lt_of_le_of_lt hm.size_le hlt)
    rw [← List.singleton_append, ← List.append_assoc]
    exact ih hstep hm

end Draft

end ScriptToolchain
