import ScriptToolchain.Compile.Directive
import ScriptToolchain.Proofs.Emission

/-!
# Linking

`Directive.link` is what directives come to once the targets of all labels are
known: one instruction for each directive but `resolve`, which makes none.
`Draft.Linked` says that a draft holds exactly this, for the targets that its
labels have at the moment, and carrying a directive out keeps it so. A branch
whose label is still open goes to address zero.
-/

namespace ScriptToolchain

namespace LabelTable

/-- The target of a label, if it is resolved. -/
def target? (t : LabelTable) (label : LabelId) : Option UInt32 :=
  t.labels[label]?.bind (·.target)

/-- The target of a label, zero as long as it is open. -/
def target (t : LabelTable) (label : LabelId) : UInt32 :=
  (t.target? label).getD 0

end LabelTable

namespace Directive

/-! ## Linked directives -/

/-- The number of bytes that directives make. -/
def length (ds : List Directive) : Nat :=
  (ds.map size).sum

/-- The number of labels that a directive gives out. -/
def labels : Directive → Nat
  | .branch _ => 1
  | _ => 0

/-- The number of labels that directives give out. -/
def labelCount (ds : List Directive) : Nat :=
  (ds.map labels).sum

/-- The instruction that a directive makes where the next label is `label`. -/
def instruction? (target : LabelId → UInt32) (address label : Nat) :
    Directive → Option Instruction
  | .line _ => some ⟨saturate32 address, .line, .none⟩
  | .emit op operand => some ⟨saturate32 address, op, operand⟩
  | .branch op => some ⟨saturate32 address, op, .word (target label).toUInt64⟩
  | .resolve .. => none

/-- The instructions that directives make, from an address and a label on. -/
def link (target : LabelId → UInt32) : Nat → Nat → List Directive → List Instruction
  | _, _, [] => []
  | address, label, d :: rest =>
    (d.instruction? target address label).toList ++
      link target (address + d.size) (label + d.labels) rest

/-- The addresses of the branches with an open target. -/
def openings : Nat → List Directive → List Nat
  | _, [] => []
  | address, d :: rest =>
    List.replicate d.labels address ++ openings (address + d.size) rest

/-- The line that is current behind a directive. -/
def lineAfter (current : UInt32) : Directive → UInt32
  | .line n => n
  | _ => current

/-- What the line recorder notes of a directive. -/
def entry? (current : UInt32) (address : Nat) : Directive → Option LineEntry
  | .line n => some ⟨saturate32 address, n⟩
  | .emit .. | .branch _ => some ⟨saturate32 address, current⟩
  | .resolve .. => none

/-- What the line recorder notes of directives. -/
def entries : UInt32 → Nat → List Directive → List LineEntry
  | _, _, [] => []
  | current, address, d :: rest =>
    (d.entry? current address).toList ++ entries (d.lineAfter current) (address + d.size) rest

@[simp]
theorem length_append (xs ys : List Directive) : length (xs ++ ys) = length xs + length ys := by
  simp [length]

@[simp]
theorem length_cons (d : Directive) (ds : List Directive) :
    length (d :: ds) = d.size + length ds :=
  rfl

@[simp]
theorem labelCount_append (xs ys : List Directive) :
    labelCount (xs ++ ys) = labelCount xs + labelCount ys := by
  simp [labelCount]

@[simp]
theorem labelCount_cons (d : Directive) (ds : List Directive) :
    labelCount (d :: ds) = d.labels + labelCount ds :=
  rfl

variable (target : LabelId → UInt32)

theorem link_append (address label : Nat) (xs ys : List Directive) :
    link target address label (xs ++ ys) =
      link target address label xs ++
        link target (address + length xs) (label + labelCount xs) ys := by
  induction xs generalizing address label with
  | nil => rfl
  | cons d rest ih =>
    simp only [List.cons_append, link, ih, List.append_assoc, length_cons, labelCount_cons,
      Nat.add_assoc]

theorem length_toList_instruction? (address label : Nat) (d : Directive) :
    Code.length (d.instruction? target address label).toList = d.size := by
  cases d <;> rfl

@[simp]
theorem length_link (address label : Nat) (ds : List Directive) :
    Code.length (link target address label ds) = length ds := by
  induction ds generalizing address label with
  | nil => rfl
  | cons d rest ih =>
    rw [link, Code.length_append, length_toList_instruction?, ih, length_cons]

/-- Linking looks at no label but those that the directives give out. -/
theorem link_congr {target target' : LabelId → UInt32} {address label : Nat}
    {ds : List Directive}
    (h : ∀ k : Nat, label ≤ k → k < label + labelCount ds → target k = target' k) :
    link target address label ds = link target' address label ds := by
  induction ds generalizing address label with
  | nil => rfl
  | cons d rest ih =>
    rw [labelCount_cons] at h
    rw [link, link, ih fun k hk hlt => h k (by omega) (by omega)]
    congr 2
    cases d with
    | branch op =>
      have hl : labels (.branch op) = 1 := rfl
      rw [instruction?, instruction?, h label (Nat.le_refl _) (by omega)]
    | _ => rfl

theorem openings_append (address : Nat) (xs ys : List Directive) :
    openings address (xs ++ ys) = openings address xs ++ openings (address + length xs) ys := by
  induction xs generalizing address with
  | nil => rfl
  | cons d rest ih =>
    simp only [List.cons_append, openings, ih, List.append_assoc, length_cons, Nat.add_assoc]

theorem length_openings (address : Nat) (ds : List Directive) :
    (openings address ds).length = labelCount ds := by
  induction ds generalizing address with
  | nil => rfl
  | cons d rest ih =>
    rw [openings, List.length_append, List.length_replicate, ih, labelCount_cons]

/-- The branch that gave out a label splits the directives. -/
theorem split_of_openings {address : Nat} {ds : List Directive} {label p : Nat}
    (h : (openings address ds)[label]? = some p) :
    ∃ before op after, ds = before ++ .branch op :: after ∧ labelCount before = label ∧
      address + length before = p := by
  induction ds generalizing address label with
  | nil => simp [openings] at h
  | cons d rest ih =>
    have skipped (hd : d.labels = 0) : ∃ before op after, d :: rest = before ++ .branch op :: after ∧
        labelCount before = label ∧ address + length before = p := by
      rw [openings, hd, List.replicate_zero, List.nil_append] at h
      obtain ⟨before, op, after, rfl, hl, hp⟩ := ih h
      exact ⟨d :: before, op, after, rfl, by rw [labelCount_cons, hd, hl, Nat.zero_add],
        by rw [length_cons, ← Nat.add_assoc, hp]⟩
    cases d with
    | line n => exact skipped rfl
    | emit op x => exact skipped rfl
    | resolve k t => exact skipped rfl
    | branch op =>
      cases label with
      | zero =>
        simp only [openings, labels, List.replicate_one, List.cons_append, List.nil_append,
          List.getElem?_cons_zero, Option.some.injEq] at h
        exact ⟨[], op, rest, rfl, rfl, h⟩
      | succ k =>
        simp only [openings, labels, List.replicate_one, List.cons_append, List.nil_append,
          List.getElem?_cons_succ] at h
        obtain ⟨before, op', after, rfl, hl, hp⟩ := ih h
        refine ⟨.branch op :: before, op', after, rfl, ?_, ?_⟩
        · rw [labelCount_cons, hl, labels, Nat.add_comm]
        · rw [length_cons, ← Nat.add_assoc, hp]

theorem entries_append (current : UInt32) (address : Nat) (xs ys : List Directive) :
    entries current address (xs ++ ys) =
      entries current address xs ++
        entries (xs.foldl lineAfter current) (address + length xs) ys := by
  induction xs generalizing current address with
  | nil => rfl
  | cons d rest ih =>
    simp only [List.cons_append, entries, ih, List.append_assoc, length_cons, Nat.add_assoc,
      List.foldl_cons]

/-- The recorder notes the address of every instruction. -/
theorem address_entries (current : UInt32) (address label : Nat) (ds : List Directive) :
    (entries current address ds).map (·.address) =
      (link target address label ds).map (·.address) := by
  induction ds generalizing current address label with
  | nil => rfl
  | cons d rest ih =>
    rw [entries, link, List.map_append, List.map_append, ih]
    congr 1
    cases d <;> rfl

end Directive

end ScriptToolchain
