import Mathlib.Tactic
import ScriptToolchain.Code.Instruction
import ScriptToolchain.Code.Stack

/-!
# Effects on the depth of the stack

`Opcode.change` is what an operation does to the depth of the stack, with the
argument count of a call taken as it is; its effect saturates at large counts.
The depth is counted in signed words, and two results may leave the word: the
argument count of a call, which is raised by one before it is negated, and the
depth itself. The first does so for one count only (`Opcode.IsWide`).
Operations overflow from a depth on when there is such a call among them, or
when the depth behind some of them is no signed word (`Code.Overflows`).
-/

namespace ScriptToolchain

namespace Opcode

/-- A call with the greatest argument count that a signed word holds. -/
def IsWide (op : Opcode) (count : UInt32) : Prop :=
  op = .call ∧ count.toNat = maxArguments

instance (op : Opcode) (count : UInt32) : Decidable (op.IsWide count) :=
  inferInstanceAs (Decidable (_ ∧ _))

variable {op : Opcode} {count : UInt32}

/-- The change of the stack depth, whatever the argument count. -/
def change (op : Opcode) (x : Operand) : Int :=
  match op with
  | .call => -(x.count.toNat + 1)
  | op => op.delta

theorem change_word (op : Opcode) (v : UInt64) : op.change (.word v) = op.delta := by
  cases op <;> rfl

theorem change_le (op : Opcode) (x : Operand) : op.change x ≤ 2 := by
  cases op <;> simp only [change, delta, spec] <;> omega

theorem effect_zero (op : Opcode) : op.effect 0 = op.delta := by
  cases op <;> rfl

theorem effect_call (count : UInt32) : effect .call count = -(argumentCount count + 1) :=
  rfl

theorem argumentCount_le (count : UInt32) : argumentCount count ≤ maxArguments := by
  rw [argumentCount]
  split
  · assumption
  · exact Nat.sub_le _ _

/-- The effect of a call that saturates is a signed word, as are all other effects. -/
theorem effect_bounds (op : Opcode) (count : UInt32) :
    -2 ^ 31 ≤ op.effect count ∧ op.effect count ≤ 2 := by
  cases op with
  | call =>
    have hle := argumentCount_le count
    rw [maxArguments] at hle
    rw [effect_call]
    omega
  | _ => simp only [effect, delta, spec]; omega

theorem effect_eq_change {x : Operand} (h : op = .call → x.count.toNat ≤ maxArguments) :
    op.effect x.count = op.change x := by
  cases op with
  | call =>
    rw [effect_call, argumentCount, if_pos (h rfl), change]
  | _ => rfl

theorem IsWide.effect_eq (h : op.IsWide count) : op.effect count = -2 ^ 31 := by
  obtain ⟨rfl, hcount⟩ := h
  rw [effect_call, argumentCount, hcount, if_pos (Nat.le_refl _), maxArguments]
  rfl

theorem IsWide.effect?_eq (h : op.IsWide count) : op.effect? count = none := by
  obtain ⟨rfl, hcount⟩ := h
  rw [effect?, argumentCount, hcount, if_pos (Nat.le_refl _)]
  rfl

/-- Every effect but that of a wide call is computed in words. -/
theorem effect?_of_not (h : ¬op.IsWide count) : op.effect? count = some (op.effect count) := by
  cases op with
  | call =>
    have hcount : count.toNat ≠ maxArguments := fun hcount => h ⟨rfl, hcount⟩
    have hargs : argumentCount count + 1 < 2 ^ 31 := by
      have hmax : maxArguments = 0x7FFFFFFF := rfl
      rw [argumentCount]
      split <;> omega
    have htaken : Word.signed? (argumentCount count + 1) = some (argumentCount count + 1 : Int) :=
      Word.signed?_of_signed ⟨by omega, by omega⟩
    rw [effect?, htaken, effect_call, Option.bind_eq_bind, Option.bind_some]
    exact Word.signed?_of_signed ⟨by omega, by omega⟩
  | _ => rfl

end Opcode

/-- The change of the stack depth in one execution. -/
def Instruction.change (i : Instruction) : Int :=
  i.opcode.change i.operand

namespace StackReport

variable {r r' : StackReport} {op : Opcode} {count : UInt32}

theorem finalDepth_add (r : StackReport) (change : Int) :
    (r.add change).finalDepth = r.finalDepth + change :=
  rfl

theorem maxDepth_add (r : StackReport) (change : Int) :
    (r.add change).maxDepth = max r.maxDepth (r.finalDepth + change) :=
  rfl

/-- Setting the depth that there is changes nothing. -/
theorem set_eq_self {depth : Int} (hdepth : r.finalDepth = depth)
    (hmax : r.finalDepth ≤ r.maxDepth) : r.set depth = r := by
  subst hdepth
  rw [set, max_eq_left hmax]

/-- Behind a call, the depth from before it and one more is what the call comes to, whether or not
its effect saturates. -/
theorem set_call {before : Int} (hdepth : r.finalDepth = before + (count.toNat + 2))
    (hmax : r.finalDepth ≤ r.maxDepth) :
    (r.add (Opcode.effect .call count)).set (before + 1) = r.add (-(count.toNat + 1)) := by
  have hfinal : before + 1 = r.finalDepth + -(count.toNat + 1) := by omega
  have heffect : r.finalDepth + Opcode.effect .call count ≤ r.maxDepth := by
    rw [Opcode.effect_call]
    omega
  rw [hfinal, add, add, set, set, set, max_eq_left heffect]

/-- A step in words is the step on whole numbers, where it is one. -/
theorem step?_eq_some_iff : r.step? op count = some r' ↔
    ¬op.IsWide count ∧ Word.Signed (r.finalDepth + op.effect count) ∧
      r' = r.add (op.effect count) := by
  rw [step?]
  by_cases hwide : op.IsWide count
  · rw [hwide.effect?_eq]
    simp [hwide]
  · rw [Opcode.effect?_of_not hwide, and_iff_right hwide]
    by_cases hin : Word.Signed (r.finalDepth + op.effect count)
    · simp [Word.signed?_of_signed hin, hin, add, eq_comm]
    · simp [Word.signed?_of_not hin, hin]

/-- From a depth that is not too great, a step that does not underflow is computed in words. -/
theorem step?_of_rise (hdepth : 0 ≤ r.finalDepth + op.effect count)
    (hlow : 2 * r.finalDepth + 4 < 2 ^ 32) :
    r.step? op count = some (r.add (op.effect count)) := by
  have hle := (op.effect_bounds count).2
  refine step?_eq_some_iff.mpr ⟨fun hwide => ?_, ⟨by omega, by omega⟩, rfl⟩
  rw [hwide.effect_eq] at hdepth
  omega

theorem step?_eq_none_iff : r.step? op count = none ↔
    op.IsWide count ∨ ¬Word.Signed (r.finalDepth + op.effect count) := by
  rw [Option.eq_none_iff_forall_ne_some, or_iff_not_and_not, not_not]
  constructor
  · rintro hnone ⟨hwide, hin⟩
    exact hnone _ (step?_eq_some_iff.mpr ⟨hwide, hin, rfl⟩)
  · rintro hnot _ hsome
    obtain ⟨hwide, hin, -⟩ := step?_eq_some_iff.mp hsome
    exact hnot ⟨hwide, hin⟩

end StackReport

namespace Code

/-- What operations do to the depth. -/
def rise (ops : List (Opcode × Operand)) : Int :=
  (ops.map fun op => op.1.effect op.2.count).sum

/-- Operations overflow where the effect of one of them, or a depth behind some of them, is no
signed word; in front of them the depth is `d`. -/
def Overflows (d : Int) (ops : List (Opcode × Operand)) : Prop :=
  (∃ op ∈ ops, op.1.IsWide op.2.count) ∨
    ∃ before, before <+: ops ∧ ¬Word.Signed (d + rise before)

variable {d : Int}

theorem rise_cons (op : Opcode × Operand) (ops : List (Opcode × Operand)) :
    rise (op :: ops) = op.1.effect op.2.count + rise ops := by
  rw [rise, List.map_cons, List.sum_cons, rise]

theorem not_overflows_nil (hd : Word.Signed d) : ¬Overflows d [] := by
  rintro (⟨op, hop, -⟩ | ⟨before, hbefore, hout⟩)
  · cases hop
  · rw [List.prefix_nil.mp hbefore] at hout
    exact hout (by simpa [rise] using hd)

theorem overflows_cons (hd : Word.Signed d) (op : Opcode × Operand)
    (ops : List (Opcode × Operand)) :
    Overflows d (op :: ops) ↔ op.1.IsWide op.2.count ∨
      ¬Word.Signed (d + op.1.effect op.2.count) ∨ Overflows (d + op.1.effect op.2.count) ops := by
  constructor
  · rintro (⟨x, hx, hwide⟩ | ⟨before, hbefore, hout⟩)
    · rcases List.mem_cons.mp hx with rfl | hx
      · exact .inl hwide
      · exact .inr (.inr (.inl ⟨x, hx, hwide⟩))
    · rcases List.prefix_cons_iff.mp hbefore with rfl | ⟨rest, rfl, hrest⟩
      · exact absurd (by simpa [rise] using hd) hout
      · rw [rise_cons, ← Int.add_assoc] at hout
        exact .inr (.inr (.inr ⟨rest, hrest, hout⟩))
  · rintro (hwide | hout | ⟨x, hx, hwide⟩ | ⟨rest, hrest, hout⟩)
    · exact .inl ⟨op, List.mem_cons_self .., hwide⟩
    · exact .inr ⟨[op], ⟨ops, rfl⟩, by simpa [rise] using hout⟩
    · exact .inl ⟨x, List.mem_cons_of_mem _ hx, hwide⟩
    · refine .inr ⟨op :: rest, (List.prefix_cons_inj op).mpr hrest, ?_⟩
      rwa [rise_cons, ← Int.add_assoc]

end Code

end ScriptToolchain
