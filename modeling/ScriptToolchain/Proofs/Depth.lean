import ScriptToolchain.Code.Validation
import ScriptToolchain.Proofs.Layout

/-!
# Depth of the evaluation stack

A block climbs from one depth to another when no prefix of its changes goes
below zero, and it is level when the two ends of each of its branches have the
same depth. The effect that the validator counts saturates at large argument
counts; code below the largest address has no room for as many values, so there
effects are changes and every depth is a signed word (`Code.replay_of_climbs`).
-/

namespace ScriptToolchain

/-- An operation with such immediates that is no branch, mark or call. -/
def Opcode.Plain (op : Opcode) (kind : OperandKind) : Prop :=
  op.operand = kind ∧ op.isBranch = false ∧ op ≠ .line ∧ op ≠ .call

instance (op : Opcode) (kind : OperandKind) : Decidable (op.Plain kind) :=
  inferInstanceAs (Decidable (_ ∧ _))

theorem Opcode.Plain.change_eq {op : Opcode} {kind : OperandKind} (h : op.Plain kind)
    (x : Operand) : op.change x = op.delta := by
  obtain ⟨-, -, -, hcall⟩ := h
  rw [change.eq_2 op x hcall]

/-- Changes lead from one depth to another and never below zero. -/
def Climbs (d : Int) : List Int → Int → Prop
  | [], d' => d' = d
  | e :: rest, d' => 0 ≤ d + e ∧ Climbs (d + e) rest d'

namespace Climbs

theorem single {d d' e : Int} (h : 0 ≤ d + e) (hd : d' = d + e) : Climbs d [e] d' :=
  ⟨h, hd⟩

theorem append {d m d' : Int} {xs ys : List Int} (hx : Climbs d xs m) (hy : Climbs m ys d') :
    Climbs d (xs ++ ys) d' := by
  induction xs generalizing d with
  | nil =>
    obtain rfl := hx
    exact hy
  | cons e rest ih => exact ⟨hx.1, ih hx.2⟩

theorem append_iff {d d' : Int} {xs ys : List Int} :
    Climbs d (xs ++ ys) d' ↔ ∃ m, Climbs d xs m ∧ Climbs m ys d' := by
  constructor
  · intro h
    induction xs generalizing d with
    | nil => exact ⟨d, rfl, h⟩
    | cons e rest ih =>
      obtain ⟨m, hx, hy⟩ := ih h.2
      exact ⟨m, ⟨h.1, hx⟩, hy⟩
  · rintro ⟨m, hx, hy⟩
    exact hx.append hy

/-- What lies below the stack does not matter. -/
theorem above {d d' : Int} {xs : List Int} (h : Climbs d xs d') {k : Int} (hk : 0 ≤ k) :
    Climbs (d + k) xs (d' + k) := by
  induction xs generalizing d with
  | nil =>
    obtain rfl := h
    exact rfl
  | cons e rest ih =>
    refine ⟨?_, ?_⟩
    · have := h.1
      omega
    · rw [Int.add_right_comm]
      exact ih h.2

theorem nonneg {d d' : Int} {xs : List Int} (h : Climbs d xs d') (hd : 0 ≤ d) : 0 ≤ d' := by
  induction xs generalizing d with
  | nil =>
    obtain rfl := h
    exact hd
  | cons e rest ih => exact ih h.2 h.1

theorem eq_add_sum {d d' : Int} {xs : List Int} (h : Climbs d xs d') : d' = d + xs.sum := by
  induction xs generalizing d with
  | nil =>
    obtain rfl := h
    simp
  | cons e rest ih =>
    rw [ih h.2, List.sum_cons, Int.add_assoc]

end Climbs

namespace Code

theorem climb_eq_foldl (r : StackReport) (is : List Instruction) :
    climb r is = (is.map (·.effect)).foldl StackReport.add r := by
  induction is generalizing r with
  | nil => rfl
  | cons i rest ih => rw [climb, ih, List.map_cons, List.foldl_cons]

/-- From a depth that leaves room below the largest address, the replay in words is the climb. -/
theorem replay_of_climbs {r : StackReport} {is : List Instruction} {d' : Int}
    (h : Climbs r.finalDepth (is.map (·.change)) d')
    (hlow : 2 * r.finalDepth + length is < 2 ^ 32) :
    Validation.replay r is = .ok (climb r is) ∧ (climb r is).finalDepth = d' ∧
      (∀ i ∈ is, i.effect = i.change) := by
  induction is generalizing r with
  | nil => exact ⟨rfl, h.symm, nofun⟩
  | cons i rest ih =>
    have hle : i.change ≤ 2 := i.opcode.change_le i.operand
    have hdepth : 0 ≤ r.finalDepth + i.change := h.1
    have hsize := i.size_pos
    rw [length_cons] at hlow
    have heffect : i.effect = i.change := by
      refine Opcode.effect_eq_change fun hcall => ?_
      rw [Instruction.change, hcall, Opcode.change] at hdepth
      rw [Opcode.maxArguments]
      omega
    have hstep : r.step? i.opcode i.operand.count = some (r.add i.effect) :=
      StackReport.step?_of_rise (hdepth.trans_eq (heffect ▸ rfl)) (by omega)
    obtain ⟨hreplay, hfinal, hall⟩ := ih (r := r.add i.effect)
      (by simpa only [StackReport.finalDepth_add, heffect] using h.2)
      (by rw [StackReport.finalDepth_add]; omega)
    refine ⟨?_, hfinal, ?_⟩
    · rw [Validation.replay, hstep]
      rw [← heffect] at hdepth
      simp only [StackReport.finalDepth_add, not_lt.mpr hdepth, if_false]
      exact hreplay
    · intro j hj
      rcases List.mem_cons.mp hj with rfl | hj
      · exact heffect
      · exact hall j hj

/-- Where code below the largest address climbs, no effect and no depth leaves its word. -/
theorem not_overflows_of_climbs {d d' : Int} {is : List Instruction}
    (h : Climbs d (is.map (·.change)) d') (hd : 0 ≤ d) (hlow : 2 * d + length is < 2 ^ 32) :
    ¬Overflows d (is.map fun i => (i.opcode, i.operand)) := by
  induction is generalizing d with
  | nil => exact not_overflows_nil ⟨by omega, by omega⟩
  | cons i rest ih =>
    have heffect : i.effect = i.change :=
      (replay_of_climbs (r := { finalDepth := d }) h hlow).2.2 i (List.mem_cons_self ..)
    have hdepth : 0 ≤ d + i.change := h.1
    have hrest : Climbs (d + i.change) (rest.map (·.change)) d' := h.2
    have hle : i.change ≤ 2 := i.opcode.change_le i.operand
    have hsize := i.size_pos
    rw [length_cons] at hlow
    rw [← heffect] at hdepth hrest hle
    rw [List.map_cons, overflows_cons ⟨by omega, by omega⟩]
    rintro (hwide | hout | hlater)
    · rw [Instruction.effect, hwide.effect_eq] at hdepth
      omega
    · exact hout ⟨by rw [← Instruction.effect]; omega, by rw [← Instruction.effect]; omega⟩
    · exact ih hrest hdepth (by omega) hlater

/-- The greatest depth is small when the code is short. -/
theorem climb_bounds {r : StackReport} {is : List Instruction} {d' : Int} (bound : Int)
    (h : Climbs r.finalDepth (is.map (·.change)) d') (hall : ∀ i ∈ is, i.effect = i.change)
    (hmax : 2 * r.maxDepth ≤ bound)
    (hlow : 2 * r.finalDepth + length is ≤ bound) :
    r.maxDepth ≤ (climb r is).maxDepth ∧ 2 * (climb r is).maxDepth ≤ bound := by
  induction is generalizing r with
  | nil => exact ⟨Int.le_refl _, hmax⟩
  | cons i rest ih =>
    have hle := i.opcode.change_le i.operand
    have hsize := i.size_pos
    have heffect := hall i (List.mem_cons_self ..)
    rw [length_cons] at hlow
    rw [Instruction.change] at heffect
    have hrest := ih (r := r.add i.effect)
      (by simpa only [StackReport.finalDepth_add, heffect, Instruction.change] using h.2)
      (fun j hj => hall j (List.mem_cons_of_mem _ hj))
      (by rw [StackReport.maxDepth_add]; omega) (by rw [StackReport.finalDepth_add]; omega)
    rw [StackReport.maxDepth_add] at hrest
    rw [climb]
    exact ⟨Int.le_trans (Int.le_max_left ..) hrest.1, hrest.2⟩

end Code

namespace Compile

namespace Block

theorem change_goto (start : Nat) (op : Opcode) (target : Nat) :
    (goto start op target).change = op.delta := by
  rw [goto, Instruction.change, Opcode.change_word]

theorem change_place (b : Block) (start exit next : Nat) :
    (b.place start exit next).map (·.change) = b.changes := by
  induction b generalizing start exit next with
  | empty | instr | mark => rfl
  | jump op j => cases j <;> simp [place, changes, change_goto]
  | seq a b iha ihb => rw [place, List.map_append, iha, ihb, changes]
  | skip op body ih =>
    rw [place, List.map_cons, ih, changes, change_goto]
  | either yes no ihy ihn =>
    simp only [place, List.map_cons, List.map_append, ihy, ihn, changes, change_goto]
  | loop body tail back resume ihb iht =>
    simp only [place, List.map_cons, List.map_append, List.map_nil, ihb, iht, changes,
      change_goto]

/-- The stack behind placed code, where no effect saturates. -/
theorem climb_place {b : Block} {start exit next : Nat}
    (h : ∀ i ∈ b.place start exit next, i.effect = i.change) (r : StackReport) :
    Code.climb r (b.place start exit next) = b.climb r := by
  rw [Code.climb_eq_foldl, List.map_congr_left h, change_place, climb]

theorem net_seq (a b : Block) : net (.seq a b) = a.net + b.net := by
  rw [net, changes, List.sum_append, net, net]

/--
The two ends of every branch have the same depth, where the block starts at `d` and the loop
around has `around` at its top.
-/
def Level (around d : Int) : Block → Prop
  | .empty | .instr .. | .mark _ => True
  | .seq a b => a.Level around d ∧ b.Level around (d + a.net)
  | .skip op body => body.net = 0 ∧ body.Level around (d + op.delta)
  | .either yes no =>
    yes.net = 0 ∧ no.net = 0 ∧ yes.Level around (d - 1) ∧ no.Level around (d - 1)
  | .loop body tail back _ =>
    body.net = 0 ∧ tail.net + back.delta = 0 ∧ body.Level d d ∧ tail.Level around d
  | .jump op _ => d + op.delta = around

/-- Immediates are of the kind of their operation, and branches are where the shapes say. -/
def WellFormed : Block → Prop
  | .empty | .mark _ => True
  | .instr op x => x.kind = op.operand ∧ op.isBranch = false ∧ op ≠ .line
  | .seq a b => a.WellFormed ∧ b.WellFormed
  | .skip op body => op.isBranch = true ∧ body.WellFormed
  | .either yes no => yes.WellFormed ∧ no.WellFormed
  | .loop body tail back _ => back.isBranch = true ∧ body.WellFormed ∧ tail.WellFormed
  | .jump op _ => op.isBranch = true

/-- The last instruction returns null. -/
def Returns : Block → Prop
  | .instr op x => op = .ret ∧ x = .none
  | .seq _ b => b.Returns
  | _ => False

/-! ## Blocks without their marks -/

theorem net_unmark (b : Block) : b.unmark.net = b.net := by
  induction b with
  | empty | instr | jump => rfl
  | mark => rfl
  | seq a b iha ihb => rw [unmark, net_seq, net_seq, iha, ihb]
  | skip op body ih =>
    simp only [net, unmark, changes, List.sum_cons] at ih ⊢
    rw [ih]
  | either yes no ihy ihn =>
    simp only [net, unmark, changes, List.sum_cons, List.sum_append] at ihy ihn ⊢
    rw [ihy, ihn]
  | loop body tail back resume ihb iht =>
    simp only [net, unmark, changes, List.sum_cons, List.sum_append] at ihb iht ⊢
    rw [ihb, iht]

theorem net_shown (debug : Bool) (b : Block) : (b.shown debug).net = b.net := by
  rw [shown]
  split
  · rfl
  · exact b.net_unmark

/-- Marks do not count for the greatest depth. -/
theorem climb_unmark {r : StackReport} (h : r.finalDepth ≤ r.maxDepth) (b : Block) :
    b.unmark.climb r = b.climb r := by
  have hadd (r : StackReport) (e : Int) : (r.add e).finalDepth ≤ (r.add e).maxDepth :=
    Int.le_max_right ..
  induction b generalizing r with
  | empty | instr | jump => rfl
  | mark => exact (StackReport.set_eq_self (Int.add_zero _).symm h).symm
  | seq a b iha ihb =>
    rw [unmark, climb_seq, climb_seq, iha h, ihb (finalDepth_le_maxDepth h a)]
  | skip op body ih => rw [unmark, climb_skip, climb_skip, ih (hadd ..)]
  | either yes no ihy ihn =>
    rw [unmark, climb_either, climb_either, ihy (hadd ..), ihn (hadd ..)]
  | loop body tail back resume ihb iht =>
    rw [unmark, climb_loop, climb_loop, ihb h, iht (finalDepth_le_maxDepth h body)]

theorem climbs_unmark {b : Block} {d d' : Int} (h : Climbs d b.changes d') :
    Climbs d b.unmark.changes d' := by
  induction b generalizing d d' with
  | empty | instr | jump => exact h
  | mark =>
    have hd : d' = d + 0 := h.2
    exact hd.trans (Int.add_zero d)
  | seq a b iha ihb =>
    obtain ⟨m, hx, hy⟩ := Climbs.append_iff.mp h
    exact (iha hx).append (ihb hy)
  | skip op body ih => exact ⟨h.1, ih h.2⟩
  | either yes no ihy ihn =>
    obtain ⟨m, hx, hy⟩ := Climbs.append_iff.mp h.2
    exact ⟨h.1, (ihy hx).append ⟨hy.1, ihn hy.2⟩⟩
  | loop body tail back resume ihb iht =>
    obtain ⟨m, hx, hy⟩ := Climbs.append_iff.mp h
    obtain ⟨k, hx', hy'⟩ := Climbs.append_iff.mp hy
    exact (ihb hx).append ((iht hx').append hy')

theorem Level.unmark {b : Block} {around d : Int} (h : b.Level around d) :
    b.unmark.Level around d := by
  induction b generalizing around d with
  | empty | instr | mark => trivial
  | jump => exact h
  | seq a b iha ihb => exact ⟨iha h.1, by rw [net_unmark]; exact ihb h.2⟩
  | skip op body ih => exact ⟨by rw [net_unmark]; exact h.1, ih h.2⟩
  | either yes no ihy ihn =>
    refine ⟨?_, ?_, ihy h.2.2.1, ihn h.2.2.2⟩
    · rw [net_unmark]
      exact h.1
    · rw [net_unmark]
      exact h.2.1
  | loop body tail back resume ihb iht =>
    refine ⟨?_, ?_, ihb h.2.2.1, iht h.2.2.2⟩
    · rw [net_unmark]
      exact h.1
    · rw [net_unmark]
      exact h.2.1

theorem WellFormed.unmark {b : Block} (h : b.WellFormed) : b.unmark.WellFormed := by
  induction b with
  | empty | mark => trivial
  | instr => exact h
  | jump => exact h
  | seq a b iha ihb => exact ⟨iha h.1, ihb h.2⟩
  | skip op body ih => exact ⟨h.1, ih h.2⟩
  | either yes no ihy ihn => exact ⟨ihy h.1, ihn h.2⟩
  | loop body tail back resume ihb iht => exact ⟨h.1, ihb h.2.1, iht h.2.2⟩

theorem Returns.unmark {b : Block} (h : b.Returns) : b.unmark.Returns := by
  induction b with
  | instr => exact h
  | seq a b _ ihb => exact ihb h
  | empty | mark | jump | skip | either | loop => exact h.elim

end Block

end Compile

end ScriptToolchain
