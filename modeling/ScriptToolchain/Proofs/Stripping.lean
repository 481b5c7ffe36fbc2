import ScriptToolchain.Proofs.Positions

/-!
# Code without its marks

Taking the marks out of placed code moves every instruction behind them, and
the targets of the branches move along. `Code.relocate` is the map of the
addresses: from an address it takes the bytes of the marks that stand before.
A block without its marks is placed exactly where this map puts it.
-/

namespace ScriptToolchain

namespace Code

/-- The number of marks at addresses below `t`. -/
def marksBelow (is : List Instruction) (t : Nat) : Nat :=
  is.countP fun i => i.opcode = .line ∧ i.address.toNat < t

/-- Where an address is once the marks are taken out. -/
def relocate (is : List Instruction) (t : Nat) : Nat :=
  t - 4 * marksBelow is t

/-- The instructions that are no marks. -/
def unmarked (is : List Instruction) : List Instruction :=
  is.filter (·.opcode ≠ .line)

end Code

/-- An instruction whose addresses are moved by `φ`: its own and, for a branch, its target. -/
def Instruction.move (φ : Nat → Nat) (i : Instruction) : Instruction :=
  { address := saturate32 (φ i.address.toNat)
    opcode := i.opcode
    operand := match i.target? with
      | some t => .word (saturate32 (φ t.toNat)).toUInt64
      | none => i.operand }

namespace Code

/-- The code without its marks, every branch target `t` less four bytes for each mark below. -/
def strip (is : List Instruction) : List Instruction :=
  (unmarked is).map (·.move (relocate is))

theorem unmarked_append (xs ys : List Instruction) :
    unmarked (xs ++ ys) = unmarked xs ++ unmarked ys :=
  List.filter_append ..

/-- The map takes positions of code at `start` to those of the code without marks. -/
def Tracks (φ : Nat → Nat) (start : Nat) (is : List Instruction) : Prop :=
  ∀ before rest, is = before ++ rest →
    φ (start + length before) = φ start + length (unmarked before)

variable {φ : Nat → Nat} {start : Nat} {xs ys : List Instruction}

theorem Tracks.end_eq (h : Tracks φ start xs) :
    φ (start + length xs) = φ start + length (unmarked xs) :=
  h xs [] (List.append_nil _).symm

theorem Tracks.left (h : Tracks φ start (xs ++ ys)) : Tracks φ start xs := by
  rintro before rest rfl
  exact h before (rest ++ ys) (List.append_assoc ..)

theorem Tracks.right (h : Tracks φ start (xs ++ ys)) : Tracks φ (start + length xs) ys := by
  rintro before rest rfl
  rw [h.left.end_eq, Nat.add_assoc, Nat.add_assoc, ← length_append, ← length_append,
    ← unmarked_append]
  exact h (xs ++ before) rest (List.append_assoc ..).symm

/-! ## The map of the addresses -/

theorem length_eq_unmarked {is : List Instruction} (h : ∀ i ∈ is, i.Fits) :
    length is = length (unmarked is) + 4 * is.countP (·.opcode = .line) := by
  induction is with
  | nil => rfl
  | cons i rest ih =>
    have hrest := ih fun j hj => h j (List.mem_cons_of_mem _ hj)
    by_cases hi : i.opcode = .line
    · have hsize : i.size = 4 := by
        rw [(h i (List.mem_cons_self ..)).size_eq, hi]
        rfl
      rw [unmarked, List.filter_cons_of_neg (by simp [hi]), List.countP_cons_of_pos (by simp [hi]),
        length_cons, hsize, hrest, unmarked]
      omega
    · rw [unmarked, List.filter_cons_of_pos (by simp [hi]), List.countP_cons_of_neg (by simp [hi]),
        length_cons, length_cons, hrest, unmarked]
      omega

/-- The map of the addresses takes positions of placed code to those of the code without marks. -/
theorem tracks_relocate {is : List Instruction} (h : Placed 0 is) (hlt : length is < 2 ^ 32) :
    Tracks (relocate is) 0 is := by
  intro before rest hsplit
  have hzero : relocate is 0 = 0 := Nat.zero_sub _
  have hmarks : marksBelow is (length before) = before.countP (·.opcode = .line) := by
    subst hsplit
    obtain ⟨hbefore, hrest⟩ := placed_append.mp h
    rw [length_append] at hlt
    rw [marksBelow, List.countP_append]
    have hnone : rest.countP (fun i => i.opcode = .line ∧ i.address.toNat < length before) = 0 := by
      refine List.countP_eq_zero.mpr fun i hi => ?_
      have := (hrest.address_bounds (by omega) hi).1
      simp only [decide_eq_true_eq, not_and]
      omega
    rw [hnone, Nat.add_zero]
    refine List.countP_congr fun i hi => ?_
    have := (hbefore.address_bounds (by omega) hi).2
    simp only [decide_eq_true_eq]
    constructor
    · exact fun h => h.1
    · exact fun h => ⟨h, by omega⟩
  have hlength := length_eq_unmarked fun i hi => h.fits i (hsplit ▸ List.mem_append_left rest hi)
  rw [hzero, Nat.zero_add, relocate, hmarks]
  omega

end Code

namespace Compile.Block

open Code

variable {φ : Nat → Nat}

theorem unmarked_goto {op : Opcode} (hop : op.isBranch = true) (start target : Nat)
    (rest : List Instruction) :
    unmarked (goto start op target :: rest) = goto start op target :: unmarked rest := by
  cases op <;> first | contradiction | rfl

/-- The instructions of a block that are no marks take as many bytes as the block without marks. -/
theorem length_unmarked {b : Block} (hb : b.WellFormed) (start exit next : Nat) :
    length (unmarked (b.place start exit next)) = b.unmark.size := by
  induction b generalizing start exit next with
  | empty | mark => rfl
  | instr op x =>
    rw [place, unmarked, List.filter_cons_of_pos (by simp [hb.2.2])]
    rfl
  | jump op j =>
    cases j with
    | breakLoop => rw [place, unmarked_goto hb]; rfl
    | continueLoop => rw [place, unmarked_goto hb]; rfl
  | seq a b iha ihb =>
    rw [place, unmarked_append, length_append, iha hb.1, ihb hb.2, unmark, size]
  | skip op body ih =>
    rw [place, unmarked_goto hb.1, length_cons, ih hb.2, unmark, size]
    rfl
  | either yes no ihy ihn =>
    rw [place, unmarked_goto rfl, unmarked_append, unmarked_goto rfl, length_cons, length_append,
      length_cons, ihy hb.1, ihn hb.2, unmark, size, ← Nat.add_assoc]
    rfl
  | loop body tail back resume ihb iht =>
    rw [place, unmarked_append, unmarked_append, unmarked_goto hb.1, length_append, length_append,
      ihb hb.2.1, iht hb.2.2, unmark, size, ← Nat.add_assoc]
    rfl

theorem saturate32_toNat {n : Nat} (hn : n < 2 ^ 32) : (saturate32 n).toNat = n := by
  rw [saturate32, if_pos (show n < UInt32.size from hn)]
  exact UInt32.toNat_ofNat_of_lt' hn

theorem move_goto {op : Opcode} (hop : op.isBranch = true) {start target : Nat}
    (hstart : start < 2 ^ 32) (htarget : target < 2 ^ 32) :
    (goto start op target).move φ = goto (φ start) op (φ target) := by
  rw [Instruction.move, target_goto hop]
  simp only [goto, UInt32.toNat_toUInt64, saturate32_toNat hstart, saturate32_toNat htarget]

theorem length_goto (start : Nat) (op : Opcode) (target : Nat) :
    length [goto start op target] = branchSize :=
  rfl

theorem tracks_end {b : Block} (hb : b.WellFormed) {start exit next : Nat}
    (h : Tracks φ start (b.place start exit next)) :
    φ (start + b.size) = φ start + b.unmark.size := by
  have hend := h.end_eq
  rwa [length_place, length_unmarked hb] at hend

/-- Behind a branch the map has moved as far as the address. -/
theorem tracks_goto {op : Opcode} (hop : op.isBranch = true) {start here target : Nat}
    {rest : List Instruction} (h : Tracks φ start (goto here op target :: rest)) :
    φ (start + branchSize) = φ start + branchSize ∧ Tracks φ (start + branchSize) rest := by
  have hsplit : Tracks φ start ([goto here op target] ++ rest) := h
  have hhead := hsplit.left.end_eq
  rw [length_goto, unmarked_goto hop] at hhead
  exact ⟨hhead, hsplit.right⟩

/-- Moving the instructions of a block that are no marks places the block without marks. -/
theorem move_place {b : Block} (hb : b.WellFormed) {start exit next : Nat}
    (hlt : start + b.size < 2 ^ 32) (hexit : exit < 2 ^ 32) (hnext : next < 2 ^ 32)
    (h : Tracks φ start (b.place start exit next)) :
    (unmarked (b.place start exit next)).map (·.move φ) =
      b.unmark.place (φ start) (φ exit) (φ next) := by
  induction b generalizing start exit next with
  | empty | mark => rfl
  | instr op x =>
    rw [size] at hlt
    have hbranch : (⟨saturate32 start, op, x⟩ : Instruction).target? = none := by
      rw [Instruction.target?]
      split
      · simp only [hb.2.1, Bool.false_eq_true, if_false]
      · rfl
    rw [place, unmarked, List.filter_cons_of_pos (by simp [hb.2.2]), List.filter_nil,
      List.map_singleton, Instruction.move, hbranch, unmark, place]
    simp only [saturate32_toNat (show start < 2 ^ 32 by omega)]
  | jump op j =>
    rw [size] at hlt
    cases j with
    | breakLoop =>
      rw [place, unmarked_goto hb, unmark, place, List.map_cons, move_goto hb (by omega) hexit]
      rfl
    | continueLoop =>
      rw [place, unmarked_goto hb, unmark, place, List.map_cons, move_goto hb (by omega) hnext]
      rfl
  | seq a b iha ihb =>
    rw [size] at hlt
    have hsecond := h.right
    rw [length_place] at hsecond
    have hmiddle := tracks_end hb.1 h.left
    rw [place, unmarked_append, List.map_append, unmark, place,
      iha hb.1 (by omega) hexit hnext h.left, ihb hb.2 (by omega) hexit hnext hsecond, hmiddle]
  | skip op body ih =>
    rw [size] at hlt
    obtain ⟨hhead, hbody⟩ := tracks_goto hb.1 h
    have hend := tracks_end hb.2 hbody
    rw [hhead] at hend
    rw [place, unmarked_goto hb.1, List.map_cons, unmark, place,
      ih hb.2 (by omega) hexit hnext hbody, move_goto hb.1 (by omega) (by omega), hend, hhead]
  | either yes no ihy ihn =>
    rw [size] at hlt
    obtain ⟨hhead, hrest⟩ := tracks_goto rfl h
    have hyes := hrest.left
    have hmiddle := tracks_end hb.1 hyes
    have hsecond := hrest.right
    rw [length_place] at hsecond
    obtain ⟨hother, hno⟩ := tracks_goto rfl hsecond
    have hend := tracks_end hb.2 hno
    rw [hother, hmiddle, hhead] at hend
    rw [place, unmarked_goto rfl, unmarked_append, unmarked_goto rfl, List.map_cons,
      List.map_append, List.map_cons, unmark, place, ihy hb.1 (by omega) hexit hnext hyes,
      ihn hb.2 (by omega) hexit hnext hno, move_goto rfl (by omega) (by omega),
      move_goto rfl (by omega) (by omega), hend, hother, hmiddle, hhead]
  | loop body tail back resume ihb iht =>
    rw [size] at hlt
    have hmiddle := tracks_end hb.2.1 h.left
    have hrest := h.right
    rw [length_place] at hrest
    have hlast := tracks_end hb.2.2 hrest.left
    have hback := hrest.right
    rw [length_place] at hback
    have hend := (tracks_goto hb.1 hback).1
    rw [hlast, hmiddle] at hend
    have hresume : resume.address start (start + body.size) < 2 ^ 32 := by
      cases resume <;> simp only [Resume.address] <;> omega
    have hround : φ (resume.address start (start + body.size)) =
        resume.address (φ start) (φ start + body.unmark.size) := by
      cases resume with
      | top => rfl
      | tail => exact hmiddle
    rw [place, unmarked_append, unmarked_append, unmarked_goto hb.1, List.map_append,
      List.map_append, List.map_cons, unmark, place,
      ihb hb.2.1 (by omega) (by omega) hresume h.left,
      iht hb.2.2 (by omega) hexit hnext hrest.left, move_goto hb.1 (by omega) (by omega),
      hlast, hmiddle, hend, hround]
    rfl

end Compile.Block

end ScriptToolchain
