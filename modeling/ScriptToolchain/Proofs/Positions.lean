import ScriptToolchain.Proofs.Depth

/-!
# Positions in placed code

A position is an address between two instructions together with what the
instructions before it change at the stack. Branches of a placed block go to
positions of the block, or to the exit or the next round of the loop around;
in a level block the depth at both ends is the same.
-/

namespace ScriptToolchain

namespace Code

/-- The change of the stack depth over all instructions. -/
def net (is : List Instruction) : Int :=
  (is.map (·.change)).sum

theorem net_append (xs ys : List Instruction) : net (xs ++ ys) = net xs + net ys := by
  rw [net, List.map_append, List.sum_append, net, net]

theorem sum_effect {is : List Instruction} (h : ∀ i ∈ is, i.effect = i.change) :
    (is.map (·.effect)).sum = net is :=
  congrArg _ (List.map_congr_left h)

/-- `rest` stands at `p`; the instructions before it, from `start` on, change the depth by `e`. -/
def At (start : Nat) (is : List Instruction) (p : Nat) (e : Int) (rest : List Instruction) :
    Prop :=
  ∃ before, is = before ++ rest ∧ p = start + length before ∧ e = net before

variable {start p : Nat} {e : Int} {is js rest : List Instruction}

theorem at_start (start : Nat) (is : List Instruction) : At start is start 0 is :=
  ⟨[], rfl, rfl, rfl⟩

theorem At.append_right (h : At start is p e rest) (js : List Instruction) :
    At start (is ++ js) p e (rest ++ js) := by
  obtain ⟨before, rfl, hp, he⟩ := h
  exact ⟨before, List.append_assoc .., hp, he⟩

theorem At.append_left {start' : Nat} (h : At start' is p e rest) {xs : List Instruction}
    (hstart : start' = start + length xs) : At start (xs ++ is) p (net xs + e) rest := by
  obtain ⟨before, rfl, rfl, rfl⟩ := h
  subst hstart
  exact ⟨xs ++ before, (List.append_assoc ..).symm, by rw [length_append, Nat.add_assoc],
    (net_append ..).symm⟩

theorem at_end (start : Nat) (is : List Instruction) :
    At start is (start + length is) (net is) [] :=
  ⟨is, (List.append_nil _).symm, rfl, rfl⟩

theorem At.next {i : Instruction} (h : At start is p e (i :: rest)) :
    At start is (p + i.size) (e + i.change) rest := by
  obtain ⟨before, rfl, rfl, rfl⟩ := h
  refine ⟨before ++ [i], by simp, ?_, ?_⟩
  · rw [length_append, length_cons, length_nil, Nat.add_assoc, Nat.add_zero]
  · rw [net_append, net, net, List.map_singleton, List.sum_singleton]

theorem At.mem {i : Instruction} (h : At start is p e (i :: rest)) : i ∈ is := by
  obtain ⟨before, rfl, -⟩ := h
  exact List.mem_append_right _ (List.mem_cons_self ..)

theorem exists_at {i : Instruction} (start : Nat) (hi : i ∈ is) :
    ∃ p e rest, At start is p e (i :: rest) := by
  obtain ⟨before, rest, rfl⟩ := List.append_of_mem hi
  exact ⟨_, _, rest, before, rfl, rfl, rfl⟩

/-- Where the changes of code climb, no position is below the start. -/
theorem At.nonneg (h : At start is p e rest) {d : Int}
    (hclimb : Climbs 0 (is.map (·.change)) d) : 0 ≤ e := by
  obtain ⟨before, rfl, -, rfl⟩ := h
  rw [List.map_append] at hclimb
  obtain ⟨m, hfirst, -⟩ := Climbs.append_iff.mp hclimb
  have hnonneg := hfirst.nonneg (Int.le_refl 0)
  rwa [hfirst.eq_add_sum, Int.zero_add] at hnonneg

/-- An instruction of joined code stands in one of its parts. -/
theorem at_append {i : Instruction} (h : At start (is ++ js) p e (i :: rest)) :
    (∃ rest', rest = rest' ++ js ∧ At start is p e (i :: rest')) ∨
      ∃ e', e = net is + e' ∧ At (start + length is) js p e' (i :: rest) := by
  obtain ⟨before, hsplit, rfl, rfl⟩ := h
  rcases List.append_eq_append_iff.mp hsplit with ⟨xs, rfl, rfl⟩ | ⟨xs, rfl, hxs⟩
  · refine .inr ⟨net xs, net_append .., xs, rfl, ?_, rfl⟩
    rw [length_append, Nat.add_assoc]
  · rcases xs with _ | ⟨i', rest'⟩
    · refine .inr ⟨0, by rw [List.append_nil, Int.add_zero], [], ?_, ?_, rfl⟩
      · simpa using hxs.symm
      · rw [List.append_nil]
        rfl
    · obtain ⟨rfl, rfl⟩ := List.cons.inj hxs
      exact .inl ⟨rest', rfl, before, rfl, rfl, rfl⟩

/-- The address that an instruction carries is that of its position. -/
theorem Placed.address_eq {i : Instruction} (hplaced : Placed start is)
    (h : At start is p e (i :: rest)) : i.address = p.toUInt32 ∧ i.Fits := by
  obtain ⟨before, rfl, rfl, -⟩ := h
  obtain ⟨-, haddress, hfits, -⟩ := placed_append.mp hplaced
  exact ⟨haddress, hfits⟩

/-- The addresses of placed instructions lie in the code. -/
theorem Placed.address_bounds {start : Nat} {is : List Instruction} (h : Placed start is)
    (hlt : start + length is < 2 ^ 32) {i : Instruction} (hi : i ∈ is) :
    start ≤ i.address.toNat ∧ i.address.toNat < start + length is := by
  obtain ⟨xs, ys, rfl⟩ := List.append_of_mem hi
  obtain ⟨-, haddress, -⟩ := placed_append.mp h
  have hpos := i.size_pos
  rw [length_append, length_cons] at hlt ⊢
  rw [haddress, UInt32.toNat_ofNat_of_lt' (show start + length xs < 2 ^ 32 by omega)]
  omega

/-- The addresses of placed instructions rise. -/
theorem Placed.pairwise_address {start : Nat} {is : List Instruction} (h : Placed start is)
    (hlt : start + length is < 2 ^ 32) : is.Pairwise fun i j => i.address < j.address := by
  induction is generalizing start with
  | nil => exact .nil
  | cons i rest ih =>
    obtain ⟨haddress, -, hrest⟩ := h
    have hpos := i.size_pos
    rw [length_cons] at hlt
    refine List.pairwise_cons.mpr ⟨fun j hj => ?_, ih hrest (by omega)⟩
    have hbounds := hrest.address_bounds (by omega) hj
    rw [UInt32.lt_iff_toNat_lt, haddress,
      UInt32.toNat_ofNat_of_lt' (show start < 2 ^ 32 by omega)]
    omega

theorem Placed.address_toNat {i : Instruction} (hplaced : Placed 0 is)
    (hlt : length is < 2 ^ 32) (h : At 0 is p e (i :: rest)) : i.address.toNat = p := by
  obtain ⟨haddress, -⟩ := hplaced.address_eq h
  obtain ⟨before, rfl, rfl, -⟩ := h
  rw [length_append, length_cons] at hlt
  rw [haddress]
  exact UInt32.toNat_ofNat_of_lt' (show 0 + length before < 2 ^ 32 by omega)

end Code

namespace Compile

namespace Block

open Code

theorem net_place (b : Block) (start exit next : Nat) :
    Code.net (b.place start exit next) = b.net := by
  rw [Code.net, change_place, net]

theorem fits_goto {op : Opcode} (h : op.isBranch = true) (start target : Nat) :
    (goto start op target).Fits := by
  cases op <;> first | contradiction | rfl

/-- The instructions of a well-formed block carry their addresses and fit. -/
theorem placed_place {b : Block} (h : b.WellFormed) {start : Nat} (exit next : Nat)
    (hlt : start + b.size < 2 ^ 32) : Placed start (b.place start exit next) := by
  have hhere {n : Nat} (hn : n < 2 ^ 32) : saturate32 n = n.toUInt32 := by
    rw [saturate32, if_pos (show n < UInt32.size from hn)]
  have hgoto {n : Nat} (hn : n < 2 ^ 32) {op : Opcode} (hop : op.isBranch = true) (target : Nat)
      {rest : List Instruction} (hrest : Placed (n + branchSize) rest) :
      Placed n (goto n op target :: rest) :=
    ⟨hhere hn, fits_goto hop n target, hrest⟩
  induction b generalizing start exit next with
  | empty => trivial
  | instr op x => exact ⟨hhere (by rw [size] at hlt; omega), h.1, trivial⟩
  | mark line => exact ⟨hhere (by rw [size] at hlt; omega), rfl, trivial⟩
  | jump op j =>
    rw [size] at hlt
    cases j with
    | breakLoop => exact hgoto (by omega) h exit trivial
    | continueLoop => exact hgoto (by omega) h next trivial
  | seq a b iha ihb =>
    rw [size] at hlt
    refine placed_append.mpr ⟨iha h.1 exit next (by omega), ?_⟩
    rw [length_place]
    exact ihb h.2 exit next (by omega)
  | skip op body ih =>
    rw [size] at hlt
    exact hgoto (by omega) h.1 _ (ih h.2 exit next (by omega))
  | either yes no ihy ihn =>
    rw [size] at hlt
    refine hgoto (by omega) rfl _ (placed_append.mpr ⟨ihy h.1 exit next (by omega), ?_⟩)
    rw [length_place]
    exact hgoto (by omega) rfl _ (ihn h.2 exit next (by omega))
  | loop body tail back resume ihb iht =>
    rw [size] at hlt
    refine placed_append.mpr ⟨ihb h.2.1 _ _ (by omega), ?_⟩
    rw [length_place]
    refine placed_append.mpr ⟨iht h.2.2 exit next (by omega), ?_⟩
    rw [length_place]
    exact hgoto (by omega) h.1 _ trivial

/-! ## Branches -/

/-- Where a branch of the block at `start` goes, whose change of the depth so far is `e`. -/
inductive Lands (b : Block) (start exit next : Nat) (e : Int) (q : Nat) : Prop where
  /-- To a position of the block, of the same change if the block is level. -/
  | inside (e' : Int) (rest : List Instruction)
      (h : At start (b.place start exit next) q e' rest)
      (hlevel : ∀ around d, b.Level around d → e' = e)
  /-- Out of the block, to the depth of the loop around if the block is level. -/
  | outside (hopen : ¬b.Closed) (hq : q = exit ∨ q = next)
      (hlevel : ∀ around d, b.Level around d → d + e = around)

variable {start exit next p q : Nat} {e : Int} {b c : Block} {xs ys rest : List Instruction}

/-- A part of a block that stands behind `xs`. -/
theorem Lands.within {start' : Nat} {e' : Int} (xs ys : List Instruction)
    (h : c.Lands start' exit next e' q)
    (hstart : start' = start + length xs) (he : e = Code.net xs + e')
    (hplace : b.place start exit next = xs ++ (c.place start' exit next ++ ys))
    (hclosed : b.Closed → c.Closed)
    (hlevel : ∀ around d, b.Level around d → c.Level around (d + Code.net xs)) :
    b.Lands start exit next e q := by
  subst hstart he
  rcases h with ⟨e₁, rest, hat, heq⟩ | ⟨hopen, hq, heq⟩
  · refine .inside (Code.net xs + e₁) (rest ++ ys) ?_ fun around d h => ?_
    · rw [hplace]
      exact (hat.append_right ys).append_left rfl
    · rw [heq around _ (hlevel around d h)]
  · refine .outside (fun h => hopen (hclosed h)) hq fun around d h => ?_
    rw [← heq around _ (hlevel around d h), Int.add_assoc]

theorem target_goto {op : Opcode} (hop : op.isBranch = true) (start target : Nat) :
    (goto start op target).target? = some (saturate32 target).toUInt64 := by
  rw [goto, Instruction.target?]
  simp only [hop, if_true]

/-- The only instruction of a piece of code stands at its start. -/
theorem at_singleton {i j : Instruction} (h : At start [j] p e (i :: rest)) : i = j ∧ e = 0 := by
  obtain ⟨before, hsplit, -, rfl⟩ := h
  rcases before with _ | ⟨k, before⟩
  · cases hsplit
    exact ⟨rfl, rfl⟩
  · have := congrArg List.length hsplit
    simp at this

/-- An instruction stands at the start, or behind the first instruction. -/
theorem at_cons {i j : Instruction} {js : List Instruction} (h : At start (j :: js) p e (i :: rest)) :
    i = j ∧ e = 0 ∨ ∃ e', e = Code.net [j] + e' ∧ At (start + length [j]) js p e' (i :: rest) := by
  have hsplit : At start ([j] ++ js) p e (i :: rest) := h
  rcases at_append hsplit with ⟨_, -, hat⟩ | hbehind
  · exact .inl (at_singleton hat)
  · exact .inr hbehind

/-- Every branch of the block goes to a position, wherever the block is placed. -/
def Aims (b : Block) : Prop :=
  ∀ ⦃start exit next p : Nat⦄ ⦃e : Int⦄ ⦃i : Instruction⦄ ⦃rest : List Instruction⦄ ⦃t : UInt64⦄,
    At start (b.place start exit next) p e (i :: rest) → i.target? = some t →
      ∃ q, t = (saturate32 q).toUInt64 ∧ b.Lands start exit next (e + i.change) q

theorem aims_empty : Aims .empty := by
  rintro start exit next p e i rest t ⟨before, hsplit, -⟩
  simp [place] at hsplit

theorem aims_instr {op : Opcode} {x : Operand} (hb : (instr op x).WellFormed) :
    Aims (.instr op x) := by
  intro start exit next p e i rest t h ht
  obtain ⟨rfl, -⟩ := at_singleton h
  rw [Instruction.target?] at ht
  split at ht
  · rw [if_neg (by simp [hb.2.1])] at ht
    cases ht
  · cases ht

theorem aims_mark (line : UInt32) : Aims (.mark line) := by
  intro start exit next p e i rest t h ht
  obtain ⟨rfl, -⟩ := at_singleton h
  cases ht

theorem place_jump (op : Opcode) (j : Jump) (start exit next : Nat) :
    ∃ target, (target = exit ∨ target = next) ∧
      (jump op j).place start exit next = [goto start op target] := by
  cases j with
  | breakLoop => exact ⟨exit, .inl rfl, rfl⟩
  | continueLoop => exact ⟨next, .inr rfl, rfl⟩

theorem aims_jump {op : Opcode} (hop : op.isBranch = true) (j : Jump) : Aims (.jump op j) := by
  intro start exit next p e i rest t h ht
  obtain ⟨target, hout, hplace⟩ := place_jump op j start exit next
  rw [hplace] at h
  obtain ⟨rfl, rfl⟩ := at_singleton h
  rw [target_goto hop] at ht
  refine ⟨target, (Option.some.inj ht).symm, .outside id hout fun around d hlevel => ?_⟩
  rw [change_goto, Int.zero_add]
  exact hlevel

theorem Aims.seq {a b : Block} (ha : Aims a) (hb : Aims b) : Aims (.seq a b) := by
  intro start exit next p e i rest t h ht
  rcases at_append h with ⟨rest', -, hat⟩ | ⟨e', rfl, hat⟩
  · obtain ⟨q, hq, hlands⟩ := ha hat ht
    exact ⟨q, hq, hlands.within [] _ rfl (Int.zero_add _).symm rfl (fun h => h.1)
      fun around d h => by simpa [Code.net] using h.1⟩
  · rw [length_place] at hat
    obtain ⟨q, hq, hlands⟩ := hb hat ht
    refine ⟨q, hq, hlands.within (a.place start exit next) []
      (by rw [length_place]) (Int.add_assoc ..) (by rw [place, List.append_nil])
      (fun h => h.2) fun around d h => ?_⟩
    rw [net_place]
    exact h.2

theorem Aims.skip {op : Opcode} {body : Block} (hop : op.isBranch = true) (hbody : Aims body) :
    Aims (.skip op body) := by
  intro start exit next p e i rest t h ht
  rcases at_cons h with ⟨rfl, rfl⟩ | ⟨e', rfl, hat⟩
  · rw [target_goto hop] at ht
    have hend := at_end start (place start exit next (.skip op body))
    rw [length_place, size, ← Nat.add_assoc] at hend
    refine ⟨_, (Option.some.inj ht).symm, .inside _ _ hend fun around d hlevel => ?_⟩
    rw [net_place, change_goto, net, changes, List.sum_cons, ← net, hlevel.1]
    omega
  · obtain ⟨q, hq, hlands⟩ := hbody hat ht
    refine ⟨q, hq, hlands.within [_] [] rfl (Int.add_assoc ..)
      (by rw [place, List.append_nil]; rfl) (fun h => h) fun around d h => ?_⟩
    rw [Code.net, List.map_singleton, List.sum_singleton, change_goto]
    exact h.2

theorem net_either (yes no : Block) : (either yes no).net = yes.net + no.net - 1 := by
  have hzero : Opcode.branchZero.delta = -1 := rfl
  have hbranch : Opcode.branch.delta = 0 := rfl
  simp only [net, changes, List.sum_cons, List.sum_append]
  omega

/-- The second part of an alternative stands behind the first part and two branches. -/
theorem at_other (yes no : Block) (start exit next : Nat) :
    At start (place start exit next (either yes no))
      (start + branchSize + yes.size + branchSize) (yes.net - 1)
      (no.place (start + branchSize + yes.size + branchSize) exit next) := by
  let other := start + branchSize + yes.size + branchSize
  refine ⟨goto start .branchZero other :: (yes.place (start + branchSize) exit next ++
    [goto (start + branchSize + yes.size) .branch (other + no.size)]), ?_, ?_, ?_⟩
  · simp only [place, other, List.cons_append, List.append_assoc, List.nil_append]
  · rw [length_cons, length_append, length_place]
    simp only [length_cons, length_nil, ← Nat.add_assoc]
    rfl
  · have hzero : Opcode.branchZero.delta = -1 := rfl
    have hbranch : Opcode.branch.delta = 0 := rfl
    rw [Code.net, List.map_cons, List.sum_cons, ← Code.net, net_append, net_place, Code.net,
      List.map_singleton, List.sum_singleton, change_goto, change_goto]
    omega

theorem Aims.either {yes no : Block} (hyes : Aims yes) (hno : Aims no) :
    Aims (.either yes no) := by
  intro start exit next p e i rest t h ht
  have hzero : Opcode.branchZero.delta = -1 := rfl
  have hbranch : Opcode.branch.delta = 0 := rfl
  have hother := at_other yes no start exit next
  -- the four places: the first branch, the first part, the second branch, the second part
  rcases at_cons h with ⟨rfl, rfl⟩ | ⟨e₁, rfl, hbehind⟩
  · rw [target_goto rfl] at ht
    refine ⟨_, (Option.some.inj ht).symm, .inside _ _ hother fun around d hlevel => ?_⟩
    rw [change_goto, hlevel.1]
    omega
  rcases at_append hbehind with ⟨_, -, hat⟩ | ⟨e₂, rfl, hrest⟩
  · obtain ⟨q, hq, hlands⟩ := hyes hat ht
    refine ⟨q, hq, hlands.within [_] _ rfl (Int.add_assoc ..) (by rw [place]; rfl)
      (fun h => h.1) fun around d h => ?_⟩
    rw [Code.net, List.map_singleton, List.sum_singleton, change_goto]
    exact h.2.2.1
  rw [length_place] at hrest
  rcases at_cons hrest with ⟨rfl, rfl⟩ | ⟨e₃, rfl, hat⟩
  · rw [target_goto rfl] at ht
    have hend := at_end start (place start exit next (.either yes no))
    rw [length_place, size, show start + (branchSize + yes.size + (branchSize + no.size)) =
      start + branchSize + yes.size + branchSize + no.size by omega] at hend
    refine ⟨_, (Option.some.inj ht).symm, .inside _ _ hend fun around d hlevel => ?_⟩
    have hlevelNo := hlevel.2.1
    rw [net_place, net_either, net_place, Code.net, List.map_singleton, List.sum_singleton,
      change_goto, change_goto]
    omega
  · obtain ⟨q, hq, hlands⟩ := hno hat ht
    obtain ⟨xs, hsplit, hlength, hnet⟩ := hother
    refine ⟨q, hq, hlands.within xs [] hlength ?_
      (by rw [hsplit, List.append_nil]; rfl) (fun h => h.2) fun around d h => ?_⟩
    · rw [← hnet, net_place]
      simp only [Code.net, List.map_singleton, List.sum_singleton, change_goto]
      omega
    · rw [← hnet, h.1, show d + (0 - 1) = d - 1 by omega]
      exact h.2.2.2

theorem net_loop (body tail : Block) (back : Opcode) (resume : Resume) :
    (loop body tail back resume).net = body.net + tail.net + back.delta := by
  simp only [net, changes, List.sum_append, List.sum_singleton]
  omega

/-- Where a branch out of the body of a loop goes. -/
theorem Lands.of_body {body tail : Block} {back : Opcode} {resume : Resume}
    (h : body.Lands start (start + body.size + tail.size + branchSize)
      (resume.address start (start + body.size)) e q) :
    (loop body tail back resume).Lands start exit next e q := by
  have htop := at_start start (place start exit next (loop body tail back resume))
  have hend := at_end start (place start exit next (loop body tail back resume))
  rw [length_place, size, net_place, net_loop] at hend
  have htail : At start (place start exit next (loop body tail back resume)) (start + body.size)
      body.net _ :=
    ⟨_, rfl, by rw [length_place], (net_place ..).symm⟩
  rcases h with ⟨e', rest', hin, heq⟩ | ⟨-, hout, heq⟩
  · exact .inside e' _ (hin.append_right _) fun around d h => heq d d h.2.2.1
  rcases hout with rfl | rfl
  · refine .inside _ _ (by simpa only [Nat.add_assoc] using hend) fun around d h => ?_
    have hdepth := heq d d h.2.2.1
    obtain ⟨hbody, hback, -⟩ := h
    omega
  · cases resume with
    | top =>
      refine .inside _ _ htop fun around d h => ?_
      have hdepth := heq d d h.2.2.1
      omega
    | tail =>
      refine .inside _ _ htail fun around d h => ?_
      have hdepth := heq d d h.2.2.1
      have hbody := h.1
      omega

theorem Aims.loop {body tail : Block} {back : Opcode} {resume : Resume}
    (hback : back.isBranch = true) (hbody : Aims body) (htail : Aims tail) :
    Aims (.loop body tail back resume) := by
  intro start exit next p e i rest t h ht
  rcases at_append h with ⟨_, -, hat⟩ | ⟨e₁, rfl, hrest⟩
  · obtain ⟨q, hq, hlands⟩ := hbody hat ht
    exact ⟨q, hq, hlands.of_body⟩
  rw [length_place] at hrest
  rcases at_append hrest with ⟨_, -, hat⟩ | ⟨e₂, rfl, hat⟩
  · obtain ⟨q, hq, hlands⟩ := htail hat ht
    have hnet := net_place body start (start + body.size + tail.size + branchSize)
      (resume.address start (start + body.size))
    refine ⟨q, hq, hlands.within _ _ (by rw [length_place]) (Int.add_assoc ..) (by rw [place])
      (fun h => h) fun around d h => ?_⟩
    rw [hnet, h.1, Int.add_zero]
    exact h.2.2.2
  · obtain ⟨rfl, rfl⟩ := at_singleton hat
    rw [target_goto hback] at ht
    have htop := at_start start (place start exit next (.loop body tail back resume))
    refine ⟨_, (Option.some.inj ht).symm, .inside _ _ htop fun around d h => ?_⟩
    obtain ⟨hlevelBody, hlevelTail, -⟩ := h
    rw [net_place, net_place, change_goto]
    omega

theorem WellFormed.aims (hb : b.WellFormed) : Aims b := by
  induction b with
  | empty => exact aims_empty
  | instr op x => exact aims_instr hb
  | mark line => exact aims_mark line
  | jump op j => exact aims_jump hb j
  | seq a b iha ihb => exact (iha hb.1).seq (ihb hb.2)
  | skip op body ih => exact (ih hb.2).skip hb.1
  | either yes no ihy ihn => exact (ihy hb.1).either (ihn hb.2)
  | loop body tail back resume ihb iht => exact (ihb hb.2.1).loop hb.1 (iht hb.2.2)

/-! ## Code that ends with a return -/

theorem Returns.place_eq {b : Block} (h : b.Returns) (start exit next : Nat) :
    ∃ before a, b.place start exit next = before ++ [⟨a, .ret, .none⟩] := by
  induction b generalizing start with
  | instr op x =>
    obtain ⟨rfl, rfl⟩ := h
    exact ⟨[], _, rfl⟩
  | seq a b _ ihb =>
    obtain ⟨before, at', heq⟩ := ihb h (start + a.size)
    exact ⟨a.place start exit next ++ before, at', by rw [place, heq, List.append_assoc]⟩
  | empty | mark | skip | either | loop | jump => exact h.elim

/-- No branch of a closed block goes behind the return at its end. -/
theorem exists_target (hb : b.WellFormed) (hclosed : b.Closed) (hreturns : b.Returns)
    {i : Instruction} {t : UInt64}
    (h : At start (b.place start exit next) p e (i :: rest)) (ht : i.target? = some t) :
    ∃ q e' j rest', t = (saturate32 q).toUInt64 ∧
      At start (b.place start exit next) q e' (j :: rest') ∧
      ∀ around d, b.Level around d → e' = e + i.change := by
  induction b generalizing start p e rest with
  | instr op x =>
    obtain ⟨rfl, rfl⟩ := hreturns
    obtain ⟨rfl, -⟩ := at_singleton h
    cases ht
  | seq a b _ ihb =>
    obtain ⟨before, address, hlast⟩ := hreturns.place_eq (b := b) (start + a.size) exit next
    rcases at_append h with ⟨_, -, hat⟩ | ⟨e', rfl, hat⟩
    · obtain ⟨q, hq, hlands⟩ := hb.1.aims hat ht
      rcases hlands with ⟨e', rest', hin, hlevel⟩ | ⟨hopen, -⟩
      · have hwhole := hin.append_right (b.place (start + a.size) exit next)
        obtain ⟨j, rest'', heq⟩ : ∃ j rest'', rest' ++ b.place (start + a.size) exit next =
            j :: rest'' := by
          rw [hlast]
          exact List.exists_cons_of_ne_nil (by simp)
        rw [heq] at hwhole
        exact ⟨q, e', j, rest'', hq, hwhole, fun around d h => hlevel around d h.1⟩
      · exact absurd hclosed.1 hopen
    · rw [length_place] at hat
      obtain ⟨q, e'', j, rest', hq, hin, hlevel⟩ := ihb hb.2 hclosed.2 hreturns hat
      refine ⟨q, _, j, rest', hq, hin.append_left (by rw [length_place]), fun around d h => ?_⟩
      rw [hlevel around _ h.2, Int.add_assoc]
  | empty | mark | skip | either | loop | jump => exact hreturns.elim

end Block

end Compile

end ScriptToolchain
