import ScriptToolchain.Proofs.Validity

/-!
# The depth of the stack on every path

The validator replays the effects of a function in the order of its code.
Where every value is dropped this order tells the depth on every path: at each
address the depth is the sum of the effects before it, and every edge of the
control flow, taken or not, leads to an instruction that finds this depth.
-/

namespace ScriptToolchain

/-- The addresses where execution may go on behind an instruction. -/
inductive Instruction.Edge (i : Instruction) : Nat → Prop where
  | next (hbranch : i.opcode ≠ .branch) (hret : i.opcode ≠ .ret)
      (hvalue : i.opcode ≠ .retValue) : Edge i (i.address.toNat + i.opcode.size)
  | taken {t : UInt64} (h : i.target? = some t) : Edge i t.toNat

/-- What holds of the depths at the addresses of code on every path. -/
structure Code.Flows (is : List Instruction) (maxStack : Nat) (depth : Nat → Int) : Prop where
  start : depth 0 = 0
  /-- Instructions never find or leave a negative depth. -/
  nonneg : ∀ i ∈ is, 0 ≤ depth i.address.toNat ∧ 0 ≤ depth i.address.toNat + i.effect
  /-- The declared depth is the greatest that an instruction leaves. -/
  bounded : ∀ i ∈ is, depth i.address.toNat + i.effect ≤ maxStack
  reached : ∃ i ∈ is, depth i.address.toNat + i.effect = maxStack
  /-- Every edge leads to an instruction, at the depth that its source leaves. -/
  edges : ∀ i ∈ is, ∀ a, i.Edge a →
    ∃ j ∈ is, j.address.toNat = a ∧ depth a = depth i.address.toNat + i.effect
  /-- The code ends with a return at depth zero. -/
  last : ∃ i, is.getLast? = some i ∧ i.opcode = .ret ∧ depth i.address.toNat = 0

namespace Code

/-- The depth at an address: the effects of all that stands before it. -/
def depthAt (is : List Instruction) (a : Nat) : Int :=
  ((is.filter (·.address.toNat < a)).map (·.effect)).sum

/-- At its position in placed code, the depth is that of the prefix. -/
theorem depthAt_eq {is rest : List Instruction} {i : Instruction} {p : Nat} {e : Int}
    (hplaced : Placed 0 is) (hlt : length is < 2 ^ 32) (heffects : ∀ i ∈ is, i.effect = i.change)
    (h : At 0 is p e (i :: rest)) : depthAt is i.address.toNat = e := by
  have hrise := hplaced.pairwise_address (by omega)
  obtain ⟨before, rfl, -, rfl⟩ := h
  obtain ⟨-, hbehind, hbefore⟩ := List.pairwise_append.mp hrise
  have hbehind := (List.pairwise_cons.mp hbehind).1
  rw [depthAt, List.filter_append, List.filter_eq_self.mpr, List.filter_eq_nil_iff.mpr,
    List.append_nil, net]
  · exact congrArg _ (List.map_congr_left fun j hj => heffects j (List.mem_append_left _ hj))
  · intro j hj
    rcases List.mem_cons.mp hj with rfl | hj
    · simp
    · have := UInt32.lt_iff_toNat_lt.mp (hbehind j hj)
      simp only [decide_eq_true_eq]
      omega
  · intro j hj
    exact decide_eq_true (UInt32.lt_iff_toNat_lt.mp (hbefore j hj i (List.mem_cons_self ..)))

end Code

namespace Compile

variable {popped : Prop} {fit : Nat → Prop} {root debug : Bool} {l : Outline}
  {f : CompiledFunction}

/-- The code of a function ends with a return; popped code has depth zero in front of it. -/
theorem Outline.Makes.exists_last (hm : l.Makes root debug f) (hl : l.Fine popped fit)
    (hp : popped) (hlt : f.code.size < 2 ^ 32) :
    ∃ front i, l.instructions debug = front ++ [i] ∧ i.opcode = .ret ∧ i.effect = 0 ∧
      Code.net front = 0 := by
  obtain ⟨k, -, hnet, hkeeps⟩ := hl.keeps
  obtain ⟨rfl, -⟩ := hkeeps hp
  obtain ⟨-, hclimb, -⟩ := hm.replay hl hlt
  obtain ⟨front, address, hlast⟩ := (hl.returns.shown debug).place_eq 0 0 0
  replace hlast : l.instructions debug = front ++ [⟨address, .ret, .none⟩] := hlast
  refine ⟨front, ⟨address, .ret, .none⟩, hlast, rfl, rfl, ?_⟩
  have hsum := hclimb.eq_add_sum
  rw [Block.net_of_climbs hnet, hlast, List.map_append, List.sum_append] at hsum
  have hret : ([(⟨address, .ret, .none⟩ : Instruction)].map (·.change)).sum = 0 := rfl
  rw [hret] at hsum
  rw [Code.net]
  omega

/-- The function that a fine and popped outline gives is sound on every path. -/
theorem Outline.Makes.flows (hm : l.Makes root debug f) (hl : l.Fine popped fit) (hp : popped)
    (hclosed : l.code.Closed) (hlt : f.code.size < 2 ^ 32) :
    Code.Flows (l.instructions debug) f.maxStack.toNat (Code.depthAt (l.instructions debug)) := by
  obtain ⟨-, -, hplaced, hsize⟩ := hm.placed hl.wellFormed hlt
  obtain ⟨heffects, hclimb, -, hmax⟩ := hm.replay hl hlt
  have hlength : Code.length (l.instructions debug) < 2 ^ 32 := by omega
  obtain ⟨hall, hone⟩ := Code.maxDepth_climb_empty (l.instructions debug)
  rw [hmax] at hall hone
  obtain ⟨front, last, hlast, hop, heffect, hzero⟩ := hm.exists_last hl hp hlt
  have hend : Code.At 0 (l.instructions debug) _ _ [last] := ⟨front, hlast, rfl, rfl⟩
  have hdepth {p : Nat} {e : Int} {i : Instruction} {rest : List Instruction}
      (h : Code.At 0 (l.instructions debug) p e (i :: rest)) :
      Code.depthAt (l.instructions debug) i.address.toNat = e :=
    Code.depthAt_eq hplaced hlength heffects h
  have hlevel : l.code.Level 0 0 := by
    obtain ⟨k, -, -, hkeeps⟩ := hl.keeps
    exact (hkeeps hp).2 0 0 fun _ => rfl
  refine ⟨?_, fun i hi => ?_, fun i hi => ?_, ?_, fun i hi a ha => ?_, ?_⟩
  · rw [Code.depthAt, List.filter_eq_nil_iff.mpr (by simp)]
    rfl
  · obtain ⟨p, e, rest, hat⟩ := Code.exists_at 0 hi
    rw [hdepth hat, heffects i hi]
    exact ⟨hat.nonneg hclimb, hat.next.nonneg hclimb⟩
  · obtain ⟨p, e, rest, hat⟩ := Code.exists_at 0 hi
    obtain ⟨before, hsplit, -, hnet⟩ := hat.next
    rw [hdepth hat, heffects i hi, hnet, ← Code.sum_effect fun j hj =>
      heffects j (hsplit ▸ List.mem_append_left _ hj)]
    exact hall before rest hsplit
  · obtain ⟨xs, ys, hsplit, hmax⟩ := hone
    rcases List.eq_nil_or_concat xs with rfl | ⟨before, i, rfl⟩
    · -- no instruction leaves more than nothing, and the last one leaves nothing
      refine ⟨last, hend.mem, ?_⟩
      rw [hdepth hend, hzero, heffect]
      exact hmax
    · rw [List.concat_eq_append] at hsplit hmax
      rw [List.append_assoc] at hsplit
      have hat : Code.At 0 (l.instructions debug) _ _ (i :: ys) := ⟨before, hsplit, rfl, rfl⟩
      refine ⟨i, hat.mem, ?_⟩
      rw [hdepth hat, ← hmax, List.map_append, List.sum_append, Code.sum_effect fun j hj =>
        heffects j (hsplit ▸ List.mem_append_left _ hj), List.map_singleton, List.sum_singleton]
  · obtain ⟨p, e, rest, hat⟩ := Code.exists_at 0 hi
    rw [hdepth hat, heffects i hi]
    cases ha with
    | next hbranch hret hvalue =>
      rcases rest with _ | ⟨j, rest⟩
      · -- the last instruction is a return
        obtain ⟨before, hsplit, -⟩ := hat
        rw [hlast] at hsplit
        obtain ⟨-, hi⟩ := List.append_inj' hsplit rfl
        obtain ⟨rfl, -⟩ := List.cons.inj hi
        exact absurd hop hret
      · have hnext := hat.next
        have haddress : j.address.toNat = i.address.toNat + i.opcode.size := by
          rw [hplaced.address_toNat hlength hnext, hplaced.address_toNat hlength hat,
            (hplaced.address_eq hat).2.size_eq]
        exact ⟨j, hnext.mem, haddress, by rw [← haddress, hdepth hnext]⟩
    | taken ht =>
      obtain ⟨e', j, rest', haddress, hin, hto⟩ := hm.exists_target hl hclosed hlt hat ht
      exact ⟨j, hin.mem, haddress, by rw [← haddress, hdepth hin, hto 0 hlevel]⟩
  · exact ⟨last, by rw [hlast, List.getLast?_concat], hop, by rw [hdepth hend, hzero]⟩

/--
Where every expression that stands as a statement and is no assignment is dropped, the functions of
a compilation have one depth at each instruction: along every edge of the control flow it changes
by the effect of the instruction, it is never negative, it reaches the declared depth and no more,
and it is zero at the return that ends the code.
-/
theorem handed_functions_flow {σ : Type} [Host σ] (c : Compiler) (n : Node) (host : σ)
    (hpopped : n.Popped) {f : CompiledFunction}
    (hf : f ∈ (c.compile n ({ host } : Recorded σ)).2.2.handed) (hlt : f.code.size < 2 ^ 32) :
    ∃ is depth, Code.decode f.code = .ok is ∧ Code.Flows is f.maxStack.toNat depth := by
  obtain ⟨l, root, hfine, hclosed, hmakes⟩ := exists_outline True (fun _ => True)
    c.options ⟨fun _ _ _ hm hs => hpopped.below hm hs, fun _ => trivial⟩
    (fun _ => hpopped.self) trivial _ (Recorded.mem_generate hf)
  exact ⟨_, _, (hmakes.placed hfine.wellFormed hlt).1,
    hmakes.flows hfine trivial hclosed hlt⟩

theorem handed_functions_flow_sample :
    ∃ f ∈ sampleFunctions, ∃ is depth, Code.decode f.code = .ok is ∧
      Code.Flows is f.maxStack.toNat depth := by
  have hpopped : sampleUnit.Popped := by decide +kernel
  have hsome : sampleFunctions ≠ [] := by decide +kernel
  have hsize : ∀ f ∈ sampleFunctions, f.code.size < 2 ^ 32 := by decide +kernel
  have hmem := List.head_mem hsome
  exact ⟨_, hmem, handed_functions_flow _ _ _ hpopped hmem (hsize _ hmem)⟩

end Compile

end ScriptToolchain
