import ScriptToolchain.Compile.Variables
import ScriptToolchain.Proofs.Depth
import ScriptToolchain.Proofs.Lowering
import ScriptToolchain.Proofs.Trees

/-!
# What lowering a step makes

A step of lowering is judged by its code: the depth that it leads to, whether
its branches are level, and the slots that names have taken, which the code
pays for with its bytes. Levels are asked for only where every dropped value is
popped, a condition that comes in as a proposition.
-/

namespace ScriptToolchain

namespace VariableTable

/-- The slots are counted, and those of the parameters are among them. -/
structure Sound (t : VariableTable) : Prop where
  counted : t.slots.latest.length = t.slots.size
  params : t.params ≤ t.slots.size

/-- The names `t'` come from `t` by taking at most `n` slots. -/
structure Takes (t : VariableTable) (n : Nat) (t' : VariableTable) : Prop where
  slots : t'.slots.size ≤ t.slots.size + n
  params : t'.params = t.params
  sound : t.Sound → t'.Sound

theorem takes_refl (t : VariableTable) (n : Nat) : t.Takes n t :=
  ⟨Nat.le_add_right .., rfl, fun h => h⟩

theorem takes_classes (t : VariableTable) (n : Nat) (classes) :
    t.Takes n { t with classes } :=
  ⟨Nat.le_add_right .., rfl, fun h => ⟨h.counted, h.params⟩⟩

theorem takes_takeSlot (t : VariableTable) (name : String) :
    t.Takes 1 (t.takeSlot name).2 := by
  simp only [takeSlot, Interner.intern]
  split
  · exact t.takes_refl 1
  · refine ⟨Nat.le_refl _, rfl, fun h => ⟨?_, Nat.le_succ_of_le h.params⟩⟩
    simp only [List.length_cons, h.counted]

theorem takes_declare (t : VariableTable) (name : String) (storage : StorageClass) :
    t.Takes 0 (t.declare name storage).2 := by
  rw [declare]
  split
  · exact t.takes_refl 0
  · exact t.takes_classes 0 _

theorem takes_resolve (t : VariableTable) (name : String) : t.Takes 1 (t.resolve name).2 := by
  rw [resolve]
  split
  · exact t.takes_refl 1
  · exact t.takes_takeSlot name
  · exact t.takes_refl 1
  · exact t.takes_refl 1

theorem takes_localSlot (t : VariableTable) (name : String) :
    t.Takes 1 (t.localSlot name).2 := by
  rw [localSlot]
  split
  · exact t.takes_takeSlot name
  · exact t.takes_refl 1
  · have h := ({ t with classes := t.classes.insert name .local }).takes_takeSlot name
    exact ⟨h.slots, h.params, fun ht => h.sound ⟨ht.counted, ht.params⟩⟩

/-- Only parameters have slots so far, and what has a slot has a class. -/
structure Begun (t : VariableTable) : Prop where
  counted : t.slots.latest.length = t.slots.size
  params : t.slots.size = t.params
  known : ∀ name, t.class? name = none → t.slots.position? name = none

theorem begun_empty : ({} : VariableTable).Begun :=
  ⟨rfl, rfl, fun _ _ => Std.TreeMap.getElem?_emptyc⟩

theorem Begun.sound {t : VariableTable} (h : t.Begun) : t.Sound :=
  ⟨h.counted, Nat.le_of_eq h.params.symm⟩

/-- A new parameter takes the next slot. -/
theorem Begun.declareParameter {t : VariableTable} (h : t.Begun) {name : String} {slot : Nat}
    (hslot : (t.declareParameter name).1 = some slot) :
    (t.declareParameter name).2.Begun ∧
      (t.declareParameter name).2.params = t.params + 1 := by
  cases hclass : t.class? name with
  | some c => simp only [VariableTable.declareParameter, hclass, reduceCtorEq] at hslot
  | none =>
    have hnew := h.known name hclass
    simp only [VariableTable.declareParameter, hclass, takeSlot, Interner.intern, hnew]
    refine ⟨⟨?_, ?_, fun other hother => ?_⟩, trivial⟩
    · simp only [List.length_cons, h.counted]
    · simp only [h.params]
    · simp only [class?, Std.TreeMap.getElem?_insert, Interner.position?] at hother ⊢
      split at hother
      · cases hother
      · rename_i hne
        rw [if_neg hne]
        exact h.known other hother

end VariableTable

namespace Compile

namespace Block

variable (popped : Prop)

/-- The block leads from depth `d` to depth `d'`; no jump leaves it. -/
structure Moves (d d' : Int) (b : Block) : Prop where
  climbs : Climbs d b.changes d'
  level : popped → ∀ around x, b.Level around x

/--
From depth `d` the block leads to depth zero or above, to zero itself where values are popped; a
jump may leave it for depth zero.
-/
def Keeps (jumps : Prop) (d : Int) (b : Block) : Prop :=
  ∃ k, 0 ≤ k ∧ Climbs d b.changes k ∧
    (popped → k = 0 ∧ ∀ around x, (jumps → around = x) → b.Level around (x + d))

variable {popped} {d m d' : Int} {a b c : Block} {jumps : Prop}

theorem net_of_climbs (h : Climbs d b.changes d') : b.net = d' - d := by
  have := h.eq_add_sum
  rw [net]
  omega

theorem Moves.seq (ha : a.Moves popped d m) (hb : b.Moves popped m d') :
    (Block.seq a b).Moves popped d d' :=
  ⟨ha.climbs.append hb.climbs, fun hp _ _ => ⟨ha.level hp _ _, hb.level hp _ _⟩⟩

theorem Moves.above (h : b.Moves popped d d') {k : Int} (hk : 0 ≤ k) :
    b.Moves popped (d + k) (d' + k) :=
  ⟨h.climbs.above hk, h.level⟩

theorem moves_empty (d : Int) : Block.empty.Moves popped d d :=
  ⟨rfl, fun _ _ _ => trivial⟩

theorem moves_mark (hd : 0 ≤ d) (line : UInt32) : (Block.mark line).Moves popped d d :=
  ⟨Climbs.single (by omega) (by omega), fun _ _ _ => trivial⟩

theorem moves_instr {op : Opcode} {x : Operand} (hd : 0 ≤ d + op.change x)
    (hd' : d' = d + op.change x) : (Block.instr op x).Moves popped d d' :=
  ⟨⟨hd, hd'⟩, fun _ _ _ => trivial⟩

theorem Moves.keeps (h : b.Moves popped d d') (hd : 0 ≤ d') (hp : popped → d' = 0) :
    b.Keeps popped jumps d :=
  ⟨d', hd, h.climbs, fun hpop => ⟨hp hpop, fun _ _ _ => h.level hpop _ _⟩⟩

theorem Keeps.seq (ha : a.Keeps popped jumps d) (hb : b.Keeps popped jumps 0) :
    (Block.seq a b).Keeps popped jumps d := by
  obtain ⟨k, hk, hclimb, hlevel⟩ := ha
  obtain ⟨l, hl, hclimb', hlevel'⟩ := hb
  have habove := hclimb'.above hk
  rw [Int.zero_add] at habove
  refine ⟨l + k, by omega, hclimb.append habove, fun hp => ?_⟩
  obtain ⟨rfl, hfirst⟩ := hlevel hp
  obtain ⟨rfl, hsecond⟩ := hlevel' hp
  refine ⟨rfl, fun around x hj => ⟨hfirst around x hj, ?_⟩⟩
  have h := hsecond around x hj
  rwa [net_of_climbs hclimb, show x + d + (0 - d) = x + 0 by omega]

theorem Moves.seq_keeps (ha : a.Moves popped d m) (hb : b.Keeps popped jumps m) :
    (Block.seq a b).Keeps popped jumps d := by
  obtain ⟨k, hk, hclimb, hlevel⟩ := hb
  refine ⟨k, hk, ha.climbs.append hclimb, fun hp => ⟨(hlevel hp).1, fun around x hj => ?_⟩⟩
  refine ⟨ha.level hp _ _, ?_⟩
  have h := (hlevel hp).2 around x hj
  rwa [net_of_climbs ha.climbs, show x + d + (m - d) = x + m by omega]

/-- Code that no jump leaves stands above whatever the code behind it takes off. -/
theorem Keeps.seq_moves (ha : a.Keeps popped False 0) (hb : b.Moves popped d 0) (hd : 0 ≤ d) :
    (Block.seq a b).Keeps popped jumps d := by
  obtain ⟨k, hk, hclimb, hlevel⟩ := ha
  have hbelow := hclimb.above hd
  have habove := hb.climbs.above hk
  rw [Int.zero_add] at hbelow habove
  rw [Int.add_comm k d] at hbelow
  refine ⟨k, hk, hbelow.append habove, fun hp => ⟨(hlevel hp).1, fun around x _ => ?_⟩⟩
  refine ⟨?_, hb.level hp _ _⟩
  have h := (hlevel hp).2 around (x + d) False.elim
  rwa [Int.add_zero] at h

/-- A branch over code that leads back to the same depth. -/
theorem Moves.skip {op : Opcode} (hop : op.delta = 0) (hd : 0 ≤ d) (h : b.Moves popped d d) :
    (Block.skip op b).Moves popped d d := by
  refine ⟨⟨by omega, ?_⟩, fun hp _ _ => ⟨?_, h.level hp _ _⟩⟩
  · rw [hop, Int.add_zero]
    exact h.climbs
  · rw [net_of_climbs h.climbs]
    omega

/-- A branch over a statement. -/
theorem Keeps.skip {op : Opcode} (hop : op.delta = -1) (h : b.Keeps popped jumps 0) :
    (Block.skip op b).Keeps popped jumps 1 := by
  obtain ⟨k, hk, hclimb, hlevel⟩ := h
  refine ⟨k, hk, ⟨by omega, ?_⟩, fun hp => ?_⟩
  · rw [hop]
    exact hclimb
  · obtain ⟨rfl, hfirst⟩ := hlevel hp
    refine ⟨rfl, fun around x hj => ⟨net_of_climbs hclimb, ?_⟩⟩
    rw [hop, show x + 1 + -1 = x + 0 by omega]
    exact hfirst around x hj

/-- Two statements of which a test takes one. -/
theorem Keeps.either (ha : a.Keeps popped jumps 0) (hb : b.Keeps popped jumps 0) :
    (Block.either a b).Keeps popped jumps 1 := by
  obtain ⟨k, hk, hclimb, hlevel⟩ := ha
  obtain ⟨l, hl, hclimb', hlevel'⟩ := hb
  have habove := hclimb'.above hk
  rw [Int.zero_add] at habove
  have hbranch : Opcode.branch.delta = 0 := rfl
  have hzero : Opcode.branchZero.delta = -1 := rfl
  refine ⟨l + k, by omega, ⟨by omega, ?_⟩, fun hp => ?_⟩
  · rw [hzero]
    refine hclimb.append ⟨by omega, ?_⟩
    rw [hbranch, Int.add_zero]
    exact habove
  · obtain ⟨rfl, hfirst⟩ := hlevel hp
    obtain ⟨rfl, hsecond⟩ := hlevel' hp
    refine ⟨rfl, fun around x hj => ⟨net_of_climbs hclimb, net_of_climbs hclimb', ?_⟩⟩
    rw [show x + 1 - 1 = x + 0 by omega]
    exact ⟨hfirst around x hj, hsecond around x hj⟩

/-- A jump out of the body of a loop goes to the depth that the body has at its start. -/
theorem keeps_jump {op : Opcode} (hop : op.delta = -d) (j : Jump) :
    (Block.jump op j).Keeps popped True d := by
  refine ⟨0, Int.le_refl 0, Climbs.single (by omega) (by omega), fun _ =>
    ⟨rfl, fun around x hj => ?_⟩⟩
  rw [Level, hj trivial]
  omega

/-- A loop that goes back behind a statement. -/
theorem Keeps.loop {back : Opcode} (hop : back.delta = 0) (resume : Resume)
    (ha : a.Keeps popped True 0) (hb : b.Keeps popped jumps 0) :
    (Block.loop a b back resume).Keeps popped jumps 0 := by
  obtain ⟨k, hk, hclimb, hlevel⟩ := ha
  obtain ⟨l, hl, hclimb', hlevel'⟩ := hb
  have habove := hclimb'.above hk
  rw [Int.zero_add] at habove
  refine ⟨l + k, by omega, hclimb.append (habove.append (Climbs.single (by omega) (by omega))),
    fun hp => ?_⟩
  obtain ⟨rfl, hfirst⟩ := hlevel hp
  obtain ⟨rfl, hsecond⟩ := hlevel' hp
  refine ⟨rfl, fun around x hj => ⟨net_of_climbs hclimb, ?_, ?_, hsecond around x hj⟩⟩
  · rw [net_of_climbs hclimb']
    omega
  · have h := hfirst (x + 0) (x + 0) fun _ => rfl
    rwa [Int.add_zero (x + 0)] at h

/-- A loop that goes back by the value of an expression. -/
theorem Keeps.loop_value {back : Opcode} (hop : back.delta = -1) (resume : Resume)
    (ha : a.Keeps popped True 0) (hb : b.Moves popped 0 1) :
    (Block.loop a b back resume).Keeps popped jumps 0 := by
  obtain ⟨k, hk, hclimb, hlevel⟩ := ha
  have habove := hb.climbs.above hk
  rw [Int.zero_add] at habove
  refine ⟨k, hk, hclimb.append (habove.append (Climbs.single (by omega) (by omega))),
    fun hp => ?_⟩
  obtain ⟨rfl, hfirst⟩ := hlevel hp
  refine ⟨rfl, fun _ x _ => ⟨net_of_climbs hclimb, ?_, ?_, hb.level hp _ _⟩⟩
  · rw [net_of_climbs hb.climbs]
    omega
  · have h := hfirst (x + 0) (x + 0) fun _ => rfl
    rwa [Int.add_zero (x + 0)] at h

end Block

end Compile

end ScriptToolchain
