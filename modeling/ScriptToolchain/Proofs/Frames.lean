import ScriptToolchain.Compile.Frame
import ScriptToolchain.Proofs.Block

/-!
# Frames with blocks at their end

A frame grows by blocks: `Frame.put` is what a block makes of it. Each shape of
a block is the sequence of steps by which the generator writes it. A label gets
its target once: those that have one were given out, so the next label is open,
and a block sets the targets of its own labels only, but not of its jumps.
-/

namespace ScriptToolchain.Compile

namespace Block

/-- No jump has a label that the block does not give out. -/
theorem notMem_jumps {b : Block} {j : Jump} {n k : Nat} (h : k < n ∨ n + b.labels ≤ k) :
    k ∉ b.jumps j n := by
  intro hk
  have := mem_jumps hk
  omega

/-- A block sets the targets of its own labels, but not of those of its jumps. -/
theorem resolve_mem_directives {b : Block} {start n k : Nat} {t : UInt32}
    (h : .resolve k t ∈ b.directives start n) :
    (n ≤ k ∧ k < n + b.labels) ∧ ∀ j, k ∉ b.jumps j n := by
  induction b generalizing start n with
  | empty => cases h
  | instr | mark | jump => cases List.mem_singleton.mp h
  | seq a b iha ihb =>
    simp only [directives, List.mem_append] at h
    simp only [labels, jumps, List.mem_append, not_or]
    rcases h with h | h
    · obtain ⟨hrange, hjumps⟩ := iha h
      exact ⟨by omega, fun j => ⟨hjumps j, notMem_jumps (by omega)⟩⟩
    · obtain ⟨hrange, hjumps⟩ := ihb h
      exact ⟨by omega, fun j => ⟨notMem_jumps (by omega), hjumps j⟩⟩
  | skip op body ih =>
    simp only [directives, List.mem_cons, List.mem_append, List.not_mem_nil, or_false,
      reduceCtorEq, false_or, Directive.resolve.injEq] at h
    simp only [labels, jumps]
    rcases h with h | ⟨rfl, -⟩
    · obtain ⟨hrange, hjumps⟩ := ih h
      exact ⟨by omega, hjumps⟩
    · exact ⟨by omega, fun j => notMem_jumps (by omega)⟩
  | either yes no ihy ihn =>
    simp only [directives, List.mem_cons, List.mem_append, List.not_mem_nil, or_false,
      reduceCtorEq, false_or, Directive.resolve.injEq] at h
    simp only [labels, jumps, List.mem_append, not_or]
    rcases h with h | ⟨rfl, -⟩ | h | ⟨rfl, -⟩
    · obtain ⟨hrange, hjumps⟩ := ihy h
      exact ⟨by omega, fun j => ⟨hjumps j, notMem_jumps (by omega)⟩⟩
    · exact ⟨by omega, fun j => ⟨notMem_jumps (by omega), notMem_jumps (by omega)⟩⟩
    · obtain ⟨hrange, hjumps⟩ := ihn h
      exact ⟨by omega, fun j => ⟨notMem_jumps (by omega), hjumps j⟩⟩
    · exact ⟨by omega, fun j => ⟨notMem_jumps (by omega), notMem_jumps (by omega)⟩⟩
  | loop body tail back resume ihb iht =>
    simp only [directives, List.mem_cons, List.mem_append, List.mem_map, reduceCtorEq, false_or,
      Directive.resolve.injEq] at h
    simp only [labels, jumps]
    -- the jumps of the body get their targets here, those of the tail do not
    have hbody (hk : n ≤ k ∧ k < n + body.labels) :
        (n ≤ k ∧ k < n + (body.labels + tail.labels)) ∧
          ∀ j, k ∉ tail.jumps j (n + body.labels) :=
      ⟨by omega, fun j => notMem_jumps (by omega)⟩
    rcases h with h | h | ⟨_, hk, rfl, -⟩ | ⟨_, hk, rfl, -⟩
    · exact hbody (ihb h).1
    · obtain ⟨hrange, hjumps⟩ := iht h
      exact ⟨by omega, hjumps⟩
    · exact hbody (mem_jumps hk)
    · exact hbody (mem_jumps hk)

end Block

namespace LoopContext

/-- The context with the jumps of a block, where the next label is `n`. -/
def put (c : LoopContext) (n : Nat) (b : Block) : LoopContext :=
  { breaks := c.breaks ++ b.jumps .breakLoop n
    continues := c.continues ++ b.jumps .continueLoop n }

theorem nodup_put (n : Nat) (b : Block) :
    ((put {} n b).breaks ++ (put {} n b).continues).Nodup := by
  simp only [put, List.nil_append]
  exact b.nodup_jumps n

end LoopContext

namespace Frame

/-- The frame with a block written at its end. -/
def put (f : Frame) (b : Block) : Frame :=
  { f with
    latest := (b.directives f.size f.labels).reverse ++ f.latest
    size := f.size + b.size
    stack := b.climb f.stack
    labels := f.labels + b.labels
    loops :=
      match f.loops with
      | c :: loops => c.put f.labels b :: loops
      | [] => [] }

theorem put_empty (f : Frame) : f.put .empty = f := by
  rcases f with ⟨id, name, names, line, latest, size, stack, labels, _ | ⟨c, loops⟩⟩ <;>
    simp [put, Block.directives, Block.size, Block.labels, LoopContext.put, Block.jumps,
      Block.climb_empty]

theorem put_seq (f : Frame) (a b : Block) : f.put (.seq a b) = (f.put a).put b := by
  rcases f with ⟨id, name, names, line, latest, size, stack, labels, _ | ⟨c, loops⟩⟩ <;>
    simp [put, Block.directives, Block.size, Block.labels, LoopContext.put, Block.jumps,
      Block.climb_seq, Nat.add_assoc]

theorem isEmpty_loops_put (f : Frame) (b : Block) :
    (f.put b).loops.isEmpty = f.loops.isEmpty := by
  rcases f with ⟨id, name, names, line, latest, size, stack, labels, _ | ⟨c, loops⟩⟩ <;> rfl

/-- A closed block does not touch the loops. -/
theorem put_closed (f : Frame) {b : Block} (h : b.Closed) :
    f.put b =
      { f with
        latest := (b.directives f.size f.labels).reverse ++ f.latest
        size := f.size + b.size
        stack := b.climb f.stack
        labels := f.labels + b.labels } := by
  rcases f with ⟨id, name, names, line, latest, size, stack, labels, _ | ⟨c, loops⟩⟩ <;>
    simp [put, LoopContext.put, h.jumps_eq_nil]

/-- The target of an open label set. -/
def settle (f : Frame) (label : LabelId) (target : UInt32) : Frame :=
  f.push (.resolve label target)

/-- One target set for some open labels. -/
def settleAll (f : Frame) (target : UInt32) (labels : List LabelId) : Frame :=
  { f with latest := (labels.map (.resolve · target)).reverse ++ f.latest }

theorem put_skip (f : Frame) (op : Opcode) (b : Block) :
    ((f.reserve op).2.put b).settle f.labels ((f.reserve op).2.put b).here =
      f.put (.skip op b) := by
  rcases f with ⟨id, name, names, line, latest, size, stack, labels, _ | ⟨c, loops⟩⟩ <;>
    simp [put, settle, reserve, push, here, Block.directives, Block.size, Block.labels,
      LoopContext.put, Block.jumps, Directive.size, Block.branchSize, Nat.add_assoc,
      Block.climb_skip, Directive.climb, Opcode.effect_zero]

theorem put_either (f : Frame) (yes no : Block) :
    let f₁ := (f.reserve .branchZero).2.put yes
    let f₂ := (f₁.reserve .branch).2
    let f₃ := (f₂.settle f.labels f₂.here).put no
    f₃.settle f₁.labels f₃.here = f.put (.either yes no) := by
  rcases f with ⟨id, name, names, line, latest, size, stack, labels, _ | ⟨c, loops⟩⟩ <;>
    simp [put, settle, reserve, push, here, Block.directives, Block.size, Block.labels,
      LoopContext.put, Block.jumps, Directive.size, Block.branchSize, Nat.add_assoc,
      Opcode.tagSize, Emitter.patchSize, Block.climb_either, Directive.climb, Opcode.effect_zero]

/-- The frame at the start of the body of a loop. -/
def enter (f : Frame) : Frame :=
  { f with loops := {} :: f.loops }

/-- The frame behind the body of a loop, with the loops around. -/
def leave (f : Frame) (loops : List LoopContext) : Frame :=
  { f with loops }

/-- The frame behind a loop whose top and whose exit, if it is tested, are known. -/
def rounds (f : Frame) (top : UInt32) (exit : Option LabelId) (body tail : Block)
    (back : Opcode) (resume : Resume) : Frame :=
  let c := LoopContext.put {} f.labels body
  let f₁ := (f.enter.put body).leave f.loops
  let f₂ := (f₁.put tail).push (.emit back (.word top.toUInt64))
  let f₃ := match exit with
    | some exit => f₂.settle exit f₂.here
    | none => f₂
  let next := match resume with
    | .top => top
    | .tail => f₁.here
  (f₃.settleAll f₃.here c.breaks).settleAll next c.continues

theorem put_loop (f : Frame) (body tail : Block) (back : Opcode) (resume : Resume) :
    f.rounds f.here none body tail back resume = f.put (.loop body tail back resume) := by
  rcases f with ⟨id, name, names, line, latest, size, stack, labels, _ | ⟨c, loops⟩⟩ <;>
    cases resume <;>
    simp [rounds, put, settleAll, enter, leave, push, here, Block.directives, Block.size,
      Block.labels, LoopContext.put, Block.jumps, Directive.size, Operand.kind, OperandKind.size,
      Block.branchSize, Opcode.tagSize, Emitter.patchSize, Nat.add_assoc, Resume.address,
      Block.climb_loop, Directive.climb, Operand.count, Opcode.effect_zero]

/-- The test of a loop stands before the loop is entered, but its exit is one of the breaks. -/
theorem put_tested (f : Frame) {test : Block} (h : test.Closed) (body tail : Block)
    (back : Opcode) (resume : Resume) :
    ((f.put test).reserve .branchZero).2.rounds f.here (some (f.put test).labels) body tail back
        resume =
      f.put (.loop (.seq test (.seq (.jump .branchZero .breakLoop) body)) tail back resume) := by
  rw [put_closed f h]
  rcases f with ⟨id, name, names, line, latest, size, stack, labels, _ | ⟨c, loops⟩⟩ <;>
    cases resume <;>
    simp [rounds, put, settleAll, settle, reserve, enter, leave, push, here, Block.directives,
      Block.size, Block.labels, LoopContext.put, Block.jumps, Directive.size, Operand.kind,
      OperandKind.size, Block.branchSize, Opcode.tagSize, Emitter.patchSize, Nat.add_assoc,
      h.jumps_eq_nil, Resume.address, Block.climb_loop, Block.climb_seq, Block.climb_jump,
      Directive.climb, Operand.count, Opcode.effect_zero]

/-! ## Open labels -/

/-- Only labels that were given out have got targets. -/
def Neat (f : Frame) : Prop :=
  ∀ k t, .resolve k t ∈ f.latest → k < f.labels

/-- The label was given out and has no target yet. -/
def IsOpen (f : Frame) (label : LabelId) : Prop :=
  label < f.labels ∧ ∀ t, .resolve label t ∉ f.latest

variable {f : Frame} {label : LabelId}

/-- An open label gets its target. -/
theorem IsOpen.resolve (h : f.IsOpen label) (target : UInt32) :
    f.resolve label target = .ok (f.settle label target) := by
  have hnone : f.target? label = none := by
    rw [target?, List.findSome?_eq_none_iff]
    intro d hd
    split
    · rename_i k t
      rw [if_neg]
      rintro rfl
      exact h.2 t hd
    · rfl
  rw [Frame.resolve, if_pos h.1, hnone, settle]

theorem Neat.put (h : f.Neat) (b : Block) : (f.put b).Neat := by
  intro k t hk
  rcases List.mem_append.mp hk with hk | hk
  · exact (Block.resolve_mem_directives (List.mem_reverse.mp hk)).1.2
  · exact Nat.lt_of_lt_of_le (h k t hk) (Nat.le_add_right ..)

/-- A block leaves the labels around it alone. -/
theorem IsOpen.put (h : f.IsOpen label) (b : Block) : (f.put b).IsOpen label := by
  refine ⟨Nat.lt_of_lt_of_le h.1 (Nat.le_add_right ..), fun t hk => ?_⟩
  rcases List.mem_append.mp hk with hk | hk
  · have := (Block.resolve_mem_directives (List.mem_reverse.mp hk)).1.1
    exact absurd h.1 (Nat.not_lt.mpr this)
  · exact h.2 t hk

/-- The jumps out of a block are open behind it. -/
theorem Neat.isOpen_jump (h : f.Neat) {b : Block} {j : Jump} (hk : label ∈ b.jumps j f.labels) :
    (f.put b).IsOpen label := by
  have hrange := Block.mem_jumps hk
  refine ⟨hrange.2, fun t ht => ?_⟩
  rcases List.mem_append.mp ht with ht | ht
  · exact (Block.resolve_mem_directives (List.mem_reverse.mp ht)).2 j hk
  · exact absurd (h label t ht) (Nat.not_lt.mpr hrange.1)

/-- Those of a loop are new, and open behind its body. -/
theorem Neat.isOpen_context (h : f.Neat) {b : Block}
    (hk : label ∈ (LoopContext.put {} f.labels b).breaks ++
      (LoopContext.put {} f.labels b).continues) :
    (f.put b).IsOpen label ∧ f.labels ≤ label := by
  simp only [LoopContext.put, List.nil_append, List.mem_append] at hk
  rcases hk with hk | hk
  · exact ⟨h.isOpen_jump hk, (Block.mem_jumps hk).1⟩
  · exact ⟨h.isOpen_jump hk, (Block.mem_jumps hk).1⟩

theorem Neat.push (h : f.Neat) {d : Directive} (hd : ∀ k t, d = .resolve k t → k < f.labels) :
    (f.push d).Neat := by
  intro k t hk
  rcases List.mem_cons.mp hk with hk | hk
  · exact hd k t hk.symm
  · exact h k t hk

theorem IsOpen.push (h : f.IsOpen label) {d : Directive} (hd : ∀ t, d ≠ .resolve label t) :
    (f.push d).IsOpen label := by
  refine ⟨h.1, fun t ht => ?_⟩
  rcases List.mem_cons.mp ht with ht | ht
  · exact hd t ht.symm
  · exact h.2 t ht

theorem Neat.settle (h : f.Neat) (hlabel : label < f.labels) (target : UInt32) :
    (f.settle label target).Neat :=
  h.push (by rintro k t ⟨⟩; exact hlabel)

theorem IsOpen.settle (h : f.IsOpen label) {other : LabelId} (hne : label ≠ other)
    (target : UInt32) : (f.settle other target).IsOpen label :=
  h.push (by rintro t ⟨⟩; exact hne rfl)

theorem IsOpen.settleAll (h : f.IsOpen label) {labels : List LabelId} (hne : label ∉ labels)
    (target : UInt32) : (f.settleAll target labels).IsOpen label := by
  refine ⟨h.1, fun t ht => ?_⟩
  rcases List.mem_append.mp ht with ht | ht
  · obtain ⟨l, hl, heq⟩ := List.mem_map.mp (List.mem_reverse.mp ht)
    cases heq
    exact hne hl
  · exact h.2 t ht

theorem Neat.reserve (h : f.Neat) (op : Opcode) : (f.reserve op).2.Neat :=
  fun k t hk => Nat.lt_succ_of_lt (h.push (d := .branch op) nofun k t hk)

theorem IsOpen.reserve (h : f.IsOpen label) (op : Opcode) : (f.reserve op).2.IsOpen label :=
  ⟨Nat.lt_succ_of_lt h.1, (h.push (d := .branch op) nofun).2⟩

/-- The label of a new branch is open. -/
theorem Neat.isOpen_reserve (h : f.Neat) (op : Opcode) : (f.reserve op).2.IsOpen f.labels :=
  ⟨Nat.lt_succ_self _, fun t ht =>
    Nat.lt_irrefl _ (h.push (d := .branch op) nofun f.labels t ht)⟩

/-- The frame is in a loop or not, its labels are in order, and so is the depth of its stack. -/
structure Ready (inLoop : Bool) (f : Frame) : Prop where
  loops : f.loops.isEmpty = !inLoop
  neat : f.Neat
  depth : f.stack.finalDepth ≤ f.stack.maxDepth

variable {inLoop : Bool}

theorem Ready.put (h : f.Ready inLoop) (b : Block) : (f.put b).Ready inLoop :=
  ⟨(f.isEmpty_loops_put b).trans h.loops, h.neat.put b, Block.finalDepth_le_maxDepth h.depth b⟩

theorem Ready.reserve (h : f.Ready inLoop) (op : Opcode) : (f.reserve op).2.Ready inLoop :=
  ⟨h.loops, h.neat.reserve op, Int.le_max_right ..⟩

theorem Ready.settle (h : f.Ready inLoop) (hlabel : label < f.labels) (target : UInt32) :
    (f.settle label target).Ready inLoop :=
  ⟨h.loops, h.neat.settle hlabel target, h.depth⟩

end Frame

end ScriptToolchain.Compile
