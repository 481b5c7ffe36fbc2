import ScriptToolchain.Compile.Frame
import ScriptToolchain.Proofs.Assembly

/-!
# Structured code

A block is the code of a function before it has addresses and labels: each
branch of the generator is one of a few shapes, and a shape says by itself
where its branches go. `Block.directives` is what the generator writes for a
block, `Block.place` is what these directives come to once they are linked.
-/

namespace ScriptToolchain.Compile

/-- Where the next round of a loop starts. -/
inductive Resume where
  /-- At the top of the loop. -/
  | top
  /-- Behind the body. -/
  | tail
deriving Repr, DecidableEq

/-- Where a round of a loop starts, from the addresses of its top and of its tail. -/
def Resume.address (top tail : Nat) : Resume → Nat
  | .top => top
  | .tail => tail

/-- Code without addresses. -/
inductive Block where
  | empty
  | instr (op : Opcode) (operand : Operand)
  | mark (line : UInt32)
  | seq (first second : Block)
  /-- A branch over `body`. -/
  | skip (op : Opcode) (body : Block)
  /-- `yes`, or `no` when the popped value is zero. -/
  | either (yes no : Block)
  /-- A loop that goes back to its top by `back`; its test is a jump in `body`. -/
  | loop (body tail : Block) (back : Opcode) (resume : Resume)
  /-- A branch out of the body of the loop around. -/
  | jump (op : Opcode) (j : Jump)
deriving Repr, DecidableEq

namespace Block

/-- The number of bytes of a branch. -/
def branchSize : Nat :=
  Opcode.tagSize + Emitter.patchSize

/-- The number of bytes. -/
def size : Block → Nat
  | .empty => 0
  | .instr _ x => Opcode.tagSize + x.kind.size
  | .mark _ => Opcode.tagSize
  | .seq a b => a.size + b.size
  | .skip _ body => branchSize + body.size
  | .either yes no => branchSize + yes.size + (branchSize + no.size)
  | .loop body tail _ _ => body.size + tail.size + branchSize
  | .jump .. => branchSize

/-- The number of branches with an open target. -/
def labels : Block → Nat
  | .empty | .instr .. | .mark _ => 0
  | .seq a b => a.labels + b.labels
  | .skip _ body => 1 + body.labels
  | .either yes no => 1 + yes.labels + (1 + no.labels)
  | .loop body tail _ _ => body.labels + tail.labels
  | .jump .. => 1

/-- The labels of the jumps that leave the block, where the next label is `n`. -/
def jumps (j : Jump) (n : Nat) : Block → List Nat
  | .empty | .instr .. | .mark _ => []
  | .seq a b => a.jumps j n ++ b.jumps j (n + a.labels)
  | .skip _ body => body.jumps j (n + 1)
  | .either yes no => yes.jumps j (n + 1) ++ no.jumps j (n + 1 + yes.labels + 1)
  | .loop body tail _ _ => tail.jumps j (n + body.labels)
  | .jump _ k => if k = j then [n] else []

/-- No jump leaves the block. -/
def Closed : Block → Prop
  | .empty | .instr .. | .mark _ => True
  | .seq a b => a.Closed ∧ b.Closed
  | .skip _ body => body.Closed
  | .either yes no => yes.Closed ∧ no.Closed
  | .loop _ tail _ _ => tail.Closed
  | .jump .. => False

/-- The directives for a block, from an address and a label on. -/
def directives (start n : Nat) : Block → List Directive
  | .empty => []
  | .instr op x => [.emit op x]
  | .mark line => [.line line]
  | .seq a b => a.directives start n ++ b.directives (start + a.size) (n + a.labels)
  | .skip op body =>
    .branch op :: (body.directives (start + branchSize) (n + 1) ++
      [.resolve n (saturate32 (start + branchSize + body.size))])
  | .either yes no =>
    let other := start + branchSize + yes.size + branchSize
    .branch .branchZero :: (yes.directives (start + branchSize) (n + 1) ++
      .branch .branch :: .resolve n (saturate32 other) ::
        (no.directives other (n + 1 + yes.labels + 1) ++
          [.resolve (n + 1 + yes.labels) (saturate32 (other + no.size))]))
  | .loop body tail back resume =>
    let resumed := start + body.size
    let exit := resumed + tail.size + branchSize
    body.directives start n ++ (tail.directives resumed (n + body.labels) ++
      .emit back (.word (saturate32 start).toUInt64) ::
        ((body.jumps .breakLoop n).map (.resolve · (saturate32 exit)) ++
          (body.jumps .continueLoop n).map
            (.resolve · (saturate32 (resume.address start resumed)))))
  | .jump op _ => [.branch op]

/-- A branch at an address. -/
def goto (start : Nat) (op : Opcode) (target : Nat) : Instruction :=
  ⟨saturate32 start, op, .word (saturate32 target).toUInt64⟩

/-- The instructions of a block at an address, inside a loop with this exit and next round. -/
def place (start exit next : Nat) : Block → List Instruction
  | .empty => []
  | .instr op x => [⟨saturate32 start, op, x⟩]
  | .mark _ => [⟨saturate32 start, .line, .none⟩]
  | .seq a b => a.place start exit next ++ b.place (start + a.size) exit next
  | .skip op body =>
    goto start op (start + branchSize + body.size) ::
      body.place (start + branchSize) exit next
  | .either yes no =>
    let other := start + branchSize + yes.size + branchSize
    goto start .branchZero other :: (yes.place (start + branchSize) exit next ++
      goto (start + branchSize + yes.size) .branch (other + no.size) ::
        no.place other exit next)
  | .loop body tail back resume =>
    let resumed := start + body.size
    let last := resumed + tail.size
    body.place start (last + branchSize) (resume.address start resumed) ++
      (tail.place resumed exit next ++ [goto last back start])
  | .jump op .breakLoop => [goto start op exit]
  | .jump op .continueLoop => [goto start op next]

/-- The changes of the stack depth in the order of the code. -/
def changes : Block → List Int
  | .empty => []
  | .instr op x => [op.change x]
  | .mark _ => [0]
  | .seq a b => a.changes ++ b.changes
  | .skip op body => op.delta :: body.changes
  | .either yes no => Opcode.branchZero.delta :: (yes.changes ++ Opcode.branch.delta :: no.changes)
  | .loop body tail back _ => body.changes ++ (tail.changes ++ [back.delta])
  | .jump op _ => [op.delta]

/-- The change of the stack depth of the whole block. -/
def net (b : Block) : Int :=
  b.changes.sum

/-- What is known of the stack behind the block. -/
def climb (b : Block) (r : StackReport) : StackReport :=
  b.changes.foldl StackReport.add r

/-! ## Depths -/

variable (r : StackReport)

theorem climb_empty : empty.climb r = r :=
  rfl

theorem climb_instr (op : Opcode) (x : Operand) : (instr op x).climb r = r.add (op.change x) :=
  rfl

theorem climb_seq (a b : Block) : (seq a b).climb r = b.climb (a.climb r) :=
  List.foldl_append

theorem climb_skip (op : Opcode) (body : Block) :
    (skip op body).climb r = body.climb (r.add op.delta) :=
  rfl

theorem climb_either (yes no : Block) :
    (either yes no).climb r =
      no.climb ((yes.climb (r.add Opcode.branchZero.delta)).add Opcode.branch.delta) := by
  rw [climb, changes, List.foldl_cons, List.foldl_append, List.foldl_cons, climb, climb]

theorem climb_loop (body tail : Block) (back : Opcode) (resume : Resume) :
    (loop body tail back resume).climb r = (tail.climb (body.climb r)).add back.delta := by
  rw [climb, changes, List.foldl_append, List.foldl_append, climb, climb]
  rfl

theorem climb_jump (op : Opcode) (j : Jump) : (jump op j).climb r = r.add op.delta :=
  rfl

theorem finalDepth_climb (b : Block) :
    (b.climb r).finalDepth = r.finalDepth + b.net := by
  rw [climb, net]
  generalize b.changes = changes
  induction changes generalizing r with
  | nil => simp
  | cons change rest ih =>
    rw [List.foldl_cons, ih, StackReport.finalDepth_add, List.sum_cons, Int.add_assoc]

variable {r} in
/-- A block keeps the depth at or below the greatest one. -/
theorem finalDepth_le_maxDepth (h : r.finalDepth ≤ r.maxDepth) (b : Block) :
    (b.climb r).finalDepth ≤ (b.climb r).maxDepth := by
  rw [climb]
  rcases List.eq_nil_or_concat b.changes with hnil | ⟨front, last, hlast⟩
  · rw [hnil]
    exact h
  · rw [hlast, List.concat_eq_append, List.foldl_append]
    exact Int.le_max_right _ _

/-! ## Sizes -/

@[simp]
theorem length_directives (b : Block) (start n : Nat) :
    Directive.length (b.directives start n) = b.size := by
  have hresolves (t : UInt32) (l : List Nat) : Directive.length (l.map (.resolve · t)) = 0 := by
    induction l with
    | nil => rfl
    | cons _ _ ih => rw [List.map_cons, Directive.length_cons, ih]; rfl
  induction b generalizing start n with
  | empty | instr | mark | jump => rfl
  | seq a b iha ihb => rw [directives, Directive.length_append, iha, ihb, size]
  | skip op body ih =>
    rw [directives, Directive.length_cons, Directive.length_append, ih, size]
    rfl
  | either yes no ihy ihn =>
    simp only [directives, Directive.length_cons, Directive.length_append, ihy, ihn, size]
    simp only [Directive.size, Directive.length, List.map_nil, List.sum_nil, branchSize]
    omega
  | loop body tail back resume ihb iht =>
    simp only [directives, Directive.length_append, Directive.length_cons, ihb, iht, hresolves,
      size, Nat.add_assoc]
    rfl

@[simp]
theorem labelCount_directives (b : Block) (start n : Nat) :
    Directive.labelCount (b.directives start n) = b.labels := by
  have hresolves (t : UInt32) (l : List Nat) :
      Directive.labelCount (l.map (.resolve · t)) = 0 := by
    induction l with
    | nil => rfl
    | cons _ _ ih => rw [List.map_cons, Directive.labelCount_cons, ih]; rfl
  induction b generalizing start n with
  | empty | instr | mark | jump => rfl
  | seq a b iha ihb => rw [directives, Directive.labelCount_append, iha, ihb, labels]
  | skip op body ih =>
    rw [directives, Directive.labelCount_cons, Directive.labelCount_append, ih, labels]
    rfl
  | either yes no ihy ihn =>
    simp only [directives, Directive.labelCount_cons, Directive.labelCount_append, ihy, ihn,
      labels]
    simp only [Directive.labels, Directive.labelCount, List.map_nil, List.sum_nil]
    omega
  | loop body tail back resume ihb iht =>
    simp only [directives, Directive.labelCount_append, Directive.labelCount_cons, ihb, iht,
      hresolves, labels]
    rfl

@[simp]
theorem length_place (b : Block) (start exit next : Nat) :
    Code.length (b.place start exit next) = b.size := by
  induction b generalizing start exit next with
  | empty | instr | mark => rfl
  | jump op j => cases j <;> rfl
  | seq a b iha ihb => rw [place, Code.length_append, iha, ihb, size]
  | skip op body ih =>
    rw [place, Code.length_cons, ih, size]
    rfl
  | either yes no ihy ihn =>
    simp only [place, Code.length_cons, Code.length_append, ihy, ihn, size]
    rw [← Nat.add_assoc]
    rfl
  | loop body tail back resume ihb iht =>
    simp only [place, Code.length_append, ihb, iht, size, Nat.add_assoc]
    rfl

/-! ## Jumps -/

/-- The label of a jump is one that the block gives out. -/
theorem mem_jumps {b : Block} {j : Jump} {n k : Nat} (h : k ∈ b.jumps j n) :
    n ≤ k ∧ k < n + b.labels := by
  induction b generalizing n with
  | empty | instr | mark => simp [jumps] at h
  | jump op i =>
    rw [jumps] at h
    rw [labels]
    split at h
    · rw [List.mem_singleton] at h
      omega
    · cases h
  | seq a b iha ihb =>
    rw [jumps, List.mem_append] at h
    rw [labels]
    rcases h with h | h
    · have := iha h
      omega
    · have := ihb h
      omega
  | skip op body ih =>
    rw [jumps] at h
    rw [labels]
    have := ih h
    omega
  | either yes no ihy ihn =>
    rw [jumps, List.mem_append] at h
    rw [labels]
    rcases h with h | h
    · have := ihy h
      omega
    · have := ihn h
      omega
  | loop body tail back resume _ iht =>
    rw [jumps] at h
    rw [labels]
    have := iht h
    omega

/-- A closed block has no jump that leaves it. -/
theorem Closed.jumps_eq_nil {b : Block} (h : b.Closed) (j : Jump) (n : Nat) :
    b.jumps j n = [] := by
  induction b generalizing n with
  | empty | instr | mark => rfl
  | jump => exact h.elim
  | seq a b iha ihb => rw [jumps, iha h.1, ihb h.2, List.append_nil]
  | skip op body ih => rw [jumps, ih h]
  | either yes no ihy ihn => rw [jumps, ihy h.1, ihn h.2, List.append_nil]
  | loop body tail back resume _ iht => rw [jumps, iht h]

/-- Two families of labels below and above a bound, merged. -/
theorem nodup_merge {a a' b b' : List Nat} {m : Nat} (ha : (a ++ a').Nodup)
    (hb : (b ++ b').Nodup) (hlow : ∀ k ∈ a ++ a', k < m) (hhigh : ∀ k ∈ b ++ b', m ≤ k) :
    ((a ++ b) ++ (a' ++ b')).Nodup := by
  have hperm : List.Perm ((a ++ a') ++ (b ++ b')) ((a ++ b) ++ (a' ++ b')) := by
    rw [List.append_assoc, List.append_assoc]
    refine List.Perm.append_left a ?_
    rw [← List.append_assoc, ← List.append_assoc]
    exact List.Perm.append_right b' List.perm_append_comm
  refine hperm.nodup_iff.mp (List.nodup_append.mpr ⟨ha, hb, ?_⟩)
  rintro k hk l hl rfl
  have := hlow k hk
  have := hhigh k hl
  omega

/-- No label is that of two jumps. -/
theorem nodup_jumps (b : Block) (n : Nat) :
    (b.jumps .breakLoop n ++ b.jumps .continueLoop n).Nodup := by
  have hrange (b : Block) (n : Nat) {k : Nat}
      (hk : k ∈ b.jumps .breakLoop n ++ b.jumps .continueLoop n) : n ≤ k ∧ k < n + b.labels :=
    (List.mem_append.mp hk).elim mem_jumps mem_jumps
  induction b generalizing n with
  | empty | instr | mark => simp [jumps]
  | jump op j => cases j <;> simp [jumps]
  | seq a b iha ihb =>
    exact nodup_merge (m := n + a.labels) (iha _) (ihb _) (fun k hk => (hrange a _ hk).2)
      fun k hk => (hrange b _ hk).1
  | skip op body ih => exact ih _
  | either yes no ihy ihn =>
    refine nodup_merge (m := n + 1 + yes.labels) (ihy _) (ihn _)
      (fun k hk => (hrange yes _ hk).2) fun k hk => ?_
    have := (hrange no _ hk).1
    omega
  | loop body tail back resume _ iht => exact iht _

/-! ## Linking a block -/

variable {target : LabelId → UInt32}

theorem link_branch (start n : Nat) (op : Opcode) (rest : List Directive) :
    Directive.link target start n (.branch op :: rest) =
      ⟨saturate32 start, op, .word (target n).toUInt64⟩ ::
        Directive.link target (start + branchSize) (n + 1) rest :=
  rfl

theorem link_resolve (start n k : Nat) (t : UInt32) (rest : List Directive) :
    Directive.link target start n (.resolve k t :: rest) = Directive.link target start n rest :=
  rfl

theorem link_resolves (start n : Nat) (t : UInt32) (l : List Nat) :
    Directive.link target start n (l.map (.resolve · t)) = [] := by
  induction l with
  | nil => rfl
  | cons k rest ih => rw [List.map_cons, link_resolve, ih]

/--
A block links to its placed instructions when every label has the target that the block sets, or
the exit or the next round of the loop around.
-/
theorem link_directives (b : Block) (start n exit next : Nat)
    (hset : ∀ k t, .resolve k t ∈ b.directives start n → target k = t)
    (hbreak : ∀ k ∈ b.jumps .breakLoop n, target k = saturate32 exit)
    (hcontinue : ∀ k ∈ b.jumps .continueLoop n, target k = saturate32 next) :
    Directive.link target start n (b.directives start n) = b.place start exit next := by
  induction b generalizing start n exit next with
  | empty | instr | mark => rfl
  | jump op j =>
    cases j with
    | breakLoop =>
      rw [directives, link_branch, hbreak n (by simp [jumps])]
      rfl
    | continueLoop =>
      rw [directives, link_branch, hcontinue n (by simp [jumps])]
      rfl
  | seq a b iha ihb =>
    simp only [directives, jumps, List.mem_append] at hset hbreak hcontinue
    rw [directives, Directive.link_append, length_directives, labelCount_directives, place]
    rw [iha _ _ _ _ (fun k t h => hset k t (.inl h)) (fun k h => hbreak k (.inl h))
      fun k h => hcontinue k (.inl h)]
    rw [ihb _ _ _ _ (fun k t h => hset k t (.inr h)) (fun k h => hbreak k (.inr h))
      fun k h => hcontinue k (.inr h)]
  | skip op body ih =>
    simp only [directives, jumps, List.mem_append, List.mem_cons, List.not_mem_nil,
      or_false] at hset hbreak hcontinue
    have hself := hset n _ (.inr (.inr rfl))
    rw [directives, link_branch, Directive.link_append, link_resolve, hself, place, goto]
    rw [ih _ _ _ _ (fun k t h => hset k t (.inr (.inl h))) hbreak hcontinue]
    rw [Directive.link, List.append_nil]
  | either yes no ihy ihn =>
    simp only [directives, jumps, List.mem_append, List.mem_cons, List.not_mem_nil,
      or_false] at hset hbreak hcontinue
    have hyes := hset n _ (.inr (.inr (.inr (.inl rfl))))
    have hno := hset (n + 1 + yes.labels) _ (.inr (.inr (.inr (.inr (.inr rfl)))))
    rw [directives, link_branch, Directive.link_append, link_branch, link_resolve,
      Directive.link_append, link_resolve, length_directives, labelCount_directives, hyes, hno]
    rw [ihy _ _ _ _ (fun k t h => hset k t (.inr (.inl h))) (fun k h => hbreak k (.inl h))
      fun k h => hcontinue k (.inl h)]
    rw [ihn _ _ _ _ (fun k t h => hset k t (.inr (.inr (.inr (.inr (.inl h))))))
      (fun k h => hbreak k (.inr h)) fun k h => hcontinue k (.inr h)]
    rw [Directive.link, List.append_nil]
    rfl
  | loop body tail back resume ihb iht =>
    simp only [directives, jumps, List.mem_append, List.mem_cons] at hset hbreak hcontinue
    have hbreaks := fun k h => hset k _ (.inr (.inr (.inr (.inl (List.mem_map_of_mem h)))))
    have hcontinues := fun k h => hset k _ (.inr (.inr (.inr (.inr (List.mem_map_of_mem h)))))
    rw [directives, Directive.link_append, Directive.link_append, length_directives,
      length_directives, labelCount_directives, labelCount_directives]
    rw [ihb _ _ _ _ (fun k t h => hset k t (.inl h)) hbreaks hcontinues]
    rw [iht _ _ _ _ (fun k t h => hset k t (.inr (.inl h))) hbreak hcontinue]
    rw [Directive.link, Directive.link_append, link_resolves, link_resolves]
    rfl

end Block

end ScriptToolchain.Compile
