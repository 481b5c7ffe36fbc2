import ScriptToolchain.Proofs.Execution

/-!
# The machine runs blocks

Where code holds a placed block, the machine started at the block reaches the
place where the block is left. The other way round, a machine that halts from
there on has left the block before, with no more steps to go than it had, and
with fewer behind a jump: that is what bounds the rounds of a loop.
-/

namespace ScriptToolchain

open Machine

variable {V S : Type} {p : Program} {D : Domain V S} {code : Bytes} {k : Nat}
  {stack stack' : List V} {s s' : S}

namespace Code

/-- The code has these instructions from `start` on. -/
def Hosts (code : Bytes) (start : Nat) : List Instruction → Prop
  | [] => True
  | i :: rest => Instruction.decodeAt code start = .ok i ∧ i.Fits ∧ Hosts code (start + i.size) rest

theorem hosts_append {start : Nat} {xs ys : List Instruction} :
    Hosts code start (xs ++ ys) ↔
      Hosts code start xs ∧ Hosts code (start + length xs) ys := by
  induction xs generalizing start with
  | nil => simp [Hosts]
  | cons i rest ih => simp only [List.cons_append, Hosts, ih, length_cons, Nat.add_assoc, and_assoc]

theorem hosts_assemble {is : List Instruction} (h : Placed 0 is) (hlt : length is < 2 ^ 32) :
    Hosts (assemble is) 0 is := by
  have hrest {before rest : List Instruction} (hsplit : is = before ++ rest) :
      Hosts (assemble is) (length before) rest := by
    induction rest generalizing before with
    | nil => trivial
    | cons i rest ih =>
      have hplaced := h
      rw [hsplit] at hplaced
      obtain ⟨-, haddress, hfit, -⟩ := placed_append.mp hplaced
      have hlength := hlt
      rw [hsplit, length_append, length_cons] at hlength
      have hdecode := decodeAt_of_placed h hlt (i := i) (by rw [hsplit]; simp)
      rw [haddress, Nat.zero_add, UInt32.toNat_ofNat_of_lt' (by show _ < 2 ^ 32; omega)] at hdecode
      refine ⟨hdecode, hfit, ?_⟩
      have hbehind : Hosts (assemble is) (length (before ++ [i])) rest :=
        ih (by rw [hsplit, List.append_assoc]; rfl)
      rwa [length_append, length_cons, length_nil] at hbehind
  exact hrest (List.nil_append is).symm

end Code

/-- Where a jump out of the body of a loop goes. -/
def Jump.address (exit next : Nat) : Jump → Nat
  | .breakLoop => exit
  | .continueLoop => next

namespace Compile

open Code

/-- A branch goes to its target, or to the next instruction. -/
theorem run_goto {op : Opcode} (hop : op.isBranch = true) {pc start target : Nat}
    (hi : Instruction.decodeAt code pc = .ok (Block.goto start op target))
    (htarget : target < 2 ^ 32) :
    run p D code (k + 1) ⟨pc, stack, s⟩ =
      match test D op stack with
      | some (taken, stack) =>
        run p D code k ⟨if taken then target else pc + Block.branchSize, stack, s⟩
      | none => none := by
  have hword : (saturate32 target).toUInt64.toNat = target := by
    rw [UInt32.toNat_toUInt64, toNat_saturate32 htarget]
  have hact : act p D op (.word (saturate32 target).toUInt64) stack s =
      branch D op (.word (saturate32 target).toUInt64) stack s := by
    cases op <;> first | contradiction | rfl
  rw [run_succ hi (Block.fits_goto hop start target), Block.goto]
  simp only [hact, branch]
  rcases test D op stack with _ | ⟨_ | _, stack'⟩
  · rfl
  · rfl
  · simp only [hword, if_true]

/-- The machine comes from `c` to where `rest` says what is left to run. -/
def Reaches (p : Program) (D : Domain V S) (code : Bytes) (c : Config V S)
    (rest : Nat → Option (V × S)) : Prop :=
  ∃ n, ∀ k, run p D code (k + n) c = rest k

namespace Reaches

variable {c c' : Config V S} {rest rest' : Nat → Option (V × S)}

theorem trans (h : Reaches p D code c fun k => run p D code k c')
    (h' : Reaches p D code c' rest) : Reaches p D code c rest := by
  obtain ⟨n, hn⟩ := h
  obtain ⟨m, hm⟩ := h'
  exact ⟨m + n, fun k => by rw [← Nat.add_assoc, hn]; exact hm k⟩

theorem congr (h : Reaches p D code c rest) (heq : ∀ k, rest k = rest' k) :
    Reaches p D code c rest' := by
  obtain ⟨n, hn⟩ := h
  exact ⟨n, fun k => (hn k).trans (heq k)⟩

end Reaches

/-- A branch whose test is known. -/
theorem reaches_tested {op : Opcode} (hop : op.isBranch = true) {pc start target : Nat}
    (hi : Instruction.decodeAt code pc = .ok (Block.goto start op target))
    (htarget : target < 2 ^ 32) {taken : Bool} (htest : test D op stack = some (taken, stack')) :
    Reaches p D code ⟨pc, stack, s⟩ fun k =>
      run p D code k ⟨if taken then target else pc + Block.branchSize, stack', s⟩ :=
  ⟨1, fun k => by rw [run_goto hop hi htarget, htest]⟩

/-- A run that halts from a branch on has passed its test. -/
theorem tested_of_run {op : Opcode} (hop : op.isBranch = true) {pc start target : Nat}
    (hi : Instruction.decodeAt code pc = .ok (Block.goto start op target))
    (htarget : target < 2 ^ 32) {r : V × S} (hrun : run p D code k ⟨pc, stack, s⟩ = some r) :
    ∃ taken stack' m, k = m + 1 ∧ test D op stack = some (taken, stack') ∧
      run p D code m ⟨if taken then target else pc + Block.branchSize, stack', s⟩ = some r := by
  cases k with
  | zero => cases hrun
  | succ m =>
    rw [run_goto hop hi htarget] at hrun
    split at hrun
    · rename_i taken stack' htest
      exact ⟨taken, stack', m, rfl, htest, hrun⟩
    · cases hrun

/-- What is left to run behind a block. -/
def Out.goOn (p : Program) (D : Domain V S) (code : Bytes) (k behind exit next : Nat) :
    Out V S → Option (V × S)
  | .fall stack s => run p D code k ⟨behind, stack, s⟩
  | .jump .breakLoop stack s => run p D code k ⟨exit, stack, s⟩
  | .jump .continueLoop stack s => run p D code k ⟨next, stack, s⟩
  | .halt v s => some (v, s)

/-- The number of steps that the last instruction of the block is sure to take. -/
def Out.steps : Out V S → Nat
  | .jump .. => 1
  | _ => 0

/-- What is left to run behind a round of a loop. -/
def Turn.goOn (p : Program) (D : Domain V S) (code : Bytes) (k top behind exit next : Nat) :
    Turn V S → Option (V × S)
  | .again stack s => run p D code k ⟨top, stack, s⟩
  | .leave out => out.goOn p D code k behind exit next

def Turn.steps : Turn V S → Nat
  | .again .. => 1
  | .leave out => out.steps

namespace Block

variable {a b : Block} {start exit next : Nat} {out : Out V S} {turn : Turn V S}

theorem add_size_either : start + (Block.either a b).size =
    start + branchSize + a.size + branchSize + b.size := by
  rw [size]
  omega

theorem add_size_loop {back : Opcode} {resume : Resume} :
    start + (Block.loop a b back resume).size = start + a.size + b.size + branchSize := by
  rw [size]
  omega

/-- The code holds the block at `start`, inside a loop with this exit and next round. -/
structure Sits (code : Bytes) (b : Block) (start exit next : Nat) : Prop where
  wellFormed : b.WellFormed
  hosts : Hosts code start (b.place start exit next)
  lt : start + b.size < 2 ^ 32
  exit : exit < 2 ^ 32
  next : next < 2 ^ 32

namespace Sits

theorem instr {op : Opcode} {x : Operand} (h : Sits code (.instr op x) start exit next) :
    Instruction.decodeAt code start = .ok ⟨saturate32 start, op, x⟩ ∧
      Instruction.Fits ⟨saturate32 start, op, x⟩ :=
  ⟨h.hosts.1, h.hosts.2.1⟩

theorem mark {line : UInt32} (h : Sits code (.mark line) start exit next) :
    Instruction.decodeAt code start = .ok ⟨saturate32 start, .line, .none⟩ ∧
      Instruction.Fits ⟨saturate32 start, .line, .none⟩ :=
  ⟨h.hosts.1, h.hosts.2.1⟩

theorem seq (h : Sits code (.seq a b) start exit next) :
    Sits code a start exit next ∧ Sits code b (start + a.size) exit next := by
  obtain ⟨hwf, hhosts, hlt, hexit, hnext⟩ := h
  obtain ⟨ha, hb⟩ := hosts_append.mp hhosts
  rw [length_place] at hb
  rw [size] at hlt
  exact ⟨⟨hwf.1, ha, by omega, hexit, hnext⟩, ⟨hwf.2, hb, by omega, hexit, hnext⟩⟩

theorem skip {op : Opcode} (h : Sits code (.skip op b) start exit next) :
    Instruction.decodeAt code start = .ok (goto start op (start + branchSize + b.size)) ∧
      Sits code b (start + branchSize) exit next := by
  obtain ⟨hwf, hhosts, hlt, hexit, hnext⟩ := h
  rw [size] at hlt
  exact ⟨hhosts.1, hwf.2, hhosts.2.2, by omega, hexit, hnext⟩

theorem either (h : Sits code (.either a b) start exit next) :
    let other := start + branchSize + a.size + branchSize
    Instruction.decodeAt code start = .ok (goto start .branchZero other) ∧
      Sits code a (start + branchSize) exit next ∧
      Instruction.decodeAt code (start + branchSize + a.size) =
        .ok (goto (start + branchSize + a.size) .branch (other + b.size)) ∧
      Sits code b other exit next := by
  obtain ⟨hwf, hhosts, hlt, hexit, hnext⟩ := h
  obtain ⟨hyes, hrest⟩ := hosts_append.mp hhosts.2.2
  rw [length_place] at hrest
  rw [size] at hlt
  exact ⟨hhosts.1, ⟨hwf.1, hyes, by omega, hexit, hnext⟩, hrest.1, hwf.2, hrest.2.2, by omega,
    hexit, hnext⟩

theorem loop {back : Opcode} {resume : Resume}
    (h : Sits code (.loop a b back resume) start exit next) :
    let last := start + a.size + b.size
    Sits code a start (last + branchSize) (resume.address start (start + a.size)) ∧
      Sits code b (start + a.size) exit next ∧
      Instruction.decodeAt code last = .ok (goto last back start) := by
  obtain ⟨hwf, hhosts, hlt, hexit, hnext⟩ := h
  obtain ⟨hbody, hrest⟩ := hosts_append.mp hhosts
  rw [length_place] at hrest
  obtain ⟨htail, hback⟩ := hosts_append.mp hrest
  rw [length_place] at hback
  rw [size] at hlt
  have hresume : resume.address start (start + a.size) < 2 ^ 32 := by
    cases resume <;> rw [Resume.address] <;> omega
  exact ⟨⟨hwf.2.1, hbody, by omega, by omega, hresume⟩, ⟨hwf.2.2, htail, by omega, hexit, hnext⟩,
    hback.1⟩

theorem jump {op : Opcode} {j : Jump} (h : Sits code (.jump op j) start exit next) :
    Instruction.decodeAt code start = .ok (goto start op (j.address exit next)) := by
  obtain ⟨-, hhosts, -⟩ := h
  cases j with
  | breakLoop => exact hhosts.1
  | continueLoop => exact hhosts.1

end Sits

/-- The machine goes through the block at `start` to where the block is left. -/
def Runs (p : Program) (D : Domain V S) (code : Bytes) (b : Block) (start exit next : Nat) : Prop :=
  ∀ ⦃stack : List V⦄ ⦃s : S⦄ ⦃out : Out V S⦄, b.Exec p D stack s out →
    Reaches p D code ⟨start, stack, s⟩ (out.goOn p D code · (start + b.size) exit next)

/-- A machine that halts from the block at `start` on leaves the block first. -/
def Covers (p : Program) (D : Domain V S) (code : Bytes) (b : Block) (start exit next : Nat) :
    Prop :=
  ∀ ⦃k : Nat⦄ ⦃stack : List V⦄ ⦃s : S⦄ ⦃r : V × S⦄, run p D code k ⟨start, stack, s⟩ = some r →
    ∃ out m, b.Exec p D stack s out ∧ m + out.steps ≤ k ∧
      out.goOn p D code m (start + b.size) exit next = some r

theorem Runs.seq (ha : Runs p D code a start exit next)
    (hb : Runs p D code b (start + a.size) exit next) :
    Runs p D code (.seq a b) start exit next := by
  rintro stack s out ⟨o, hfirst, hrest⟩
  rw [size, ← Nat.add_assoc]
  cases o with
  | fall stack' s' => exact (ha hfirst).trans (hb hrest)
  | jump j stack' s' =>
    cases hrest
    exact (ha hfirst).congr fun k => by cases j <;> rfl
  | halt v s' =>
    cases hrest
    exact ha hfirst

theorem Covers.seq (ha : Covers p D code a start exit next)
    (hb : Covers p D code b (start + a.size) exit next) :
    Covers p D code (.seq a b) start exit next := by
  intro k stack s r hrun
  obtain ⟨o, m, hfirst, hm, hgo⟩ := ha hrun
  cases o with
  | fall stack' s' =>
    obtain ⟨out, m', hrest, hm', hgo'⟩ := hb hgo
    rw [Nat.add_assoc] at hgo'
    exact ⟨out, m', ⟨_, hfirst, hrest⟩, Nat.le_trans hm' hm, hgo'⟩
  | jump j stack' s' => exact ⟨_, m, ⟨_, hfirst, rfl⟩, hm, by cases j <;> exact hgo⟩
  | halt v s' => exact ⟨_, m, ⟨_, hfirst, rfl⟩, hm, hgo⟩

namespace Sits

theorem runs_instr {op : Opcode} {x : Operand} (h : Sits code (.instr op x) start exit next) :
    Runs p D code (.instr op x) start exit next := by
  intro stack s out hexec
  refine ⟨1, fun k => ?_⟩
  rw [run_succ h.instr.1 h.instr.2]
  simp only [Exec] at hexec
  split at hexec
  · rename_i hact
    cases hexec
    simp only [hact]
    rfl
  · rename_i hact
    cases hexec
    simp only [hact]
    rfl
  · exact hexec.elim

theorem covers_instr {op : Opcode} {x : Operand} (h : Sits code (.instr op x) start exit next) :
    Covers p D code (.instr op x) start exit next := by
  intro k stack s r hrun
  cases k with
  | zero => cases hrun
  | succ m =>
    rw [run_succ h.instr.1 h.instr.2] at hrun
    simp only at hrun
    split at hrun
    · rename_i stack' s' hact
      exact ⟨.fall stack' s', m, by simp only [Exec, hact], Nat.le_succ m, hrun⟩
    · rename_i target stack' s' hact
      exact absurd hact (act_ne_goto h.wellFormed.2.1 x stack s target stack' s')
    · rename_i v s' hact
      exact ⟨.halt v s', m, by simp only [Exec, hact], Nat.le_succ m, hrun⟩
    · cases hrun

theorem runs_skip {op : Opcode} (h : Sits code (.skip op b) start exit next)
    (hb : Runs p D code b (start + branchSize) exit next) :
    Runs p D code (.skip op b) start exit next := by
  rintro stack s out ⟨taken, stack', htest, hrest⟩
  have hlt := h.lt
  rw [size, ← Nat.add_assoc] at hlt ⊢
  have hstep := reaches_tested (p := p) (s := s) h.wellFormed.1 h.skip.1 hlt htest
  cases taken with
  | true =>
    cases hrest
    exact hstep
  | false => exact hstep.trans (hb hrest)

theorem covers_skip {op : Opcode} (h : Sits code (.skip op b) start exit next)
    (hb : Covers p D code b (start + branchSize) exit next) :
    Covers p D code (.skip op b) start exit next := by
  intro k stack s r hrun
  have hlt := h.lt
  rw [size, ← Nat.add_assoc] at hlt ⊢
  obtain ⟨taken, stack', m, rfl, htest, hrest⟩ := tested_of_run h.wellFormed.1 h.skip.1 hlt hrun
  cases taken with
  | true => exact ⟨_, m, ⟨true, stack', htest, rfl⟩, Nat.le_succ m, hrest⟩
  | false =>
    obtain ⟨out, m', hexec, hm', hgo⟩ := hb hrest
    exact ⟨out, m', ⟨false, stack', htest, hexec⟩, by omega, hgo⟩

theorem runs_either (h : Sits code (.either a b) start exit next)
    (ha : Runs p D code a (start + branchSize) exit next)
    (hb : Runs p D code b (start + branchSize + a.size + branchSize) exit next) :
    Runs p D code (.either a b) start exit next := by
  rintro stack s out ⟨taken, stack', htest, hrest⟩
  obtain ⟨hgoto, -, hover, -⟩ := h.either
  have hlt := h.lt
  rw [add_size_either] at hlt ⊢
  have hstep := reaches_tested (p := p) (s := s) rfl hgoto (by omega) htest
  cases taken with
  | true => exact hstep.trans (hb hrest)
  | false =>
    have hfirst := hstep.trans (ha hrest)
    -- behind the first part a branch leads over the second one
    cases out with
    | fall stack s => exact hfirst.trans (reaches_tested rfl hover hlt rfl)
    | jump j stack s => exact hfirst.congr fun k => by cases j <;> rfl
    | halt v s => exact hfirst

theorem covers_either (h : Sits code (.either a b) start exit next)
    (ha : Covers p D code a (start + branchSize) exit next)
    (hb : Covers p D code b (start + branchSize + a.size + branchSize) exit next) :
    Covers p D code (.either a b) start exit next := by
  intro k stack s r hrun
  obtain ⟨hgoto, -, hover, -⟩ := h.either
  have hlt := h.lt
  rw [add_size_either] at hlt ⊢
  obtain ⟨taken, stack', m, rfl, htest, hrest⟩ := tested_of_run rfl hgoto (by omega) hrun
  cases taken with
  | true =>
    obtain ⟨out, m', hexec, hm', hgo⟩ := hb hrest
    exact ⟨out, m', ⟨true, stack', htest, hexec⟩, by omega, hgo⟩
  | false =>
    obtain ⟨out, m', hexec, hm', hgo⟩ := ha hrest
    have hexec' : (Block.either a b).Exec p D stack s out := ⟨false, stack', htest, hexec⟩
    cases out with
    | fall stack s =>
      obtain ⟨taken, stack, l, rfl, hpass, hgo⟩ := tested_of_run rfl hover hlt hgo
      cases hpass
      exact ⟨_, l, hexec', by simp only [Out.steps] at hm' ⊢; omega, hgo⟩
    | jump j stack s => exact ⟨_, m', hexec', by omega, by cases j <;> exact hgo⟩
    | halt v s => exact ⟨_, m', hexec', by omega, hgo⟩

section Loop

variable {back : Opcode} {resume : Resume}

/-- From the tail of a loop the machine goes back to the top or leaves the loop. -/
theorem reaches_tail (h : Sits code (.loop a b back resume) start exit next)
    (hb : Runs p D code b (start + a.size) exit next)
    (hturn : Tail D (b.Exec p D) back stack s turn) :
    Reaches p D code ⟨start + a.size, stack, s⟩
      (turn.goOn p D code · start (start + a.size + b.size + branchSize) exit next) := by
  obtain ⟨o, ho, hturn⟩ := hturn
  obtain ⟨-, -, hback⟩ := h.loop
  have hlt := h.lt
  rw [add_size_loop] at hlt
  cases o with
  | fall stack s =>
    obtain ⟨taken, stack', htest, rfl⟩ := hturn
    have hstep := (hb ho).trans (reaches_tested h.wellFormed.1 hback (by omega) htest)
    exact hstep.congr fun k => by cases taken <;> rfl
  | jump j stack s =>
    cases hturn
    exact (hb ho).congr fun k => by cases j <;> rfl
  | halt v s =>
    cases hturn
    exact hb ho

theorem reaches_round (h : Sits code (.loop a b back resume) start exit next)
    (ha : Runs p D code a start (start + a.size + b.size + branchSize)
      (resume.address start (start + a.size)))
    (hb : Runs p D code b (start + a.size) exit next)
    (hturn : Round D (a.Exec p D) (b.Exec p D) back resume stack s turn) :
    Reaches p D code ⟨start, stack, s⟩
      (turn.goOn p D code · start (start + a.size + b.size + branchSize) exit next) := by
  obtain ⟨o, ho, hturn⟩ := hturn
  cases o with
  | fall stack s => exact (ha ho).trans (h.reaches_tail hb hturn)
  | jump j stack s =>
    cases j with
    | breakLoop =>
      cases hturn
      exact ha ho
    | continueLoop =>
      cases resume with
      | top =>
        cases hturn
        exact ha ho
      | tail => exact (ha ho).trans (h.reaches_tail hb hturn)
  | halt v s =>
    cases hturn
    exact ha ho

theorem runs_loop (h : Sits code (.loop a b back resume) start exit next)
    (ha : Runs p D code a start (start + a.size + b.size + branchSize)
      (resume.address start (start + a.size)))
    (hb : Runs p D code b (start + a.size) exit next) :
    Runs p D code (.loop a b back resume) start exit next := by
  intro stack s out hexec
  rw [add_size_loop]
  induction hexec with
  | leave hround => exact h.reaches_round ha hb hround
  | again hround _ ih => exact (h.reaches_round ha hb hround).trans ih

theorem turn_of_tail (h : Sits code (.loop a b back resume) start exit next)
    (hb : Covers p D code b (start + a.size) exit next) {r : V × S}
    (hrun : run p D code k ⟨start + a.size, stack, s⟩ = some r) :
    ∃ turn m, Tail D (b.Exec p D) back stack s turn ∧ m + turn.steps ≤ k ∧
      turn.goOn p D code m start (start + a.size + b.size + branchSize) exit next = some r := by
  obtain ⟨-, -, hback⟩ := h.loop
  have hlt := h.lt
  rw [add_size_loop] at hlt
  obtain ⟨o, m, ho, hm, hgo⟩ := hb hrun
  cases o with
  | fall stack s =>
    obtain ⟨taken, stack', l, rfl, htest, hgo⟩ :=
      tested_of_run h.wellFormed.1 hback (by omega) hgo
    refine ⟨_, l, ⟨_, ho, taken, stack', htest, rfl⟩, ?_, ?_⟩
    · cases taken with
      | true => exact hm
      | false => exact Nat.le_trans (Nat.le_succ l) hm
    · cases taken <;> exact hgo
  | jump j stack s => exact ⟨_, m, ⟨_, ho, rfl⟩, hm, by cases j <;> exact hgo⟩
  | halt v s => exact ⟨_, m, ⟨_, ho, rfl⟩, hm, hgo⟩

theorem turn_of_round (h : Sits code (.loop a b back resume) start exit next)
    (ha : Covers p D code a start (start + a.size + b.size + branchSize)
      (resume.address start (start + a.size)))
    (hb : Covers p D code b (start + a.size) exit next) {r : V × S}
    (hrun : run p D code k ⟨start, stack, s⟩ = some r) :
    ∃ turn m, Round D (a.Exec p D) (b.Exec p D) back resume stack s turn ∧ m + turn.steps ≤ k ∧
      turn.goOn p D code m start (start + a.size + b.size + branchSize) exit next = some r := by
  obtain ⟨o, m, ho, hm, hgo⟩ := ha hrun
  cases o with
  | fall stack s =>
    obtain ⟨turn, l, hturn, hl, hgo⟩ := h.turn_of_tail hb hgo
    exact ⟨turn, l, ⟨_, ho, hturn⟩, Nat.le_trans hl hm, hgo⟩
  | jump j stack s =>
    cases j with
    | breakLoop => exact ⟨_, m, ⟨_, ho, rfl⟩, Nat.le_of_succ_le hm, hgo⟩
    | continueLoop =>
      cases resume with
      | top => exact ⟨_, m, ⟨_, ho, rfl⟩, hm, hgo⟩
      | tail =>
        obtain ⟨turn, l, hturn, hl, hgo⟩ := h.turn_of_tail hb hgo
        exact ⟨turn, l, ⟨_, ho, hturn⟩, Nat.le_trans hl (Nat.le_of_succ_le hm), hgo⟩
  | halt v s => exact ⟨_, m, ⟨_, ho, rfl⟩, hm, hgo⟩

theorem covers_loop (h : Sits code (.loop a b back resume) start exit next)
    (ha : Covers p D code a start (start + a.size + b.size + branchSize)
      (resume.address start (start + a.size)))
    (hb : Covers p D code b (start + a.size) exit next) :
    Covers p D code (.loop a b back resume) start exit next := by
  intro k stack s r hrun
  rw [add_size_loop]
  induction k using Nat.strong_induction_on generalizing stack s with
  | _ k ih =>
    obtain ⟨turn, m, hturn, hm, hgo⟩ := h.turn_of_round ha hb hrun
    cases turn with
    | leave out => exact ⟨out, m, .leave hturn, hm, hgo⟩
    | again stack' s' =>
      -- the next round starts with fewer steps to go
      obtain ⟨out, l, hrest, hl, hgo⟩ := ih m hm hgo
      exact ⟨out, l, .again hturn hrest, Nat.le_trans hl (Nat.le_of_succ_le hm), hgo⟩

end Loop

theorem address_lt (h : Sits code b start exit next) (j : Jump) :
    j.address exit next < 2 ^ 32 := by
  cases j with
  | breakLoop => exact h.exit
  | continueLoop => exact h.next

theorem runs_jump {op : Opcode} {j : Jump} (h : Sits code (.jump op j) start exit next) :
    Runs p D code (.jump op j) start exit next := by
  rintro stack s out ⟨taken, stack', htest, rfl⟩
  exact (reaches_tested h.wellFormed h.jump (h.address_lt j) htest).congr fun k => by
    cases taken <;> cases j <;> rfl

theorem covers_jump {op : Opcode} {j : Jump} (h : Sits code (.jump op j) start exit next) :
    Covers p D code (.jump op j) start exit next := by
  intro k stack s r hrun
  obtain ⟨taken, stack', m, rfl, htest, hrest⟩ :=
    tested_of_run h.wellFormed h.jump (h.address_lt j) hrun
  refine ⟨_, m, ⟨taken, stack', htest, rfl⟩, ?_, ?_⟩
  · cases taken with
    | true => exact Nat.le_refl _
    | false => exact Nat.le_succ m
  · cases taken <;> cases j <;> exact hrest

theorem run_of_exec (h : Sits code b start exit next) : Runs p D code b start exit next := by
  induction b generalizing start exit next with
  | empty =>
    rintro stack s out ⟨⟩
    exact ⟨0, fun k => rfl⟩
  | mark line =>
    rintro stack s out ⟨⟩
    exact ⟨1, fun k => by rw [run_succ h.mark.1 h.mark.2]; rfl⟩
  | instr op x => exact h.runs_instr
  | seq a b iha ihb => exact (iha h.seq.1).seq (ihb h.seq.2)
  | skip op body ih => exact h.runs_skip (ih h.skip.2)
  | either yes no ihy ihn =>
    obtain ⟨-, hyes, -, hno⟩ := h.either
    exact h.runs_either (ihy hyes) (ihn hno)
  | loop body tail back resume ihb iht =>
    obtain ⟨hbody, htail, -⟩ := h.loop
    exact h.runs_loop (ihb hbody) (iht htail)
  | jump op j => exact h.runs_jump

theorem exec_of_run (h : Sits code b start exit next) : Covers p D code b start exit next := by
  induction b generalizing start exit next with
  | empty => exact fun k stack s r hrun => ⟨_, k, rfl, Nat.le_refl _, hrun⟩
  | mark line =>
    intro k stack s r hrun
    cases k with
    | zero => cases hrun
    | succ m =>
      rw [run_succ h.mark.1 h.mark.2] at hrun
      exact ⟨_, m, rfl, Nat.le_succ m, hrun⟩
  | instr op x => exact h.covers_instr
  | seq a b iha ihb => exact (iha h.seq.1).seq (ihb h.seq.2)
  | skip op body ih => exact h.covers_skip (ih h.skip.2)
  | either yes no ihy ihn =>
    obtain ⟨-, hyes, -, hno⟩ := h.either
    exact h.covers_either (ihy hyes) (ihn hno)
  | loop body tail back resume ihb iht =>
    obtain ⟨hbody, htail, -⟩ := h.loop
    exact h.covers_loop (ihb hbody) (iht htail)
  | jump op j => exact h.covers_jump

end Sits

/-- Code that is a closed block halts as the block does. -/
theorem halts_iff (h : Sits code b 0 0 0) (hb : b.Closed)
    (hfall : ∀ stack' s', ¬b.Exec p D stack s (.fall stack' s')) (v : V) :
    Halts p D code ⟨0, stack, s⟩ v s' ↔ b.Exec p D stack s (.halt v s') := by
  constructor
  · rintro ⟨k, hrun⟩
    obtain ⟨out, m, hexec, -, hgo⟩ := h.exec_of_run hrun
    cases out with
    | fall stack' s' => exact absurd hexec (hfall stack' s')
    | jump j stack' s' => exact absurd hexec hb.not_jump
    | halt w t =>
      cases hgo
      exact hexec
  · intro hexec
    obtain ⟨n, hn⟩ := h.run_of_exec hexec
    exact ⟨0 + n, hn 0⟩

end Block

end Compile

end ScriptToolchain
