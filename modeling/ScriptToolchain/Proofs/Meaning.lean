import ScriptToolchain.Proofs.Execution
import ScriptToolchain.Proofs.Reference

/-!
# Blocks that mean commands

A block computes an expression when it leaves its value on the stack, and it
performs a command when it is left the way the command is, with the stack as
it was. There is a rule for each shape of code that the generator makes; those
of the loops follow the rounds of the block and of the command side by side.
-/

namespace ScriptToolchain

open Compile Machine

variable {V S : Type}

/-- How a block is left that stands for a command. -/
def Flow.out (stack : List V) (s : S) : Flow V → Out V S
  | .next => .fall stack s
  | .jump j => .jump j stack s
  | .ret v => .halt v s

namespace Compile.Block

/-- The block leaves the value of the expression on the stack. -/
def Computes (p : Program) (D : Domain V S) (b : Block) (e : Exp) : Prop :=
  ∀ stack s out, b.Exec p D stack s out ↔ out = .fall ((e.eval D s).1 :: stack) (e.eval D s).2

/-- The block is left the way the command is. -/
def Performs (p : Program) (D : Domain V S) (b : Block) (c : Cmd) : Prop :=
  ∀ stack s out, b.Exec p D stack s out ↔ ∃ f t, c.Run D s f t ∧ out = f.out stack t

/-- Two blocks that do the same. -/
def Same (a b : Block) : Prop :=
  ∀ (V S : Type) (p : Program) (D : Domain V S), a.Exec p D = b.Exec p D

variable {p : Program} {D : Domain V S} {a b c d : Block} {e f g : Exp} {x y : Cmd}
  {stack : List V} {s : S} {out : Out V S}

/-! ## Sequences -/

theorem Same.refl (a : Block) : a.Same a :=
  fun _ _ _ _ => rfl

theorem same_mark (line : UInt32) : (Block.mark line).Same .empty :=
  fun _ _ _ _ => rfl

theorem Same.seq (ha : a.Same b) (hc : c.Same d) : (Block.seq a c).Same (.seq b d) := by
  intro V S p D
  simp only [Exec, ha V S p D, hc V S p D]

/-- A block that does nothing may stand before another one. -/
theorem Same.empty_seq (h : a.Same .empty) (hb : b.Same c) : (Block.seq a b).Same c := by
  intro V S p D
  funext stack s out
  simp only [Exec, h V S p D, hb V S p D, exists_eq_left, Out.andThen]

theorem Same.seq_empty (h : b.Same .empty) (ha : a.Same c) : (Block.seq a b).Same c := by
  intro V S p D
  funext stack s out
  rw [← ha V S p D]
  refine propext ⟨?_, fun hexec => ⟨out, hexec, ?_⟩⟩
  · rintro ⟨o, ho, hrest⟩
    cases o with
    | fall stack s =>
      rw [Out.andThen, h V S p D] at hrest
      cases hrest
      exact ho
    | jump j stack s =>
      cases hrest
      exact ho
    | halt v s =>
      cases hrest
      exact ho
  · cases out with
    | fall stack s =>
      rw [Out.andThen, h V S p D]
      rfl
    | jump j stack s => rfl
    | halt v s => rfl

theorem Same.computes (h : a.Same b) (hb : b.Computes p D e) : a.Computes p D e := by
  intro stack s out
  rw [h V S p D]
  exact hb stack s out

theorem Same.performs (h : a.Same b) (hb : b.Performs p D x) : a.Performs p D x := by
  intro stack s out
  rw [h V S p D]
  exact hb stack s out

theorem Computes.seq (h : a.Computes p D e) : (Block.seq a b).Exec p D stack s out ↔
    b.Exec p D ((e.eval D s).1 :: stack) (e.eval D s).2 out := by
  simp only [Exec, h stack s, exists_eq_left, Out.andThen]

theorem exec_seq_instr {op : Opcode} {v : Operand} {stack' : List V} {s' : S}
    (h : act p D op v stack s = some (.next stack' s')) :
    (Block.seq (.instr op v) b).Exec p D stack s out ↔ b.Exec p D stack' s' out := by
  simp only [Exec, h, exists_eq_left, Out.andThen]

theorem exec_instr {op : Opcode} {v : Operand} {stack' : List V} {s' : S}
    (h : act p D op v stack s = some (.next stack' s')) :
    (Block.instr op v).Exec p D stack s out ↔ out = .fall stack' s' := by
  simp only [Exec, h]

/-- The test of a branch tells whether its block is passed over. -/
theorem exec_skip {op : Opcode} {taken : Bool} {stack' : List V}
    (h : test D op stack = some (taken, stack')) :
    (Block.skip op b).Exec p D stack s out ↔
      if taken then out = .fall stack' s else b.Exec p D stack' s out := by
  constructor
  · rintro ⟨_, _, htest, hrest⟩
    cases h.symm.trans htest
    exact hrest
  · exact fun hrest => ⟨taken, stack', h, hrest⟩

theorem exec_either {v : V} :
    (Block.either a b).Exec p D (v :: stack) s out ↔
      if D.isZero v then b.Exec p D stack s out else a.Exec p D stack s out := by
  constructor
  · rintro ⟨_, _, ⟨⟩, hrest⟩
    exact hrest
  · exact fun hrest => ⟨_, _, rfl, hrest⟩

theorem exec_jump {op : Opcode} {j : Jump} {taken : Bool} {stack' : List V}
    (h : test D op stack = some (taken, stack')) :
    (Block.jump op j).Exec p D stack s out ↔
      out = if taken then .jump j stack' s else .fall stack' s := by
  constructor
  · rintro ⟨_, _, htest, hrest⟩
    cases h.symm.trans htest
    exact hrest
  · exact fun hrest => ⟨taken, stack', h, hrest⟩

/-! ## Expressions -/

/-- An instruction that pushes. -/
theorem computes_instr {op : Opcode} {v : Operand}
    (h : ∀ stack s, act p D op v stack s = push (e.eval D) stack s) :
    (Block.instr op v).Computes p D e :=
  fun stack s _ => exec_instr (h stack s)

theorem Computes.unary {op : Opcode} {o : Operator} (ha : a.Computes p D e)
    (h : ∀ v stack s, act p D op .none (v :: stack) s = push (D.unary o v) stack s) :
    (Block.seq a (.instr op .none)).Computes p D (.unary o e) :=
  fun stack _ _ => ha.seq.trans (exec_instr (h _ stack _))

theorem Computes.binary {op : Opcode} {o : Operator} (ha : a.Computes p D e)
    (hb : b.Computes p D f)
    (h : ∀ v w stack s, act p D op .none (w :: v :: stack) s = push (D.binary o v w) stack s) :
    (Block.seq a (.seq b (.instr op .none))).Computes p D (.binary o e f) :=
  fun stack _ _ => ha.seq.trans (hb.seq.trans (exec_instr (h _ _ stack _)))

theorem Computes.field {v : Operand} {name : String} (ha : a.Computes p D e)
    (hname : symbol? p v = some name) :
    (Block.seq a (.instr .getDot v)).Computes p D (.field e name) :=
  fun stack _ _ => ha.seq.trans (exec_instr (by simp only [act, hname]; rfl))

/-- Behind the first operand a branch keeps it where it decides. -/
theorem Computes.and (ha : a.Computes p D e) (hb : b.Computes p D f) :
    (Block.seq a (.skip .branchZeroKeep (.seq (.instr .pop .none) b))).Computes p D
      (.and e f) := by
  intro stack s out
  rw [ha.seq, exec_skip rfl, exec_seq_instr rfl, hb, Exp.eval_and]
  cases D.isZero (e.eval D s).1 <;> exact Iff.rfl

theorem Computes.or (ha : a.Computes p D e) (hb : b.Computes p D f) :
    (Block.seq a (.skip .branchNonZeroKeep (.seq (.instr .pop .none) b))).Computes p D
      (.or e f) := by
  intro stack s out
  rw [ha.seq, exec_skip rfl, exec_seq_instr rfl, hb, Exp.eval_or]
  cases D.isZero (e.eval D s).1 <;> exact Iff.rfl

/-! ## Commands without loops -/

/-- A command that only changes the store. -/
theorem performs_of_next {g : S → S} (hx : ∀ s f t, x.Run D s f t ↔ f = .next ∧ t = g s)
    (hb : ∀ stack s out, b.Exec p D stack s out ↔ out = .fall stack (g s)) :
    b.Performs p D x := by
  intro stack s out
  rw [hb]
  constructor
  · rintro rfl
    exact ⟨.next, g s, (hx ..).mpr ⟨rfl, rfl⟩, rfl⟩
  · rintro ⟨f, t, hrun, rfl⟩
    obtain ⟨rfl, rfl⟩ := (hx ..).mp hrun
    rfl

theorem performs_empty : Block.empty.Performs p D .skip :=
  performs_of_next (fun _ _ _ => Cmd.run_skip) fun _ _ _ => Iff.rfl

theorem Computes.drop (ha : a.Computes p D e) :
    (Block.seq a (.instr .pop .none)).Performs p D (.drop e) :=
  performs_of_next (fun _ _ _ => Cmd.run_drop) fun _ _ _ => ha.seq.trans (exec_instr rfl)

theorem Computes.setVariable {op : Opcode} {v : Operand} {z : Variable} (ha : a.Computes p D e)
    (h : ∀ stack s, act p D op v stack s = pop (D.save z) s stack) :
    (Block.seq a (.instr op v)).Performs p D (.setVariable z e) :=
  performs_of_next (fun _ _ _ => Cmd.run_setVariable) fun _ _ _ =>
    ha.seq.trans (exec_instr (h _ _))

theorem Computes.setField {v : Operand} {name : String} (ha : a.Computes p D e)
    (hb : b.Computes p D f) (hname : symbol? p v = some name) :
    (Block.seq a (.seq b (.instr .setDot v))).Performs p D (.setField e name f) :=
  performs_of_next (fun _ _ _ => Cmd.run_setField) fun _ _ _ =>
    ha.seq.trans (hb.seq.trans (exec_instr (by simp only [act, hname])))

theorem Computes.setElement (ha : a.Computes p D e) (hb : b.Computes p D f)
    (hc : c.Computes p D g) :
    (Block.seq a (.seq b (.seq c (.instr .setIndex .none)))).Performs p D
      (.setElement e f g) :=
  performs_of_next (fun _ _ _ => Cmd.run_setElement) fun _ _ _ =>
    ha.seq.trans (hb.seq.trans (hc.seq.trans (exec_instr rfl)))

theorem Performs.seq (ha : a.Performs p D x) (hb : b.Performs p D y) :
    (Block.seq a b).Performs p D (.seq x y) := by
  intro stack s out
  constructor
  · rintro ⟨o, hfirst, hrest⟩
    obtain ⟨f, t, hx, rfl⟩ := (ha ..).mp hfirst
    cases f with
    | next =>
      obtain ⟨f, u, hy, rfl⟩ := (hb ..).mp hrest
      exact ⟨f, u, .seq hx hy, rfl⟩
    | jump j => exact ⟨_, t, .seq_left hx nofun, hrest⟩
    | ret v => exact ⟨_, t, .seq_left hx nofun, hrest⟩
  · rintro ⟨f, t, hrun, rfl⟩
    rcases Cmd.run_seq.mp hrun with ⟨u, hx, hy⟩ | ⟨hx, hf⟩
    · exact ⟨_, (ha ..).mpr ⟨_, u, hx, rfl⟩, (hb ..).mpr ⟨f, t, hy, rfl⟩⟩
    · refine ⟨_, (ha ..).mpr ⟨f, t, hx, rfl⟩, ?_⟩
      cases f with
      | next => exact absurd rfl hf
      | jump j => rfl
      | ret v => rfl

theorem Performs.either (ha : a.Performs p D x) (hb : b.Performs p D y)
    (hc : c.Computes p D e) : (Block.seq c (.either a b)).Performs p D (.ifElse e x y) := by
  intro stack s out
  simp only [hc.seq, exec_either, Cmd.run_ifElse]
  cases D.isZero (e.eval D s).1 with
  | true => exact hb ..
  | false => exact ha ..

theorem Performs.skip (ha : a.Performs p D x) (hc : c.Computes p D e) :
    (Block.seq c (.skip .branchZero a)).Performs p D (.ifElse e x .skip) := by
  intro stack s out
  have htest : test D .branchZero ((e.eval D s).1 :: stack) =
    some (D.isZero (e.eval D s).1, stack) := rfl
  simp only [hc.seq, exec_skip htest, Cmd.run_ifElse]
  cases D.isZero (e.eval D s).1 with
  | true => exact performs_empty (p := p) stack _ out
  | false => exact ha ..

theorem performs_jump (j : Jump) : (Block.jump .branch j).Performs p D (.jump j) := by
  intro stack s out
  rw [exec_jump rfl]
  constructor
  · rintro rfl
    exact ⟨_, s, .jump, rfl⟩
  · rintro ⟨f, t, hrun, rfl⟩
    obtain ⟨rfl, rfl⟩ := Cmd.run_jump.mp hrun
    rfl

theorem performs_ret : (Block.instr .ret .none).Performs p D (.ret none) := by
  intro stack s out
  constructor
  · rintro rfl
    exact ⟨_, s, .ret, rfl⟩
  · rintro ⟨f, t, hrun, rfl⟩
    obtain ⟨rfl, rfl⟩ := Cmd.run_ret.mp hrun
    rfl

theorem Computes.ret (ha : a.Computes p D e) :
    (Block.seq a (.instr .retValue .none)).Performs p D (.ret (some e)) := by
  intro stack s out
  rw [ha.seq]
  constructor
  · rintro rfl
    exact ⟨_, _, .ret_value rfl, rfl⟩
  · rintro ⟨f, t, hrun, rfl⟩
    obtain ⟨rfl, rfl⟩ := Cmd.run_ret_value.mp hrun
    rfl

/-! ## Loops -/

/-- The block is the body of a loop behind the test that leaves it, if there is one. -/
def Guards (p : Program) (D : Domain V S) (b : Block) (cond : Option Exp) (x : Cmd) : Prop :=
  ∀ stack s out, b.Exec p D stack s out ↔
    (∃ t, Exp.holds D cond s = (false, t) ∧ out = .jump .breakLoop stack t) ∨
      ∃ t f u, Exp.holds D cond s = (true, t) ∧ x.Run D t f u ∧ out = f.out stack u

theorem Performs.guards (hb : b.Performs p D x) : b.Guards p D none x := by
  intro stack s out
  rw [hb]
  constructor
  · rintro ⟨f, u, hx, rfl⟩
    exact .inr ⟨s, f, u, rfl, hx, rfl⟩
  · rintro (⟨t, ⟨⟩, -⟩ | ⟨t, f, u, ⟨⟩, hx, rfl⟩)
    exact ⟨f, u, hx, rfl⟩

theorem exec_seq_jump {op : Opcode} {j : Jump} {taken : Bool} {stack' : List V}
    (h : test D op stack = some (taken, stack')) :
    (Block.seq (.jump op j) b).Exec p D stack s out ↔
      if taken then out = .jump j stack' s else b.Exec p D stack' s out := by
  rw [Exec]
  simp only [exec_jump h, exists_eq_left]
  cases taken <;> exact Iff.rfl

theorem Computes.guards (hc : c.Computes p D e) (hb : b.Performs p D x) :
    (Block.seq c (.seq (.jump .branchZero .breakLoop) b)).Guards p D (some e) x := by
  intro stack s out
  rw [hc.seq, exec_seq_jump rfl, hb, Exp.holds]
  cases D.isZero (e.eval D s).1 with
  | true =>
    constructor
    · exact fun h => .inl ⟨_, rfl, h⟩
    · rintro (⟨t, ⟨⟩, h⟩ | ⟨t, f, u, ⟨⟩, -⟩)
      exact h
  | false =>
    constructor
    · rintro ⟨f, u, hx, h⟩
      exact .inr ⟨_, f, u, rfl, hx, h⟩
    · rintro (⟨t, ⟨⟩, -⟩ | ⟨t, f, u, ⟨⟩, hx, h⟩)
      exact ⟨f, u, hx, h⟩

variable {rest : List V → S → Out V S → Prop} {back : Opcode} {resume : Resume} {cond : Option Exp}
  {turn : Turn V S}

/-- Behind the body the loop has ended, or its tail follows. -/
theorem inBody_iff (htop : resume = .top → ∀ stack s turn,
      Tail D rest back stack s turn ↔ turn = .again stack s) (f : Flow V) :
    (f.out stack s).inBody resume (Tail D rest back) turn ↔
      (∃ g, f.ended? = some g ∧ turn = .leave (g.out stack s)) ∨
        f.ended? = none ∧ Tail D rest back stack s turn := by
  rcases f with _ | (_ | _) | v
  · simp [Flow.out, Out.inBody, Flow.ended?]
  · simp [Flow.out, Out.inBody, Flow.ended?]
  · cases resume with
    | top => simp [Flow.out, Out.inBody, Flow.ended?, htop rfl]
    | tail => simp [Flow.out, Out.inBody, Flow.ended?]
  · simp [Flow.out, Out.inBody, Flow.ended?]

/-- What a round comes to: the test fails, the body ends the loop, or the tail follows. -/
theorem round_iff (hb : b.Guards p D cond x) (htop : resume = .top → ∀ stack s turn,
      Tail D rest back stack s turn ↔ turn = .again stack s) :
    Round D (b.Exec p D) rest back resume stack s turn ↔
      (∃ t, Exp.holds D cond s = (false, t) ∧ turn = .leave (.fall stack t)) ∨
      (∃ t f u g, Exp.holds D cond s = (true, t) ∧ x.Run D t f u ∧ f.ended? = some g ∧
        turn = .leave (g.out stack u)) ∨
      ∃ t f u, Exp.holds D cond s = (true, t) ∧ x.Run D t f u ∧ f.ended? = none ∧
        Tail D rest back stack u turn := by
  constructor
  · rintro ⟨o, ho, hturn⟩
    rcases (hb ..).mp ho with ⟨t, hc, rfl⟩ | ⟨t, f, u, hc, hx, rfl⟩
    · exact .inl ⟨t, hc, hturn⟩
    · rcases (inBody_iff htop f).mp hturn with ⟨g, hg, hleave⟩ | ⟨hf, htail⟩
      · exact .inr (.inl ⟨t, f, u, g, hc, hx, hg, hleave⟩)
      · exact .inr (.inr ⟨t, f, u, hc, hx, hf, htail⟩)
  · rintro (⟨t, hc, hturn⟩ | ⟨t, f, u, g, hc, hx, hg, hleave⟩ | ⟨t, f, u, hc, hx, hf, htail⟩)
    · exact ⟨_, (hb ..).mpr (.inl ⟨t, hc, rfl⟩), hturn⟩
    · exact ⟨_, (hb ..).mpr (.inr ⟨t, f, u, hc, hx, rfl⟩),
        (inBody_iff htop f).mpr (.inl ⟨g, hg, hleave⟩)⟩
    · exact ⟨_, (hb ..).mpr (.inr ⟨t, f, u, hc, hx, rfl⟩), (inBody_iff htop f).mpr (.inr ⟨hf, htail⟩)⟩

/-- An empty tail leads back to the top. -/
theorem tail_empty :
    Tail D (Block.empty.Exec p D) .branch stack s turn ↔ turn = .again stack s := by
  constructor
  · rintro ⟨_, rfl, _, _, ⟨⟩, hturn⟩
    exact hturn
  · exact fun h => ⟨_, rfl, _, _, rfl, h⟩

/-- The tail that is the test of the loop. -/
theorem Computes.tail (ha : a.Computes p D e) :
    Tail D (a.Exec p D) .branchNonZero stack s turn ↔
      (∃ t, Exp.holds D (some e) s = (true, t) ∧ turn = .again stack t) ∨
        ∃ t, Exp.holds D (some e) s = (false, t) ∧ turn = .leave (.fall stack t) := by
  have hholds : Exp.holds D (some e) s = (!D.isZero (e.eval D s).1, (e.eval D s).2) := rfl
  rw [hholds]
  constructor
  · rintro ⟨o, ho, hturn⟩
    cases (ha ..).mp ho
    obtain ⟨_, _, ⟨⟩, hturn⟩ := hturn
    cases hzero : D.isZero (e.eval D s).1 with
    | true => exact .inr ⟨_, rfl, by rw [hturn, hzero]; rfl⟩
    | false => exact .inl ⟨_, rfl, by rw [hturn, hzero]; rfl⟩
  · intro h
    refine ⟨_, (ha ..).mpr rfl, _, _, rfl, ?_⟩
    rcases h with ⟨t, ht, rfl⟩ | ⟨t, ht, rfl⟩
    · obtain ⟨hzero, rfl⟩ := Prod.mk.inj ht
      rw [hzero]
      rfl
    · obtain ⟨hzero, rfl⟩ := Prod.mk.inj ht
      rw [hzero]
      rfl

/-- The tail that is the step of the loop. -/
theorem Performs.tail (ha : a.Performs p D y) :
    Tail D (a.Exec p D) .branch stack s turn ↔
      (∃ t, y.Run D s .next t ∧ turn = .again stack t) ∨
        ∃ g t, y.Run D s g t ∧ g ≠ .next ∧ turn = .leave (g.out stack t) := by
  constructor
  · rintro ⟨o, ho, hturn⟩
    obtain ⟨g, t, hy, rfl⟩ := (ha ..).mp ho
    cases g with
    | next =>
      obtain ⟨_, _, ⟨⟩, hturn⟩ := hturn
      exact .inl ⟨t, hy, hturn⟩
    | jump j => exact .inr ⟨_, t, hy, nofun, hturn⟩
    | ret v => exact .inr ⟨_, t, hy, nofun, hturn⟩
  · rintro (⟨t, hy, rfl⟩ | ⟨g, t, hy, hg, rfl⟩)
    · exact ⟨_, (ha ..).mpr ⟨_, t, hy, rfl⟩, _, _, rfl, rfl⟩
    · refine ⟨_, (ha ..).mpr ⟨_, t, hy, rfl⟩, ?_⟩
      cases g with
      | next => exact absurd rfl hg
      | jump j => rfl
      | ret v => rfl

theorem Guards.whileLoop (hb : b.Guards p D (some e) x) :
    (Block.loop b .empty .branch .top).Performs p D (.whileLoop e x) := by
  have htop (_ : Resume.top = .top) (stack : List V) (s : S) (turn : Turn V S) :
      Tail D (Block.empty.Exec p D) .branch stack s turn ↔ turn = .again stack s :=
    tail_empty
  intro stack s out
  constructor
  · intro h
    induction h with
    | leave h =>
      rcases (round_iff hb htop).mp h with ⟨t, hc, ⟨⟩⟩ | ⟨t, f, u, g, hc, hx, hg, ⟨⟩⟩ |
        ⟨t, f, u, hc, hx, hf, h⟩
      · exact ⟨_, t, .while_done hc, rfl⟩
      · exact ⟨g, u, .while_left hc hx hg, rfl⟩
      · cases tail_empty.mp h
    | again h _ ih =>
      rcases (round_iff hb htop).mp h with ⟨t, hc, ⟨⟩⟩ | ⟨t, f, u, g, hc, hx, hg, ⟨⟩⟩ |
        ⟨t, f, u, hc, hx, hf, h⟩
      cases tail_empty.mp h
      obtain ⟨g, w, hrun, rfl⟩ := ih
      exact ⟨g, w, .while_again hc hx hf hrun, rfl⟩
  · rintro ⟨f, t, hrun, rfl⟩
    generalize hw : Cmd.whileLoop e x = w at hrun
    induction hrun with
    | while_done hc =>
      cases hw
      exact .leave ((round_iff hb htop).mpr (.inl ⟨_, hc, rfl⟩))
    | while_left hc hx hf =>
      cases hw
      exact .leave ((round_iff hb htop).mpr (.inr (.inl ⟨_, _, _, _, hc, hx, hf, rfl⟩)))
    | while_again hc hx hf _ _ ih =>
      cases hw
      exact .again ((round_iff hb htop).mpr (.inr (.inr ⟨_, _, _, hc, hx, hf, tail_empty.mpr rfl⟩)))
        (ih rfl)
    | _ => cases hw

theorem Performs.doLoop (hb : b.Performs p D x) (ha : a.Computes p D e) :
    (Block.loop b a .branchNonZero .tail).Performs p D (.doLoop x e) := by
  have hround {stack : List V} {s : S} {turn : Turn V S} :=
    @round_iff V S p D b x stack s (a.Exec p D) .branchNonZero .tail none turn hb.guards nofun
  intro stack s out
  constructor
  · intro h
    induction h with
    | leave h =>
      rcases hround.mp h with ⟨t, ⟨⟩, -⟩ | ⟨t, f, u, g, ⟨⟩, hx, hg, ⟨⟩⟩ | ⟨t, f, u, ⟨⟩, hx, hf, h⟩
      · exact ⟨g, u, .do_left hx hg, rfl⟩
      · rcases ha.tail.mp h with ⟨w, hc, ⟨⟩⟩ | ⟨w, hc, ⟨⟩⟩
        exact ⟨_, w, .do_done hx hf hc, rfl⟩
    | again h _ ih =>
      rcases hround.mp h with ⟨t, ⟨⟩, -⟩ | ⟨t, f, u, g, ⟨⟩, hx, hg, ⟨⟩⟩ | ⟨t, f, u, ⟨⟩, hx, hf, h⟩
      rcases ha.tail.mp h with ⟨w, hc, ⟨⟩⟩ | ⟨w, hc, ⟨⟩⟩
      obtain ⟨g, w, hrun, rfl⟩ := ih
      exact ⟨g, w, .do_again hx hf hc hrun, rfl⟩
  · rintro ⟨f, t, hrun, rfl⟩
    generalize hw : Cmd.doLoop x e = w at hrun
    induction hrun with
    | do_left hx hf =>
      cases hw
      exact .leave (hround.mpr (.inr (.inl ⟨_, _, _, _, rfl, hx, hf, rfl⟩)))
    | do_done hx hf hc =>
      cases hw
      exact .leave (hround.mpr (.inr (.inr
        ⟨_, _, _, rfl, hx, hf, ha.tail.mpr (.inr ⟨_, hc, rfl⟩)⟩)))
    | do_again hx hf hc _ _ ih =>
      cases hw
      exact .again (hround.mpr (.inr (.inr
        ⟨_, _, _, rfl, hx, hf, ha.tail.mpr (.inl ⟨_, hc, rfl⟩)⟩))) (ih rfl)
    | _ => cases hw

theorem Guards.forLoop (hb : b.Guards p D cond x) (ha : a.Performs p D y) :
    (Block.loop b a .branch .tail).Performs p D (.forLoop cond y x) := by
  have hround {stack : List V} {s : S} {turn : Turn V S} :=
    @round_iff V S p D b x stack s (a.Exec p D) .branch .tail cond turn hb nofun
  intro stack s out
  constructor
  · intro h
    induction h with
    | leave h =>
      rcases hround.mp h with ⟨t, hc, ⟨⟩⟩ | ⟨t, f, u, g, hc, hx, hg, ⟨⟩⟩ | ⟨t, f, u, hc, hx, hf, h⟩
      · exact ⟨_, t, .for_done hc, rfl⟩
      · exact ⟨g, u, .for_left hc hx hg, rfl⟩
      · rcases ha.tail.mp h with ⟨w, hy, ⟨⟩⟩ | ⟨g, w, hy, hg, ⟨⟩⟩
        exact ⟨g, w, .for_step_left hc hx hf hy hg, rfl⟩
    | again h _ ih =>
      rcases hround.mp h with ⟨t, hc, ⟨⟩⟩ | ⟨t, f, u, g, hc, hx, hg, ⟨⟩⟩ | ⟨t, f, u, hc, hx, hf, h⟩
      rcases ha.tail.mp h with ⟨w, hy, ⟨⟩⟩ | ⟨g, w, hy, hg, ⟨⟩⟩
      obtain ⟨g, w, hrun, rfl⟩ := ih
      exact ⟨g, w, .for_again hc hx hf hy hrun, rfl⟩
  · rintro ⟨f, t, hrun, rfl⟩
    generalize hw : Cmd.forLoop cond y x = w at hrun
    induction hrun with
    | for_done hc =>
      cases hw
      exact .leave (hround.mpr (.inl ⟨_, hc, rfl⟩))
    | for_left hc hx hf =>
      cases hw
      exact .leave (hround.mpr (.inr (.inl ⟨_, _, _, _, hc, hx, hf, rfl⟩)))
    | for_step_left hc hx hf hy hg =>
      cases hw
      exact .leave (hround.mpr (.inr (.inr
        ⟨_, _, _, hc, hx, hf, ha.tail.mpr (.inr ⟨_, _, hy, hg, rfl⟩)⟩)))
    | for_again hc hx hf hy _ _ _ ih =>
      cases hw
      exact .again (hround.mpr (.inr (.inr
        ⟨_, _, _, hc, hx, hf, ha.tail.mpr (.inl ⟨_, hy, rfl⟩)⟩))) (ih rfl)
    | _ => cases hw

end Compile.Block

end ScriptToolchain
