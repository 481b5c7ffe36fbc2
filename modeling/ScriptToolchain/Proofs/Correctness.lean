import ScriptToolchain.Proofs.Forms
import ScriptToolchain.Proofs.Realizes

/-!
# Compiled trees mean what trees mean

By induction over the tree, the code of an expression computes it and the code
of a statement performs it, in the table of variables where it stands. The
code of a unit is then carried out by the machine exactly as the unit runs.
-/

namespace ScriptToolchain

namespace Node

theorem Popped.statement {n s : Node} (h : n.Popped) (hs : s ∈ n.statements) : s.Popped :=
  ⟨h.below (.self n) hs, fun hm hk => h.below (.child (statements_subset hs) hm) hk⟩

end Node

namespace Compile

namespace Block

variable {a b c : Block}

theorem same_assoc (a b c : Block) : (Block.seq (.seq a b) c).Same (.seq a (.seq b c)) := by
  intro V S p D
  funext stack s out
  refine propext ⟨?_, ?_⟩
  · rintro ⟨o, ⟨o', ha, hb⟩, hc⟩
    cases o' with
    | fall stack s => exact ⟨_, ha, _, hb, hc⟩
    | jump j stack s =>
      cases hb
      exact ⟨_, ha, hc⟩
    | halt v s =>
      cases hb
      exact ⟨_, ha, hc⟩
  · rintro ⟨o, ha, hrest⟩
    cases o with
    | fall stack s =>
      obtain ⟨o', hb, hc⟩ := hrest
      exact ⟨o', ⟨_, ha, hb⟩, hc⟩
    | jump j stack s => exact ⟨_, ⟨_, ha, rfl⟩, hrest⟩
    | halt v s => exact ⟨_, ⟨_, ha, rfl⟩, hrest⟩

theorem Same.symm (h : a.Same b) : b.Same a :=
  fun V S p D => (h V S p D).symm

theorem Same.trans (h : a.Same b) (h' : b.Same c) : a.Same c :=
  fun V S p D => (h V S p D).trans (h' V S p D)

end Block

/-- What the code of a node does that is met in a role. -/
def Role.Meaning (p : Program) (n : Node) :
    Role → VariableTable → Unit → Block → VariableTable → Prop
  | .value _ => Lowering.Means p (Exp.ofNode? · n)
  | .statement => Lowering.Does p (Cmd.ofNode? · n)

open Lowering

variable {p : Program} {n : Node}

namespace Lowering.Realizes

variable {α : Type}

/-- A step before that does nothing. -/
theorem quiet_means {l : Lowering ProgramBuilder α} {f : α → Lowering ProgramBuilder Unit}
    {m : VariableTable → Option (Exp × VariableTable)}
    (hl : l.Realizes p fun t _ x t' => x.Same .empty ∧ t' = t)
    (hf : ∀ a, (f a).Realizes p (Means p m)) : (l >>= f).Realizes p (Means p m) := by
  refine (hl.bind hf).mono ?_
  rintro t _ _ t' ⟨_, _, x, y, rfl, ⟨hx, rfl⟩, e, he, hy⟩
  exact ⟨e, he, fun D => (hx.empty_seq (.refl y)).computes (hy D)⟩

theorem quiet_does {l : Lowering ProgramBuilder α} {f : α → Lowering ProgramBuilder Unit}
    {m : VariableTable → Option (Cmd × VariableTable)}
    (hl : l.Realizes p fun t _ x t' => x.Same .empty ∧ t' = t)
    (hf : ∀ a, (f a).Realizes p (Does p m)) : (l >>= f).Realizes p (Does p m) := by
  refine (hl.bind hf).mono ?_
  rintro t _ _ t' ⟨_, _, x, y, rfl, ⟨hx, rfl⟩, c, hc, hy⟩
  exact ⟨c, hc, fun D => (hx.empty_seq (.refl y)).performs (hy D)⟩

theorem memberName (line : UInt32) (member : Node) :
    (Lowering.memberName line member : Lowering ProgramBuilder String).Realizes p
      fun t name x t' => member.identifier? = some name ∧ x = .empty ∧ t' = t := by
  rw [Lowering.memberName]
  split
  · rename_i name hname
    refine (pure name).mono ?_
    rintro t _ _ _ ⟨rfl, rfl, rfl⟩
    exact ⟨hname, rfl, rfl⟩
  · exact fail line _

theorem asStatement {l : Lowering ProgramBuilder Unit} (role : Role) (line : UInt32)
    (h : role = .statement → l.Realizes p (Does p (Cmd.ofNode? · n))) :
    (Lowering.asStatement role line l).Realizes p (role.Meaning p n) := by
  cases role with
  | statement => exact h rfl
  | value name => exact fail line _

theorem asValue {l : Option String → Lowering ProgramBuilder Unit} (role : Role) (m : Mark)
    (hpop : role = .statement → m.flags.contains .popResult)
    (hdrop : role = .statement → ∀ t, Cmd.ofNode? t n =
      (Exp.ofNode? t n).bind fun e => some (.drop e.1, e.2))
    (h : ∀ name, (l name).Realizes p (Means p (Exp.ofNode? · n))) :
    (Lowering.asValue role m l).Realizes p (role.Meaning p n) := by
  cases role with
  | value name => exact quiet_means (markLine m.line) fun _ => h name
  | statement =>
    refine quiet_does (markLine m.line) fun _ => ?_
    have hdropped : (do l none; Lowering.emit .pop : Lowering ProgramBuilder Unit).Realizes p
        (Does p (Cmd.ofNode? · n)) := by
      refine ((h none).bind fun _ => put _).mono ?_
      rintro t _ _ t' ⟨_, _, x, _, rfl, ⟨e, he, hx⟩, rfl, rfl⟩
      refine ⟨.drop e, ?_, fun D => (hx D).drop⟩
      simp only [hdrop rfl, he]
      rfl
    have hflag := hpop rfl
    simp only [hflag, if_true]
    exact hdropped

/-! ## Statements -/

theorem declare (m : Mark) (storage : StorageClass) (name : String) :
    (Lowering.declare m storage name : Lowering ProgramBuilder Unit).Realizes p
      (Does p (Cmd.ofNode? · (.declaration m storage name))) := by
  refine ((names fun t => t.extends_declare name storage).bind
    (G := fun _ t _ x t' => x = .empty ∧ t' = t) fun d => ?_).mono ?_
  · have hquiet := (Realizes.pure (p := p) ()).mono fun t _ x t' h => h.2
    cases d with
    | conflict kept requested => exact report m.line _
    | _ => exact hquiet
  · rintro t _ _ t' ⟨d, _, _, _, rfl, ⟨rfl, hd, -⟩, rfl, rfl⟩
    refine ⟨.skip, ?_, fun D => ?_⟩
    · simp only [Cmd.ofNode?, hd]
    · exact ((Block.Same.refl _).empty_seq (.refl _)).performs Block.performs_empty

theorem jump (inLoop : Bool) (j : Jump) (line : UInt32) :
    (Lowering.jump inLoop j line : Lowering ProgramBuilder Unit).Realizes p
      (Does p fun t => some (.jump j, t)) := by
  rw [Lowering.jump]
  split
  · refine (put _).mono ?_
    rintro t _ _ _ ⟨rfl, rfl⟩
    exact ⟨_, rfl, fun D => Block.performs_jump j⟩
  · exact fail line _

theorem skipped : (Pure.pure () : Lowering ProgramBuilder Unit).Realizes p
    (Does p fun t => some (.skip, t)) := by
  refine (pure ()).mono ?_
  rintro t _ _ _ ⟨-, rfl, rfl⟩
  exact ⟨_, rfl, fun D => Block.performs_empty⟩

/-- What the body of a loop does behind the test that leaves it, if there is one. -/
def Rounds (p : Program) (cond : Option Node) (body : Node) :
    VariableTable → Unit → Block → VariableTable → Prop := fun t _ x t' =>
  ∃ c b u, Exp.ofOption? t cond = some (c, u) ∧ Cmd.ofNode? u body = some (b, t') ∧
    ∀ {V S : Type} (D : Domain V S), x.Guards p D c b

theorem untested {body : Node} {l : Lowering ProgramBuilder Unit}
    (hl : l.Realizes p (Does p (Cmd.ofNode? · body))) : l.Realizes p (Rounds p none body) := by
  refine hl.mono ?_
  rintro t _ x t' ⟨b, hb, hx⟩
  exact ⟨none, b, t, rfl, hb, fun D => (hx D).guards⟩

theorem tested {cond body : Node} {l k : Lowering ProgramBuilder Unit}
    (hl : l.Realizes p (Means p (Exp.ofNode? · cond)))
    (hk : k.Realizes p (Does p (Cmd.ofNode? · body))) :
    (Lowering.tested l k).Realizes p (Rounds p (some cond) body) := by
  refine (hl.bind fun _ => (put _).bind fun _ => hk).mono ?_
  rintro t _ _ t' ⟨_, _, x, _, rfl, ⟨c, hc, hx⟩, _, _, _, y, rfl, ⟨rfl, rfl⟩, b, hb, hy⟩
  refine ⟨some c, b, _, ?_, hb, fun D => (hx D).guards (hy D)⟩
  simp only [Exp.ofOption?, hc, Option.bind_eq_bind, Option.bind_some]
  rfl

section Rounds

variable {m : Mark} {init cond step : Option Node} {body : Node}
  {s v : Node → Lowering ProgramBuilder Unit} {b : Lowering ProgramBuilder Unit}

theorem round : (∀ k ∈ cond, (v k).Realizes p (Means p (Exp.ofNode? · k))) →
    b.Realizes p (Does p (Cmd.ofNode? · body)) →
    (match cond with
      | some cond => Lowering.tested (v cond) b
      | none => b : Lowering ProgramBuilder Unit).Realizes p (Rounds p cond body) := by
  intro hcond hbody
  cases cond with
  | none => exact untested hbody
  | some cond => exact tested (hcond cond rfl) hbody

theorem advance : (∀ k ∈ step, (s k).Realizes p (Does p (Cmd.ofNode? · k))) →
    (match step with
      | some step => s step
      | none => Pure.pure () : Lowering ProgramBuilder Unit).Realizes p
      (Does p (Cmd.ofOption? · step)) := by
  intro hstep
  cases step with
  | none => exact skipped
  | some step => exact hstep step rfl

theorem forLoop : (∀ k ∈ init, (s k).Realizes p (Does p (Cmd.ofNode? · k))) →
    (∀ k ∈ cond, (v k).Realizes p (Means p (Exp.ofNode? · k))) →
    (∀ k ∈ step, (s k).Realizes p (Does p (Cmd.ofNode? · k))) →
    b.Realizes p (Does p (Cmd.ofNode? · body)) →
    (do
      match init with
      | some init => s init
      | none => Pure.pure ()
      let round := match cond with
        | some cond => Lowering.tested (v cond) b
        | none => b
      let advance := match step with
        | some step => s step
        | none => Pure.pure ()
      Lowering.loop round advance .branch .tail : Lowering ProgramBuilder Unit).Realizes p
      (Does p (Cmd.ofNode? · (.forLoop m init cond step body))) := by
  intro hinit hcond hstep hbody
  have hloop := loop .branch .tail (round hcond hbody) (advance hstep)
  cases init with
  | none =>
    refine hloop.mono ?_
    rintro t _ x t' ⟨y, z, u, hx, ⟨c, b, w, hc, hb, hy⟩, a, ha, hz⟩
    refine ⟨.seq .skip (.forLoop c a b), ?_, fun D => ?_⟩
    · simp only [Cmd.ofNode?, Cmd.ofOption?, hc, hb, ha, Option.bind_eq_bind, Option.bind_some]
      rfl
    · exact ((Block.Same.refl .empty).empty_seq (.refl x)).symm.performs
        (Block.performs_empty.seq (hx.performs ((hy D).forLoop (hz D))))
  | some init =>
    refine ((hinit init rfl).bind fun _ => hloop).mono ?_
    rintro t _ _ t' ⟨_, _, i, x, rfl, ⟨d, hd, hi⟩, y, z, u, hx, ⟨c, b, w, hc, hb, hy⟩, a, ha, hz⟩
    refine ⟨.seq d (.forLoop c a b), ?_, fun D => ?_⟩
    · simp only [Cmd.ofNode?, Cmd.ofOption?, hd, hc, hb, ha, Option.bind_eq_bind, Option.bind_some]
      rfl
    · exact (hi D).seq (hx.performs ((hy D).forLoop (hz D)))

end Rounds

/-! ## Operations -/

section Operations

variable {left right operand object member key value : Node} {k : Lowering ProgramBuilder Unit}

/-- Two operands, one behind the other, with the instruction of the operator. -/
theorem binary {op : Operator} (hop : Grammar.isPlain op) (harity : op.arity = 2)
    {l r : Lowering ProgramBuilder Unit}
    (hl : l.Realizes p (Means p (Exp.ofNode? · left)))
    (hr : r.Realizes p (Means p (Exp.ofNode? · right))) :
    (do
      l
      match shortCircuit? op with
      | some op => Lowering.skip op do
          Lowering.emit .pop
          r
      | none =>
        r
        Lowering.emit (binaryOpcode op) : Lowering ProgramBuilder Unit).Realizes p
      (Means p fun t => do
        let (a, t) ← Exp.ofNode? t left
        let (b, t) ← Exp.ofNode? t right
        return (← Exp.ofBinary? op a b, t)) := by
  cases hcircuit : shortCircuit? op with
  | some keep =>
    refine (hl.bind fun _ => skip ((put _).bind fun _ => hr)).mono ?_
    rintro t _ _ t' ⟨_, u, x, y, rfl, ⟨a, ha, hx⟩, _, hy, _, _, _, z, rfl, ⟨rfl, rfl⟩, b, hb, hz⟩
    have hsame := (Block.Same.refl x).seq hy
    cases op <;> try cases hcircuit
    · refine ⟨.or a b, ?_, fun D => hsame.computes ((hx D).or (hz D))⟩
      simp only [ha, hb, Option.bind_eq_bind, Option.bind_some]
      rfl
    · refine ⟨.and a b, ?_, fun D => hsame.computes ((hx D).and (hz D))⟩
      simp only [ha, hb, Option.bind_eq_bind, Option.bind_some]
      rfl
  | none =>
    refine (hl.bind fun _ => hr.bind fun _ => put _).mono ?_
    rintro t _ _ t' ⟨_, u, x, _, rfl, ⟨a, ha, hx⟩, _, _, y, _, rfl, ⟨b, hb, hy⟩, rfl, rfl⟩
    refine ⟨.binary op a b, ?_, fun D => (hx D).binary (hy D) ?_⟩
    · simp only [ha, hb, Option.bind_eq_bind, Option.bind_some]
      cases op <;> first | contradiction | rfl
    · intro v w stack s
      cases op <;> first | contradiction | rfl

theorem unary {op : Operator} (harity : op.arity = 1) {l : Lowering ProgramBuilder Unit}
    (hl : l.Realizes p (Means p (Exp.ofNode? · operand))) :
    (do
      l
      Lowering.emit (unaryOpcode op) : Lowering ProgramBuilder Unit).Realizes p
      (Means p fun t => do
        let (a, t) ← Exp.ofNode? t operand
        return (.unary op a, t)) := by
  refine (hl.bind fun _ => put _).mono ?_
  rintro t _ _ t' ⟨_, u, x, _, rfl, ⟨a, ha, hx⟩, rfl, rfl⟩
  refine ⟨.unary op a, by simp only [ha]; rfl, fun D => (hx D).unary ?_⟩
  intro v stack s
  cases op <;> first | contradiction | rfl

theorem dot (line : UInt32) {l : Lowering ProgramBuilder Unit}
    (hl : l.Realizes p (Means p (Exp.ofNode? · object))) :
    (do
      let name ← Lowering.memberName line member
      l
      Lowering.emitSymbol .getDot name : Lowering ProgramBuilder Unit).Realizes p
      (Means p fun t => do
        let name ← member.identifier?
        let (a, t) ← Exp.ofNode? t object
        return (.field a name, t)) := by
  refine ((memberName line member).bind fun name => hl.bind fun _ => emitSymbol .getDot name).mono ?_
  rintro t _ _ t' ⟨name, _, _, _, rfl, ⟨hname, rfl, rfl⟩, _, u, x, y, rfl, ⟨a, ha, hx⟩, rfl, v,
    hy, hv⟩
  refine ⟨.field a name, ?_, fun D => ?_⟩
  · simp only [hname, ha, Option.bind_eq_bind, Option.bind_some]
    rfl
  exact ((Block.Same.refl _).empty_seq ((Block.Same.refl x).seq hy)).computes ((hx D).field hv)

end Operations

/-! ## Assignments -/

/-- The code evaluates what the target of an assignment needs, for this place. -/
inductive Selects (p : Program) : Node → VariableTable → Place → Block → VariableTable → Prop where
  | field {m object member name a t x t'} (hname : member.identifier? = some name)
      (ha : Exp.ofNode? t object = some (a, t'))
      (hx : ∀ {V S : Type} (D : Domain V S), x.Computes p D a) :
      Selects p (.operation m .dot [object, member]) t (.field name) x t'
  | element {m object key a k t u x y z t'} (ha : Exp.ofNode? t object = some (a, u))
      (hk : Exp.ofNode? u key = some (k, t')) (hx : x.Same (.seq y z))
      (hy : ∀ {V S : Type} (D : Domain V S), y.Computes p D a)
      (hz : ∀ {V S : Type} (D : Domain V S), z.Computes p D k) :
      Selects p (.operation m .index [object, key]) t .element x t'
  | name {m name t x} (hx : x.Same .empty) :
      Selects p (.identifier m name) t (.variable name (m.flags.contains .isMember)) x t

/-- What the code does that evaluates a value and pops it into a place. -/
def Stores (p : Program) (value : Node) :
    Place → VariableTable → Unit → Block → VariableTable → Prop
  | .field name => fun t _ x t' => ∃ v y w, Exp.ofNode? t value = some (v, t') ∧
      x.Same (.seq y (.instr .setDot w)) ∧ Machine.symbol? p w = some name ∧
        ∀ {V S : Type} (D : Domain V S), y.Computes p D v
  | .element => fun t _ x t' => ∃ v y, Exp.ofNode? t value = some (v, t') ∧
      x.Same (.seq y (.instr .setIndex .none)) ∧
        ∀ {V S : Type} (D : Domain V S), y.Computes p D v
  | .variable name isMember => Does p fun t => do
      let (v, t) ← Exp.ofNode? t value
      let (x, t) ← t.write? isMember name
      return (.setVariable x v, t)

theorem stores {value : Node} {r : Option String → Lowering ProgramBuilder Unit}
    (hr : ∀ name, (r name).Realizes p (Means p (Exp.ofNode? · value))) (line : UInt32)
    (q : Place) : (do r q.name?; Lowering.store line q : Lowering ProgramBuilder Unit).Realizes p
      (Stores p value q) := by
  rcases q with name | _ | ⟨name, isMember⟩
  · refine ((hr _).bind fun _ => emitSymbol .setDot name).mono ?_
    rintro t _ _ t' ⟨_, u, y, z, rfl, ⟨v, hv, hy⟩, rfl, w, hz, hw⟩
    exact ⟨v, y, w, hv, (Block.Same.refl y).seq hz, hw, hy⟩
  · refine ((hr _).bind fun _ => put _).mono ?_
    rintro t _ _ t' ⟨_, u, y, _, rfl, ⟨v, hv, hy⟩, rfl, rfl⟩
    exact ⟨v, y, hv, .refl _, hy⟩
  · refine ((hr _).bind fun _ => storeVariable name isMember line).mono ?_
    rintro t _ _ t' ⟨_, u, x, y, rfl, ⟨v, hv, hx⟩, z, op, w, hz, hy, hact⟩
    refine ⟨.setVariable z v, ?_, fun D => ?_⟩
    · simp only [hv, hz, Option.bind_eq_bind, Option.bind_some]
      rfl
    · exact ((Block.Same.refl x).seq hy).performs ((hx D).setVariable (hact D))

/-- The target is evaluated first, then the value, and then it is stored. -/
theorem assign {target value : Node} {l : Lowering ProgramBuilder Place}
    {r : Option String → Lowering ProgramBuilder Unit}
    (hl : l.Realizes p fun t q x t' => Selects p target t q x t')
    (hr : ∀ name, (r name).Realizes p (Means p (Exp.ofNode? · value))) (line : UInt32) :
    (do
      let q ← l
      r q.name?
      Lowering.store line q : Lowering ProgramBuilder Unit).Realizes p
      (Does p (Cmd.ofAssign? · value target)) := by
  refine (hl.bind fun q => stores hr line q).mono ?_
  rintro t _ _ t' ⟨q, u, x, y, rfl, hx, hy⟩
  cases hx with
  | @field m object member name a _ _ _ hname ha hx =>
    obtain ⟨v, z, w, hv, hz, hw, hvalue⟩ := hy
    refine ⟨.setField a name v, ?_, fun D => ?_⟩
    · simp only [Cmd.ofAssign?, hname, ha, hv, Option.bind_eq_bind, Option.bind_some]
      rfl
    · exact ((Block.Same.refl x).seq hz).performs ((hx D).setField (hvalue D) hw)
  | @element m object key a k _ _ _ b c _ ha hk hx hb hc =>
    obtain ⟨v, z, hv, hz, hvalue⟩ := hy
    refine ⟨.setElement a k v, ?_, fun D => ?_⟩
    · simp only [Cmd.ofAssign?, ha, hk, hv, Option.bind_eq_bind, Option.bind_some]
      rfl
    · exact ((hx.seq hz).trans (Block.same_assoc b c _)).performs
        ((hb D).setElement (hc D) (hvalue D))
  | name hx =>
    obtain ⟨c, hc, hy⟩ := hy
    exact ⟨c, hc, fun D => (hx.empty_seq (.refl y)).performs (hy D)⟩

theorem field (line : UInt32) {m : Mark} {object member : Node} {l : Lowering ProgramBuilder Unit}
    (hl : l.Realizes p (Means p (Exp.ofNode? · object))) :
    (do
      let name ← Lowering.memberName line member
      l
      return Place.field name : Lowering ProgramBuilder Place).Realizes p
      fun t q x t' => Selects p (.operation m .dot [object, member]) t q x t' := by
  refine ((memberName line member).bind fun name => hl.bind fun _ => pure (Place.field name)).mono ?_
  rintro t _ _ t' ⟨name, _, _, _, rfl, ⟨hname, rfl, rfl⟩, _, u, x, _, rfl, ⟨a, ha, hx⟩, rfl, rfl,
    rfl⟩
  refine .field hname ha fun D => ?_
  exact ((Block.Same.refl _).empty_seq ((Block.Same.refl _).seq_empty (.refl x))).computes (hx D)

theorem element {m : Mark} {object key : Node} {l r : Lowering ProgramBuilder Unit}
    (hl : l.Realizes p (Means p (Exp.ofNode? · object)))
    (hr : r.Realizes p (Means p (Exp.ofNode? · key))) :
    (do
      l
      r
      return Place.element : Lowering ProgramBuilder Place).Realizes p
      fun t q x t' => Selects p (.operation m .index [object, key]) t q x t' := by
  refine (hl.bind fun _ => hr.bind fun _ => pure Place.element).mono ?_
  rintro t _ _ t' ⟨_, u, x, _, rfl, ⟨a, ha, hx⟩, _, w, y, _, rfl, ⟨k, hk, hy⟩, rfl, rfl, rfl⟩
  exact .element ha hk ((Block.Same.refl x).seq ((Block.Same.refl _).seq_empty (.refl y))) hx hy

end Lowering.Realizes

/-! ## Nodes -/

/-- In every role the node gives code that does what the node means. -/
def Realizable (p : Program) (policy : ReceiverPolicy) (n : Node) : Prop :=
  ∀ inLoop role, (role = .statement → n.Popped) →
    (Lowering.node policy inLoop role n : Lowering ProgramBuilder Unit).Realizes p
      (role.Meaning p n)

variable {policy : ReceiverPolicy}

open Lowering.Realizes

theorem Realizable.value (h : Realizable p policy n) (inLoop : Bool) (name : Option String) :
    (Lowering.node policy inLoop (.value name) n : Lowering ProgramBuilder Unit).Realizes p
      (Means p (Exp.ofNode? · n)) :=
  h inLoop (.value name) nofun

theorem Realizable.statement (h : Realizable p policy n) (hn : n.Popped) (inLoop : Bool) :
    (Lowering.node policy inLoop .statement n : Lowering ProgramBuilder Unit).Realizes p
      (Does p (Cmd.ofNode? · n)) :=
  h inLoop .statement fun _ => hn

theorem realizes_place {target : Node} (h : ∀ m ∈ target.children, Realizable p policy m)
    (inLoop : Bool) (line : UInt32) :
    (Lowering.place policy inLoop line target : Lowering ProgramBuilder Place).Realizes p
      fun t q x t' => Selects p target t q x t' := by
  cases placeForm target with
  | field m object member =>
    rw [Lowering.place_field]
    exact field line ((h object (by simp [Node.children])).value inLoop none)
  | element m object key =>
    rw [Lowering.place_element]
    exact element ((h object (by simp [Node.children])).value inLoop none)
      ((h key (by simp [Node.children])).value inLoop none)
  | name m name =>
    rw [Lowering.place_name]
    refine (Realizes.pure _).mono ?_
    rintro t _ _ _ ⟨rfl, rfl, rfl⟩
    exact .name (.refl _)
  | refused f hrefused =>
    rw [hrefused]
    exact fail line f

theorem realizes_statements {items : List Node} (h : ∀ m ∈ items, Realizable p policy m)
    (hdrop : ∀ m ∈ items, m.Popped) (inLoop : Bool) :
    (Lowering.statements policy inLoop items : Lowering ProgramBuilder Unit).Realizes p
      (Does p (Cmd.ofList? · items)) := by
  induction items with
  | nil =>
    rw [Lowering.statements]
    refine (Realizes.pure _).mono ?_
    rintro t _ _ _ ⟨-, rfl, rfl⟩
    exact ⟨.skip, rfl, fun D => Block.performs_empty⟩
  | cons n rest ih =>
    have hfirst := (h n (List.mem_cons_self ..)).statement (hdrop n (List.mem_cons_self ..)) inLoop
    have hrest := ih (fun m hm => h m (List.mem_cons_of_mem _ hm)) fun m hm =>
      hdrop m (List.mem_cons_of_mem _ hm)
    rw [Lowering.statements]
    refine (hfirst.bind fun _ => hrest).mono ?_
    rintro t _ _ t' ⟨_, u, x, y, rfl, ⟨a, ha, hx⟩, b, hb, hy⟩
    refine ⟨.seq a b, ?_, fun D => (hx D).seq (hy D)⟩
    simp only [Cmd.ofList?, ha, hb, Option.bind_eq_bind, Option.bind_some]
    rfl

/-- An operation that is no assignment: both operands are evaluated, or the first may decide. -/
theorem realizes_operation {m : Mark} {op : Operator} {operands : List Node}
    (h : ∀ k ∈ operands, Realizable p policy k) (inLoop : Bool) :
    (Lowering.operate policy inLoop m.line op operands : Lowering ProgramBuilder Unit).Realizes p
      (Means p (Exp.ofNode? · (.operation m op operands))) := by
  cases operationForm op operands with
  | refused hrefused =>
    rw [Lowering.operate_refused hrefused]
    exact fail m.line _
  | dot object member => exact dot m.line ((h object (by simp)).value inLoop none)
  | binary hop harity left right =>
    have hbinary := binary hop harity ((h left (by simp)).value inLoop none)
      ((h right (by simp)).value inLoop none)
    rw [Lowering.operate_binary hop harity]
    cases op <;> first | contradiction | exact hbinary
  | unary hop harity operand =>
    have hunary := unary harity ((h operand (by simp)).value inLoop none)
    rw [Lowering.operate_unary harity]
    cases op <;> first | contradiction | exact hunary

theorem realizes_node (n : Node) (hn : n.Plain) : Realizable p policy n := by
  induction n using Node.induction_below with
  | h n ih ih₂ =>
    have below {m : Node} (hm : m ∈ n.children) : Realizable p policy m := ih hm (hn.child hm)
    have below₂ (m : Node) (hm : m ∈ n.children) (k : Node) (hk : k ∈ m.children) :
        Realizable p policy k :=
      ih₂ m hm k hk ((hn.child hm).child hk)
    have hplain := hn n (.self n)
    intro inLoop role hrole
    rw [Lowering.node.eq_def]
    cases n with
    | declaration m storage name => exact asStatement role m.line fun _ => declare m storage name
    | block m items =>
      exact asStatement role m.line fun hr => realizes_statements (fun k hk => below hk)
        (fun k hk => (hrole hr).statement hk) inLoop
    | ifElse m cond yes no =>
      have hcond := (below (m := cond) (by simp [Node.children])).value inLoop none
      refine asStatement role m.line fun hr => quiet_does (markLine m.line) fun _ => ?_
      have hyes := (below (m := yes) (by simp [Node.children])).statement
        ((hrole hr).statement (by simp [Node.statements])) inLoop
      cases no with
      | none =>
        refine (hcond.bind fun _ => skip hyes).mono ?_
        rintro t _ _ t' ⟨_, _, x, y, rfl, ⟨c, hc, hx⟩, z, hy, a, ha, hz⟩
        refine ⟨.ifElse c a .skip, ?_, fun D => ?_⟩
        · simp only [Cmd.ofNode?, hc, ha, Option.bind_eq_bind, Option.bind_some]
          rfl
        · exact ((Block.Same.refl x).seq hy).performs ((hz D).skip (hx D))
      | some no =>
        have hno := (below (m := no) (by simp [Node.children])).statement
          ((hrole hr).statement (by simp [Node.statements])) inLoop
        refine (hcond.bind fun _ => either hyes hno).mono ?_
        rintro t _ _ t' ⟨_, _, x, y, rfl, ⟨c, hc, hx⟩, z, w, _, hy, ⟨a, ha, hz⟩, b, hb, hw⟩
        refine ⟨.ifElse c a b, ?_, fun D => ?_⟩
        · simp only [Cmd.ofNode?, hc, ha, hb, Option.bind_eq_bind, Option.bind_some]
          rfl
        · exact ((Block.Same.refl x).seq hy).performs ((hz D).either (hw D) (hx D))
    | whileLoop m cond body =>
      have hcond := (below (m := cond) (by simp [Node.children])).value inLoop none
      refine asStatement role m.line fun hr => quiet_does (markLine m.line) fun _ => ?_
      have hbody := (below (m := body) (by simp [Node.children])).statement
        ((hrole hr).statement (by simp [Node.statements])) true
      refine (loop .branch .top (tested hcond hbody) (Realizes.pure ())).mono ?_
      rintro t _ x t' ⟨y, _, _, hx, ⟨_, b, u, hc, hb, hy⟩, -, rfl, rfl⟩
      obtain ⟨⟨c, _⟩, hc, ⟨⟩⟩ := Option.bind_eq_some_iff.mp hc
      refine ⟨.whileLoop c b, ?_, fun D => hx.performs (hy D).whileLoop⟩
      simp only [Cmd.ofNode?, hc, hb, Option.bind_eq_bind, Option.bind_some]
      rfl
    | doLoop m body cond =>
      have hcond := (below (m := cond) (by simp [Node.children])).value inLoop none
      refine asStatement role m.line fun hr => quiet_does (markLine m.line) fun _ => ?_
      have hbody := (below (m := body) (by simp [Node.children])).statement
        ((hrole hr).statement (by simp [Node.statements])) true
      refine (loop .branchNonZero .tail hbody hcond).mono ?_
      rintro t _ x t' ⟨y, z, _, hx, ⟨b, hb, hy⟩, c, hc, hz⟩
      refine ⟨.doLoop b c, ?_, fun D => hx.performs ((hy D).doLoop (hz D))⟩
      simp only [Cmd.ofNode?, hc, hb, Option.bind_eq_bind, Option.bind_some]
      rfl
    | forLoop m init cond step body =>
      refine asStatement role m.line fun hr => quiet_does (markLine m.line) fun _ => ?_
      have hbody := (below (m := body) (by simp [Node.children])).statement
        ((hrole hr).statement (by simp [Node.statements])) true
      have hinit (k : Node) (hk : k ∈ init) :=
        (below (m := k) (by simp_all [Node.children])).statement
        ((hrole hr).statement (by simp_all [Node.statements])) inLoop
      have hcond (k : Node) (hk : k ∈ cond) :=
        (below (m := k) (by simp_all [Node.children])).value inLoop none
      have hstep (k : Node) (hk : k ∈ step) :=
        (below (m := k) (by simp_all [Node.children])).statement
        ((hrole hr).statement (by simp_all [Node.statements])) inLoop
      exact forLoop hinit hcond hstep hbody
    | breakLoop m =>
      exact asStatement role m.line fun _ => quiet_does (markLine m.line) fun _ =>
        jump inLoop .breakLoop m.line
    | continueLoop m =>
      exact asStatement role m.line fun _ => quiet_does (markLine m.line) fun _ =>
        jump inLoop .continueLoop m.line
    | ret m value =>
      refine asStatement role m.line fun _ => quiet_does (markLine m.line) fun _ => ?_
      cases value with
      | none =>
        refine (Realizes.put _).mono ?_
        rintro t _ _ _ ⟨rfl, rfl⟩
        exact ⟨_, rfl, fun D => Block.performs_ret⟩
      | some value =>
        have hvalue := (below (m := value) (by simp [Node.children])).value inLoop none
        refine (hvalue.bind fun _ => Realizes.put _).mono ?_
        rintro t _ _ t' ⟨_, _, x, _, rfl, ⟨e, he, hx⟩, rfl, rfl⟩
        refine ⟨.ret (some e), ?_, fun D => (hx D).ret⟩
        simp only [Cmd.ofNode?, Exp.ofOption?, he, Option.bind_eq_bind, Option.bind_some]
        rfl
    | operation m op operands =>
      show Realizes _ _ (if _ then _ else _)
      split
      · rename_i hassign
        obtain ⟨rfl, rfl⟩ := hassign
        refine quiet_does (markLine m.line) fun _ => ?_
        rcases operands with _ | ⟨target, _ | ⟨value, _ | ⟨_, _⟩⟩⟩
        · exact fail m.line _
        · exact fail m.line _
        · have hvalue (name : Option String) :=
            (below (m := value) (by simp [Node.children])).value inLoop name
          exact assign (realizes_place (below₂ target (by simp [Node.children]))
            inLoop m.line) hvalue m.line
        · exact fail m.line _
      · rename_i hassign
        refine asValue role m (fun hr => (hrole hr).self.popResult rfl ?_) ?_ fun _ =>
          realizes_operation (fun k hk => below hk) inLoop
        · rintro _ _ ⟨⟩
          exact hassign ⟨rfl, hr⟩
        · intro hr t
          cases op with
          | assign => exact absurd ⟨rfl, hr⟩ hassign
          | _ => rfl
    | constant m value =>
      exact asValue role m (fun hr => (hrole hr).self.popResult rfl (by rintro _ _ ⟨⟩))
        (fun _ _ => rfl) fun _ => pushConstant value
    | identifier m name =>
      exact asValue role m (fun hr => (hrole hr).self.popResult rfl (by rintro _ _ ⟨⟩))
        (fun _ _ => rfl) fun _ => pushVariable m name
    | this m =>
      refine asValue role m (fun hr => (hrole hr).self.popResult rfl (by rintro _ _ ⟨⟩))
        (fun _ _ => rfl) fun _ => ?_
      refine (Realizes.put _).mono ?_
      rintro t _ _ _ ⟨rfl, rfl⟩
      exact ⟨_, rfl, fun D => Block.computes_instr fun _ _ => rfl⟩
    | parameter | foreach | call | function | table => cases hplain

end Compile

end ScriptToolchain
