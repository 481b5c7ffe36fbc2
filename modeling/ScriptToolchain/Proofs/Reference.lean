import ScriptToolchain.Compile.Diagnostic
import ScriptToolchain.Compile.Variables
import ScriptToolchain.Proofs.Machine
import ScriptToolchain.Proofs.Trees

/-!
# What a tree means

The meaning of a unit without calls, literals of tables and functions, and
`foreach`. An expression is evaluated from left to right, a command runs up to
where it is left. Every occurrence of a variable is read with the storage that
it has where it stands: `Exp.ofNode?` and `Cmd.ofNode?` go through the tree
with a table of variables, in the order in which code is generated.
-/

namespace ScriptToolchain

/-- An expression whose variables have their storage. -/
inductive Exp where
  | constant (c : Constant)
  | this
  | variable (x : Variable)
  | unary (op : Operator) (operand : Exp)
  | binary (op : Operator) (left right : Exp)
  | and (left right : Exp)
  | or (left right : Exp)
  | field (object : Exp) (name : String)
deriving Repr, DecidableEq

/-- A command whose variables have their storage. -/
inductive Cmd where
  | skip
  | seq (first second : Cmd)
  | drop (e : Exp)
  | setVariable (x : Variable) (value : Exp)
  | setField (object : Exp) (name : String) (value : Exp)
  | setElement (object key value : Exp)
  | ifElse (cond : Exp) (yes no : Cmd)
  | whileLoop (cond : Exp) (body : Cmd)
  | doLoop (body : Cmd) (cond : Exp)
  | forLoop (cond : Option Exp) (step body : Cmd)
  | jump (j : Jump)
  | ret (value : Option Exp)
deriving Repr, DecidableEq

variable {V S : Type}

/-! ## Evaluation -/

/-- The value of an expression and the store behind it. -/
def Exp.eval (D : Domain V S) : Exp → S → V × S
  | .constant c, s => (D.constant c, s)
  | .this, s => (D.this, s)
  | .variable x, s => D.load x s
  | .unary op operand, s =>
    let (a, s) := operand.eval D s
    D.unary op a s
  | .binary op left right, s =>
    let (a, s) := left.eval D s
    let (b, s) := right.eval D s
    D.binary op a b s
  | .and left right, s =>
    let (a, s) := left.eval D s
    if D.isZero a then (a, s) else right.eval D s
  | .or left right, s =>
    let (a, s) := left.eval D s
    if D.isZero a then right.eval D s else (a, s)
  | .field object name, s =>
    let (a, s) := object.eval D s
    D.getField name a s

theorem Exp.eval_and (D : Domain V S) (a b : Exp) (s : S) :
    (Exp.and a b).eval D s = if D.isZero (a.eval D s).1 then a.eval D s else b.eval D (a.eval D s).2 :=
  rfl

theorem Exp.eval_or (D : Domain V S) (a b : Exp) (s : S) :
    (Exp.or a b).eval D s = if D.isZero (a.eval D s).1 then b.eval D (a.eval D s).2 else a.eval D s :=
  rfl

/-- Whether a condition holds, and the store behind it; without one it always does. -/
def Exp.holds (D : Domain V S) : Option Exp → S → Bool × S
  | none, s => (true, s)
  | some e, s => (!D.isZero (e.eval D s).1, (e.eval D s).2)

/-- How a command is left. -/
inductive Flow (V : Type) where
  | next
  | jump (j : Jump)
  | ret (v : V)

/-- How a loop ends whose body is left this way; none if its next round follows. -/
def Flow.ended? : Flow V → Option (Flow V)
  | .next | .jump .continueLoop => none
  | .jump .breakLoop => some .next
  | .ret v => some (.ret v)

namespace Cmd

/-- The command, started with the first store, is left this way with the second store. -/
inductive Run (D : Domain V S) : Cmd → S → Flow V → S → Prop where
  | skip {s} : Run D .skip s .next s
  | seq {a b s t u f} (ha : Run D a s .next t) (hb : Run D b t f u) : Run D (.seq a b) s f u
  | seq_left {a b s t f} (ha : Run D a s f t) (hf : f ≠ .next) : Run D (.seq a b) s f t
  | drop {e s v t} (he : e.eval D s = (v, t)) : Run D (.drop e) s .next t
  | setVariable {x e s v t} (he : e.eval D s = (v, t)) :
      Run D (.setVariable x e) s .next (D.save x v t)
  | setField {object name value s o t v u} (ho : object.eval D s = (o, t))
      (hv : value.eval D t = (v, u)) :
      Run D (.setField object name value) s .next (D.setField name o v u)
  | setElement {object key value s o t k u v w} (ho : object.eval D s = (o, t))
      (hk : key.eval D t = (k, u)) (hv : value.eval D u = (v, w)) :
      Run D (.setElement object key value) s .next (D.setElement o k v w)
  | ifElse_yes {cond yes no s t f u} (hc : Exp.holds D (some cond) s = (true, t))
      (h : Run D yes t f u) : Run D (.ifElse cond yes no) s f u
  | ifElse_no {cond yes no s t f u} (hc : Exp.holds D (some cond) s = (false, t))
      (h : Run D no t f u) : Run D (.ifElse cond yes no) s f u
  | while_done {cond body s t} (hc : Exp.holds D (some cond) s = (false, t)) :
      Run D (.whileLoop cond body) s .next t
  | while_left {cond body s t f u g} (hc : Exp.holds D (some cond) s = (true, t))
      (hb : Run D body t f u) (hf : f.ended? = some g) : Run D (.whileLoop cond body) s g u
  | while_again {cond body s t f u g w} (hc : Exp.holds D (some cond) s = (true, t))
      (hb : Run D body t f u) (hf : f.ended? = none)
      (h : Run D (.whileLoop cond body) u g w) : Run D (.whileLoop cond body) s g w
  | do_left {body cond s f t g} (hb : Run D body s f t) (hf : f.ended? = some g) :
      Run D (.doLoop body cond) s g t
  | do_done {body cond s f t u} (hb : Run D body s f t) (hf : f.ended? = none)
      (hc : Exp.holds D (some cond) t = (false, u)) : Run D (.doLoop body cond) s .next u
  | do_again {body cond s f t u g w} (hb : Run D body s f t) (hf : f.ended? = none)
      (hc : Exp.holds D (some cond) t = (true, u))
      (h : Run D (.doLoop body cond) u g w) : Run D (.doLoop body cond) s g w
  | for_done {cond step body s t} (hc : Exp.holds D cond s = (false, t)) :
      Run D (.forLoop cond step body) s .next t
  | for_left {cond step body s t f u g} (hc : Exp.holds D cond s = (true, t))
      (hb : Run D body t f u) (hf : f.ended? = some g) : Run D (.forLoop cond step body) s g u
  | for_step_left {cond step body s t f u g w} (hc : Exp.holds D cond s = (true, t))
      (hb : Run D body t f u) (hf : f.ended? = none) (hs : Run D step u g w) (hg : g ≠ .next) :
      Run D (.forLoop cond step body) s g w
  | for_again {cond step body s t f u w g x} (hc : Exp.holds D cond s = (true, t))
      (hb : Run D body t f u) (hf : f.ended? = none) (hs : Run D step u .next w)
      (h : Run D (.forLoop cond step body) w g x) : Run D (.forLoop cond step body) s g x
  | jump {j s} : Run D (.jump j) s (.jump j) s
  | ret {s} : Run D (.ret none) s (.ret D.null) s
  | ret_value {e s v t} (he : e.eval D s = (v, t)) : Run D (.ret (some e)) s (.ret v) t

section Inversion

variable {D : Domain V S} {c d : Cmd} {e object key value : Exp} {s t : S} {f : Flow V}

theorem run_skip : Run D .skip s f t ↔ f = .next ∧ t = s := by
  constructor
  · intro h
    cases h
    exact ⟨rfl, rfl⟩
  · rintro ⟨rfl, rfl⟩
    exact .skip

theorem run_drop : Run D (.drop e) s f t ↔ f = .next ∧ t = (e.eval D s).2 := by
  constructor
  · intro h
    cases h with
    | drop he => exact ⟨rfl, by rw [he]⟩
  · rintro ⟨rfl, rfl⟩
    exact .drop rfl

theorem run_setVariable {x : Variable} : Run D (.setVariable x e) s f t ↔
    f = .next ∧ t = D.save x (e.eval D s).1 (e.eval D s).2 := by
  constructor
  · intro h
    cases h with
    | setVariable he => exact ⟨rfl, by rw [he]⟩
  · rintro ⟨rfl, rfl⟩
    exact .setVariable rfl

theorem run_setField {name : String} : Run D (.setField object name value) s f t ↔
    f = .next ∧ t = D.setField name (object.eval D s).1 (value.eval D (object.eval D s).2).1
      (value.eval D (object.eval D s).2).2 := by
  constructor
  · intro h
    cases h with
    | setField ho hv => exact ⟨rfl, by rw [ho, hv]⟩
  · rintro ⟨rfl, rfl⟩
    exact .setField rfl rfl

theorem run_setElement : Run D (.setElement object key value) s f t ↔
    f = .next ∧ t = D.setElement (object.eval D s).1 (key.eval D (object.eval D s).2).1
      (value.eval D (key.eval D (object.eval D s).2).2).1
      (value.eval D (key.eval D (object.eval D s).2).2).2 := by
  constructor
  · intro h
    cases h with
    | setElement ho hk hv => exact ⟨rfl, by rw [ho, hk, hv]⟩
  · rintro ⟨rfl, rfl⟩
    exact .setElement rfl rfl rfl

theorem run_seq : Run D (.seq c d) s f t ↔
    (∃ u, Run D c s .next u ∧ Run D d u f t) ∨ Run D c s f t ∧ f ≠ .next := by
  constructor
  · intro h
    cases h with
    | seq hc hd => exact .inl ⟨_, hc, hd⟩
    | seq_left hc hf => exact .inr ⟨hc, hf⟩
  · rintro (⟨u, hc, hd⟩ | ⟨hc, hf⟩)
    · exact .seq hc hd
    · exact .seq_left hc hf

theorem run_ifElse : Run D (.ifElse e c d) s f t ↔
    if D.isZero (e.eval D s).1 then Run D d (e.eval D s).2 f t else Run D c (e.eval D s).2 f t := by
  cases hzero : D.isZero (e.eval D s).1 with
  | true =>
    have hholds : Exp.holds D (some e) s = (false, (e.eval D s).2) := by rw [Exp.holds, hzero]; rfl
    constructor
    · intro hrun
      cases hrun with
      | ifElse_yes hc => cases hholds.symm.trans hc
      | ifElse_no hc h =>
        cases hholds.symm.trans hc
        exact h
    · exact .ifElse_no hholds
  | false =>
    have hholds : Exp.holds D (some e) s = (true, (e.eval D s).2) := by rw [Exp.holds, hzero]; rfl
    constructor
    · intro hrun
      cases hrun with
      | ifElse_yes hc h =>
        cases hholds.symm.trans hc
        exact h
      | ifElse_no hc => cases hholds.symm.trans hc
    · exact .ifElse_yes hholds

theorem run_jump {j : Jump} : Run D (.jump j) s f t ↔ f = .jump j ∧ t = s := by
  constructor
  · intro h
    cases h
    exact ⟨rfl, rfl⟩
  · rintro ⟨rfl, rfl⟩
    exact .jump

theorem run_ret : Run D (.ret none) s f t ↔ f = .ret D.null ∧ t = s := by
  constructor
  · intro h
    cases h
    exact ⟨rfl, rfl⟩
  · rintro ⟨rfl, rfl⟩
    exact .ret

theorem run_ret_value : Run D (.ret (some e)) s f t ↔
    f = .ret (e.eval D s).1 ∧ t = (e.eval D s).2 := by
  constructor
  · intro h
    cases h with
    | ret_value he => exact ⟨by rw [he], by rw [he]⟩
  · rintro ⟨rfl, rfl⟩
    exact .ret_value rfl

end Inversion

/-- The command ends with a value: that of a `return`, or null at its end. -/
def Ends (D : Domain V S) (c : Cmd) (s : S) (v : V) (t : S) : Prop :=
  c.Run D s (.ret v) t ∨ c.Run D s .next t ∧ v = D.null

end Cmd

/-! ## Trees -/

namespace VariableTable

/-- Where an occurrence of a variable is read, and the table behind it. -/
def read (t : VariableTable) (isMember : Bool) (name : String) : Variable × VariableTable :=
  match t.resolve name with
  | (some (.slot n), t) => (.slot n, t)
  | (some .member, t) => (.member name, t)
  | (_, t) => (if isMember then .member name else .global name, t)

/-- Where an assigned variable is kept, and the table behind it; an unknown one gets a slot. -/
def write? (t : VariableTable) (isMember : Bool) (name : String) :
    Option (Variable × VariableTable) :=
  match t.resolve name with
  | (some (.slot n), t) => some (.slot n, t)
  | (some .member, t) => some (.member name, t)
  | (some .global, t) => some (if isMember then .member name else .global name, t)
  | (none, t) =>
    if isMember then some (.member name, t)
    else
      match t.localSlot name with
      | (some n, t) => some (.slot n, t)
      | (none, _) => none

end VariableTable

/-- The expression that an operator makes of two. -/
def Exp.ofBinary? : Operator → Exp → Exp → Option Exp
  | .and, a, b => some (.and a b)
  | .or, a, b => some (.or a b)
  | .assign, _, _ | .assignField, _, _ | .dot, _, _ => none
  | op, a, b => if op.arity = 2 then some (.binary op a b) else none

/-- The expression of a node and the variables behind it; none if the node is none. -/
def Exp.ofNode? (t : VariableTable) : Node → Option (Exp × VariableTable)
  | .constant _ c => some (.constant c, t)
  | .this _ => some (.this, t)
  | .identifier m name =>
    let (x, t) := t.read (m.flags.contains .isMember) name
    some (.variable x, t)
  | .operation _ .dot [object, member] => do
    let name ← member.identifier?
    let (a, t) ← ofNode? t object
    return (.field a name, t)
  | .operation _ op [left, right] => do
    let (a, t) ← ofNode? t left
    let (b, t) ← ofNode? t right
    return (← Exp.ofBinary? op a b, t)
  | .operation _ op [operand] => do
    if op.arity ≠ 1 then none
    let (a, t) ← ofNode? t operand
    return (.unary op a, t)
  | _ => none

/-- The expression of a node, if there is one. -/
def Exp.ofOption? (t : VariableTable) : Option Node → Option (Option Exp × VariableTable)
  | none => some (none, t)
  | some n => do
    let (e, t) ← Exp.ofNode? t n
    return (some e, t)

/-- The assignment of a value to what a node names. -/
def Cmd.ofAssign? (t : VariableTable) (value : Node) : Node → Option (Cmd × VariableTable)
  | .operation _ .dot [object, member] => do
    let name ← member.identifier?
    let (a, t) ← Exp.ofNode? t object
    let (v, t) ← Exp.ofNode? t value
    return (.setField a name v, t)
  | .operation _ .index [object, key] => do
    let (a, t) ← Exp.ofNode? t object
    let (k, t) ← Exp.ofNode? t key
    let (v, t) ← Exp.ofNode? t value
    return (.setElement a k v, t)
  | .identifier m name => do
    let (v, t) ← Exp.ofNode? t value
    let (x, t) ← t.write? (m.flags.contains .isMember) name
    return (.setVariable x v, t)
  | _ => none

mutual

/-- The command of a node and the variables behind it; none if the node is none. -/
def Cmd.ofNode? (t : VariableTable) : Node → Option (Cmd × VariableTable)
  | .declaration _ storage name => some (.skip, (t.declare name storage).2)
  | .block _ items => ofList? t items
  | .ifElse _ cond yes no => do
    let (c, t) ← Exp.ofNode? t cond
    let (a, t) ← ofNode? t yes
    match no with
    | some no => do
      let (b, t) ← ofNode? t no
      return (.ifElse c a b, t)
    | none => return (.ifElse c a .skip, t)
  | .whileLoop _ cond body => do
    let (c, t) ← Exp.ofNode? t cond
    let (b, t) ← ofNode? t body
    return (.whileLoop c b, t)
  | .doLoop _ body cond => do
    let (b, t) ← ofNode? t body
    let (c, t) ← Exp.ofNode? t cond
    return (.doLoop b c, t)
  | .forLoop _ init cond step body => do
    let (i, t) ← ofOption? t init
    let (c, t) ← Exp.ofOption? t cond
    let (b, t) ← ofNode? t body
    let (a, t) ← ofOption? t step
    return (.seq i (.forLoop c a b), t)
  | .breakLoop _ => some (.jump .breakLoop, t)
  | .continueLoop _ => some (.jump .continueLoop, t)
  | .ret _ value => do
    let (e, t) ← Exp.ofOption? t value
    return (.ret e, t)
  | .operation _ .assign [target, value] => Cmd.ofAssign? t value target
  | n => do
    let (e, t) ← Exp.ofNode? t n
    return (.drop e, t)

/-- The command of a node, if there is one. -/
def Cmd.ofOption? (t : VariableTable) : Option Node → Option (Cmd × VariableTable)
  | none => some (.skip, t)
  | some n => ofNode? t n

/-- The command of nodes in order. -/
def Cmd.ofList? (t : VariableTable) : List Node → Option (Cmd × VariableTable)
  | [] => some (.skip, t)
  | n :: rest => do
    let (a, t) ← ofNode? t n
    let (b, t) ← ofList? t rest
    return (.seq a b, t)

end

/-! ## The nodes that have a meaning here -/

namespace Node

/-- The node is no call, no literal of a table or a function, and no `foreach`. -/
def isPlain : Node → Bool
  | .foreach .. | .call .. | .function .. | .table .. | .parameter .. => false
  | _ => true

/-- All nodes of the tree are plain. -/
def Plain (n : Node) : Prop :=
  ∀ m, n.Contains m → m.isPlain

instance (n : Node) : Decidable n.Plain :=
  decidable_of_iff _ (holdsDown_iff (Nat.le_refl n.count))

theorem Plain.child {n m : Node} (h : n.Plain) (hm : m ∈ n.children) : m.Plain :=
  fun _ hk => h _ (.child hm hk)

end Node

end ScriptToolchain
