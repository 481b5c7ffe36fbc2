import Mathlib.Data.List.Nodup
import ScriptToolchain.Compile.Generate
import ScriptToolchain.Proofs.Trees

/-!
# Valid trees

The trees that make sense, as a grammar that knows nothing of code: what may
stand as a statement, inside the body of a loop or not; what has a value; what
may stand on the left of an assignment; and what may stand in a table literal.
Behind each rule of the grammar stands the equivalence that reads it backwards.
A bound on the number of arguments is kept apart: the grammar with a bound is
the grammar without one, and the bound at every call of the tree.
-/

namespace ScriptToolchain

/-- The name of a parameter declaration. -/
def Node.parameter? : Node → Option String
  | .parameter _ name => some name
  | _ => none

namespace Grammar

/-- The operators that are written between or before operands that are all expressions. -/
def isPlain : Operator → Bool
  | .assign | .assignField | .dot => false
  | _ => true

variable (fit : Nat → Prop)

mutual

/-- The node may stand as a statement; the flag tells that it is in the body of a loop. -/
inductive Statement : Bool → Node → Prop where
  | declaration {inLoop} (m storage name) : Statement inLoop (.declaration m storage name)
  | block {inLoop m items} : (∀ n ∈ items, Statement inLoop n) →
      Statement inLoop (.block m items)
  | ifElse {inLoop m cond thenBranch elseBranch} : Expression cond →
      Statement inLoop thenBranch → (∀ n ∈ elseBranch, Statement inLoop n) →
      Statement inLoop (.ifElse m cond thenBranch elseBranch)
  | whileLoop {inLoop m cond body} : Expression cond → Statement true body →
      Statement inLoop (.whileLoop m cond body)
  | doLoop {inLoop m body cond} : Statement true body → Expression cond →
      Statement inLoop (.doLoop m body cond)
  /-- Only the body of the loop is inside it. -/
  | forLoop {inLoop m init cond step body} : (∀ n ∈ init, Statement inLoop n) →
      (∀ e ∈ cond, Expression e) → (∀ n ∈ step, Statement inLoop n) → Statement true body →
      Statement inLoop (.forLoop m init cond step body)
  | foreach {inLoop m collection key value body} : Expression collection → Statement true body →
      Statement inLoop (.foreach m collection key value body)
  | breakLoop (m) : Statement true (.breakLoop m)
  | continueLoop (m) : Statement true (.continueLoop m)
  | ret {inLoop m value} : (∀ e ∈ value, Expression e) → Statement inLoop (.ret m value)
  | assign {inLoop m target value} : Target target → Expression value →
      Statement inLoop (.operation m .assign [target, value])
  | expression {inLoop n} : Expression n → Statement inLoop n

/-- The node has a value. -/
inductive Expression : Node → Prop where
  | constant (m value) : Expression (.constant m value)
  | identifier (m name) : Expression (.identifier m name)
  | this (m) : Expression (.this m)
  | dot {m object k name} : Expression object →
      Expression (.operation m .dot [object, .identifier k name])
  | operation {m op operands} : isPlain op → operands.length = op.arity →
      (∀ e ∈ operands, Expression e) → Expression (.operation m op operands)
  /-- The number of arguments fits. -/
  | call {m callee args receiver} : (∀ e ∈ receiver, Expression e) → Expression callee →
      (∀ e ∈ args, Expression e) → fit args.length → Expression (.call m callee args receiver)
  /-- The body is not in a loop, whatever is around the literal. -/
  | function {m params body} : (∀ p ∈ params, p.parameter?.isSome) →
      (params.filterMap Node.parameter?).Nodup → Statement false body →
      Expression (.function m params body)
  | table {m fields} : (∀ f ∈ fields, Field f) → Expression (.table m fields)

/-- The node may be assigned to. -/
inductive Target : Node → Prop where
  | identifier (m name) : Target (.identifier m name)
  | dot {m object k name} : Expression object →
      Target (.operation m .dot [object, .identifier k name])
  | index {m object key} : Expression object → Expression key →
      Target (.operation m .index [object, key])

/-- The node may stand in a table literal. -/
inductive Field : Node → Prop where
  | keyed {m k name value} : Expression value →
      Field (.operation m .assignField [.identifier k name, value])
  | positional {e} : Expression e → Field e

end

end Grammar

/-- A unit that makes sense, however many arguments its calls have. -/
def Node.Valid (n : Node) : Prop :=
  Grammar.Statement (fun _ => True) false n

/-- The numbers of arguments of all calls of the tree. -/
def Node.CallsFit (fit : Nat → Prop) (n : Node) : Prop :=
  ∀ m callee args receiver, n.Contains (.call m callee args receiver) → fit args.length

namespace Grammar

variable {fit : Nat → Prop} {inLoop : Bool} {m : Mark}

/-! ## Expressions -/

theorem Expression.isExpression {n : Node} (h : Expression fit n) : n.isExpression := by
  cases h <;> rfl

theorem Expression.arity {op : Operator} {operands : List Node}
    (h : Expression fit (.operation m op operands)) : operands.length = op.arity := by
  cases h with
  | dot => rfl
  | operation _ harity => exact harity

theorem Expression.ne_assign {op : Operator} {operands : List Node}
    (h : Expression fit (.operation m op operands)) : op ≠ .assign := by
  rintro rfl
  cases h with
  | operation hplain => exact absurd hplain (by decide)

theorem Expression.ne_assignField {op : Operator} {operands : List Node}
    (h : Expression fit (.operation m op operands)) : op ≠ .assignField := by
  rintro rfl
  cases h with
  | operation hplain => exact absurd hplain (by decide)

theorem identifier_isSome {n : Node} : n.identifier?.isSome ↔ ∃ k name, n = .identifier k name := by
  cases n <;> simp [Node.identifier?]

theorem expression_dot {object member : Node} :
    Expression fit (.operation m .dot [object, member]) ↔
      member.identifier?.isSome ∧ Expression fit object := by
  rw [identifier_isSome]
  constructor
  · intro h
    cases h with
    | dot hobject => exact ⟨⟨_, _, rfl⟩, hobject⟩
    | operation hplain => exact absurd hplain (by decide)
  · rintro ⟨⟨k, name, rfl⟩, hobject⟩
    exact .dot hobject

theorem expression_operation {op : Operator} {operands : List Node} (hop : isPlain op)
    (harity : operands.length = op.arity) :
    Expression fit (.operation m op operands) ↔ ∀ e ∈ operands, Expression fit e := by
  constructor
  · intro h
    cases h with
    | dot => exact absurd hop (by decide)
    | operation _ _ hoperands => exact hoperands
  · exact .operation hop harity

theorem expression_call {callee : Node} {args : List Node} {receiver : Option Node} :
    Expression fit (.call m callee args receiver) ↔
      ((∀ e ∈ receiver, Expression fit e) ∧ Expression fit callee) ∧
        (∀ e ∈ args, Expression fit e) ∧ fit args.length :=
  ⟨fun | .call hreceiver hcallee hargs hfit => ⟨⟨hreceiver, hcallee⟩, hargs, hfit⟩,
    fun ⟨⟨hreceiver, hcallee⟩, hargs, hfit⟩ => .call hreceiver hcallee hargs hfit⟩

theorem expression_function {params : List Node} {body : Node} :
    Expression fit (.function m params body) ↔
      ((∀ p ∈ params, p.parameter?.isSome) ∧ (params.filterMap Node.parameter?).Nodup) ∧
        Statement fit false body :=
  ⟨fun | .function hparams hdistinct hbody => ⟨⟨hparams, hdistinct⟩, hbody⟩,
    fun ⟨⟨hparams, hdistinct⟩, hbody⟩ => .function hparams hdistinct hbody⟩

theorem expression_table {fields : List Node} :
    Expression fit (.table m fields) ↔ ∀ f ∈ fields, Field fit f :=
  ⟨fun | .table h => h, .table⟩

/-! ## Places and fields -/

theorem target_dot {object member : Node} :
    Target fit (.operation m .dot [object, member]) ↔
      member.identifier?.isSome ∧ Expression fit object := by
  rw [identifier_isSome]
  constructor
  · rintro (_ | hobject)
    exact ⟨⟨_, _, rfl⟩, hobject⟩
  · rintro ⟨⟨k, name, rfl⟩, hobject⟩
    exact .dot hobject

theorem target_index {object key : Node} :
    Target fit (.operation m .index [object, key]) ↔
      Expression fit object ∧ Expression fit key :=
  ⟨fun | .index hobject hkey => ⟨hobject, hkey⟩, fun ⟨hobject, hkey⟩ => .index hobject hkey⟩

theorem field_keyed {operands : List Node} :
    Field fit (.operation m .assignField operands) ↔
      ∃ key value, operands = [key, value] ∧ key.identifier?.isSome ∧ Expression fit value := by
  simp only [identifier_isSome]
  constructor
  · rintro (hvalue | h)
    · exact ⟨_, _, rfl, ⟨_, _, rfl⟩, hvalue⟩
    · exact absurd rfl h.ne_assignField
  · rintro ⟨key, value, rfl, ⟨k, name, rfl⟩, hvalue⟩
    exact .keyed hvalue

theorem field_positional {n : Node} (h : Compile.Gen.operator? n ≠ some Operator.assignField) :
    Field fit n ↔ Expression fit n := by
  constructor
  · rintro (_ | hn)
    · exact absurd rfl h
    · exact hn
  · exact .positional

/-! ## Statements -/

theorem statement_declaration {storage : StorageClass} {name : String} :
    Statement fit inLoop (.declaration m storage name) ↔ True :=
  ⟨fun _ => trivial, fun _ => .declaration m storage name⟩

theorem statement_parameter {name : String} : ¬ Statement fit inLoop (.parameter m name) :=
  fun | .expression h => (nomatch h)

theorem statement_block {items : List Node} :
    Statement fit inLoop (.block m items) ↔ ∀ n ∈ items, Statement fit inLoop n :=
  ⟨fun | .block h => h | .expression h => (nomatch h), .block⟩

theorem statement_ifElse {cond thenBranch : Node} {elseBranch : Option Node} :
    Statement fit inLoop (.ifElse m cond thenBranch elseBranch) ↔
      Expression fit cond ∧ Statement fit inLoop thenBranch ∧
        ∀ n ∈ elseBranch, Statement fit inLoop n :=
  ⟨fun | .ifElse hcond hthen helse => ⟨hcond, hthen, helse⟩ | .expression h => (nomatch h),
    fun ⟨hcond, hthen, helse⟩ => .ifElse hcond hthen helse⟩

theorem statement_whileLoop {cond body : Node} :
    Statement fit inLoop (.whileLoop m cond body) ↔
      Expression fit cond ∧ Statement fit true body :=
  ⟨fun | .whileLoop hcond hbody => ⟨hcond, hbody⟩ | .expression h => (nomatch h),
    fun ⟨hcond, hbody⟩ => .whileLoop hcond hbody⟩

theorem statement_doLoop {body cond : Node} :
    Statement fit inLoop (.doLoop m body cond) ↔
      Statement fit true body ∧ Expression fit cond :=
  ⟨fun | .doLoop hbody hcond => ⟨hbody, hcond⟩ | .expression h => (nomatch h),
    fun ⟨hbody, hcond⟩ => .doLoop hbody hcond⟩

theorem statement_forLoop {init cond step : Option Node} {body : Node} :
    Statement fit inLoop (.forLoop m init cond step body) ↔
      (∀ n ∈ init, Statement fit inLoop n) ∧
        ((∀ e ∈ cond, Expression fit e) ∧ Statement fit true body) ∧
          ∀ n ∈ step, Statement fit inLoop n :=
  ⟨fun
    | .forLoop hinit hcond hstep hbody => ⟨hinit, ⟨hcond, hbody⟩, hstep⟩
    | .expression h => (nomatch h),
    fun ⟨hinit, ⟨hcond, hbody⟩, hstep⟩ => .forLoop hinit hcond hstep hbody⟩

theorem statement_foreach {collection body : Node} {key : Option String} {value : String} :
    Statement fit inLoop (.foreach m collection key value body) ↔
      Expression fit collection ∧ Statement fit true body :=
  ⟨fun | .foreach hcollection hbody => ⟨hcollection, hbody⟩ | .expression h => (nomatch h),
    fun ⟨hcollection, hbody⟩ => .foreach hcollection hbody⟩

theorem statement_breakLoop : Statement fit inLoop (.breakLoop m) ↔ inLoop = true :=
  ⟨fun | .breakLoop _ => rfl | .expression h => (nomatch h), fun h => h ▸ .breakLoop m⟩

theorem statement_continueLoop : Statement fit inLoop (.continueLoop m) ↔ inLoop = true :=
  ⟨fun | .continueLoop _ => rfl | .expression h => (nomatch h), fun h => h ▸ .continueLoop m⟩

theorem statement_ret {value : Option Node} :
    Statement fit inLoop (.ret m value) ↔ ∀ e ∈ value, Expression fit e :=
  ⟨fun | .ret h => h | .expression h => (nomatch h), .ret⟩

/-- An expression that is no assignment is a statement as it is. -/
theorem statement_expression {n : Node} (hn : n.isExpression)
    (hassign : ∀ m operands, n ≠ .operation m .assign operands) :
    Statement fit inLoop n ↔ Expression fit n := by
  constructor
  · intro h
    cases h with
    | expression h => exact h
    | assign => exact absurd rfl (hassign _ _)
    | _ => cases hn
  · exact .expression

theorem statement_assign {operands : List Node} :
    Statement fit inLoop (.operation m .assign operands) ↔
      ∃ target value, operands = [target, value] ∧ Target fit target ∧ Expression fit value := by
  constructor
  · intro h
    cases h with
    | assign htarget hvalue => exact ⟨_, _, rfl, htarget, hvalue⟩
    | expression h => exact absurd rfl h.ne_assign
  · rintro ⟨target, value, rfl, htarget, hvalue⟩
    exact .assign htarget hvalue

end Grammar

/-! ## Bounds on calls -/

theorem Node.CallsFit.child {fit : Nat → Prop} {n m : Node} (h : n.CallsFit fit)
    (hm : m ∈ n.children) : m.CallsFit fit :=
  fun _ _ _ _ hk => h _ _ _ _ (.child hm hk)

/-- A tree has the calls below it, and itself if it is one. -/
theorem Node.callsFit_of_children {fit : Nat → Prop} {n : Node}
    (hself : ∀ m callee args receiver, n = .call m callee args receiver → fit args.length)
    (hbelow : ∀ m ∈ n.children, m.CallsFit fit) : n.CallsFit fit := by
  intro m callee args receiver hk
  cases hk with
  | self => exact hself m callee args receiver rfl
  | child hm hk => exact hbelow _ hm _ _ _ _ hk

namespace Grammar

variable {fit fit' : Nat → Prop}

mutual

/-- The bound may be changed for another one that the calls keep. -/
theorem Statement.refit {inLoop : Bool} {n : Node} :
    Statement fit inLoop n → n.CallsFit fit' → Statement fit' inLoop n
  | .declaration m storage name, _ => .declaration m storage name
  | .block h, hc => .block fun n hn => (h n hn).refit (hc.child hn)
  | .ifElse hcond hthen helse, hc =>
    .ifElse (hcond.refit (hc.child (by simp [Node.children])))
      (hthen.refit (hc.child (by simp [Node.children])))
      fun n hn => (helse n hn).refit (hc.child (by simp [Node.children, Option.mem_toList.mpr hn]))
  | .whileLoop hcond hbody, hc =>
    .whileLoop (hcond.refit (hc.child (by simp [Node.children])))
      (hbody.refit (hc.child (by simp [Node.children])))
  | .doLoop hbody hcond, hc =>
    .doLoop (hbody.refit (hc.child (by simp [Node.children])))
      (hcond.refit (hc.child (by simp [Node.children])))
  | .forLoop hinit hcond hstep hbody, hc =>
    .forLoop (fun n hn => (hinit n hn).refit
        (hc.child (by simp [Node.children, Option.mem_toList.mpr hn])))
      (fun e he => (hcond e he).refit
        (hc.child (by simp [Node.children, Option.mem_toList.mpr he])))
      (fun n hn => (hstep n hn).refit
        (hc.child (by simp [Node.children, Option.mem_toList.mpr hn])))
      (hbody.refit (hc.child (by simp [Node.children])))
  | .foreach hcollection hbody, hc =>
    .foreach (hcollection.refit (hc.child (by simp [Node.children])))
      (hbody.refit (hc.child (by simp [Node.children])))
  | .breakLoop m, _ => .breakLoop m
  | .continueLoop m, _ => .continueLoop m
  | .ret h, hc => .ret fun e he => (h e he).refit (hc.child (Option.mem_toList.mpr he))
  | .assign htarget hvalue, hc =>
    .assign (htarget.refit (hc.child (by simp [Node.children])))
      (hvalue.refit (hc.child (by simp [Node.children])))
  | .expression h, hc => .expression (h.refit hc)

theorem Expression.refit {n : Node} : Expression fit n → n.CallsFit fit' → Expression fit' n
  | .constant m value, _ => .constant m value
  | .identifier m name, _ => .identifier m name
  | .this m, _ => .this m
  | .dot h, hc => .dot (h.refit (hc.child (by simp [Node.children])))
  | .operation hplain harity h, hc =>
    .operation hplain harity fun e he => (h e he).refit (hc.child he)
  | .call hreceiver hcallee hargs _, hc =>
    .call (fun e he => (hreceiver e he).refit
        (hc.child (by simp [Node.children, Option.mem_toList.mpr he])))
      (hcallee.refit (hc.child (by simp [Node.children])))
      (fun e he => (hargs e he).refit (hc.child (by simp [Node.children, he])))
      (hc _ _ _ _ (.self _))
  | .function hparams hdistinct hbody, hc =>
    .function hparams hdistinct (hbody.refit (hc.child (by simp [Node.children])))
  | .table h, hc => .table fun f hf => (h f hf).refit (hc.child hf)

theorem Target.refit {n : Node} : Target fit n → n.CallsFit fit' → Target fit' n
  | .identifier m name, _ => .identifier m name
  | .dot h, hc => .dot (h.refit (hc.child (by simp [Node.children])))
  | .index hobject hkey, hc =>
    .index (hobject.refit (hc.child (by simp [Node.children])))
      (hkey.refit (hc.child (by simp [Node.children])))

theorem Field.refit {n : Node} : Field fit n → n.CallsFit fit' → Field fit' n
  | .keyed h, hc => .keyed (h.refit (hc.child (by simp [Node.children])))
  | .positional h, hc => .positional (h.refit hc)

end

theorem callsFit_parameter {n : Node} (h : n.parameter?.isSome) : n.CallsFit fit := by
  cases n with
  | parameter => exact Node.callsFit_of_children nofun nofun
  | _ => cases h

theorem callsFit_identifier (m : Mark) (name : String) :
    (Node.identifier m name).CallsFit fit :=
  Node.callsFit_of_children nofun nofun

mutual

/-- A tree that keeps the bound does so at every call. -/
theorem Statement.callsFit {inLoop : Bool} {n : Node} : Statement fit inLoop n → n.CallsFit fit
  | .declaration .. | .breakLoop _ | .continueLoop _ => Node.callsFit_of_children nofun nofun
  | .block h => Node.callsFit_of_children nofun fun n hn => (h n hn).callsFit
  | .ifElse hcond hthen helse => Node.callsFit_of_children nofun
    (List.forall_mem_cons.mpr ⟨hcond.callsFit, List.forall_mem_cons.mpr ⟨hthen.callsFit,
      fun n hn => (helse n (Option.mem_toList.mp hn)).callsFit⟩⟩)
  | .whileLoop hcond hbody => Node.callsFit_of_children nofun
    (List.forall_mem_cons.mpr ⟨hcond.callsFit, List.forall_mem_singleton.mpr hbody.callsFit⟩)
  | .doLoop hbody hcond => Node.callsFit_of_children nofun
    (List.forall_mem_cons.mpr ⟨hbody.callsFit, List.forall_mem_singleton.mpr hcond.callsFit⟩)
  | .forLoop hinit hcond hstep hbody => Node.callsFit_of_children nofun
    (List.forall_mem_append.mpr ⟨List.forall_mem_append.mpr ⟨List.forall_mem_append.mpr
      ⟨fun n hn => (hinit n (Option.mem_toList.mp hn)).callsFit,
        fun e he => (hcond e (Option.mem_toList.mp he)).callsFit⟩,
      fun n hn => (hstep n (Option.mem_toList.mp hn)).callsFit⟩,
      List.forall_mem_singleton.mpr hbody.callsFit⟩)
  | .foreach hcollection hbody => Node.callsFit_of_children nofun
    (List.forall_mem_cons.mpr
      ⟨hcollection.callsFit, List.forall_mem_singleton.mpr hbody.callsFit⟩)
  | .ret h => Node.callsFit_of_children nofun fun e he => (h e (Option.mem_toList.mp he)).callsFit
  | .assign htarget hvalue => Node.callsFit_of_children nofun
    (List.forall_mem_cons.mpr ⟨htarget.callsFit, List.forall_mem_singleton.mpr hvalue.callsFit⟩)
  | .expression h => h.callsFit

theorem Expression.callsFit {n : Node} : Expression fit n → n.CallsFit fit
  | .constant .. | .this _ => Node.callsFit_of_children nofun nofun
  | .identifier m name => callsFit_identifier m name
  | .dot h => Node.callsFit_of_children nofun
    (List.forall_mem_cons.mpr ⟨h.callsFit, List.forall_mem_singleton.mpr (callsFit_identifier _ _)⟩)
  | .operation _ _ h => Node.callsFit_of_children nofun fun e he => (h e he).callsFit
  | .call hreceiver hcallee hargs hfit => Node.callsFit_of_children
    (by rintro _ _ _ _ ⟨⟩; exact hfit)
    (List.forall_mem_append.mpr ⟨fun e he => (hreceiver e (Option.mem_toList.mp he)).callsFit,
      List.forall_mem_cons.mpr ⟨hcallee.callsFit, fun e he => (hargs e he).callsFit⟩⟩)
  | .function hparams _ hbody => Node.callsFit_of_children nofun
    (List.forall_mem_append.mpr ⟨fun p hp => callsFit_parameter (hparams p hp),
      List.forall_mem_singleton.mpr hbody.callsFit⟩)
  | .table h => Node.callsFit_of_children nofun fun f hf => (h f hf).callsFit

theorem Target.callsFit {n : Node} : Target fit n → n.CallsFit fit
  | .identifier m name => callsFit_identifier m name
  | .dot h => Node.callsFit_of_children nofun
    (List.forall_mem_cons.mpr ⟨h.callsFit, List.forall_mem_singleton.mpr (callsFit_identifier _ _)⟩)
  | .index hobject hkey => Node.callsFit_of_children nofun
    (List.forall_mem_cons.mpr ⟨hobject.callsFit, List.forall_mem_singleton.mpr hkey.callsFit⟩)

theorem Field.callsFit {n : Node} : Field fit n → n.CallsFit fit
  | .keyed h => Node.callsFit_of_children nofun
    (List.forall_mem_cons.mpr ⟨callsFit_identifier _ _, List.forall_mem_singleton.mpr h.callsFit⟩)
  | .positional h => h.callsFit

end

/-- The grammar with a bound is the grammar without one, and the bound at every call. -/
theorem statement_iff_callsFit {inLoop : Bool} {n : Node} :
    Statement fit inLoop n ↔ Statement (fun _ => True) inLoop n ∧ n.CallsFit fit :=
  ⟨fun h => ⟨h.refit fun _ _ _ _ _ => trivial, h.callsFit⟩, fun ⟨h, hc⟩ => h.refit hc⟩

end Grammar

end ScriptToolchain
