import ScriptToolchain.Proofs.Forms
import ScriptToolchain.Proofs.Touches

/-!
# Every node touches what it uses

By induction over the tree, the code of a node touches what the node uses, in
every role and from every table of variables. The left side of an assignment is
met before the value but stored to behind it, the variables of a `foreach` get
their slots before the collection is met, and the callee of a call without
receiver decides what is pushed before it.
-/

namespace ScriptToolchain

namespace Compile

/-- What storing to a place uses. -/
def Place.uses : Place → List Use
  | .variable name flagged => [.store flagged name]
  | _ => []

variable {policy : ReceiverPolicy} {P : VariableTable → Prop} {n : Node}

/-- In every role and from every table, the code of the node touches what the node uses. -/
def Used (policy : ReceiverPolicy) (n : Node) : Prop :=
  ∀ (inLoop : Bool) (role : Role),
    (Lowering.node policy inLoop role n : Lowering Builder Unit).Touches policy Lowering.Any n.uses

open Lowering

theorem Used.value (h : Used policy n) (inLoop : Bool) (name : Option String) :
    (Lowering.node policy inLoop (.value name) n : Lowering Builder Unit).Touches policy P n.uses :=
  (h inLoop (.value name)).any

theorem Used.statement (h : Used policy n) (inLoop : Bool) :
    (Lowering.node policy inLoop .statement n : Lowering Builder Unit).Touches policy P n.uses :=
  (h inLoop .statement).any

/-! ## Parts of nodes -/

/-- What stands before the value of an assignment. -/
theorem uses_place {target : Node} (h : ∀ m ∈ target.children, Used policy m) (inLoop : Bool)
    (line : UInt32) :
    (Lowering.place policy inLoop line target : Lowering Builder Place).Touches policy P
      target.usesPlace := by
  cases placeForm target with
  | field m object member =>
    have hobject := h object (by simp [Node.children])
    rw [place_field]
    exact (Touches.memberName line member).bind fun _ =>
      (hobject.value inLoop none).done fun _ => Touches.pure _
  | element m object key =>
    have hobject := h object (by simp [Node.children])
    have hkey := h key (by simp [Node.children])
    rw [place_element]
    exact (hobject.value inLoop none).bind fun _ =>
      (hkey.value inLoop none).done fun _ => Touches.pure _
  | name m name =>
    rw [place_name]
    exact Touches.pure _
  | refused f hrefused =>
    rw [hrefused]
    exact Touches.fail line f

/-- A place stores to what stands on the left side. -/
theorem place_saved {target : Node} {inLoop : Bool} {line : UInt32} {c c' : Scope Builder}
    {q : Place} {code : Block} (h : Lowering.place policy inLoop line target c = .ok q code c') :
    q.uses = target.saved := by
  cases placeForm target with
  | field m object member =>
    rw [place_field] at h
    obtain ⟨_, _, _, _, _, hrest, rfl⟩ := bind_eq_ok h
    obtain ⟨_, _, _, _, _, ⟨⟩, rfl⟩ := bind_eq_ok hrest
    rfl
  | element m object key =>
    rw [place_element] at h
    obtain ⟨_, _, _, _, _, hrest, rfl⟩ := bind_eq_ok h
    obtain ⟨_, _, _, _, _, ⟨⟩, rfl⟩ := bind_eq_ok hrest
    rfl
  | name m name =>
    rw [place_name] at h
    cases h
    rfl
  | refused f hrefused =>
    rw [hrefused] at h
    cases h

/-- Of the callee of a call by dot, the object is used. -/
theorem uses_method {callee : Node} (hdot : Gen.operator? callee = some .dot)
    (h : ∀ m ∈ callee.children, Used policy m) (inLoop : Bool) (line : UInt32) :
    (Lowering.method policy inLoop line callee : Lowering Builder Unit).Touches policy P
      callee.uses := by
  cases methodForm callee with
  | dot m op object member =>
    obtain rfl := Option.some.inj hdot
    have hobject := h object (by simp [Node.children])
    rw [method_dot]
    exact (Touches.memberName line member).bind fun _ => (hobject.value inLoop none).done fun _ =>
      (Touches.emit rfl).bind fun _ => Touches.emitSymbol fun _ => rfl
  | refused f hrefused =>
    rw [hrefused]
    exact Touches.fail line f

theorem uses_statements {items : List Node} (h : ∀ m ∈ items, Used policy m) (inLoop : Bool) :
    (Lowering.statements policy inLoop items : Lowering Builder Unit).Touches policy P
      (Node.usesAll items) := by
  induction items generalizing P with
  | nil =>
    rw [Lowering.statements]
    exact Touches.pure ()
  | cons n rest ih =>
    rw [Lowering.statements]
    exact ((h n (List.mem_cons_self ..)).statement inLoop).bind fun _ =>
      ih fun m hm => h m (List.mem_cons_of_mem _ hm)

theorem uses_arguments {args : List Node} (h : ∀ m ∈ args, Used policy m) (inLoop : Bool) :
    (Lowering.arguments policy inLoop args : Lowering Builder Unit).Touches policy P
      (Node.usesAll args) := by
  induction args generalizing P with
  | nil =>
    rw [Lowering.arguments]
    exact Touches.pure ()
  | cons n rest ih =>
    rw [Lowering.arguments]
    exact ((h n (List.mem_cons_self ..)).value inLoop none).bind fun _ =>
      ih fun m hm => h m (List.mem_cons_of_mem _ hm)

theorem uses_keyedField {field : Node} (h : ∀ m ∈ field.children, Used policy m) (inLoop : Bool)
    (line : UInt32) :
    (Lowering.keyedField policy inLoop line field : Lowering Builder Unit).Touches policy P
      field.usesKeyed := by
  cases keyedForm field with
  | named m op key value hname =>
    have hvalue := h value (by simp [Node.children])
    rw [keyedField_named op value hname]
    exact (hvalue.value inLoop _).done fun _ => Touches.emitSymbol fun _ => rfl
  | refused f hrefused =>
    rw [hrefused]
    exact Touches.fail _ f

theorem uses_tableFields {fields : List Node} (h : ∀ m ∈ fields, Used policy m)
    (hbelow : ∀ m ∈ fields, ∀ k ∈ m.children, Used policy k) (inLoop : Bool) (line : UInt32)
    (position : Int32) :
    (Lowering.tableFields policy inLoop line position fields : Lowering Builder Unit).Touches policy
      P (Node.usesFields fields) := by
  induction fields generalizing position P with
  | nil =>
    rw [Lowering.tableFields]
    exact Touches.pure ()
  | cons field rest ih =>
    have hrest (position : Int32) : (Lowering.tableFields policy inLoop line position rest :
        Lowering Builder Unit).Touches policy Any (Node.usesFields rest) :=
      ih (fun m hm => h m (List.mem_cons_of_mem _ hm))
        (fun m hm => hbelow m (List.mem_cons_of_mem _ hm)) position
    rw [Lowering.tableFields, Node.usesFields]
    refine (Touches.emit rfl).bind fun _ => ?_
    split
    · exact (uses_keyedField (hbelow field (List.mem_cons_self ..)) inLoop line).bind fun _ =>
        hrest position
    · exact (Touches.pushInt position).bind fun _ =>
        ((h field (List.mem_cons_self ..)).value inLoop none).bind fun _ =>
          (Touches.emit rfl).bind fun _ => hrest (position + 1)

theorem uses_round {cond : Option Node} {body : Node} (inLoop : Bool) :
    (∀ k ∈ cond, Used policy k) → Used policy body →
    (round policy inLoop cond body : Lowering Builder Unit).Touches policy P
      (Node.usesOption cond ++ body.uses) := by
  intro hcond hbody
  cases cond with
  | none => exact hbody.statement true
  | some cond => exact Touches.tested ((hcond cond rfl).value inLoop none) (hbody.statement true)

theorem uses_advance {step : Option Node} (inLoop : Bool) :
    (∀ k ∈ step, Used policy k) →
    (advance policy inLoop step : Lowering Builder Unit).Touches policy P (Node.usesOption step) := by
  intro hstep
  cases step with
  | none => exact Touches.pure ()
  | some step => exact (hstep step rfl).statement inLoop

/-- The parts of a `for` stand in the order in which a round meets them. -/
theorem uses_forLoop {init cond step : Option Node} {body : Node} (inLoop : Bool) :
    (∀ k ∈ init, Used policy k) → (∀ k ∈ cond, Used policy k) →
    (∀ k ∈ step, Used policy k) → Used policy body →
    (forLoop policy inLoop init cond step body : Lowering Builder Unit).Touches policy P
      (Node.usesOption init ++
        (Node.usesOption cond ++ (body.uses ++ Node.usesOption step))) := by
  intro hinit hcond hstep hbody
  have hloop {P : VariableTable → Prop} : Touches policy P _ _ := (Touches.loop .branch .tail
    (uses_round inLoop hcond hbody) (uses_advance inLoop hstep)).of_eq (List.append_assoc ..)
  cases init with
  | none => exact hloop
  | some init => exact ((hinit init rfl).statement inLoop).bind fun _ => hloop

theorem of?_binaryOpcode (op : Operator) : Access.of? (binaryOpcode op) .none = none := by
  cases op <;> rfl

theorem of?_unaryOpcode (op : Operator) : Access.of? (unaryOpcode op) .none = none := by
  cases op <;> rfl

theorem uses_of_isPlain {m : Mark} {op : Operator} (hop : Grammar.isPlain op)
    (operands : List Node) :
    (Node.operation m op operands).uses = Node.usesAll operands := by
  cases op <;> first | contradiction | rfl

/-- An operation that is no assignment uses what its operands use; the member of a dot is none. -/
theorem uses_operation {m : Mark} {op : Operator} {operands : List Node}
    (h : ∀ k ∈ operands, Used policy k) (inLoop : Bool) :
    (operate policy inLoop m.line op operands : Lowering Builder Unit).Touches policy P
      (Node.operation m op operands).uses := by
  cases operationForm op operands with
  | refused hrefused =>
    rw [operate_refused hrefused]
    exact Touches.fail m.line _
  | dot object member =>
    exact (Touches.memberName m.line member).bind fun _ =>
      ((h object (by simp)).value inLoop none).done fun _ => Touches.emitSymbol fun _ => rfl
  | binary hop harity left right =>
    have hleft := h left (by simp)
    have hright := h right (by simp)
    rw [operate_binary hop harity, uses_of_isPlain hop]
    refine (hleft.value inLoop none).bind fun _ => ?_
    cases shortCircuit? op with
    | some keep =>
      refine (Touches.skip keep ?_).of_eq (List.append_nil right.uses).symm
      exact (Touches.emit rfl).bind fun _ => hright.value inLoop none
    | none => exact (hright.value inLoop none).bind fun _ => Touches.emit (of?_binaryOpcode op)
  | unary hop harity operand =>
    have hoperand := h operand (by simp)
    rw [operate_unary harity, uses_of_isPlain hop]
    exact (hoperand.value inLoop none).bind fun _ => Touches.emit (of?_unaryOpcode op)

theorem called_of_dot {callee : Node} (h : Gen.operator? callee = some .dot) (us : List Use) :
    callee.called us = us := by
  cases callee with
  | operation m op operands =>
    obtain rfl := Option.some.inj h
    rfl
  | _ => cases h

theorem called_of_other {callee : Node} (hdot : Gen.operator? callee ≠ some .dot)
    (hname : callee.identifier? = none) (us : List Use) :
    callee.called us = .receiver :: us := by
  cases callee with
  | identifier m name => cases hname
  | operation m op operands =>
    cases op with
    | dot => exact absurd rfl hdot
    | _ => rfl
  | _ => rfl

/-- The callee of a call without receiver decides what is pushed before it. -/
theorem uses_callee {callee : Node} (hdot : Gen.operator? callee ≠ some .dot)
    (h : Used policy callee) (inLoop : Bool) :
    (do
      Lowering.pushReceiver policy callee
      Lowering.node policy inLoop (.value none) callee : Lowering Builder Unit).Touches policy P
      (callee.called callee.uses) := by
  intro c _ code c' hl _
  obtain ⟨_, x, c₁, y, hpush, hnode, rfl⟩ := bind_eq_ok hl
  obtain ⟨hnames, hnumbers, haccesses⟩ := Touches.pushReceiver_run hpush
  have hcallee : Scope.Touches policy callee.uses y c₁ c' :=
    h inLoop (.value none) c₁ _ y c' hnode trivial
  cases hname : callee.identifier? with
  | none =>
    rw [called_of_other hdot hname]
    have hreceiver : Scope.Touches policy [.receiver] x c c₁ := by
      refine ⟨hnames, hnumbers, ?_⟩
      rwa [Gen.isMemberCallee, hname, Bool.or_false] at haccesses
    exact hreceiver.seq hcallee
  | some name =>
    cases callee with
    | identifier m name =>
      -- the load starts from the table that decided on the receiver
      have hload := hcallee.accesses
      rw [hnames] at hload
      refine ⟨?_, fun _ _ hi => hcallee.numbers (hnumbers hi), ?_⟩
      · rw [hcallee.names, hnames]
        rfl
      · rw [Block.accesses_seq]
        show List.Forall₂ _ (Use.touches policy c.names [.callee _ name]) _
        rw [Use.touches_callee]
        exact List.rel_append (haccesses.imp fun _ _ ha => ha.mono hcallee.numbers) hload
    | _ => cases hname

/-! ## Nodes -/

theorem uses_foreach {m : Mark} {collection : Node} {key : Option String} {value : String}
    {body : Node} (h : ∀ k ∈ (Node.foreach m collection key value body).children, Used policy k) :
    Used policy (.foreach m collection key value body) := by
  intro inLoop role
  rw [Lowering.node.eq_def]
  have hcollection := h collection (by simp [Node.children])
  have hbody := h body (by simp [Node.children])
  refine Touches.asStatement role m.line ((Touches.markLine m.line).bind fun _ => ?_)
  show Touches policy Any ([.hold (key.getD hiddenKey)] ++ ([.hold value] ++
    (collection.uses ++ ([] ++ ([.advance (key.getD hiddenKey) value] ++ body.uses))))) _
  refine (Touches.foreachSlot _ m.line).bind_from (fun hl _ => Touches.foreachSlot_held hl)
    fun k => ?_
  have hboth {c c' : Scope Builder} {v : UInt16} {code : Block}
      (hl : Lowering.foreachSlot value m.line c = .ok v code c')
      (hk : Touches.Held (key.getD hiddenKey) k c.names) :
      Touches.Held (key.getD hiddenKey) k c'.names ∧ Touches.Held value v c'.names :=
    ⟨hk.keeps (Touches.keeps_foreachSlot hl), Touches.foreachSlot_held hl⟩
  refine (Touches.foreachSlot value m.line).bind_from
    (Q := fun v t => Touches.Held (key.getD hiddenKey) k t ∧ Touches.Held value v t) hboth
    fun v => ?_
  -- the slots were given before the collection is met, and stay what they are
  have hkeeps {t t' : VariableTable} (h : t.Keeps t')
      (hheld : Touches.Held (key.getD hiddenKey) k t ∧ Touches.Held value v t) :
      Touches.Held (key.getD hiddenKey) k t' ∧ Touches.Held value v t' :=
    ⟨hheld.1.keeps h, hheld.2.keeps h⟩
  refine (hcollection.value inLoop none).bind_keeps hkeeps fun _ => ?_
  refine (Touches.pushInt (-2)).bind_keeps hkeeps fun _ => ?_
  refine ((Touches.loop .branch .top ?_ (Touches.pure ())).of_eq (List.append_nil _)).done
    fun _ => Touches.emit rfl
  exact Touches.tested Touches.advance (hbody.statement true)

theorem uses_call {m : Mark} {callee : Node} {args : List Node} {receiver : Option Node}
    (h : ∀ k ∈ (Node.call m callee args receiver).children, Used policy k)
    (hbelow : ∀ k ∈ callee.children, Used policy k) :
    Used policy (.call m callee args receiver) := by
  intro inLoop role
  rw [Lowering.node.eq_def]
  have hcallee := h callee (by simp [Node.children])
  have hall (k : Node) (hk : k ∈ args) : Used policy k := h k (by simp [Node.children, hk])
  have hargs {P : VariableTable → Prop} : (do
      Lowering.arguments policy inLoop args
      Lowering.emitCall args.length m.line : Lowering Builder Unit).Touches policy P
      (Node.usesAll args) :=
    (uses_arguments hall inLoop).done fun _ => Touches.emitCall args.length m.line
  refine Touches.asValue role m fun _ => ?_
  cases receiver with
  | some receiver =>
    have hreceiver := h receiver (by simp [Node.children])
    exact ((hreceiver.value inLoop none).bind fun _ =>
      (hcallee.value inLoop none).bind fun _ => hargs).of_eq (List.append_assoc ..).symm
  | none =>
    show Touches _ _ _ (if _ then _ else _)
    split
    case isTrue hdot =>
      refine ((uses_method hdot hbelow inLoop m.line).bind fun _ => hargs).of_eq ?_
      exact congrArg (· ++ _) (called_of_dot hdot _).symm
    case isFalse hdot => exact (uses_callee hdot hcallee inLoop).bind_both fun _ => hargs

theorem used_node (n : Node) : Used policy n := by
  induction n using Node.induction_below with
  | h n below below₂ =>
    intro inLoop role
    rw [Lowering.node.eq_def]
    cases n with
    | declaration m storage name =>
      exact Touches.asStatement role m.line (Touches.declare m storage name)
    | parameter m name => exact Touches.asStatement role m.line (Touches.fail m.line _)
    | block m items =>
      exact Touches.asStatement role m.line (uses_statements (fun k hk => below hk) inLoop)
    | ifElse m cond yes no =>
      have hcond : Used policy cond := below (by simp [Node.children])
      have hyes : Used policy yes := below (by simp [Node.children])
      refine Touches.asStatement role m.line ((Touches.markLine m.line).bind fun _ =>
        (hcond.value inLoop none).bind fun _ => ?_)
      cases no with
      | none =>
        exact (Touches.skip _ (hyes.statement inLoop)).of_eq (List.append_nil yes.uses).symm
      | some no =>
        have hno : Used policy no := below (by simp [Node.children])
        exact Touches.either (hyes.statement inLoop) (hno.statement inLoop)
    | whileLoop m cond body =>
      have hcond : Used policy cond := below (by simp [Node.children])
      have hbody : Used policy body := below (by simp [Node.children])
      refine Touches.asStatement role m.line ((Touches.markLine m.line).bind fun _ => ?_)
      refine (Touches.loop .branch .top ?_ (Touches.pure ())).of_eq (List.append_nil _)
      exact Touches.tested (hcond.value inLoop none) (hbody.statement true)
    | doLoop m body cond =>
      have hcond : Used policy cond := below (by simp [Node.children])
      have hbody : Used policy body := below (by simp [Node.children])
      refine Touches.asStatement role m.line ((Touches.markLine m.line).bind fun _ => ?_)
      exact Touches.loop .branchNonZero .tail (hbody.statement true) (hcond.value inLoop none)
    | forLoop m init cond step body =>
      have hbody : Used policy body := below (by simp [Node.children])
      refine Touches.asStatement role m.line ((Touches.markLine m.line).bind fun _ => ?_)
      have hinit (k : Node) (hk : k ∈ init) : Used policy k :=
        below (by simp [Node.children, Option.mem_def.mp hk])
      have hcond (k : Node) (hk : k ∈ cond) : Used policy k :=
        below (by simp [Node.children, Option.mem_def.mp hk])
      have hstep (k : Node) (hk : k ∈ step) : Used policy k :=
        below (by simp [Node.children, Option.mem_def.mp hk])
      exact uses_forLoop inLoop hinit hcond hstep hbody
    | foreach m collection key value body =>
      have hloop := uses_foreach (fun k hk => below hk) inLoop role
      rwa [Lowering.node.eq_def] at hloop
    | breakLoop m =>
      exact Touches.asStatement role m.line ((Touches.markLine m.line).bind fun _ =>
        Touches.jump inLoop .breakLoop m.line)
    | continueLoop m =>
      exact Touches.asStatement role m.line ((Touches.markLine m.line).bind fun _ =>
        Touches.jump inLoop .continueLoop m.line)
    | ret m value =>
      refine Touches.asStatement role m.line ((Touches.markLine m.line).bind fun _ => ?_)
      cases value with
      | none => exact Touches.emit rfl
      | some value =>
        have hvalue : Used policy value := below (by simp [Node.children])
        exact (hvalue.value inLoop none).done fun _ => Touches.emit rfl
    | operation m op operands =>
      have hoperand (k : Node) (hk : k ∈ operands) : Used policy k := below hk
      show Touches _ _ _ (if _ then _ else _)
      split
      · rename_i hassign
        obtain ⟨rfl, rfl⟩ := hassign
        refine (Touches.markLine m.line).bind fun _ => ?_
        rcases operands with _ | ⟨target, _ | ⟨value, _ | _⟩⟩
        case cons.cons.nil =>
          -- what the place stores is known before the value, but used behind it
          have hvalue := hoperand value (by simp)
          refine (uses_place (below₂ target (by simp [Node.children])) inLoop
            m.line).bind_from (Q := fun q _ => q.uses = target.saved)
            (fun hl _ => place_saved hl) fun q => ?_
          refine (hvalue.value inLoop q.name?).bind_keeps (fun _ h => h) fun _ => ?_
          exact (Touches.store m.line q).of_eq_of fun _ h => h
        all_goals exact Touches.fail m.line _
      · exact Touches.asValue role m fun _ => uses_operation hoperand inLoop
    | constant m value => exact Touches.asValue role m fun _ => Touches.pushConstant m value
    | identifier m name => exact Touches.asValue role m fun _ => Touches.pushVariable m name
    | call m callee args receiver =>
      have hcall := uses_call (fun k hk => below hk) (below₂ callee (by simp [Node.children]))
        inLoop role
      rwa [Lowering.node.eq_def] at hcall
    | this m =>
      exact Touches.asValue role m fun _ => Touches.shows (u := .this) rfl fun _ => Shows.push rfl
    | function m params body =>
      have hbody : Used policy body := below (by simp [Node.children])
      exact Touches.asValue role m fun name => Touches.function name
        ((Touches.declareParameters m.line params).bind fun _ =>
          (hbody.statement false).done fun _ => Touches.emit rfl)
    | table m fields =>
      refine Touches.asValue role m fun _ => (Touches.emit rfl).bind fun _ => ?_
      exact uses_tableFields (fun k hk => below hk) below₂ inLoop
        m.line 0

/-! ## Functions -/

theorem uses_unit (n : Node) :
    (Lowering.unit policy n : Lowering Builder Unit).Touches policy P n.uses :=
  ((used_node n).statement false).done fun _ => Touches.emit rfl

/-- Behind its parameters, a function literal is lowered like a unit. -/
theorem uses_literal (line : UInt32) (params : List Node) (body : Node) :
    (Lowering.literal policy line params body : Lowering Builder Unit).Touches policy P
      ((params.filterMap Node.parameter?).map .bind ++ body.uses) :=
  (Touches.declareParameters line params).bind fun _ => uses_unit body

/-- Parameters take slots one behind the other. -/
theorem symbols_declareParameters {line : UInt32} {params : List Node} {c c' : Scope Builder}
    {code : Block} (hregular : c.names.Regular)
    (h : Lowering.declareParameters line params c = .ok () code c') :
    c'.names.symbols = c.names.symbols ++ params.filterMap Node.parameter? := by
  induction params generalizing c code with
  | nil =>
    cases h
    exact (List.append_nil _).symm
  | cons n rest ih =>
    cases n with
    | parameter m name =>
      obtain ⟨_, _, _, y, ⟨⟩, hrest, rfl⟩ := bind_eq_ok h
      have hdeclared : (c.names.declareParameter name).2.Regular :=
        (VariableTable.Request.does c.names (.declareParameter name)).regular hregular
      cases hclass : c.names.class? name with
      | some storage =>
        simp only [VariableTable.declareParameter, hclass] at hrest
        cases hrest
      | none =>
        simp only [VariableTable.declareParameter, hclass] at hrest hdeclared
        rw [ih hdeclared hrest]
        show ((c.names.tell name .local 1).takeSlot name).2.symbols ++ _ = _
        rw [hregular.symbols_add hclass, List.append_assoc]
        rfl
    | _ => cases h

end Compile

end ScriptToolchain
