import ScriptToolchain.Proofs.Grammar
import ScriptToolchain.Proofs.Lowering

/-!
# Forms of what is lowered

An operation that gives a value, the left side of an assignment, the callee of a
call by dot and a keyed field of a table have a few forms that are lowered; in
every other form they are refused, whatever the host. What holds of all of
lowering is proved of these forms one by one.
-/

namespace ScriptToolchain.Compile

/-- The forms of an operation that gives a value. -/
inductive OperationForm : Operator → List Node → Prop where
  | refused {op : Operator} {operands : List Node}
      (h : operands.length ≠ op.arity ∨ op = .assign ∨ op = .assignField) :
      OperationForm op operands
  | dot (object member : Node) : OperationForm .dot [object, member]
  | binary {op : Operator} (hop : Grammar.isPlain op) (harity : op.arity = 2) (left right : Node) :
      OperationForm op [left, right]
  | unary {op : Operator} (hop : Grammar.isPlain op) (harity : op.arity = 1) (operand : Node) :
      OperationForm op [operand]

theorem operationForm (op : Operator) (operands : List Node) : OperationForm op operands := by
  by_cases hrefused : operands.length ≠ op.arity ∨ op = .assign ∨ op = .assignField
  · exact .refused hrefused
  rw [not_or, not_or, not_not] at hrefused
  obtain ⟨harity, hassign, hfield⟩ := hrefused
  by_cases hdot : op = .dot
  · subst hdot
    match operands, harity with
    | [object, member], _ => exact .dot object member
  have hop : Grammar.isPlain op := by
    cases op <;> first | rfl | contradiction
  match operands, harity with
  | [operand], harity => exact .unary hop harity.symm operand
  | [left, right], harity => exact .binary hop harity.symm left right
  | [], harity | _ :: _ :: _ :: _, harity => cases op <;> cases harity

namespace Lowering

variable {σ : Type} [Host σ] (policy : ReceiverPolicy) (inLoop : Bool) (line : UInt32)

/-- Lowers an operation that gives a value. -/
def operate (op : Operator) (operands : List Node) : Lowering σ Unit := do
  if operands.length ≠ op.arity then
    fail line (.operandCount op operands.length)
  match op, operands with
  | .assign, _ => fail line .assignValue
  | .assignField, _ => fail line .tableField
  | .dot, [object, member] =>
    let name ← memberName line member
    node policy inLoop (.value none) object
    emitSymbol .getDot name
  | op, [left, right] =>
    node policy inLoop (.value none) left
    match shortCircuit? op with
    | some op =>
      skip op do
        emit .pop
        node policy inLoop (.value none) right
    | none =>
      node policy inLoop (.value none) right
      emit (binaryOpcode op)
  | op, [operand] =>
    node policy inLoop (.value none) operand
    emit (unaryOpcode op)
  | op, operands => fail line (.operandCount op operands.length)

/-- A round of a `for`: the test, where there is one, and the body. -/
def round (cond : Option Node) (body : Node) : Lowering σ Unit :=
  match cond with
  | some cond => tested (node policy inLoop (.value none) cond) (node policy true .statement body)
  | none => node policy true .statement body

/-- What is done behind a round of a `for`. -/
def advance (step : Option Node) : Lowering σ Unit :=
  match step with
  | some step => node policy inLoop .statement step
  | none => pure ()

/-- Lowers a `for` behind its line. -/
def forLoop (init cond step : Option Node) (body : Node) : Lowering σ Unit := do
  match init with
  | some init => node policy inLoop .statement init
  | none => pure ()
  loop (round policy inLoop cond body) (advance policy inLoop step) .branch .tail

/-- Why an operation is refused. -/
def refusal (op : Operator) (operands : List Node) : Finding :=
  if operands.length ≠ op.arity then .operandCount op operands.length
  else if op = .assign then .assignValue
  else .tableField

variable {policy inLoop line}

theorem node_forLoop (role : Role) (m : Mark) (init cond step : Option Node) (body : Node) :
    (node policy inLoop role (.forLoop m init cond step body) : Lowering σ Unit) =
      asStatement role m.line (do
        markLine m.line
        forLoop policy inLoop init cond step body) :=
  node.eq_def ..

theorem node_operation {op : Operator} {role : Role} (h : ¬(op = .assign ∧ role = .statement))
    (m : Mark) (operands : List Node) :
    (node policy inLoop role (.operation m op operands) : Lowering σ Unit) =
      asValue role m fun _ => operate policy inLoop m.line op operands :=
  (node.eq_def ..).trans (if_neg h)

theorem operate_refused {op : Operator} {operands : List Node}
    (h : operands.length ≠ op.arity ∨ op = .assign ∨ op = .assignField) :
    (operate policy inLoop line op operands : Lowering σ Unit) =
      fail line (refusal op operands) := by
  unfold operate refusal
  by_cases harity : operands.length ≠ op.arity
  · simp only [if_pos harity]
    rfl
  · simp only [if_neg harity]
    rcases h.resolve_left harity with rfl | rfl <;> rfl

theorem operate_binary {op : Operator} (hop : Grammar.isPlain op) (harity : op.arity = 2)
    (left right : Node) :
    (operate policy inLoop line op [left, right] : Lowering σ Unit) = (do
      node policy inLoop (.value none) left
      match shortCircuit? op with
      | some op =>
        skip op do
          emit .pop
          node policy inLoop (.value none) right
      | none =>
        node policy inLoop (.value none) right
        emit (binaryOpcode op)) := by
  cases op <;> first | rfl | contradiction

theorem operate_unary {op : Operator} (harity : op.arity = 1) (operand : Node) :
    (operate policy inLoop line op [operand] : Lowering σ Unit) = (do
      node policy inLoop (.value none) operand
      emit (unaryOpcode op)) := by
  cases op <;> first | rfl | contradiction

end Lowering

/-- The forms of the left side of an assignment. -/
inductive PlaceForm : Node → Prop where
  | field (m : Mark) (object member : Node) : PlaceForm (.operation m .dot [object, member])
  | element (m : Mark) (object key : Node) : PlaceForm (.operation m .index [object, key])
  | name (m : Mark) (name : String) : PlaceForm (.identifier m name)
  | refused {n : Node} (f : Finding)
      (h : ∀ {σ : Type} [Host σ] (policy : ReceiverPolicy) (inLoop : Bool) (line : UInt32),
        (Lowering.place policy inLoop line n : Lowering σ Place) = Lowering.fail line f) :
      PlaceForm n

theorem placeForm (n : Node) : PlaceForm n := by
  cases n with
  | operation m op operands =>
    cases op with
    | dot =>
      match operands with
      | [object, member] => exact .field m object member
      | [] | [_] | _ :: _ :: _ :: _ => exact .refused _ fun _ _ _ => Lowering.place.eq_def ..
    | index =>
      match operands with
      | [object, key] => exact .element m object key
      | [] | [_] | _ :: _ :: _ :: _ => exact .refused _ fun _ _ _ => Lowering.place.eq_def ..
    | _ => exact .refused _ fun _ _ _ => Lowering.place.eq_def ..
  | identifier m name => exact .name m name
  | _ => exact .refused _ fun _ _ _ => Lowering.place.eq_def ..

/-- The forms of the callee of a call by dot. -/
inductive MethodForm : Node → Prop where
  | dot (m : Mark) (op : Operator) (object member : Node) :
      MethodForm (.operation m op [object, member])
  | refused {n : Node} (f : Finding)
      (h : ∀ {σ : Type} [Host σ] (policy : ReceiverPolicy) (inLoop : Bool) (line : UInt32),
        (Lowering.method policy inLoop line n : Lowering σ Unit) = Lowering.fail line f) :
      MethodForm n

theorem methodForm (n : Node) : MethodForm n := by
  cases n with
  | operation m op operands =>
    match operands with
    | [object, member] => exact .dot m op object member
    | [] | [_] | _ :: _ :: _ :: _ => exact .refused _ fun _ _ _ => Lowering.method.eq_def ..
  | _ => exact .refused _ fun _ _ _ => Lowering.method.eq_def ..

/-- The forms of a keyed field. -/
inductive KeyedForm : Node → Prop where
  | named (m : Mark) (op : Operator) (key value : Node) {name : String}
      (h : key.identifier? = some name) : KeyedForm (.operation m op [key, value])
  | refused {n : Node} (f : Finding)
      (h : ∀ {σ : Type} [Host σ] (policy : ReceiverPolicy) (inLoop : Bool) (line : UInt32),
        (Lowering.keyedField policy inLoop line n : Lowering σ Unit) =
          Lowering.fail (max n.line line) f) :
      KeyedForm n

theorem keyedForm (n : Node) : KeyedForm n := by
  cases n with
  | operation m op operands =>
    match operands with
    | [key, value] =>
      cases hkey : key.identifier? with
      | some name => exact .named m op key value hkey
      | none =>
        refine .refused .tableField fun _ _ _ => ?_
        rw [Lowering.keyedField.eq_def]
        simp only [hkey]
        rfl
    | [] | [_] | _ :: _ :: _ :: _ => exact .refused _ fun _ _ _ => Lowering.keyedField.eq_def ..
  | _ => exact .refused _ fun _ _ _ => Lowering.keyedField.eq_def ..

namespace Lowering

variable {σ : Type} [Host σ] {policy : ReceiverPolicy} {inLoop : Bool} {line : UInt32} {m : Mark}

theorem place_field (object member : Node) :
    (place policy inLoop line (.operation m .dot [object, member]) : Lowering σ Place) = (do
      let name ← memberName line member
      node policy inLoop (.value none) object
      return .field name) :=
  place.eq_def ..

theorem place_element (object key : Node) :
    (place policy inLoop line (.operation m .index [object, key]) : Lowering σ Place) = (do
      node policy inLoop (.value none) object
      node policy inLoop (.value none) key
      return .element) :=
  place.eq_def ..

theorem place_name (name : String) :
    (place policy inLoop line (.identifier m name) : Lowering σ Place) =
      (return .variable name (m.flags.contains .isMember)) :=
  place.eq_def ..

theorem method_dot (op : Operator) (object member : Node) :
    (method policy inLoop line (.operation m op [object, member]) : Lowering σ Unit) = (do
      let name ← memberName line member
      node policy inLoop (.value none) object
      emit .dup
      emitSymbol .getDot name) :=
  method.eq_def ..

theorem keyedField_named (op : Operator) {key : Node} (value : Node) {name : String}
    (h : key.identifier? = some name) :
    (keyedField policy inLoop line (.operation m op [key, value]) : Lowering σ Unit) = (do
      node policy inLoop (.value (some name)) value
      emitSymbol .setDot name) := by
  rw [keyedField.eq_def]
  simp only [h]

end Lowering

end ScriptToolchain.Compile
