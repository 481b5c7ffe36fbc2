import ScriptToolchain.Compile.Frame
import ScriptToolchain.Tree.Node

/-!
# Generating code

One recursion over the tree writes directives. A node is met in a role: as a
statement, or as an expression whose value is wanted. The left side of an
assignment, the callee of a call by dot and a keyed table field are met in
steps of their own, because only a part of them is evaluated.
-/

namespace ScriptToolchain.Compile

/-- What a node is met as. -/
inductive Role where
  | statement
  /-- An expression; a function literal is called by the name, if there is one. -/
  | value (name : Option String)
deriving Repr, DecidableEq

/-- What an assignment stores to, once its operands are on the stack. -/
inductive Place where
  | field (name : String)
  | element
  | variable (name : String) (isMember : Bool)
deriving Repr, DecidableEq

/-- The name for a function literal that is stored there. -/
def Place.name? : Place → Option String
  | .field name => some name
  | .element => none
  | .variable name _ => some name

/-- The hidden local for the key of a `foreach` that names none. -/
def hiddenKey : String := "(key)"

/-- The instruction of an operator with one operand. -/
def unaryOpcode : Operator → Opcode
  | .pos => .pos
  | .neg => .neg
  | .not => .not
  | _ => .bitInv

/-- The instruction of an operator with two operands that are both evaluated. -/
def binaryOpcode : Operator → Opcode
  | .index => .getIndex
  | .bitOr => .bitOr
  | .bitXor => .bitXor
  | .bitAnd => .bitAnd
  | .eq => .eq
  | .neq => .neq
  | .lt => .lt
  | .gt => .gt
  | .lte => .lte
  | .gte => .gte
  | .shl => .shl
  | .shr => .shr
  | .add => .add
  | .sub => .sub
  | .mul => .mul
  | .div => .div
  | .rem => .rem
  | _ => .nop

/-- The branch that skips the right operand and keeps the left one. -/
def shortCircuit? : Operator → Option Opcode
  | .and => some .branchZeroKeep
  | .or => some .branchNonZeroKeep
  | _ => none

namespace Gen

variable {σ : Type} [Host σ] (o : Options)

/-- A node that is a statement only. -/
def asStatement (role : Role) (line : UInt32) (body : Gen σ Unit) : Gen σ Unit :=
  match role with
  | .statement => body
  | .value _ => fail line .notAnExpression

/-- A node that is an expression; as a flagged statement it drops its value. -/
def asValue (role : Role) (m : Mark) (body : Option String → Gen σ Unit) : Gen σ Unit := do
  markLine o m.line
  match role with
  | .value name => body name
  | .statement =>
    body none
    if m.flags.contains .popResult then
      emit .pop

/-- Declares a variable. -/
def declare (m : Mark) (storage : StorageClass) (name : String) : Gen σ Unit := do
  match ← names (·.declare name storage) with
  | .conflict kept requested => report m.line (.redeclared name kept requested)
  | _ => return ()

/-- The slot of a variable of `foreach`. -/
def foreachSlot (name : String) (line : UInt32) : Gen σ UInt16 := do
  match ← names (·.localSlot name) with
  | none => fail line (.foreachStorage name)
  | some slot => if slot < UInt16.size then return slot.toUInt16 else fail line .foreachSlot

/-- Pushes a constant. -/
def pushConstant : Constant → Gen σ Unit
  | .null => emit .pushNull
  | .int v => pushInt v
  | .float bits => push (.emit .pushFloat (.float bits))
  | .str s => do emitWord .pushString (← ask (Host.stringId s))

/-- Pushes a variable: a local is found first, then the flag counts, then the declaration. -/
def pushVariable (m : Mark) (name : String) : Gen σ Unit := do
  match ← names (·.resolve name) with
  | some (.slot n) => emitInt .getLocal n.toUInt32
  | some .member => emitSymbol .getThis name
  | _ => emitSymbol (if m.flags.contains .isMember then .getThis else .getGlobal) name

/-- Pops into a variable; an unknown name without flag becomes local. -/
def storeVariable (name : String) (isMember : Bool) (line : UInt32) : Gen σ Unit := do
  match ← names (·.resolve name) with
  | some (.slot n) => emitInt .setLocal n.toUInt32
  | some .member => emitSymbol .setThis name
  | some .global => emitSymbol (if isMember then .setThis else .setGlobal) name
  | none =>
    if isMember then emitSymbol .setThis name
    else
      match ← names (·.localSlot name) with
      | some n => emitInt .setLocal n.toUInt32
      | none => fail line (.undeclarable name)

/-- Pops into a place. -/
def store (line : UInt32) : Place → Gen σ Unit
  | .field name => emitSymbol .setDot name
  | .element => emit .setIndex
  | .variable name isMember => storeVariable name isMember line

/-- The name of the member that a dot selects. -/
def memberName (line : UInt32) (member : Node) : Gen σ String :=
  match member.identifier? with
  | some name => return name
  | none => fail line .dotMember

/-- The callee is loaded as a member of the receiver. -/
def isMemberCallee (t : VariableTable) (callee : Node) : Bool :=
  match callee.identifier? with
  | some name => callee.flags.contains .isMember || t.class? name = some .member
  | none => false

/-- Pushes the receiver of a call that names none. -/
def pushReceiver (callee : Node) : Gen σ Unit := do
  match o.receiver with
  | .currentThis => emit .pushThis
  | .memberOnly =>
    if isMemberCallee (← read (·.names)) callee then emit .pushThis else emit .pushNull

/-- The operator of an operation. -/
def operator? : Node → Option Operator
  | .operation _ op _ => some op
  | _ => none

/-- Declares the parameters of a function literal on `line`. -/
def declareParameters (line : UInt32) : List Node → Gen σ Unit
  | [] => return ()
  | .parameter m name :: rest => do
    match ← names (·.declareParameter name) with
    | some _ => declareParameters line rest
    | none => fail (max m.line line) (.duplicateParameter name)
  | n :: _ => fail n.line .notAParameter

/-- Calls with so many arguments. One value is left above the depth from before the call. -/
def emitCall (before : Int) (count : Nat) (line : UInt32) : Gen σ Unit :=
  if count < UInt32.size then do
    emitInt .call count.toUInt32
    setDepth (before + 1)
  else fail line .argumentCount

mutual

/-- Generates a node. -/
def node (role : Role) : Node → Gen σ Unit
  | .declaration m storage name => asStatement role m.line (declare m storage name)
  | .parameter m name => asStatement role m.line (fail m.line (.strayParameter name))
  | .block m items => asStatement role m.line (statements items)
  | .ifElse m cond thenBranch elseBranch => asStatement role m.line do
    markLine o m.line
    node (.value none) cond
    let skipThen ← reserve .branchZero
    node .statement thenBranch
    match elseBranch with
    | some other =>
      let skipElse ← reserve .branch
      resolveHere m.line skipThen
      node .statement other
      resolveHere m.line skipElse
    | none => resolveHere m.line skipThen
  | .whileLoop m cond body => asStatement role m.line do
    markLine o m.line
    let top ← here
    node (.value none) cond
    let exit ← reserve .branchZero
    enterLoop
    node .statement body
    let c ← leaveLoop
    emitWord .branch top.toUInt64
    resolveHere m.line exit
    closeLoop m.line c (← here) top
  | .doLoop m body cond => asStatement role m.line do
    markLine o m.line
    let top ← here
    enterLoop
    node .statement body
    let c ← leaveLoop
    let next ← here
    node (.value none) cond
    emitWord .branchNonZero top.toUInt64
    closeLoop m.line c (← here) next
  | .forLoop m init cond step body => asStatement role m.line do
    markLine o m.line
    match init with
    | some init => node .statement init
    | none => pure ()
    let top ← here
    let exit ← match cond with
      | some cond => do
        node (.value none) cond
        some <$> reserve .branchZero
      | none => pure none
    enterLoop
    node .statement body
    let c ← leaveLoop
    let next ← here
    match step with
    | some step => node .statement step
    | none => pure ()
    emitWord .branch top.toUInt64
    match exit with
    | some exit => resolveHere m.line exit
    | none => pure ()
    closeLoop m.line c (← here) next
  | .foreach m collection key value body => asStatement role m.line do
    markLine o m.line
    let keySlot ← foreachSlot (key.getD hiddenKey) m.line
    let valueSlot ← foreachSlot value m.line
    node (.value none) collection
    pushInt (-2)
    let top ← here
    emitInt .foreach (SlotPair.pack { key := keySlot, value := valueSlot })
    let exit ← reserve .branchZero
    enterLoop
    node .statement body
    let c ← leaveLoop
    emitWord .branch top.toUInt64
    resolveHere m.line exit
    closeLoop m.line c (← here) top
    emit .pop2
  | .breakLoop m => asStatement role m.line do
    markLine o m.line
    jump .breakLoop m.line
  | .continueLoop m => asStatement role m.line do
    markLine o m.line
    jump .continueLoop m.line
  | .ret m value => asStatement role m.line do
    markLine o m.line
    match value with
    | some value =>
      node (.value none) value
      emit .retValue
    | none => emit .ret
  | .operation m op operands =>
    if op = .assign ∧ role = .statement then do
      markLine o m.line
      match operands with
      | [target, value] =>
        let p ← place m.line target
        node (.value p.name?) value
        store m.line p
      | _ => fail m.line .assignOperands
    else asValue o role m fun _ => do
      if operands.length ≠ op.arity then
        fail m.line (.operandCount op operands.length)
      match op, operands with
      | .assign, _ => fail m.line .assignValue
      | .assignField, _ => fail m.line .tableField
      | .dot, [object, member] =>
        let name ← memberName m.line member
        node (.value none) object
        emitSymbol .getDot name
      | op, [left, right] =>
        node (.value none) left
        match shortCircuit? op with
        | some op =>
          let skip ← reserve op
          emit .pop
          node (.value none) right
          resolveHere m.line skip
        | none =>
          node (.value none) right
          emit (binaryOpcode op)
      | op, [operand] =>
        node (.value none) operand
        emit (unaryOpcode op)
      | op, operands => fail m.line (.operandCount op operands.length)
  | .constant m value => asValue o role m fun _ => pushConstant value
  | .identifier m name => asValue o role m fun _ => pushVariable m name
  | .call m callee args receiver => asValue o role m fun _ => do
    let before ← depth
    match receiver with
    | some receiver =>
      node (.value none) receiver
      node (.value none) callee
    | none =>
      if operator? callee = some .dot then
        method m.line callee
      else
        pushReceiver o callee
        node (.value none) callee
    arguments args
    emitCall before args.length m.line
  | .this m => asValue o role m fun _ => emit .pushThis
  | .function m params body => asValue o role m fun name => do
    let id ← ask Host.functionId
    let outer ← swapFrame { id, name }
    declareParameters m.line params
    node .statement body
    emit .ret
    let inner ← swapFrame outer
    keep (← close inner false o m.line)
    emitWord .pushFunction id
  | .table m fields => asValue o role m fun _ => do
    emit .pushTable
    tableFields m.line 0 fields

/-- Evaluates what the left side of an assignment on `line` needs. -/
def place (line : UInt32) : Node → Gen σ Place
  | .operation _ .dot operands =>
    match operands with
    | [object, member] => do
      let name ← memberName line member
      node (.value none) object
      return .field name
    | _ => fail line .dotOperands
  | .operation _ .index operands =>
    match operands with
    | [object, key] => do
      node (.value none) object
      node (.value none) key
      return .element
    | _ => fail line .indexOperands
  | .identifier m name => return .variable name (m.flags.contains .isMember)
  | _ => fail line .assignTarget

/-- Pushes the object of a call by dot as receiver, and the method. -/
def method (line : UInt32) : Node → Gen σ Unit
  | .operation _ _ operands =>
    match operands with
    | [object, member] => do
      let name ← memberName line member
      node (.value none) object
      emit .dup
      emitSymbol .getDot name
    | _ => fail line .dotOperands
  | _ => fail line .dotOperands

/-- Generates statements in order. -/
def statements : List Node → Gen σ Unit
  | [] => return ()
  | n :: rest => do
    node .statement n
    statements rest

/-- Pushes arguments in order. -/
def arguments : List Node → Gen σ Unit
  | [] => return ()
  | n :: rest => do
    node (.value none) n
    arguments rest

/-- Stores the fields of a table literal on `line`; fields without key are counted. -/
def tableFields (line : UInt32) (position : Int32) : List Node → Gen σ Unit
  | [] => return ()
  | field :: rest => do
    emit .dup
    if operator? field = some .assignField then
      keyedField line field
      tableFields line position rest
    else
      pushInt position
      node (.value none) field
      emit .setIndex
      tableFields line (position + 1) rest

/-- Stores a keyed field of a table literal on `line`. -/
def keyedField (line : UInt32) : Node → Gen σ Unit
  | .operation m _ operands =>
    match operands with
    | [key, value] =>
      match key.identifier? with
      | some name => do
        node (.value (some name)) value
        emitSymbol .setDot name
      | none => fail (max m.line line) .tableField
    | _ => fail (max m.line line) .tableField
  | n => fail (max n.line line) .tableField

end

/-- Generates a unit into the current frame and answers its root function. -/
def unit (n : Node) : Gen σ CompiledFunction := do
  node o .statement n
  emit .ret
  close (← read id) true o n.line

end Gen

end ScriptToolchain.Compile
