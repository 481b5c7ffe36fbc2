import ScriptToolchain.Compile.Generate
import ScriptToolchain.Proofs.Layout

/-!
# Generation without addresses

`Lowering.node` walks a tree the way the generator does, with the same
questions to the host, the same names and the same reports, but it answers a
block in place of writing directives. Neither labels nor addresses nor the
kind of the build occur in it: marks are always there, and whether a jump
stands inside a loop is an argument.
-/

namespace ScriptToolchain.Compile

/-- What lowering reads and writes besides code. -/
structure Scope (σ : Type) where
  host : σ
  /-- The names of the current function. -/
  names : VariableTable := {}
  /-- The line that was marked last in the current function. -/
  line : UInt32 := 0
  /-- The finished functions, the latest first. -/
  outlines : List Outline := []
  /-- The reports, the latest first. -/
  reports : List Diagnostic := []

/-- What a step of lowering gives: a value and code, or nothing. -/
inductive Lowered (σ α : Type) where
  | ok (value : α) (code : Block) (scope : Scope σ)
  | error (scope : Scope σ)

/-- A step of lowering with the host state `σ`. -/
def Lowering (σ α : Type) := Scope σ → Lowered σ α

namespace Lowering

variable {σ α β : Type}

instance : Monad (Lowering σ) where
  pure a := fun s => .ok a .empty s
  bind l f := fun s =>
    match l s with
    | .error s' => .error s'
    | .ok a code s' =>
      match f a s' with
      | .error s'' => .error s''
      | .ok b rest s'' => .ok b (.seq code rest) s''

/-! ## Steps -/

/-- Reports a finding. -/
def report (line : UInt32) (f : Finding) : Lowering σ Unit := fun s =>
  .ok () .empty { s with reports := f.report line :: s.reports }

/-- Reports a finding and gives up. -/
def fail (line : UInt32) (f : Finding) : Lowering σ α := fun s =>
  .error { s with reports := f.report line :: s.reports }

/-- Adds a block. -/
def put (b : Block) : Lowering σ Unit := fun s =>
  .ok () b s

/-- Adds an instruction without immediate. -/
def emit (op : Opcode) : Lowering σ Unit :=
  put (.instr op .none)

/-- Adds an instruction with an id. -/
def emitWord (op : Opcode) (v : UInt64) : Lowering σ Unit :=
  put (.instr op (.word v))

/-- Adds an instruction with an integer. -/
def emitInt (op : Opcode) (v : UInt32) : Lowering σ Unit :=
  put (.instr op (.int v.toInt32))

/-- Adds the push of an integer. -/
def pushInt (v : Int32) : Lowering σ Unit :=
  let (op, operand) := Emitter.intPush v
  put (.instr op operand)

/-- The names of the function. -/
def table : Lowering σ VariableTable := fun s =>
  .ok s.names .empty s

/-- Works on the variables of the function. -/
def names (f : VariableTable → α × VariableTable) : Lowering σ α := fun s =>
  .ok (f s.names).1 .empty { s with names := (f s.names).2 }

/-- Asks the host. -/
def ask (f : σ → α × σ) : Lowering σ α := fun s =>
  .ok (f s.host).1 .empty { s with host := (f s.host).2 }

/-- Adds an instruction with the id of a symbol. -/
def emitSymbol [Host σ] (op : Opcode) (name : String) : Lowering σ Unit := do
  emitWord op (← ask (Host.symbolId name))

/-- Marks a line, unless it is unknown or current. -/
def markLine (line : UInt32) : Lowering σ Unit := fun s =>
  if line != 0 && line != s.line then .ok () (.mark line) { s with line }
  else .ok () .empty s

/-- Wherever the step gives code, the code leaves so many values on the stack. -/
def Leaves (l : Lowering σ α) (n : Int) : Prop :=
  ∀ c a code c', l c = .ok a code c' → code.net = n

/-- The code of a step as its value. -/
def captured (l : Lowering σ Unit) : Lowering σ Block := fun s =>
  match l s with
  | .error s' => .error s'
  | .ok _ code s' => .ok code .empty s'

/-- Adds a branch over the code of a step. -/
def skip (op : Opcode) (l : Lowering σ Unit) : Lowering σ Unit := do
  put (.skip op (← captured l))

/-- Adds two parts of which a test takes one. -/
def either (yes no : Lowering σ Unit) : Lowering σ Unit := do
  let yes ← captured yes
  put (.either yes (← captured no))

/-- The body of a loop behind the test that leaves it. -/
def tested (test body : Lowering σ Unit) : Lowering σ Unit := do
  test
  put (.jump .branchZero .breakLoop)
  body

/-- Adds a loop. -/
def loop (body tail : Lowering σ Unit) (back : Opcode) (resume : Resume) : Lowering σ Unit := do
  let body ← captured body
  put (.loop body (← captured tail) back resume)

/-- Leaves the innermost loop. -/
def jump (inLoop : Bool) (j : Jump) (line : UInt32) : Lowering σ Unit :=
  if inLoop then put (.jump .branch j) else fail line (.strayJump j)

/-- Keeps what a step makes as a function, and pushes it. -/
def function [Host σ] (name : Option String) (l : Lowering σ Unit) : Lowering σ Unit := do
  let id ← ask Host.functionId
  fun s =>
    match l { s with names := {}, line := 0 } with
    | .error s' => .error s'
    | .ok _ code s' =>
      .ok () (.instr .pushFunction (.word id))
        { s' with
          names := s.names
          line := s.line
          outlines := { id, name, names := s'.names, code } :: s'.outlines }

/-! ## Steps that succeed -/

section

variable {c c' : Scope σ} {b : β} {code block : Block}

/-- Two steps succeed one behind the other, with the code of both. -/
theorem bind_eq_ok {l : Lowering σ α} {f : α → Lowering σ β} (h : (l >>= f) c = .ok b code c') :
    ∃ a x c₁ y, l c = .ok a x c₁ ∧ f a c₁ = .ok b y c' ∧ code = .seq x y := by
  simp only [Bind.bind] at h
  split at h
  · cases h
  · rename_i a x c₁ hfirst
    split at h
    · cases h
    · rename_i b' y c₂ hsecond
      cases h
      exact ⟨a, x, c₁, y, hfirst, hsecond, rfl⟩

/-- Code that is kept for later is not in the code yet. -/
theorem captured_eq_ok {l : Lowering σ Unit} (h : captured l c = .ok block code c') :
    code = .empty ∧ l c = .ok () block c' := by
  rw [captured] at h
  split at h
  · cases h
  · rename_i hfirst
    cases h
    exact ⟨rfl, hfirst⟩

theorem skip_eq_ok {op : Opcode} {l : Lowering σ Unit} {u : Unit}
    (h : skip op l c = .ok u code c') :
    ∃ body, l c = .ok () body c' ∧ code = .seq .empty (.skip op body) := by
  obtain ⟨body, _, c₁, y, hcaptured, hput, rfl⟩ := bind_eq_ok h
  obtain ⟨rfl, hbody⟩ := captured_eq_ok hcaptured
  cases hput
  exact ⟨body, hbody, rfl⟩

/-- Two pieces of code that are kept for one block. -/
theorem capture_both_eq_ok {l k : Lowering σ Unit} {shape : Block → Block → Block} {u : Unit}
    (h : (do
      let a ← captured l
      put (shape a (← captured k)) : Lowering σ Unit) c = .ok u code c') :
    ∃ x y c₁, l c = .ok () x c₁ ∧ k c₁ = .ok () y c' ∧
      code = .seq .empty (.seq .empty (shape x y)) := by
  obtain ⟨x, _, c₁, _, hfirst, hrest, rfl⟩ := bind_eq_ok h
  obtain ⟨rfl, hl⟩ := captured_eq_ok hfirst
  obtain ⟨y, _, c₂, _, hsecond, hput, rfl⟩ := bind_eq_ok hrest
  obtain ⟨rfl, hk⟩ := captured_eq_ok hsecond
  cases hput
  exact ⟨x, y, c₁, hl, hk, rfl⟩

/-- A function is made of a step that starts without names. -/
theorem function_eq_ok [Host σ] {name : Option String} {l : Lowering σ Unit} {u : Unit}
    (h : function name l c = .ok u code c') :
    ∃ inner c₁, l { c with host := (Host.functionId c.host).2, names := {}, line := 0 } =
        .ok () inner c₁ ∧
      code = .seq .empty (.instr .pushFunction (.word (Host.functionId c.host).1)) ∧
      c' = { c₁ with
        names := c.names
        line := c.line
        outlines := { id := (Host.functionId c.host).1, name, names := c₁.names, code := inner } ::
          c₁.outlines } := by
  obtain ⟨id, _, _, _, ⟨⟩, hrest, rfl⟩ := bind_eq_ok h
  simp only at hrest
  split at hrest
  · cases hrest
  · rename_i inner c₁ hrun
    cases hrest
    exact ⟨inner, c₁, hrun, rfl, rfl⟩

end

/-! ## Parts of nodes -/

/-- A node that is a statement only. -/
def asStatement (role : Role) (line : UInt32) (body : Lowering σ Unit) : Lowering σ Unit :=
  match role with
  | .statement => body
  | .value _ => fail line .notAnExpression

/-- A node that is an expression; as a flagged statement it drops its value. -/
def asValue (role : Role) (m : Mark) (body : Option String → Lowering σ Unit) :
    Lowering σ Unit := do
  markLine m.line
  match role with
  | .value name => body name
  | .statement =>
    body none
    if m.flags.contains .popResult then
      emit .pop

/-- Declares a variable. -/
def declare (m : Mark) (storage : StorageClass) (name : String) : Lowering σ Unit := do
  match ← names (·.declare name storage) with
  | .conflict kept requested => report m.line (.redeclared name kept requested)
  | _ => return ()

/-- The slot of a variable of `foreach`. -/
def foreachSlot (name : String) (line : UInt32) : Lowering σ UInt16 := do
  match ← names (·.localSlot name) with
  | none => fail line (.foreachStorage name)
  | some slot => if slot < UInt16.size then return slot.toUInt16 else fail line .foreachSlot

/-- Declares the parameters of a function literal on `line`. -/
def declareParameters (line : UInt32) : List Node → Lowering σ Unit
  | [] => return ()
  | .parameter m name :: rest => do
    match ← names (·.declareParameter name) with
    | some _ => declareParameters line rest
    | none => fail (max m.line line) (.duplicateParameter name)
  | n :: _ => fail n.line .notAParameter

/-- The name of the member that a dot selects. -/
def memberName (line : UInt32) (member : Node) : Lowering σ String :=
  match member.identifier? with
  | some name => return name
  | none => fail line .dotMember

/-- Calls with so many arguments. -/
def emitCall (count : Nat) (line : UInt32) : Lowering σ Unit :=
  if count < UInt32.size then emitInt .call count.toUInt32 else fail line .argumentCount

variable [Host σ] (policy : ReceiverPolicy)

/-- Pushes a constant. -/
def pushConstant : Constant → Lowering σ Unit
  | .null => emit .pushNull
  | .int v => pushInt v
  | .float bits => put (.instr .pushFloat (.float bits))
  | .str s => do emitWord .pushString (← ask (Host.stringId s))

/-- Pushes a variable. -/
def pushVariable (m : Mark) (name : String) : Lowering σ Unit := do
  match ← names (·.resolve name) with
  | some (.slot n) => emitInt .getLocal n.toUInt32
  | some .member => emitSymbol .getThis name
  | _ => emitSymbol (if m.flags.contains .isMember then .getThis else .getGlobal) name

/-- Pops into a variable. -/
def storeVariable (name : String) (isMember : Bool) (line : UInt32) : Lowering σ Unit := do
  match ← names (·.resolve name) with
  | some (.slot n) => emitInt .setLocal n.toUInt32
  | some .member => emitSymbol .setThis name
  | some .global => emitSymbol (if isMember then .setThis else .setGlobal) name
  | none =>
    if isMember then emitSymbol .setThis name
    else
      match ← names (·.localSlot name) with
      | some n => emitInt .setLocal n.toUInt32
      | none => fail line (.undeclarable name)

/-- Pops into a place. -/
def store (line : UInt32) : Place → Lowering σ Unit
  | .field name => emitSymbol .setDot name
  | .element => emit .setIndex
  | .variable name isMember => storeVariable name isMember line

/-- Pushes the receiver of a call that names none. -/
def pushReceiver (callee : Node) : Lowering σ Unit := do
  match policy with
  | .currentThis => emit .pushThis
  | .memberOnly =>
    if Gen.isMemberCallee (← table) callee then emit .pushThis else emit .pushNull

/-! ## Nodes -/

mutual

/-- Lowers a node, inside a loop or not. -/
def node (inLoop : Bool) (role : Role) : Node → Lowering σ Unit
  | .declaration m storage name => asStatement role m.line (declare m storage name)
  | .parameter m name => asStatement role m.line (fail m.line (.strayParameter name))
  | .block m items => asStatement role m.line (statements inLoop items)
  | .ifElse m cond thenBranch elseBranch => asStatement role m.line do
    markLine m.line
    node inLoop (.value none) cond
    match elseBranch with
    | some other => either (node inLoop .statement thenBranch) (node inLoop .statement other)
    | none => skip .branchZero (node inLoop .statement thenBranch)
  | .whileLoop m cond body => asStatement role m.line do
    markLine m.line
    loop (tested (node inLoop (.value none) cond) (node true .statement body)) (pure ()) .branch
      .top
  | .doLoop m body cond => asStatement role m.line do
    markLine m.line
    loop (node true .statement body) (node inLoop (.value none) cond) .branchNonZero .tail
  | .forLoop m init cond step body => asStatement role m.line do
    markLine m.line
    match init with
    | some init => node inLoop .statement init
    | none => pure ()
    let round := match cond with
      | some cond => tested (node inLoop (.value none) cond) (node true .statement body)
      | none => node true .statement body
    let advance := match step with
      | some step => node inLoop .statement step
      | none => pure ()
    loop round advance .branch .tail
  | .foreach m collection key value body => asStatement role m.line do
    markLine m.line
    let keySlot ← foreachSlot (key.getD hiddenKey) m.line
    let valueSlot ← foreachSlot value m.line
    node inLoop (.value none) collection
    pushInt (-2)
    loop (tested (emitInt .foreach (SlotPair.pack { key := keySlot, value := valueSlot }))
      (node true .statement body)) (pure ()) .branch .top
    emit .pop2
  | .breakLoop m => asStatement role m.line do
    markLine m.line
    jump inLoop .breakLoop m.line
  | .continueLoop m => asStatement role m.line do
    markLine m.line
    jump inLoop .continueLoop m.line
  | .ret m value => asStatement role m.line do
    markLine m.line
    match value with
    | some value =>
      node inLoop (.value none) value
      emit .retValue
    | none => emit .ret
  | .operation m op operands =>
    if op = .assign ∧ role = .statement then do
      markLine m.line
      match operands with
      | [target, value] =>
        let p ← place inLoop m.line target
        node inLoop (.value p.name?) value
        store m.line p
      | _ => fail m.line .assignOperands
    else asValue role m fun _ => do
      if operands.length ≠ op.arity then
        fail m.line (.operandCount op operands.length)
      match op, operands with
      | .assign, _ => fail m.line .assignValue
      | .assignField, _ => fail m.line .tableField
      | .dot, [object, member] =>
        let name ← memberName m.line member
        node inLoop (.value none) object
        emitSymbol .getDot name
      | op, [left, right] =>
        node inLoop (.value none) left
        match shortCircuit? op with
        | some op =>
          skip op do
            emit .pop
            node inLoop (.value none) right
        | none =>
          node inLoop (.value none) right
          emit (binaryOpcode op)
      | op, [operand] =>
        node inLoop (.value none) operand
        emit (unaryOpcode op)
      | op, operands => fail m.line (.operandCount op operands.length)
  | .constant m value => asValue role m fun _ => pushConstant value
  | .identifier m name => asValue role m fun _ => pushVariable m name
  | .call m callee args receiver => asValue role m fun _ => do
    match receiver with
    | some receiver =>
      node inLoop (.value none) receiver
      node inLoop (.value none) callee
    | none =>
      if Gen.operator? callee = some .dot then
        method inLoop m.line callee
      else
        pushReceiver policy callee
        node inLoop (.value none) callee
    arguments inLoop args
    emitCall args.length m.line
  | .this m => asValue role m fun _ => emit .pushThis
  | .function m params body => asValue role m fun name => function name do
    declareParameters m.line params
    node false .statement body
    emit .ret
  | .table m fields => asValue role m fun _ => do
    emit .pushTable
    tableFields inLoop m.line 0 fields

/-- Evaluates what the left side of an assignment on `line` needs. -/
def place (inLoop : Bool) (line : UInt32) : Node → Lowering σ Place
  | .operation _ .dot operands =>
    match operands with
    | [object, member] => do
      let name ← memberName line member
      node inLoop (.value none) object
      return .field name
    | _ => fail line .dotOperands
  | .operation _ .index operands =>
    match operands with
    | [object, key] => do
      node inLoop (.value none) object
      node inLoop (.value none) key
      return .element
    | _ => fail line .indexOperands
  | .identifier m name => return .variable name (m.flags.contains .isMember)
  | _ => fail line .assignTarget

/-- Pushes the object of a call by dot as receiver, and the method. -/
def method (inLoop : Bool) (line : UInt32) : Node → Lowering σ Unit
  | .operation _ _ operands =>
    match operands with
    | [object, member] => do
      let name ← memberName line member
      node inLoop (.value none) object
      emit .dup
      emitSymbol .getDot name
    | _ => fail line .dotOperands
  | _ => fail line .dotOperands

/-- Lowers statements in order. -/
def statements (inLoop : Bool) : List Node → Lowering σ Unit
  | [] => return ()
  | n :: rest => do
    node inLoop .statement n
    statements inLoop rest

/-- Pushes arguments in order. -/
def arguments (inLoop : Bool) : List Node → Lowering σ Unit
  | [] => return ()
  | n :: rest => do
    node inLoop (.value none) n
    arguments inLoop rest

/-- Stores the fields of a table literal on `line`; fields without key are counted. -/
def tableFields (inLoop : Bool) (line : UInt32) (position : Int32) :
    List Node → Lowering σ Unit
  | [] => return ()
  | field :: rest => do
    emit .dup
    if Gen.operator? field = some .assignField then
      keyedField inLoop line field
      tableFields inLoop line position rest
    else
      pushInt position
      node inLoop (.value none) field
      emit .setIndex
      tableFields inLoop line (position + 1) rest

/-- Stores a keyed field of a table literal on `line`. -/
def keyedField (inLoop : Bool) (line : UInt32) : Node → Lowering σ Unit
  | .operation m _ operands =>
    match operands with
    | [key, value] =>
      match key.identifier? with
      | some name => do
        node inLoop (.value (some name)) value
        emitSymbol .setDot name
      | none => fail (max m.line line) .tableField
    | _ => fail (max m.line line) .tableField
  | n => fail (max n.line line) .tableField

end

end Lowering

/-- What lowering a unit gives. -/
structure Plan (σ : Type) where
  host : σ
  /-- The inner functions in the order of delivery and the root, none if lowering gave up. -/
  functions : Option (List Outline × Outline)
  reports : List Diagnostic

/-- Lowers a unit. -/
def plan {σ : Type} [Host σ] (policy : ReceiverPolicy) (rootName : String) (n : Node)
    (host : σ) : Plan σ :=
  let unit : Lowering σ Unit := do
    Lowering.node policy false .statement n
    Lowering.emit .ret
  let (id, host) := Host.functionId host
  match unit { host } with
  | .ok _ code s =>
    { host := s.host
      functions := some (s.outlines.reverse, { id, name := some rootName, names := s.names, code })
      reports := s.reports.reverse }
  | .error s => { host := s.host, functions := none, reports := s.reports.reverse }

/-- A plan with functions comes from a unit that is lowered without giving up. -/
theorem plan_eq_some {σ : Type} [Host σ] {policy : ReceiverPolicy} {rootName : String} {n : Node}
    {host : σ} {inner : List Outline} {outer : Outline}
    (h : (plan policy rootName n host).functions = some (inner, outer)) :
    ∃ code c, (do
        Lowering.node policy false .statement n
        Lowering.emit .ret : Lowering σ Unit) { host := (Host.functionId host).2 } =
          .ok () code c ∧
      (plan policy rootName n host).host = c.host ∧ inner = c.outlines.reverse ∧
      outer =
        { id := (Host.functionId host).1, name := some rootName, names := c.names, code } := by
  rw [plan] at h ⊢
  simp only at h ⊢
  split at h
  · rename_i code c hrun
    rw [hrun]
    cases h
    exact ⟨code, c, rfl, rfl, rfl, rfl⟩
  · cases h

end ScriptToolchain.Compile
