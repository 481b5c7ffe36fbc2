import ScriptToolchain.Tree.Node

/-!
# Building trees

One function for each construct, without line. Compound assignments and method
calls are written in terms of the others.
-/

namespace ScriptToolchain.Node.Build

/-- An identifier. -/
def ident (name : String) : Node :=
  .identifier {} name

/-- An identifier that names a member of the receiver. -/
def member (name : String) : Node :=
  (ident name).withFlags .isMember

/-- The null literal. -/
def null : Node :=
  .constant {} .null

/-- An integer literal. -/
def int (v : Int32) : Node :=
  .constant {} (.int v)

/-- A float literal, given by its pattern of bits. -/
def float (bits : UInt32) : Node :=
  .constant {} (.float bits)

/-- A string literal. -/
def str (s : String) : Node :=
  .constant {} (.str s)

/-- The receiver of the current function. -/
def this : Node :=
  .this {}

/-- An operation on two operands. -/
def binary (op : Operator) (left right : Node) : Node :=
  .operation {} op [left, right]

/-- An operation on one operand. -/
def unary (op : Operator) (operand : Node) : Node :=
  .operation {} op [operand]

/-- `target = value` -/
def assign (target value : Node) : Node :=
  binary .assign target value

/-- `target op= value`, written as `target = target op value`. -/
def compoundAssign (op : Operator) (target value : Node) : Node :=
  assign target (binary op target value)

/-- `object.name` -/
def dot (object : Node) (name : String) : Node :=
  binary .dot object (ident name)

/-- `object[key]` -/
def index (object key : Node) : Node :=
  binary .index object key

/-- `callee(args)` -/
def call (callee : Node) (args : List Node) : Node :=
  .call {} callee args none

/-- `object.name(args)` -/
def methodCall (object : Node) (name : String) (args : List Node) : Node :=
  call (dot object name) args

/-- `receiver:callee(args)` -/
def callWith (receiver callee : Node) (args : List Node) : Node :=
  .call {} callee args (some receiver)

/-- A parameter of a function literal. -/
def parameter (name : String) : Node :=
  .parameter {} name

/-- Statements in order. -/
def block (items : List Node) : Node :=
  .block {} items

/-- `function(params) (body)` -/
def function (params : List String) (body : List Node) : Node :=
  .function {} (params.map parameter) (block body)

/-- A table literal. -/
def table (fields : List Node) : Node :=
  .table {} fields

/-- `key = value` in a table literal. -/
def field (key : String) (value : Node) : Node :=
  .operation {} .assignField [ident key, value]

/-- An expression that stands as a statement. -/
def statement (e : Node) : Node :=
  e.withFlags .popResult

/-- `if (cond) thenBranch else elseBranch` -/
def ifElse (cond thenBranch : Node) (elseBranch : Option Node) : Node :=
  .ifElse {} cond thenBranch elseBranch

/-- `while (cond) body` -/
def whileLoop (cond body : Node) : Node :=
  .whileLoop {} cond body

/-- `do body while (cond)` -/
def doLoop (body cond : Node) : Node :=
  .doLoop {} body cond

/-- `for (init; cond; step) body` -/
def forLoop (init cond step : Option Node) (body : Node) : Node :=
  .forLoop {} init cond step body

/-- `foreach (key and value in table) body` -/
def foreach (collection : Node) (key : Option String) (value : String) (body : Node) : Node :=
  .foreach {} collection key value body

/-- `return value` -/
def ret (value : Option Node) : Node :=
  .ret {} value

/-- `break` -/
def breakLoop : Node :=
  .breakLoop {}

/-- `continue` -/
def continueLoop : Node :=
  .continueLoop {}

/-- The declaration of a variable. -/
def declare (storage : StorageClass) (name : String) : Node :=
  .declaration {} storage name

end ScriptToolchain.Node.Build
