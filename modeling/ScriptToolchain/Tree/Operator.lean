/-!
# Operators and storage classes

The operators of the language with the number of their operands and the way
they are written, and the three places where a variable can live.
-/

namespace ScriptToolchain

/-- Where a variable lives. -/
inductive StorageClass where
  /-- In a slot of the current function. -/
  | local
  /-- In a field of the receiver. -/
  | member
  /-- In the table of globals. -/
  | global
deriving Repr, DecidableEq

/-- The name of a storage class. -/
def StorageClass.name : StorageClass → String
  | .local => "Local"
  | .member => "Member"
  | .global => "Global"

/-- The operators. -/
inductive Operator where
  | assign
  /-- A keyed field of a table literal. -/
  | assignField
  | or
  | and
  | bitOr
  | bitXor
  | bitAnd
  | eq
  | neq
  | lt
  | gt
  | lte
  | gte
  | shl
  | shr
  | add
  | sub
  | mul
  | div
  | rem
  | pos
  | neg
  | complement
  | not
  | index
  | dot
deriving Repr, DecidableEq

namespace Operator

/-- Every operator. -/
def all : List Operator := [
  .assign, .assignField, .or, .and, .bitOr, .bitXor, .bitAnd, .eq, .neq, .lt, .gt, .lte, .gte,
  .shl, .shr, .add, .sub, .mul, .div, .rem, .pos, .neg, .complement, .not, .index, .dot]

/-- The number of operands. -/
def arity : Operator → Nat
  | .pos | .neg | .complement | .not => 1
  | _ => 2

/-- The way the operator is written. -/
def symbol : Operator → String
  | .assign => "="
  | .assignField => ":"
  | .or => "||"
  | .and => "&&"
  | .bitOr => "|"
  | .bitXor => "^"
  | .bitAnd => "&"
  | .eq => "=="
  | .neq => "!="
  | .lt => "<"
  | .gt => ">"
  | .lte => "<="
  | .gte => ">="
  | .shl => "<<"
  | .shr => ">>"
  | .add | .pos => "+"
  | .sub | .neg => "-"
  | .mul => "*"
  | .div => "/"
  | .rem => "%"
  | .complement => "~"
  | .not => "!"
  | .index => "[]"
  | .dot => "."

/-- The name of the operator in a stored tree. -/
def name : Operator → String
  | .assign => "Assign"
  | .assignField => "AssignField"
  | .or => "Or"
  | .and => "And"
  | .bitOr => "BitOr"
  | .bitXor => "BitXor"
  | .bitAnd => "BitAnd"
  | .eq => "Eq"
  | .neq => "Neq"
  | .lt => "Lt"
  | .gt => "Gt"
  | .lte => "Lte"
  | .gte => "Gte"
  | .shl => "Shl"
  | .shr => "Shr"
  | .add => "Add"
  | .sub => "Sub"
  | .mul => "Mul"
  | .div => "Div"
  | .rem => "Rem"
  | .pos => "Pos"
  | .neg => "Neg"
  | .complement => "Complement"
  | .not => "Not"
  | .index => "Index"
  | .dot => "Dot"

/-- The operator with this name. -/
def ofName? (name : String) : Option Operator :=
  all.find? (·.name = name)

end Operator

/-- The storage class with this name. -/
def StorageClass.ofName? (name : String) : Option StorageClass :=
  [StorageClass.local, .member, .global].find? (·.name = name)

end ScriptToolchain
