import ScriptToolchain.Compile.Draft

/-!
# Diagnostics

What the compiler has to say of a unit. A finding is a cause; a diagnostic is
its report: severity, line and words. An internal error is one that no tree of
the right shape leads to.
-/

namespace ScriptToolchain

/-- How grave a diagnostic is. -/
inductive Severity where
  | warning
  | error
  | internal
deriving Repr, DecidableEq

namespace Severity

/-- All severities. -/
def all : List Severity :=
  [.warning, .error, .internal]

/-- The name of a severity. -/
def name : Severity → String
  | .warning => "Warning"
  | .error => "Error"
  | .internal => "Internal"

/-- The severity with this name. -/
def ofName? (s : String) : Option Severity :=
  all.find? fun severity => severity.name = s

/-- The severity in words. -/
def text : Severity → String
  | .warning => "warning"
  | .error => "error"
  | .internal => "internal error"

end Severity

/-- A report on a unit; line zero stands for no line. -/
structure Diagnostic where
  severity : Severity
  line : UInt32
  message : String
deriving Repr, DecidableEq

namespace Diagnostic

/-- The unit fails because of it. -/
def isError (d : Diagnostic) : Bool :=
  d.severity != .warning

/-- The report in one line. -/
def text (d : Diagnostic) : String :=
  s!"line {d.line}: {d.severity.text}: {d.message}"

/-- The number of reports that a unit fails because of. -/
def errorCount (ds : List Diagnostic) : Nat :=
  ds.countP isError

end Diagnostic

/-- A jump out of the body of a loop. -/
inductive Jump where
  | breakLoop
  | continueLoop
deriving Repr, DecidableEq

/-- The way a jump is written. -/
def Jump.keyword : Jump → String
  | .breakLoop => "break"
  | .continueLoop => "continue"

/-- What can be found wrong with a unit. -/
inductive Finding where
  | redeclared (name : String) (kept requested : StorageClass)
  | strayParameter (name : String)
  | dotOperands
  | dotMember
  | foreachStorage (name : String)
  | foreachSlot
  | strayJump (jump : Jump)
  | assignOperands
  | indexOperands
  | undeclarable (name : String)
  | assignTarget
  | notAnExpression
  | operandCount (op : Operator) (count : Nat)
  | assignValue
  | tableField
  | argumentCount
  | notAParameter
  | duplicateParameter (name : String)
  | noLoop
  | label (e : LabelError)
  | openBranches (e : OpenBranches)
  | rejected (id : UInt64) (reason : String)
deriving Repr, DecidableEq

namespace Finding

/-- How grave a finding is. -/
def severity : Finding → Severity
  | .redeclared .. => .warning
  | .dotMember | .foreachStorage _ | .foreachSlot | .strayJump _ | .assignTarget | .assignValue
  | .tableField | .argumentCount | .duplicateParameter _ | .rejected .. => .error
  | .strayParameter _ | .dotOperands | .assignOperands | .indexOperands | .undeclarable _
  | .notAnExpression | .operandCount .. | .notAParameter | .noLoop | .label _
  | .openBranches _ => .internal

/-- The finding in words. -/
def message : Finding → String
  | .redeclared name kept requested =>
    s!"`{name}` redeclared as {requested.name}, keeping {kept.name}"
  | .strayParameter name => s!"parameter `{name}` outside of a function literal"
  | .dotOperands => "dot expects two operands"
  | .dotMember => "right-hand side of `.` must be an identifier"
  | .foreachStorage name => s!"foreach variable `{name}` must be local"
  | .foreachSlot => "too many locals for foreach"
  | .strayJump jump => s!"`{jump.keyword}` outside of a loop"
  | .assignOperands => "assignment expects two operands"
  | .indexOperands => "index expects two operands"
  | .undeclarable name => s!"cannot declare `{name}`"
  | .assignTarget => "invalid assignment target"
  | .notAnExpression => "expected an expression"
  | .operandCount op count => s!"operator `{op.symbol}` with {count} operand(s)"
  | .assignValue => "assignment does not produce a value"
  | .tableField => "malformed table field"
  | .argumentCount => "too many arguments"
  | .notAParameter => "function parameter is not a parameter declaration"
  | .duplicateParameter name => s!"duplicate parameter `{name}`"
  | .noLoop => "loop context stack underflow"
  | .label e => e.message
  | .openBranches e => e.message
  | .rejected id reason => s!"function {id} rejected: {reason}"

/-- The report of a finding. -/
def report (f : Finding) (line : UInt32) : Diagnostic :=
  { severity := f.severity, line, message := f.message }

end Finding

end ScriptToolchain
