import ScriptToolchain.Compile.Draft

/-!
# Directives

What the compiler writes for a function before there are bytes: instructions,
marks of lines, branches whose target comes later, and those targets. The
label of an open branch is the number of open branches before it. Assembling
carries directives out on a draft, in order.
-/

namespace ScriptToolchain

/-- One step of assembling a function. -/
inductive Directive where
  /-- The code to come belongs to another line. -/
  | line (n : UInt32)
  | emit (op : Opcode) (operand : Operand)
  /-- A branch with an open target. -/
  | branch (op : Opcode)
  /-- The target of an open branch. -/
  | resolve (label : LabelId) (target : UInt32)
deriving Repr, DecidableEq

namespace Directive

/-- The number of bytes that the code grows by. -/
def size : Directive → Nat
  | .line _ => Opcode.size .line
  | .emit _ operand => Opcode.tagSize + operand.kind.size
  | .branch _ => Opcode.tagSize + Emitter.patchSize
  | .resolve .. => 0

/-- What is known of the stack behind a directive. -/
def climb (r : StackReport) : Directive → StackReport
  | .line _ => r.add (Opcode.effect .line 0)
  | .emit op operand => r.add (op.effect operand.count)
  | .branch op => r.add (op.effect 0)
  | .resolve .. => r

/-- Carries out a directive. -/
def apply : Directive → EStateM LabelError Draft Unit
  | .line n => modify (·.markLine n)
  | .emit op operand => modify (·.emit op operand)
  | .branch op => modify (·.reserve op)
  | .resolve label target => Draft.resolve label target

/-- Carries out directives in order. -/
def applyAll : List Directive → EStateM LabelError Draft Unit
  | [] => pure ()
  | d :: rest => do
    d.apply
    applyAll rest

end Directive

end ScriptToolchain
