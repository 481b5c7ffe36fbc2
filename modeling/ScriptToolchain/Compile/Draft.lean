import ScriptToolchain.Code.Label
import ScriptToolchain.Compile.Variables

/-!
# Drafts of functions

A draft is a function under construction: its code so far, its names and the
labels of its open branches. A draft with an open branch cannot be finished.
-/

namespace ScriptToolchain

/-- A function under construction. -/
structure Draft where
  id : UInt64
  name : Option String
  emitter : Emitter := {}
  names : VariableTable := {}
  labels : LabelTable := {}

/-- A draft of the function `id` with `count` open branches. -/
structure OpenBranches where
  count : Nat
  id : UInt64
deriving Repr, DecidableEq

/-- The open branches in words. -/
def OpenBranches.message (e : OpenBranches) : String :=
  s!"{e.count} unresolved label(s) in function {e.id}"

namespace Draft

/-- A draft without code; a debug build records the lines. -/
def empty (id : UInt64) (name : Option String) (debug : Bool) : Draft :=
  { id, name, emitter := { recorder := { enabled := debug } } }

/-- The depth of the stack put in, where it was followed apart from the emitter. -/
def withStack (d : Draft) (stack : StackReport) : Draft :=
  { d with emitter := { d.emitter with stack } }

/-- Emits an instruction. -/
def emit (d : Draft) (op : Opcode) (operand : Operand) : Draft :=
  { d with emitter := d.emitter.emit op operand }

/-- Marks the start of a line. -/
def markLine (d : Draft) (line : UInt32) : Draft :=
  { d with emitter := d.emitter.markLine line }

/-- Emits a branch with an open target. -/
def reserve (d : Draft) (op : Opcode) : Draft :=
  let (labels, emitter) := d.labels.reserve d.emitter op
  { d with labels, emitter }

/-- Fills in the target of a label. -/
def resolve (label : LabelId) (target : UInt32) : EStateM LabelError Draft Unit := fun d =>
  match d.labels.resolve d.emitter label target with
  | .ok (labels, emitter) => .ok () { d with labels, emitter }
  | .error e => .error e d

/-- Fills in the cursor as the target of a label. -/
def resolveHere (label : LabelId) : EStateM LabelError Draft Unit := fun d =>
  resolve label d.emitter.here d

/-- Fills in one target for some labels, up to the first that is refused. -/
def resolveAll (target : UInt32) : List LabelId → EStateM LabelError Draft Unit
  | [] => pure ()
  | label :: rest => do
    resolve label target
    resolveAll target rest

/-- The finished function; a debug build has symbols and lines. -/
def finish (d : Draft) (root debug : Bool) : Except OpenBranches CompiledFunction :=
  if 0 < d.labels.unresolved then .error { count := d.labels.unresolved, id := d.id }
  else .ok {
    id := d.id
    root
    code := d.emitter.code
    params := d.names.params.toUInt32
    locals := d.names.locals.toUInt32
    maxStack := d.emitter.maxDepth.toNat.toUInt32
    name := d.name
    symbols := if debug then some d.names.symbols else none
    lines := if debug then some d.emitter.recorder.table else none }

end Draft

end ScriptToolchain
