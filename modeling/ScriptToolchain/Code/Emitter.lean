import ScriptToolchain.Bytes.Buffer
import ScriptToolchain.Code.Function
import ScriptToolchain.Code.Instruction
import ScriptToolchain.Code.Stack

/-!
# Emitter

Writes instructions at the cursor of a growing buffer, follows the depth of
the evaluation stack and keeps, for a debug build, the line of every
instruction. The buffer grows without end, the depth is a signed word: where it
would leave its word, and where an instruction is written in a form that it has
not, the program breaks off. The emitter notes that it did.
-/

namespace ScriptToolchain

/-- Collects the address of every emitted instruction with the line that is current then. -/
structure LineRecorder where
  enabled : Bool := false
  line : UInt32 := 0
  entries : Array LineEntry := #[]
deriving Repr, DecidableEq

namespace LineRecorder

/-- Takes note of an instruction. -/
def record (r : LineRecorder) (address : UInt32) : LineRecorder :=
  if r.enabled then { r with entries := r.entries.push { address, line := r.line } } else r

/-- Keeps an entry only if both its address and its line differ from those of the last one kept. -/
def collapse : List LineEntry → List LineEntry → List LineEntry
  | kept, [] => kept.reverse
  | [], e :: rest => collapse [e] rest
  | last :: kept, e :: rest =>
    if e.line = last.line ∨ e.address = last.address then collapse (last :: kept) rest
    else collapse (e :: last :: kept) rest

/-- The line table: entries by address, runs of one line or one address reduced to their first. -/
def table (r : LineRecorder) : List LineEntry :=
  collapse [] (r.entries.toList.mergeSort fun a b => a.address ≤ b.address)

end LineRecorder

/-- Code under construction. -/
structure Emitter where
  buffer : Buffer := {}
  /-- The depth of the evaluation stack. -/
  stack : StackReport := {}
  recorder : LineRecorder := {}
  /-- The program broke off; what the emitter holds says nothing from there on. -/
  stopped : Bool := false
deriving Repr, DecidableEq

namespace Emitter

/-- The number of bytes that a branch leaves open for its target. -/
def patchSize : Nat := 8

/-- The address of the cursor. -/
def here (e : Emitter) : UInt32 :=
  saturate32 e.buffer.cursor

/-- The code so far. -/
def code (e : Emitter) : Bytes :=
  e.buffer.data

/-- The depth after the last instruction. -/
def depth (e : Emitter) : Int :=
  e.stack.finalDepth

/-- The greatest depth so far. -/
def maxDepth (e : Emitter) : Int :=
  e.stack.maxDepth

/-- Breaks off unless an assertion holds. -/
def require (e : Emitter) (holds : Bool) : Emitter :=
  { e with stopped := e.stopped || !holds }

/-- Applies the stack effect of an instruction, or breaks off where it cannot be computed. -/
def adjust (e : Emitter) (op : Opcode) (count : UInt32) : Emitter :=
  match e.stack.step? op count with
  | some stack => { e with stack }
  | none => { e with stopped := true }

/-- Sets the stack depth, where paths of the code join. -/
def setDepth (e : Emitter) (depth : Int) : Emitter :=
  { e with stack := e.stack.set depth }

/-- Writes bytes at the cursor, no instruction. -/
def write (e : Emitter) (bytes : Bytes) : Emitter :=
  { e with buffer := e.buffer.write bytes }

/-- Writes the tag of an instruction whose stack effect looks at `count`. -/
def start (e : Emitter) (op : Opcode) (count : UInt32) : Emitter :=
  let noted := { e with recorder := e.recorder.record e.here }
  (noted.adjust op count).write (Bytes.ofWord32 op.tag)

/-- Only an operation without immediate is emitted without one. -/
def wellFormed (op : Opcode) (operand : Operand) : Bool :=
  operand != .none || op.operand == .none

/-- Emits an instruction. -/
def emit (e : Emitter) (op : Opcode) (operand : Operand) : Emitter :=
  ((e.require (wellFormed op operand)).start op operand.count).write operand.bytes

/-- Leaves `n` bytes open, filled with `fill`. -/
def skip (e : Emitter) (n : Nat) (fill : UInt8) : Emitter :=
  { e with buffer := e.buffer.skip n fill }

/-- Emits an instruction and leaves its 64-bit operand open, at the address that is answered. -/
def emitOpen (e : Emitter) (op : Opcode) (fill : UInt8) : UInt32 × Emitter :=
  let started := e.start op 0
  (started.here, started.skip patchSize fill)

/-- Moves the cursor. -/
def seek (e : Emitter) (address : UInt32) : Emitter :=
  { e with buffer := e.buffer.seek address.toNat }

/-- Writes a 64-bit word at the cursor, no instruction. -/
def writeWord (e : Emitter) (v : UInt64) : Emitter :=
  e.write (Bytes.ofWord64 v)

/-- Fills in the word that was left open at `address` and puts the cursor back. -/
def patch (e : Emitter) (address : UInt32) (v : UInt64) : Emitter :=
  ((e.seek address).writeWord v).seek e.here

/-- Sets the line of the instructions to come. -/
def setLine (e : Emitter) (line : UInt32) : Emitter :=
  { e with recorder := { e.recorder with line } }

/-- Marks the start of a line: sets it and emits the marker. -/
def markLine (e : Emitter) (line : UInt32) : Emitter :=
  (e.setLine line).emit .line .none

/-- The instruction that pushes an integer; 0 and 1 have one of their own. -/
def intPush (v : Int32) : Opcode × Operand :=
  if v = 0 then (.pushInt0, .none)
  else if v = 1 then (.pushInt1, .none)
  else (.pushInt, .int v)

/-- Pushes an integer. -/
def pushInt (e : Emitter) (v : Int32) : Emitter :=
  let (op, operand) := intPush v
  e.emit op operand

end Emitter

end ScriptToolchain
