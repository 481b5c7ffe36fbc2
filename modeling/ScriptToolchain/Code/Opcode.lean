import ScriptToolchain.Number.Word

/-!
# Instruction set

The closed instruction set of the stack machine. An instruction is a tag of
four bytes, behind which its operation may have one immediate of a fixed kind.
Every operation changes the depth of the evaluation stack by a constant, save
`call`, whose effect hangs on its argument count.
-/

namespace ScriptToolchain

/-- What stands behind the tag of an instruction. -/
inductive OperandKind where
  | none
  /-- Slots, argument counts, integer constants, packed slot pairs. -/
  | int32
  /-- A float constant. -/
  | float32
  /-- Ids of symbols, strings and functions; code addresses. -/
  | word64
deriving Repr, DecidableEq

/-- The name of a kind of immediate. -/
def OperandKind.name : OperandKind → String
  | .none => "None"
  | .int32 => "Int32"
  | .float32 => "Float32"
  | .word64 => "Ptr"

/-- The number of bytes an immediate takes. -/
def OperandKind.size : OperandKind → Nat
  | .none => 0
  | .int32 | .float32 => 4
  | .word64 => 8

/-- The operations, in the order of their tags. -/
inductive Opcode where
  /-- No operation. -/
  | nop
  /-- Marks where the code of a source line starts. -/
  | line
  /-- Stack: `obj → obj.name` -/
  | getDot
  /-- Stack: `obj value →`, stores `obj.name = value`. -/
  | setDot
  /-- Stack: `obj key → obj[key]` -/
  | getIndex
  /-- Stack: `obj key value →`, stores `obj[key] = value`. -/
  | setIndex
  /-- Branches always. -/
  | branch
  /-- Pops and branches when the value is zero. -/
  | branchZero
  /-- Pops and branches when the value is not zero. -/
  | branchNonZero
  /-- Branches when the top is zero and keeps it. -/
  | branchZeroKeep
  /-- Branches when the top is not zero and keeps it. -/
  | branchNonZeroKeep
  /-- Stack: `this fn args… → result`; the operand counts the arguments. -/
  | call
  /-- Returns null. -/
  | ret
  /-- Returns the popped value. -/
  | retValue
  /-- Stack: `table iter → table iter' more`; the operand packs the slots of key and value. -/
  | foreach
  /-- Drops the top. -/
  | pop
  /-- Drops the two top values. -/
  | pop2
  /-- Doubles the top. -/
  | dup
  /-- Doubles the two top values. -/
  | dup2
  /-- Exchanges the two top values. -/
  | swap
  /-- Pushes null. -/
  | pushNull
  /-- Pushes an integer. -/
  | pushInt
  /-- Pushes 0. -/
  | pushInt0
  /-- Pushes 1. -/
  | pushInt1
  /-- Pushes a float. -/
  | pushFloat
  /-- Pushes a string by id. -/
  | pushString
  /-- Pushes a new table. -/
  | pushTable
  /-- Pushes a function by id. -/
  | pushFunction
  /-- Pushes the receiver. -/
  | pushThis
  /-- Pushes a local slot. -/
  | getLocal
  /-- Pops into a local slot. -/
  | setLocal
  /-- Pushes a global by symbol id. -/
  | getGlobal
  /-- Pops into a global. -/
  | setGlobal
  /-- Pushes a member of the receiver. -/
  | getThis
  /-- Pops into a member of the receiver. -/
  | setThis
  /-- Stack: `a b → a + b` -/
  | add
  /-- Stack: `a b → a - b` -/
  | sub
  /-- Stack: `a b → a * b` -/
  | mul
  /-- Stack: `a b → a / b` -/
  | div
  /-- Stack: `a b → a % b` -/
  | rem
  /-- Bitwise or. -/
  | bitOr
  /-- Bitwise exclusive or. -/
  | bitXor
  /-- Bitwise and. -/
  | bitAnd
  /-- Shift left. -/
  | shl
  /-- Shift right. -/
  | shr
  /-- Bitwise complement. -/
  | bitInv
  /-- Less than. -/
  | lt
  /-- Greater than. -/
  | gt
  /-- Less than or equal. -/
  | lte
  /-- Greater than or equal. -/
  | gte
  /-- Equality. -/
  | eq
  /-- Inequality. -/
  | neq
  /-- Arithmetic negation. -/
  | neg
  /-- Unary plus. -/
  | pos
  /-- Logical negation. -/
  | not
deriving Repr, DecidableEq

namespace Opcode

/-- What the instruction set says of an operation. -/
structure Spec where
  mnemonic : String
  operand : OperandKind
  /-- The change of the stack depth; that of `call` is for no arguments. -/
  delta : Int

/-- The table of the instruction set. -/
def spec : Opcode → Spec
  | .nop => ⟨"nop", .none, 0⟩
  | .line => ⟨"line", .none, 0⟩
  | .getDot => ⟨"get-dot", .word64, 0⟩
  | .setDot => ⟨"set-dot", .word64, -2⟩
  | .getIndex => ⟨"get-index", .none, -1⟩
  | .setIndex => ⟨"set-index", .none, -3⟩
  | .branch => ⟨"bra", .word64, 0⟩
  | .branchZero => ⟨"brz", .word64, -1⟩
  | .branchNonZero => ⟨"brnz", .word64, -1⟩
  | .branchZeroKeep => ⟨"brzk", .word64, 0⟩
  | .branchNonZeroKeep => ⟨"brnzk", .word64, 0⟩
  | .call => ⟨"call", .int32, -1⟩
  | .ret => ⟨"ret", .none, 0⟩
  | .retValue => ⟨"retv", .none, -1⟩
  | .foreach => ⟨"foreach", .int32, 1⟩
  | .pop => ⟨"pop", .none, -1⟩
  | .pop2 => ⟨"pop2", .none, -2⟩
  | .dup => ⟨"dup", .none, 1⟩
  | .dup2 => ⟨"dup2", .none, 2⟩
  | .swap => ⟨"swap", .none, 0⟩
  | .pushNull => ⟨"push-null", .none, 1⟩
  | .pushInt => ⟨"push-int", .int32, 1⟩
  | .pushInt0 => ⟨"push-int-0", .none, 1⟩
  | .pushInt1 => ⟨"push-int-1", .none, 1⟩
  | .pushFloat => ⟨"push-fp", .float32, 1⟩
  | .pushString => ⟨"push-str", .word64, 1⟩
  | .pushTable => ⟨"push-tbl", .none, 1⟩
  | .pushFunction => ⟨"push-fn", .word64, 1⟩
  | .pushThis => ⟨"push-this", .none, 1⟩
  | .getLocal => ⟨"get-local", .int32, 1⟩
  | .setLocal => ⟨"set-local", .int32, -1⟩
  | .getGlobal => ⟨"get-global", .word64, 1⟩
  | .setGlobal => ⟨"set-global", .word64, -1⟩
  | .getThis => ⟨"get-this", .word64, 1⟩
  | .setThis => ⟨"set-this", .word64, -1⟩
  | .add => ⟨"add", .none, -1⟩
  | .sub => ⟨"sub", .none, -1⟩
  | .mul => ⟨"mul", .none, -1⟩
  | .div => ⟨"div", .none, -1⟩
  | .rem => ⟨"rem", .none, -1⟩
  | .bitOr => ⟨"bit-or", .none, -1⟩
  | .bitXor => ⟨"bit-xor", .none, -1⟩
  | .bitAnd => ⟨"bit-and", .none, -1⟩
  | .shl => ⟨"shl", .none, -1⟩
  | .shr => ⟨"shr", .none, -1⟩
  | .bitInv => ⟨"bit-inv", .none, 0⟩
  | .lt => ⟨"lt", .none, -1⟩
  | .gt => ⟨"gt", .none, -1⟩
  | .lte => ⟨"lte", .none, -1⟩
  | .gte => ⟨"gte", .none, -1⟩
  | .eq => ⟨"eq", .none, -1⟩
  | .neq => ⟨"neq", .none, -1⟩
  | .neg => ⟨"neg", .none, 0⟩
  | .pos => ⟨"pos", .none, 0⟩
  | .not => ⟨"not", .none, 0⟩

/-- Every operation, in the order of the tags. -/
def all : Array Opcode := #[
  .nop, .line, .getDot, .setDot, .getIndex, .setIndex, .branch, .branchZero, .branchNonZero,
  .branchZeroKeep, .branchNonZeroKeep, .call, .ret, .retValue, .foreach, .pop, .pop2, .dup,
  .dup2, .swap, .pushNull, .pushInt, .pushInt0, .pushInt1, .pushFloat, .pushString, .pushTable,
  .pushFunction, .pushThis, .getLocal, .setLocal, .getGlobal, .setGlobal, .getThis, .setThis,
  .add, .sub, .mul, .div, .rem, .bitOr, .bitXor, .bitAnd, .shl, .shr, .bitInv, .lt, .gt, .lte,
  .gte, .eq, .neq, .neg, .pos, .not]

/-- The name in listings. -/
def mnemonic (op : Opcode) : String :=
  op.spec.mnemonic

/-- The kind of the immediate. -/
def operand (op : Opcode) : OperandKind :=
  op.spec.operand

/-- The fixed change of the stack depth. -/
def delta (op : Opcode) : Int :=
  op.spec.delta

/-- The encoded tag, the position in the instruction set. -/
def tag (op : Opcode) : UInt32 :=
  op.ctorIdx.toUInt32

/-- The operation with this tag. -/
def ofTag? (tag : UInt32) : Option Opcode :=
  all[tag.toNat]?

/-- The number of bytes of a tag. -/
def tagSize : Nat := 4

/-- The number of bytes of an instruction. -/
def size (op : Opcode) : Nat :=
  tagSize + op.operand.size

/-- The largest argument count that a signed word holds. -/
def maxArguments : Nat := 0x7FFFFFFF

/-- The argument count that the effect of a call is computed from. One that no signed word holds
counts as the largest but one. -/
def argumentCount (operand : UInt32) : Nat :=
  if operand.toNat ≤ maxArguments then operand.toNat else maxArguments - 1

/--
The change of the stack depth in one execution. `call n` takes the receiver, the function and
`n` arguments and leaves one result.
-/
def effect (op : Opcode) (operand : UInt32) : Int :=
  match op with
  | .call => -(argumentCount operand + 1)
  | op => op.delta

/-- The change as it is computed in signed words: the count of a call is raised by one, then
negated. -/
def effect? (op : Opcode) (operand : UInt32) : Option Int :=
  match op with
  | .call => do
    let taken ← Word.signed? (argumentCount operand + 1)
    Word.signed? (-taken)
  | op => some op.delta

/-- The five operations whose immediate is a code address. -/
def isBranch : Opcode → Bool
  | .branch | .branchZero | .branchNonZero | .branchZeroKeep | .branchNonZeroKeep => true
  | _ => false

end Opcode

/-- The two local slots that a `foreach` instruction writes. -/
structure SlotPair where
  key : UInt16
  value : UInt16
deriving Repr, DecidableEq

namespace SlotPair

/-- Both slots in one word, the key in the upper half. -/
def pack (p : SlotPair) : UInt32 :=
  (p.key.toUInt32 <<< 16) ||| p.value.toUInt32

/-- The slots that a word packs. -/
def unpack (w : UInt32) : SlotPair :=
  { key := (w >>> 16).toUInt16, value := w.toUInt16 }

end SlotPair

end ScriptToolchain
