import ScriptToolchain.Bytes.Reader
import ScriptToolchain.Code.Opcode

/-!
# Instructions and their bytes

`Instruction.decodeAt` reads one instruction of a code buffer, `Code.scan` all
of them up to the first that cannot be read. It goes on at the address behind
each, which is a word: no code of 2^32 bytes or more is read to its end.
`Operand.bytes` and `Instruction.bytes` write instructions again.
-/

namespace ScriptToolchain

/-- The immediate of an instruction. -/
inductive Operand where
  | none
  | int (v : Int32)
  /-- A float as its pattern of bits. -/
  | float (bits : UInt32)
  /-- An id or a code address. -/
  | word (v : UInt64)
deriving Repr, DecidableEq

namespace Operand

/-- The kind of the immediate. -/
def kind : Operand → OperandKind
  | .none => .none
  | .int _ => .int32
  | .float _ => .float32
  | .word _ => .word64

/-- The encoded immediate. -/
def bytes : Operand → Bytes
  | .none => #[]
  | .int v => Bytes.ofWord32 v.toUInt32
  | .float bits => Bytes.ofWord32 bits
  | .word v => Bytes.ofWord64 v

/-- The word that the stack effect of `call` looks at; zero for all but integers. -/
def count : Operand → UInt32
  | .int v => v.toUInt32
  | _ => 0

/-- Reads an immediate of the given kind. -/
def read : OperandKind → Read Operand
  | .none => return .none
  | .int32 => return .int (← Reader.word32).toInt32
  | .float32 => return .float (← Reader.word32)
  | .word64 => return .word (← Reader.word64)

end Operand

/-- An instruction and where it stands. -/
structure Instruction where
  address : UInt32
  opcode : Opcode
  operand : Operand
deriving Repr, DecidableEq

namespace Instruction

/-- The address behind the instruction. -/
def next (i : Instruction) : UInt32 :=
  i.address + i.opcode.size.toUInt32

/-- The change of the stack depth in one execution. -/
def effect (i : Instruction) : Int :=
  i.opcode.effect i.operand.count

/-- Where a branch goes. -/
def target? (i : Instruction) : Option UInt64 :=
  match i.operand with
  | .word t => if i.opcode.isBranch then some t else none
  | _ => none

/-- The encoded instruction. -/
def bytes (i : Instruction) : Bytes :=
  Bytes.ofWord32 i.opcode.tag ++ i.operand.bytes

end Instruction

/-- Why an instruction cannot be read. -/
inductive DecodeError where
  | read (e : ReadError)
  /-- No operation has the tag `raw`. -/
  | unknownOpcode (raw : UInt32) (address : Nat)
  /-- The address behind the instruction is no word. -/
  | overflow
deriving Repr, DecidableEq

/-- Reads the instruction at `address`. -/
def Instruction.decodeAt (code : Bytes) (address : Nat) : Except DecodeError Instruction :=
  match Reader.word32.run { data := code, offset := address } with
  | .error e _ => .error (.read e)
  | .ok raw r =>
    match Opcode.ofTag? raw with
    | none => .error (.unknownOpcode raw address)
    | some opcode =>
      match (Operand.read opcode.operand).run r with
      | .error e _ => .error (.read e)
      | .ok operand _ => .ok { address := address.toUInt32, opcode, operand }

namespace Code

/-- The instructions from `address` on, and why reading stopped before the end of the code. -/
def scan (code : Bytes) (address : Nat) : List Instruction × Option DecodeError :=
  if address < code.size then
    match Instruction.decodeAt code address with
    | .ok i =>
      if address + i.opcode.size < UInt32.size then
        let (rest, stop) := scan code (address + i.opcode.size)
        (i :: rest, stop)
      else ([], some .overflow)
    | .error e => ([], some e)
  else ([], none)
termination_by code.size - address
decreasing_by
  have : 4 ≤ i.opcode.size := by simp [Opcode.size, Opcode.tagSize]
  omega

/-- The instructions of a code buffer that can be read to its end. -/
def decode (code : Bytes) : Except DecodeError (List Instruction) :=
  match scan code 0 with
  | (is, none) => .ok is
  | (_, some e) => .error e

end Code

end ScriptToolchain
