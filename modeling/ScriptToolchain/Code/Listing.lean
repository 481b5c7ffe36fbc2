import ScriptToolchain.Code.Function
import ScriptToolchain.Code.Instruction
import ScriptToolchain.Number.Shortest
import ScriptToolchain.Text.Digits

/-!
# Listings

The text of an instruction, of a code buffer and of a function. One
instruction takes one line: address, mnemonic, operand. Two operands are told
apart by their mark: `@` stands before a code address, `#` before an id.
-/

namespace ScriptToolchain

/-- The failure in words. -/
def DecodeError.message : DecodeError → String
  | .read e => e.message
  | .unknownOpcode raw address =>
    s!"unknown opcode tag 0x{Text.hexPaddedUpper 8 raw.toNat} at {address}"
  | .overflow => Word.overflowMessage

namespace Listing

/-- Floats from `1e-4` up to `1e16` are written with all their places. -/
def floatLayout : Numeral.Layout := ⟨-3, 16⟩

/-- A float constant: the fewest digits that read back. -/
def float (bits : UInt32) : String :=
  match BinaryFormat.binary32.decode bits.toNat with
  | .notANumber => "NaN"
  | .infinite negative => if negative then "-inf" else "inf"
  | .finite negative significand exponent =>
    (Shortest.numeral .binary32 floatLayout negative significand exponent).text

/-- The operand, with a blank before it. -/
def operand (i : Instruction) : String :=
  match i.operand with
  | .none => ""
  | .int v =>
    if i.opcode = .foreach then
      let slots := SlotPair.unpack v.toUInt32
      s!" k{slots.key} v{slots.value}"
    else s!" {v}"
  | .float bits => s!" {float bits}"
  | .word v =>
    if i.opcode.isBranch then s!" @{Text.zeroPadded 4 v.toNat}" else s!" #{v}"

/-- One instruction. -/
def instruction (i : Instruction) : String :=
  s!"{Text.zeroPadded 4 i.address.toNat} {i.opcode.mnemonic}{operand i}"

/-- Lines, each with its end. -/
def ofLines (lines : List String) : String :=
  String.join (lines.map (· ++ "\n"))

/-- One line for each instruction. -/
def code (code : Bytes) : Except DecodeError String := do
  let is ← Code.decode code
  return ofLines (is.map instruction)

/-- The lines that name the slots, parameters first. -/
def symbols (f : CompiledFunction) : List String :=
  (f.symbols.getD []).zipIdx.map fun (name, slot) =>
    let kind := if slot.toUInt32 < f.params then "param" else "local"
    s!";; {kind} {slot}: {name}"

/-- An instruction behind the column of its source line. -/
def instructionOf (f : CompiledFunction) (i : Instruction) : String :=
  let line := match f.lineAt? i.address with
    | some line => Text.padLeft ' ' 4 (toString line)
    | none => "    "
  s!"{line} | {instruction i}"

/-- Header, slot names and code of a function. -/
def function (f : CompiledFunction) : Except DecodeError String := do
  let is ← Code.decode f.code
  return ofLines (s!"== {f.describe} ==" :: symbols f ++ is.map (instructionOf f))

end Listing

end ScriptToolchain
