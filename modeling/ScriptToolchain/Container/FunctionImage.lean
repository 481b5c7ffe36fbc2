import ScriptToolchain.Bytes.Checksum
import ScriptToolchain.Code.Function
import ScriptToolchain.Container.Encoding
import ScriptToolchain.Text.Digits

/-!
# Function images

The stored form of a compiled function: magic, version, flags, a reserved
byte, id and counts, then the parts that the flags announce, then the CRC-32 of
all that. The checksum is looked at before anything else but the length.
-/

namespace ScriptToolchain

/-- Where the layout of a function image is broken. -/
inductive LayoutFault where
  | tooShort
  | badMagic
  | unsupportedVersion
  | unexpectedEnd
  /-- A text or the code is counted longer than the image. -/
  | sliceEnd
  | invalidUtf8
  | trailingBytes
deriving Repr, DecidableEq

/-- The fault in words. -/
def LayoutFault.text : LayoutFault → String
  | .tooShort => "too short"
  | .badMagic => "bad magic"
  | .unsupportedVersion => "unsupported version"
  | .unexpectedEnd => "unexpected eof"
  | .sliceEnd => "slice eof"
  | .invalidUtf8 => "utf8"
  | .trailingBytes => "trailing bytes"

/-- Why bytes are no function image. -/
inductive ImageError where
  | format (fault : LayoutFault)
  /-- The checksum of the bytes is `computed`, the one behind them `stored`. -/
  | hashMismatch (computed stored : UInt32)
deriving Repr, DecidableEq

/-- The error in words. -/
def ImageError.message : ImageError → String
  | .format fault => s!"format error: {fault.text}"
  | .hashMismatch computed stored =>
    let computed := Text.hexPaddedUpper 8 computed.toNat
    let stored := Text.hexPaddedUpper 8 stored.toNat
    s!"hash mismatch (crc32): expected=0x{computed}, found=0x{stored}"

namespace FunctionImage

/-- The first bytes of an image. -/
def magic : Bytes := #[0x47, 0x4D, 0x46, 0x4E]

/-- The version of the layout. -/
def version : UInt16 := 1

/-- The function is a root. -/
def rootFlag : UInt8 := 1

/-- The slots have names. -/
def symbolsFlag : UInt8 := 2

/-- There is a line table. -/
def linesFlag : UInt8 := 4

/-- The function has a name. -/
def nameFlag : UInt8 := 8

/-- The flag, or no flag. -/
def flagIf (present : Bool) (flag : UInt8) : UInt8 :=
  if present then flag else 0

/-- The flags of a function. -/
def flags (f : CompiledFunction) : UInt8 :=
  flagIf f.root rootFlag ||| flagIf f.symbols.isSome symbolsFlag |||
    flagIf f.lines.isSome linesFlag ||| flagIf f.name.isSome nameFlag

/-- An entry of the line table. -/
def lineEntry (l : LineEntry) : Bytes :=
  Bytes.ofWord32 l.address ++ Bytes.ofWord32 l.line

/-- What stands for a part that may be missing. -/
def part {α : Type} (encode : α → Bytes) : Option α → Bytes
  | some a => encode a
  | none => #[]

/-- The image without its checksum. -/
def body (f : CompiledFunction) : Bytes :=
  magic ++ Bytes.ofWord16 version ++ #[flags f, 0] ++ Bytes.ofWord64 f.id ++
    Bytes.ofWord32 f.params ++ Bytes.ofWord32 f.locals ++ Bytes.ofWord32 f.maxStack ++
    part Bytes.countedText f.name ++ Bytes.counted f.code ++
    part (Bytes.countedList Bytes.countedText) f.symbols ++
    part (Bytes.countedList lineEntry) f.lines

/-- A step of decoding. -/
abbrev Decode := EStateM ImageError Reader

/-- A read that has to find its bytes. -/
def need {α : Type} (r : Read α) : Decode α :=
  Reader.orFail (.format .unexpectedEnd) r

/-- Reads bytes behind their count. -/
def counted : Decode Bytes := do
  let n ← need Reader.word32
  Reader.orFail (.format .sliceEnd) (Reader.take n.toNat)

/-- Reads a text behind its count. -/
def countedText : Decode String := do
  match (← counted).toText? with
  | some s => return s
  | none => throw (.format .invalidUtf8)

/-- Reads items behind their count. -/
def countedList {α : Type} (item : Decode α) : Decode (List α) := do
  let n ← need Reader.word32
  Reader.times (fun _ => item) 0 n.toNat

/-- Reads an entry of the line table. -/
def readLineEntry : Decode LineEntry := do
  let address ← need Reader.word32
  let line ← need Reader.word32
  return { address, line }

/-- Reads a part if its flag is set. -/
def partIf {α : Type} (flags flag : UInt8) (r : Decode α) : Decode (Option α) :=
  if flags &&& flag != 0 then some <$> r else return none

/-- Reads the version and the parts behind it. -/
def readParts : Decode CompiledFunction := do
  let v ← need Reader.word16
  if v ≠ version then
    throw (.format .unsupportedVersion)
  let flags ← need Reader.byte
  let _ ← need Reader.byte
  let id ← need Reader.word64
  let params ← need Reader.word32
  let locals ← need Reader.word32
  let maxStack ← need Reader.word32
  let name ← partIf flags nameFlag countedText
  let code ← counted
  let symbols ← partIf flags symbolsFlag (countedList countedText)
  let lines ← partIf flags linesFlag (countedList readLineEntry)
  return {
    id, root := flags &&& rootFlag != 0, code, params, locals, maxStack, name, symbols, lines }

/-- Reads what stands behind the magic. -/
def readBody : Decode CompiledFunction :=
  Reader.toEnd (.format .trailingBytes) readParts

/-- The number of bytes of the smallest image. -/
def minSize : Nat := 36

end FunctionImage

namespace CompiledFunction

/-- The image of a function. -/
def toBytes (f : CompiledFunction) : Bytes :=
  let body := FunctionImage.body f
  body ++ Bytes.ofWord32 (Checksum.crc32 body)

/-- The checksum of the image in the upper half, its length in the lower. -/
def hash (f : CompiledFunction) : UInt64 :=
  let image := f.toBytes
  ((Checksum.crc32 image).toUInt64 <<< 32) ||| (image.size.toUInt64 &&& 0xFFFFFFFF)

/-- The function of an image. -/
def ofBytes (data : Bytes) : Except ImageError CompiledFunction :=
  if data.size < FunctionImage.minSize then .error (.format .tooShort)
  else
    let body := data.extract 0 (data.size - 4)
    let stored := Bytes.toWord32 (data.extract (data.size - 4) data.size)
    let computed := Checksum.crc32 body
    if computed ≠ stored then .error (.hashMismatch computed stored)
    else if body.extract 0 4 ≠ FunctionImage.magic then .error (.format .badMagic)
    else
      match FunctionImage.readBody { data := body, offset := 4 } with
      | .ok f _ => .ok f
      | .error e _ => .error e

end CompiledFunction

end ScriptToolchain
