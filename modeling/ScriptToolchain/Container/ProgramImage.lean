import ScriptToolchain.Code.Listing
import ScriptToolchain.Compile.Program
import ScriptToolchain.Container.FunctionImage

/-!
# Program images

The stored form of a whole program: root, symbols, strings, sources and the
images of its functions, between a magic and the CRC-32 of all before it. The
magic is looked at first, then the checksum, then the rest in order.
-/

namespace ScriptToolchain

/-- A program that can be stored. -/
structure ProgramImage where
  root : Option UInt64 := none
  symbols : List String := []
  strings : List String := []
  sources : List SourceEntry := []
  functions : List CompiledFunction := []
deriving Repr, DecidableEq

/-- What of a program is stored. -/
def Program.image (p : Program) : ProgramImage :=
  { root := p.root
    symbols := p.symbols
    strings := p.strings
    sources := p.sources.entries
    functions := p.functions }

/-- Why bytes are no program image. -/
inductive ContainerError where
  | badMagic
  | unsupportedVersion (version : UInt16)
  /-- The bytes end too early, or go on behind the last function. -/
  | truncated
  | checksum (stored computed : UInt32)
  | invalidUtf8
  /-- The function at `index` is no function image. -/
  | function (index : Nat) (cause : ImageError)
deriving Repr, DecidableEq

/-- The error in words. -/
def ContainerError.message : ContainerError → String
  | .badMagic => "bad magic (expected GMPR)"
  | .unsupportedVersion version => s!"unsupported container version {version}"
  | .truncated => "truncated container"
  | .checksum stored computed =>
    let stored := Text.hexPadded 8 stored.toNat
    let computed := Text.hexPadded 8 computed.toNat
    s!"checksum mismatch: stored 0x{stored}, computed 0x{computed}"
  | .invalidUtf8 => "invalid UTF-8 in string table"
  | .function index cause => s!"function #{index}: {cause.message}"

namespace ProgramImage

/-- The first bytes of an image. -/
def magic : Bytes := #[0x47, 0x4D, 0x50, 0x52]

/-- The version of the layout. -/
def version : UInt16 := 1

/-- The program has a root. -/
def rootFlag : UInt16 := 1

/-- The function with this id. -/
def function? (p : ProgramImage) (id : UInt64) : Option CompiledFunction :=
  p.functions.find? (·.id = id)

/-- The symbol with this id. -/
def symbol? (p : ProgramImage) (id : UInt64) : Option String :=
  p.symbols[id.toNat]?

/-- The string constant with this id. -/
def string? (p : ProgramImage) (id : UInt64) : Option String :=
  p.strings[id.toNat]?

/-! ## Bytes -/

/-- A source. -/
def sourceBytes (s : SourceEntry) : Bytes :=
  Bytes.ofWord32 s.id ++ Bytes.countedText s.name ++ Bytes.countedText s.text

/-- The image without its checksum. -/
def body (p : ProgramImage) : Bytes :=
  magic ++ Bytes.ofWord16 version ++ Bytes.ofWord16 (if p.root.isSome then rootFlag else 0) ++
    Bytes.ofWord64 (p.root.getD 0) ++ Bytes.countedList Bytes.countedText p.symbols ++
    Bytes.countedList Bytes.countedText p.strings ++ Bytes.countedList sourceBytes p.sources ++
    Bytes.countedList (fun f => Bytes.counted f.toBytes) p.functions

/-- The stored form. -/
def toBytes (p : ProgramImage) : Bytes :=
  let body := p.body
  body ++ Bytes.ofWord32 (Checksum.crc32 body)

/-- A step of decoding. -/
abbrev Decode := EStateM ContainerError Reader

/-- A read that has to find its bytes. -/
def need {α : Type} (r : Read α) : Decode α :=
  Reader.orFail .truncated r

/-- Reads bytes behind their count. -/
def counted : Decode Bytes := do
  let n ← need Reader.word32
  need (Reader.take n.toNat)

/-- Reads a text behind its count. -/
def countedText : Decode String := do
  match (← counted).toText? with
  | some s => return s
  | none => throw .invalidUtf8

/-- Reads items behind their count. -/
def countedList {α : Type} (item : Nat → Decode α) : Decode (List α) := do
  let n ← need Reader.word32
  Reader.times item 0 n.toNat

/-- Reads a source. -/
def readSource : Decode SourceEntry := do
  let id ← need Reader.word32
  let name ← countedText
  let text ← countedText
  return { id, name, text }

/-- Reads the function at `index`. -/
def readFunction (index : Nat) : Decode CompiledFunction := do
  match CompiledFunction.ofBytes (← counted) with
  | .ok f => return f
  | .error cause => throw (.function index cause)

/-- Reads the version and the parts behind it. -/
def readParts : Decode ProgramImage := do
  let v ← need Reader.word16
  if v ≠ version then
    throw (.unsupportedVersion v)
  let flags ← need Reader.word16
  let root ← need Reader.word64
  let symbols ← countedList fun _ => countedText
  let strings ← countedList fun _ => countedText
  let sources ← countedList fun _ => readSource
  let functions ← countedList readFunction
  return {
    root := if flags &&& rootFlag != 0 then some root else none
    symbols, strings, sources, functions }

/-- Reads what stands behind the magic. -/
def readBody : Decode ProgramImage :=
  Reader.toEnd .truncated readParts

/-- The number of bytes that every image has at least. -/
def minSize : Nat := 20

/-- The program of a stored form. -/
def ofBytes (data : Bytes) : Except ContainerError ProgramImage :=
  if data.size < minSize then .error .truncated
  else if data.extract 0 4 ≠ magic then .error .badMagic
  else
    let body := data.extract 0 (data.size - 4)
    let stored := Bytes.toWord32 (data.extract (data.size - 4) data.size)
    let computed := Checksum.crc32 body
    if stored ≠ computed then .error (.checksum stored computed)
    else
      match readBody { data := body, offset := 4 } with
      | .ok p _ => .ok p
      | .error e _ => .error e

end ProgramImage

end ScriptToolchain
