import ScriptToolchain.Code.Validation
import ScriptToolchain.Container.ProgramImage
import ScriptToolchain.Json.Number
import ScriptToolchain.Text.Quoted

/-!
# Views of a program image

A summary in a few lines, the listing of every function, a structured view in
JSON and the check of the whole image.
-/

namespace ScriptToolchain

namespace ProgramImage

/-! ## Texts -/

/-- A root as it is shown. -/
def rootText : Option UInt64 → String
  | some id => s!"fn#{id}"
  | none => "-"

/-- One function in the summary. -/
def summaryLine (f : CompiledFunction) : String :=
  let name := Text.padRight ' ' 16 f.displayName
  let debug := if f.lines.isSome then " debug" else ""
  s!"  {name} id={f.id} params={f.params} locals={f.locals} " ++
    s!"stack={f.maxStack} bytes={f.code.size}{debug}"

/-- The counts of the image, then one line for each function. -/
def summary (p : ProgramImage) : String :=
  let counts := s!"functions={p.functions.length} symbols={p.symbols.length} " ++
    s!"strings={p.strings.length} sources={p.sources.length} root={rootText p.root}"
  Listing.ofLines (counts :: p.functions.map summaryLine)

/-- The listings of some functions, with an empty line behind each. -/
def listings : List CompiledFunction → Except DecodeError String
  | [] => .ok ""
  | f :: rest => do
    let first ← Listing.function f
    return first ++ "\n" ++ (← listings rest)

/-- The listings of all functions. -/
def disassemble (p : ProgramImage) : Except DecodeError String :=
  listings p.functions

/-! ## Structured view -/

/-- What the operand of an instruction refers to. -/
def note? (p : ProgramImage) (f : CompiledFunction) (i : Instruction) : Option String :=
  match i.opcode, i.operand with
  | .getDot, .word id | .setDot, .word id | .getGlobal, .word id | .setGlobal, .word id
  | .getThis, .word id | .setThis, .word id => p.symbol? id
  | .pushString, .word id => (p.string? id).map Text.quote
  | .pushFunction, .word id => (p.function? id).map CompiledFunction.displayName
  | .getLocal, .int slot | .setLocal, .int slot =>
    if 0 ≤ slot then f.symbol? slot.toUInt32 else none
  | _, _ => none

/-- A field, unless its value is missing. -/
def fieldIf (name : String) : Option Json → List (String × Json)
  | some v => [(name, v)]
  | none => []

/-- An operand; a float that is no finite number is left out. -/
def operandJson? : Operand → Option Json
  | .none => none
  | .int v => some (.int v.toInt)
  | .float bits =>
    match Json.ofFloat32 bits with
    | .null => none
    | v => some v
  | .word v => some (.int v.toNat)

/-- An instruction. -/
def instructionJson (p : ProgramImage) (f : CompiledFunction) (i : Instruction) : Json :=
  .obj <|
    [("address", Json.int i.address.toNat)] ++
    fieldIf "line" ((f.lineAt? i.address).map fun l => .int l.toNat) ++
    [("op", Json.str i.opcode.mnemonic)] ++
    fieldIf "operand" (operandJson? i.operand) ++
    fieldIf "note" ((p.note? f i).map .str)

/-- A function whose code cannot be read has no view. -/
structure ViewError where
  name : String
  cause : DecodeError
deriving Repr, DecidableEq

/-- The error in words. -/
def ViewError.message (e : ViewError) : String :=
  s!"décodage de {e.name}: {e.cause.message}"

/-- A function. -/
def functionJson (p : ProgramImage) (f : CompiledFunction) : Except ViewError Json := do
  match Code.decode f.code with
  | .error cause => throw { name := f.displayName, cause }
  | .ok is =>
    return .obj [
      ("id", .int f.id.toNat),
      ("name", .str f.displayName),
      ("root", .bool f.root),
      ("params", .int f.params.toNat),
      ("locals", .int f.locals.toNat),
      ("max_stack", .int f.maxStack.toNat),
      ("symbols", .ofOption (fun names => .array (names.map .str)) f.symbols),
      ("hash", .int f.hash.toNat),
      ("code", .array (is.map (instructionJson p f)))]

/-- A source. -/
def sourceJson (s : SourceEntry) : Json :=
  .obj [("id", .int s.id.toNat), ("name", .str s.name), ("lines", .int (Text.lineCount s.text))]

/-- The whole image; the first function whose code cannot be read is the error. -/
def view (p : ProgramImage) : Except ViewError Json := do
  let functions ← p.functions.mapM p.functionJson
  return .obj [
    ("root", .ofOption (fun id => .int id.toNat) p.root),
    ("symbols", .array (p.symbols.map .str)),
    ("strings", .array (p.strings.map .str)),
    ("sources", .array (p.sources.map sourceJson)),
    ("functions", .array functions)]

/-! ## Check -/

/-- What is wrong with an image. -/
inductive VerifyError where
  | function (name : String) (defect : Defect)
  /-- No function has the id of the root. -/
  | missingRoot (id : UInt64)
  /-- The stored form cannot be read back. -/
  | unreadable (e : ContainerError)
  /-- The stored form is that of another image. -/
  | otherImage
deriving Repr, DecidableEq

/-- What stands behind the message of a container error: its cause once more. -/
def causeText : ContainerError → String
  | .function _ cause => s!": {cause.message}"
  | _ => ""

/-- The error in words. -/
def VerifyError.message : VerifyError → String
  | .function name defect => s!"fonction {name}: {defect.message}"
  | .missingRoot id => s!"fonction racine fn#{id} absente"
  | .unreadable e => e.message ++ causeText e
  | .otherImage => "round-trip du conteneur divergent"

/-- The first function that is not sound. -/
def unsound? (p : ProgramImage) : Option VerifyError :=
  p.functions.findSome? fun f =>
    match f.validate with
    | .ok _ => none
    | .error d => some (.function f.displayName d)

/-- The root is named but not there. -/
def missingRoot? (p : ProgramImage) : Option VerifyError :=
  match p.root with
  | some id => if (p.function? id).isNone then some (.missingRoot id) else none
  | none => none

/-- Every function is sound, the root is there and the stored form reads back. -/
def verify (p : ProgramImage) : Except VerifyError Unit :=
  match p.unsound?, p.missingRoot? with
  | some e, _ => .error e
  | none, some e => .error e
  | none, none =>
    match ofBytes p.toBytes with
    | .error e => .error (.unreadable e)
    | .ok again => if again = p then .ok () else .error .otherImage

end ProgramImage

end ScriptToolchain
