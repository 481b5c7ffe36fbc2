import ScriptToolchain.Container.Build
import ScriptToolchain.Container.View
import ScriptToolchain.Json.Printer
import ScriptToolchain.Tree.Stored

/-!
# Command line

What the arguments of the command mean and what a run of it writes. A run
compiles a tree to an image, or shows an image; the input and the output are
values here.
-/

namespace ScriptToolchain.CommandLine

/-- The release in words. -/
def banner (tool : String) : String :=
  s!"{tool} - gmscript-tools 0.1.0"

/-- What is shown of an image. -/
inductive Shown where
  | listing
  | summary
  | json
deriving Repr, DecidableEq

/-- What a run is asked to do. -/
inductive Request where
  /-- Compile a tree; `listed` asks for the listing in place of the image. -/
  | compile (options : Compile.Options) (listed : Bool)
  /-- Show an image; `checked` asks for a check of it as well. -/
  | inspect (shown : Shown) (checked : Bool)
  | version
deriving Repr, DecidableEq

/-- The options of a compilation. -/
def compileOptions (o : Compile.Options) (listed : Bool) : List String → Option Request
  | [] => some (.compile o listed)
  | "--debug" :: rest => compileOptions { o with debug := true } listed rest
  | "--deny-warnings" :: rest => compileOptions { o with denyWarnings := true } listed rest
  | "--disasm" :: rest => compileOptions o true rest
  | "--receiver" :: "current-this" :: rest =>
    compileOptions { o with receiver := .currentThis } listed rest
  | "--receiver" :: "member-only" :: rest =>
    compileOptions { o with receiver := .memberOnly } listed rest
  | "--root-name" :: name :: rest => compileOptions { o with rootName := name } listed rest
  | _ => none

/-- The options of a look at an image. -/
def inspectOptions (shown : Shown) (checked : Bool) : List String → Option Request
  | [] => some (.inspect shown checked)
  | "--summary" :: rest => inspectOptions .summary checked rest
  | "--json" :: rest => inspectOptions .json checked rest
  | "--verify" :: rest => inspectOptions shown true rest
  | _ => none

/-- What the arguments ask for. -/
def request? : List String → Option Request
  | "compile" :: rest => compileOptions {} false rest
  | "disasm" :: rest => inspectOptions .listing false rest
  | ["--version"] => some .version
  | _ => none

/-- How the command is called. -/
def usage : String :=
  "usage: compile [--debug] [--receiver current-this|member-only] [--root-name NAME] " ++
    "[--deny-warnings] [--disasm] | disasm [--summary] [--json] [--verify] | --version\n"

/-- What a run writes, and whether it was successful. -/
structure Outcome where
  output : Bytes := #[]
  messages : String := ""
  failed : Bool := false
deriving Repr, DecidableEq

/-- A run that fails for a reason. -/
def failure (reason : String) : Outcome :=
  { messages := s!"error: {reason}\n", failed := true }

/-- A run that writes a text, if there is one. -/
def written : Except String String → Outcome
  | .ok text => { output := Bytes.ofText text }
  | .error reason => failure reason

/-- Compiles the tree whose stored form is `input`. -/
def compile (o : Compile.Options) (listed : Bool) (input : Bytes) : Outcome :=
  match input.toText?.bind Node.ofText? with
  | none => failure Node.unreadableMessage
  | some n =>
    let built := Build.unit o none n
    let reports := String.join (built.diagnostics.map fun d => d.text ++ "\n")
    let outcome :=
      match built.image with
      | none => failure s!"{built.diagnostics.length} diagnostic(s), aucune sortie"
      | some image =>
        if listed then written (image.disassemble.mapError DecodeError.message)
        else { output := image.toBytes }
    { outcome with messages := reports ++ outcome.messages }

/-- What is shown of an image. -/
def shownText (image : ProgramImage) : Shown → Except String String
  | .listing => image.disassemble.mapError DecodeError.message
  | .summary => .ok image.summary
  | .json => (image.view.mapError ProgramImage.ViewError.message).map fun v => v.render ++ "\n"

/-- Shows the image whose stored form is `input`. -/
def inspect (shown : Shown) (checked : Bool) (input : Bytes) : Outcome :=
  match ProgramImage.ofBytes input with
  | .error e => failure e.message
  | .ok image =>
    let outcome := written (shownText image shown)
    match checked, image.verify with
    | true, .error e => { outcome with messages := (failure e.message).messages, failed := true }
    | true, .ok () => { outcome with messages := outcome.messages ++ "verify OK\n" }
    | false, _ => outcome

/-- The run that the arguments ask for. -/
def run (args : List String) (input : Bytes) : Outcome :=
  match request? args with
  | none => { messages := usage, failed := true }
  | some .version => { output := Bytes.ofText (banner "gms" ++ "\n") }
  | some (.compile o listed) => compile o listed input
  | some (.inspect shown checked) => inspect shown checked input

end ScriptToolchain.CommandLine
