import ScriptToolchain.Compile.Compiler
import ScriptToolchain.Container.ProgramImage

/-!
# Building an image

A unit is compiled on its own into the image of a program.
-/

namespace ScriptToolchain

/-- What building gives: an image unless the unit fails, and the reports in any case. -/
structure Build where
  image : Option ProgramImage
  diagnostics : List Diagnostic
deriving Repr, DecidableEq

namespace Build

/-- An image was made. -/
def succeeded (b : Build) : Bool :=
  b.image.isSome

/-- The collector of a new program, with the source that a debug build registers. -/
def collector (source : Option PendingSource) : ProgramBuilder :=
  { pending := source }

/-- Builds a unit. -/
def unit (o : Compile.Options) (source : Option PendingSource) (n : Node) : Build :=
  let compiler : Compile.Compiler := { options := o }
  match compiler.compile n (collector source) with
  | (.ok _, compiler, host) =>
    { image := some host.finish.image, diagnostics := compiler.takeDiagnostics.1 }
  | (.error e, _, _) => { image := none, diagnostics := e.diagnostics }

end Build

end ScriptToolchain
