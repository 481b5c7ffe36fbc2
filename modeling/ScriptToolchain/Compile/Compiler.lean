import ScriptToolchain.Compile.Generate

/-!
# The compiler

A unit is generated as a whole before its functions are handed to the host,
inner functions before the function around them and the root last. The host is
told of the start and of the end in any case. A function that the host refuses
fails the unit; the functions before it have been taken.
-/

namespace ScriptToolchain.Compile

/-- What generating a unit gives. -/
structure Generated (σ : Type) where
  host : σ
  /-- The id of the root function, none if generation gave up. -/
  root : Option UInt64
  /-- The functions in the order of delivery, none at all if generation gave up. -/
  functions : List CompiledFunction
  reports : List Diagnostic

/-- Generates a unit. -/
def generate {σ : Type} [Host σ] (o : Options) (n : Node) (host : σ) : Generated σ :=
  let (id, host) := Host.functionId host
  match Gen.unit o n { host, frame := { id, name := some o.rootName } } with
  | .ok root s =>
    { host := s.host
      root := some id
      functions := s.latest.reverse ++ [root]
      reports := s.reports.reverse }
  | .error _ s => { host := s.host, root := none, functions := [], reports := s.reports.reverse }

/-- Hands over functions in order, up to the first that is refused. -/
def deliverAll {σ : Type} [Host σ] (host : σ) : List CompiledFunction → Option Diagnostic × σ
  | [] => (none, host)
  | f :: rest =>
    match Host.deliver f host with
    | (.ok (), host) => deliverAll host rest
    | (.error reason, host) => (some ((Finding.rejected f.id reason).report 0), host)

/-- A unit that was not compiled, and why. -/
structure CompileError where
  diagnostics : List Diagnostic
deriving Repr, DecidableEq

namespace CompileError

/-- The number of reports that the unit fails because of. -/
def errorCount (e : CompileError) : Nat :=
  Diagnostic.errorCount e.diagnostics

/-- The failure in words. -/
def message (e : CompileError) : String :=
  s!"compilation failed with {e.errorCount} error(s)"

end CompileError

/-- A compiler holds the reports on its last unit until they are taken. -/
structure Compiler where
  options : Options
  pending : List Diagnostic := []
deriving Repr, DecidableEq

namespace Compiler

/-- The number of errors that the host is told at the end of a unit. -/
def reportedErrors (failed : Bool) (reports : List Diagnostic) : Nat :=
  if failed then max 1 (Diagnostic.errorCount reports) else 0

/-- The reports fail the unit. -/
def fails (o : Options) (reports : List Diagnostic) : Bool :=
  reports.any (·.isError) || (o.denyWarnings && reports.any (·.severity = .warning))

/--
Compiles a unit and answers the id of its root function. Reports on a failed unit go with the
failure, those on a compiled one stay with the compiler.
-/
def compile {σ : Type} [Host σ] (c : Compiler) (n : Node) (host : σ) :
    Except CompileError UInt64 × Compiler × σ :=
  let generated := generate c.options n (Host.started c.options.debug host)
  let failed := fails c.options generated.reports
  let (refused, host) :=
    if failed then (none, generated.host) else deliverAll generated.host generated.functions
  let reports := generated.reports ++ refused.toList
  let failed := failed || refused.isSome
  let host := Host.ended (reportedErrors failed reports) host
  match generated.root with
  | some root =>
    if failed then (.error { diagnostics := reports }, { c with pending := [] }, host)
    else (.ok root, { c with pending := reports }, host)
  | none => (.error { diagnostics := reports }, { c with pending := [] }, host)

/-- Takes the reports that the compiler holds. -/
def takeDiagnostics (c : Compiler) : List Diagnostic × Compiler :=
  (c.pending, { c with pending := [] })

end Compiler

end ScriptToolchain.Compile
