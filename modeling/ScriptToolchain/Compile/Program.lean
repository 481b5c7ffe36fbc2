import ScriptToolchain.Compile.Host
import ScriptToolchain.Source
import ScriptToolchain.Text.Interner

/-!
# Programs

A program is what a host collects that keeps everything: functions, symbols,
string constants and, in debug builds, the source. Ids are given out in the
order of the first request; no two functions of a program share an id.
-/

namespace ScriptToolchain

/-- A collected program. -/
structure Program where
  /-- The functions in the order in which they came. -/
  functions : List CompiledFunction := []
  /-- The root of the last unit that was delivered. -/
  root : Option UInt64 := none
  /-- The symbols in the order of their ids. -/
  symbols : List String := []
  /-- The string constants in the order of their ids. -/
  strings : List String := []
  sources : SourceTable := {}
  /-- The source of the last unit, in a debug build. -/
  source : Option UInt32 := none
  /-- The number of errors of the last unit. -/
  errors : Nat := 0
deriving Repr, DecidableEq

namespace Program

/-- The function with this id. -/
def function? (p : Program) (id : UInt64) : Option CompiledFunction :=
  p.functions.find? (·.id = id)

/-- The root function. -/
def rootFunction? (p : Program) : Option CompiledFunction :=
  p.root.bind p.function?

/-- The symbol with this id. -/
def symbol? (p : Program) (id : UInt64) : Option String :=
  p.symbols[id.toNat]?

/-- The string constant with this id. -/
def string? (p : Program) (id : UInt64) : Option String :=
  p.strings[id.toNat]?

end Program

/-- A source that a debug build registers. -/
structure PendingSource where
  name : String
  text : String
deriving Repr, DecidableEq

/-- The host that collects a program. -/
structure ProgramBuilder where
  nextFunction : UInt64 := 0
  symbols : Interner := {}
  strings : Interner := {}
  pending : Option PendingSource := none
  /-- What came so far; symbols and strings are filled in at the end. -/
  program : Program := {}

namespace ProgramBuilder

/-- The builder that registers a source when a debug build starts. -/
def withSource (b : ProgramBuilder) (name text : String) : ProgramBuilder :=
  { b with pending := some { name, text } }

/-- Starts a unit: a debug build registers the pending source. -/
def start (b : ProgramBuilder) (debug : Bool) : ProgramBuilder :=
  match debug, b.pending with
  | true, some s =>
    let (id, sources) := b.program.sources.add s.text (some s.name)
    { b with program := { b.program with sources, source := some id } }
  | _, _ => { b with program := { b.program with source := none } }

/-- Takes a function, unless its id is taken. -/
def deliver (b : ProgramBuilder) (f : CompiledFunction) :
    Except String Unit × ProgramBuilder :=
  if b.program.functions.any (·.id = f.id) then
    (.error s!"duplicate function id {f.id}", b)
  else
    let root := if f.root then some f.id else b.program.root
    (.ok (), { b with program := { b.program with functions := b.program.functions ++ [f], root } })

instance : Host ProgramBuilder where
  started debug b := b.start debug
  ended errors b := { b with program := { b.program with errors } }
  functionId b := (b.nextFunction, { b with nextFunction := b.nextFunction + 1 })
  symbolId name b :=
    let (id, symbols) := b.symbols.intern name
    (id.toUInt64, { b with symbols })
  stringId text b :=
    let (id, strings) := b.strings.intern text
    (id.toUInt64, { b with strings })
  deliver f b := b.deliver f

/-- The collected program. -/
def finish (b : ProgramBuilder) : Program :=
  { b.program with symbols := b.symbols.toList, strings := b.strings.toList }

end ProgramBuilder

end ScriptToolchain
