import ScriptToolchain.Bytes.Basic

/-!
# Compiled functions

What the compiler hands over for each function of a unit: its code, what a
caller has to reserve for it and, in debug builds, the names of its slots and
the lines of its code.
-/

namespace ScriptToolchain

/-- Of `size` elements from `base` on, the one that a search by halves ends at: it goes to the later
half where the predicate holds at the middle. -/
def narrow {α : Type} (p : α → Bool) (l : List α) (base size : Nat) : Nat :=
  if 1 < size then
    let middle := base + size / 2
    narrow p l (if (l[middle]?).any p then middle else base) (size - size / 2)
  else base
termination_by size

/-- Where a search by halves finds the predicate to end that holds on a first part of the list. -/
def partitionPoint {α : Type} (p : α → Bool) (l : List α) : Nat :=
  let base := narrow p l 0 l.length
  if (l[base]?).any p then base + 1 else base

/-- From `address` on the code belongs to `line`. -/
structure LineEntry where
  address : UInt32
  line : UInt32
deriving Repr, DecidableEq

/-- A compiled function. -/
structure CompiledFunction where
  id : UInt64 := 0
  /-- The function that the top level of a unit makes. -/
  root : Bool := false
  code : Bytes := #[]
  /-- The number of parameters, which take the first slots. -/
  params : UInt32 := 0
  /-- The number of slots behind the parameters. -/
  locals : UInt32 := 0
  /-- The greatest depth of the evaluation stack. -/
  maxStack : UInt32 := 0
  name : Option String := none
  /-- The names of the slots, in debug builds. -/
  symbols : Option (List String) := none
  /-- The line table, in debug builds. -/
  lines : Option (List LineEntry) := none
deriving Repr, DecidableEq

namespace CompiledFunction

/-- The name, or the id where there is none. -/
def displayName (f : CompiledFunction) : String :=
  f.name.getD s!"fn#{f.id}"

/-- The function in one line. -/
def describe (f : CompiledFunction) : String :=
  s!"{f.displayName} (id={f.id}, root={f.root}, params={f.params}, locals={f.locals}, " ++
    s!"max_stack={f.maxStack}, bytes={f.code.size})"

/-- The line that `address` belongs to: in a table in order, that of the last entry at or before
it. -/
def lineAt? (f : CompiledFunction) (address : UInt32) : Option UInt32 :=
  match f.lines with
  | some entries =>
    match partitionPoint (·.address ≤ address) entries with
    | 0 => none
    | behind + 1 => entries[behind]?.map (·.line)
  | none => none

/-- The address of the first entry of a line. -/
def addressOfLine? (f : CompiledFunction) (line : UInt32) : Option UInt32 :=
  match f.lines with
  | some entries => (entries.find? (·.line = line)).map (·.address)
  | none => none

/-- The name of a slot. -/
def symbol? (f : CompiledFunction) (slot : UInt32) : Option String :=
  match f.symbols with
  | some names => names[slot.toNat]?
  | none => none

end CompiledFunction

end ScriptToolchain
