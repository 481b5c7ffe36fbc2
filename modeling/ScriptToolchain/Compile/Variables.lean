import ScriptToolchain.Text.Interner
import ScriptToolchain.Tree.Operator

/-!
# Variables of a function

A name gets its storage class once and keeps it. A local name takes a slot
when it is first used, so a local that is declared and never used costs
nothing; parameters take the first slots. Members and globals have no slot.

Slots are numbers here. They are words, and so are the numbers of parameters and
of locals, as long as a function has fewer than 2^32 slots.
-/

namespace ScriptToolchain

/-- Where a name is found. -/
inductive Storage where
  | slot (n : Nat)
  | member
  | global
deriving Repr, DecidableEq

/-- The class that a storage belongs to. -/
def Storage.storageClass : Storage → StorageClass
  | .slot _ => .local
  | .member => .member
  | .global => .global

/-- The storage as it is shown. -/
def Storage.text : Storage → String
  | .slot n => s!"Local({n})"
  | .member => "Member"
  | .global => "Global"

/-- What came of a declaration. -/
inductive Declared where
  /-- The name was not known. -/
  | new (storage : StorageClass)
  /-- The name was declared the same way before. -/
  | again (storage : StorageClass)
  /-- The name was declared another way before and stays what it was. -/
  | conflict (kept requested : StorageClass)
deriving Repr, DecidableEq

/-- The outcome as it is shown. -/
def Declared.text : Declared → String
  | .new storage => s!"New({storage.name})"
  | .again storage => s!"Again({storage.name})"
  | .conflict kept requested =>
    s!"Conflict \x7b kept: {kept.name}, requested: {requested.name} \x7d"

/-- The names of a function. -/
structure VariableTable where
  classes : Std.TreeMap String StorageClass := {}
  slots : Interner := {}
  /-- The number of parameters. -/
  params : Nat := 0

namespace VariableTable

/-- The class of a known name. -/
def class? (t : VariableTable) (name : String) : Option StorageClass :=
  t.classes[name]?

/-- The slot of a name, which takes the next one if it has none. -/
def takeSlot (t : VariableTable) (name : String) : Nat × VariableTable :=
  let (slot, slots) := t.slots.intern name
  (slot, { t with slots })

/-- Makes a name a parameter and answers its slot; a known name is refused. -/
def declareParameter (t : VariableTable) (name : String) : Option Nat × VariableTable :=
  match t.class? name with
  | some _ => (none, t)
  | none =>
    let known :=
      { t with classes := t.classes.insert name .local, params := t.params + 1 }
    let (slot, taken) := known.takeSlot name
    (some slot, taken)

/-- Gives a name its class, without a slot. -/
def declare (t : VariableTable) (name : String) (storage : StorageClass) :
    Declared × VariableTable :=
  match t.class? name with
  | some kept => (if kept = storage then .again kept else .conflict kept storage, t)
  | none => (.new storage, { t with classes := t.classes.insert name storage })

/-- Where a known name is found; a local takes its slot now. -/
def resolve (t : VariableTable) (name : String) : Option Storage × VariableTable :=
  match t.class? name with
  | none => (none, t)
  | some .local =>
    let (slot, taken) := t.takeSlot name
    (some (.slot slot), taken)
  | some .member => (some .member, t)
  | some .global => (some .global, t)

/-- The slot of a name, which becomes local if it is not known; none for a member or a global. -/
def localSlot (t : VariableTable) (name : String) : Option Nat × VariableTable :=
  match t.class? name with
  | some .local =>
    let (slot, taken) := t.takeSlot name
    (some slot, taken)
  | some _ => (none, t)
  | none =>
    let known := { t with classes := t.classes.insert name .local }
    let (slot, taken) := known.takeSlot name
    (some slot, taken)

/-- The number of slots behind those of the parameters. -/
def locals (t : VariableTable) : Nat :=
  t.slots.size - t.params

/-- The names of the slots, parameters first. -/
def symbols (t : VariableTable) : List String :=
  t.slots.toList

end VariableTable

end ScriptToolchain
