import ScriptToolchain.Debug.Target

/-!
# Snapshots

A finite record of all that a debugger can ask of a program. Where several
entries answer a question, the first does.
-/

namespace ScriptToolchain.Debug

/-- A line of a source that is marked in the code. -/
structure LineMark where
  source : UInt32
  line : UInt32
  address : CodeAddress
deriving Repr, DecidableEq

/-- What was recorded of a program. -/
structure Snapshot where
  threads : List ThreadEntry := []
  /-- The base of the innermost frame of each thread. -/
  bases : List (ThreadId × FrameBase) := []
  /-- The calls of each thread. -/
  frames : List (ThreadId × List CallFrame) := []
  /-- The members of each value. -/
  members : List (ValueRef × List Variable) := []
  sources : List SourceEntry := []
  marks : List LineMark := []
deriving Repr, DecidableEq

namespace Snapshot

/-- The first value that is recorded under a key. -/
def first? {α : Type} (items : List (UInt32 × α)) (key : UInt32) : Option α :=
  (items.find? (·.1 = key)).map (·.2)

/-- The first mark of a line. -/
def mark? (s : Snapshot) (source line : UInt32) : Option CodeAddress :=
  (s.marks.find? fun m => m.source = source ∧ m.line = line).map (·.address)

/-- The program as it was when it was recorded. -/
def target (s : Snapshot) : Target :=
  { threads := s.threads
    frameBase? := first? s.bases
    frames := fun thread => (first? s.frames thread).getD []
    members? := first? s.members
    sources := s.sources
    marker? := s.mark? }

end Snapshot

end ScriptToolchain.Debug
