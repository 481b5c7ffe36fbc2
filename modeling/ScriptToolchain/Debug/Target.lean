import ScriptToolchain.Debug.Message
import ScriptToolchain.Source

/-!
# Debugged programs

What an interpreter lets a debugger see of the program it runs. Nothing of it
is kept: every question is answered from the state of the program at the time.
-/

namespace ScriptToolchain.Debug

/-- A call that is under way. -/
structure CallFrame where
  /-- The name of the function. -/
  function : String
  source : UInt32
  line : UInt32
  base : FrameBase
  /-- The receiver of the call. -/
  this : Variable
  /-- Parameters and locals in the order of their slots. -/
  locals : List Variable
deriving Repr, DecidableEq

/-- A thread and what it does. -/
structure ThreadEntry where
  id : ThreadId
  state : ThreadState
deriving Repr, DecidableEq

/-- A program that is debugged. -/
structure Target where
  threads : List ThreadEntry
  /-- The base of the innermost frame of a thread, none for an unknown thread. -/
  frameBase? : ThreadId → Option FrameBase
  /-- The calls of a thread, the innermost first. -/
  frames : ThreadId → List CallFrame
  /-- The members of a value. -/
  members? : ValueRef → Option (List Variable)
  sources : List SourceEntry
  /-- Where a line of a source is marked in the code. -/
  marker? : UInt32 → UInt32 → Option CodeAddress

/-- The source with this id. -/
def Target.source? (t : Target) (id : UInt32) : Option SourceEntry :=
  t.sources.find? (·.id = id)

end ScriptToolchain.Debug
