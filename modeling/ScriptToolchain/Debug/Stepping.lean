import ScriptToolchain.Debug.Breakpoints

/-!
# Stepping

How the execution of each thread is held: it runs free, it makes a step or it
is suspended. A step is bound to the base of the frame in which it was asked
for; frames that are called from there have another base, which is how a step
over passes by their lines.
-/

namespace ScriptToolchain.Debug

/-- The base of a frame: where its slots start on the stack. -/
abbrev FrameBase := UInt32

/-- How far a thread runs. -/
inductive StepMode where
  /-- To the next breakpoint. -/
  | run
  /-- To the next line of the frame or its end. -/
  | over
  /-- To the next line or end of any frame. -/
  | into
  /-- To the end of the frame. -/
  | out
deriving Repr, DecidableEq

namespace StepMode

/-- All modes. -/
def all : List StepMode :=
  [.run, .over, .into, .out]

/-- The name of a mode. -/
def name : StepMode → String
  | .run => "Continue"
  | .over => "Over"
  | .into => "Into"
  | .out => "Out"

/-- The mode with this name. -/
def ofName? (s : String) : Option StepMode :=
  all.find? fun mode => mode.name = s

end StepMode

/-- How a thread is held; one that is not held at all runs free. -/
structure ThreadStatus where
  /-- How far the thread runs. -/
  mode : StepMode := .run
  /-- The base of the frame that the step is bound to. -/
  marker? : Option FrameBase := none
  /-- The thread waits for the debugger. -/
  isSuspended : Bool := false
deriving Repr, DecidableEq

namespace ThreadStatus

/-- A step that is bound to the frame with base `base`. -/
def stepping (mode : StepMode) (base : FrameBase) : ThreadStatus :=
  { mode, marker? := some base, isSuspended := false }

/-- Waiting for the debugger, without a step. -/
def suspended : ThreadStatus :=
  { mode := .run, marker? := none, isSuspended := true }

/-- The thread is not held at all. -/
def isFree (s : ThreadStatus) : Bool :=
  s = {}

/-- A new line of the frame with this base ends the step. -/
def stopsOnLine (s : ThreadStatus) (base : FrameBase) : Bool :=
  (s.mode = .into || s.mode = .over) && s.marker? = some base

/-- The step goes into functions that are called. -/
def followsCall (s : ThreadStatus) : Bool :=
  s.mode = .into

/-- The end of the frame with this base ends the step. -/
def stopsOnReturn (s : ThreadStatus) (base : FrameBase) : Bool :=
  s.mode ≠ .run && s.marker? = some base

end ThreadStatus

/-- The threads that are held; all others run free. -/
abbrev Threads := SortedMap ThreadId ThreadStatus

namespace Threads

/-- How a thread is held. -/
def status (t : Threads) (id : ThreadId) : ThreadStatus :=
  (t.get? id).getD {}

/-- Starts a step. -/
def begin (t : Threads) (id : ThreadId) (mode : StepMode) (base : FrameBase) : Threads :=
  t.insert id (.stepping mode base)

/-- Lets a thread run free. -/
def resume (t : Threads) (id : ThreadId) : Threads :=
  t.erase id

/-- Suspends a thread, which ends its step. -/
def suspend (t : Threads) (id : ThreadId) : Threads :=
  t.insert id .suspended

/-- The suspended threads in the order of their ids. -/
def suspended (t : Threads) : List ThreadId :=
  (t.entries.filter fun e => e.2.isSuspended).map Prod.fst

end Threads

end ScriptToolchain.Debug
