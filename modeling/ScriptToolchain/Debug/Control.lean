import ScriptToolchain.Code.Opcode
import ScriptToolchain.Debug.Reply

/-!
# Handling of commands

`Control` is what a session knows. A command changes it and has a reply, which
is a list of events; nothing is sent here.
-/

namespace ScriptToolchain.Debug

/-- What a session knows. -/
structure Control where
  breakpoints : Breakpoints := {}
  threads : Threads := {}
  /-- Lines that are sent behind the next exception. -/
  log : List String := []
  isOpen : Bool := true
  /-- The interpreter was last told to call the hooks. -/
  hooksEnabled : Bool := true
deriving Repr, DecidableEq

namespace Control

/-- Starts a step in the innermost frame of a thread. -/
def beginStep (c : Control) (t : Target) (thread : ThreadId) (mode : StepMode) :
    Control × List Event :=
  match t.frameBase? thread with
  | some base => ({ c with threads := c.threads.begin thread mode base }, [])
  | none => (c, [.error s!"unknown thread {thread}"])

/-- Arms or disarms an address; a refusal leaves all as it is. -/
def changeBreakpoint (c : Control) (a : CodeAddress) (s : Scope) (enabled : Bool) :
    Bool × Control :=
  if enabled then
    match c.breakpoints.arm a s with
    | .ok breakpoints => (true, { c with breakpoints })
    | .error _ => (false, c)
  else
    match c.breakpoints.disarm a with
    | .ok (_, breakpoints) => (true, { c with breakpoints })
    | .error _ => (false, c)

/-- Arms or disarms a line: its address is that of the instruction behind its mark. -/
def setBreakpoint (c : Control) (t : Target) (source line : UInt32) (s : Scope)
    (enabled : Bool) : Bool × Control :=
  match t.marker? source line with
  | some mark => c.changeBreakpoint (mark.advance Opcode.tagSize.toUInt32) s enabled
  | none => (false, c)

/-- Ends the session, once. -/
def close (c : Control) : Control × List Event :=
  if c.isOpen then
    ({ breakpoints := {}, threads := {}, log := [], isOpen := false, hooksEnabled := false },
      [.sessionEnd])
  else (c, [])

/-- Handles a command; the events are the reply. -/
def handle (c : Control) (t : Target) : Command → Control × List Event
  | .run thread => ({ c with threads := c.threads.resume thread }, [])
  | .stepInto thread | .forceBreak thread => c.beginStep t thread .into
  | .stepOver thread => c.beginStep t thread .over
  | .stepOut thread => c.beginStep t thread .out
  | .getContext thread frame => (c, Reply.context t thread frame)
  | .getSource source => (c, Reply.source t source)
  | .getSourceInfo => (c, Reply.sources t)
  | .getThreadInfo => (c, Reply.threads t c.threads)
  | .getVariableInfo reference => (c, Reply.members t reference)
  | .setBreakpoint response source line thread enabled =>
    let (ok, c) := c.setBreakpoint t source line (Scope.ofWord thread) enabled
    (c, [.ack response ok])
  | .endSession => c.close

end Control

end ScriptToolchain.Debug
