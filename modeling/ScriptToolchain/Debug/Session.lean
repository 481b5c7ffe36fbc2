import ScriptToolchain.Debug.Channel
import ScriptToolchain.Debug.Control

/-!
# Debug sessions

A session stands between an interpreter and a debugger. It handles the
commands that have come and tells events. Every command first changes what the
session knows; then its reply is sent, event by event. Messages that are no
commands are passed over.
-/

namespace ScriptToolchain.Debug

/-- A session on a transport with the state `τ`. -/
structure Session (τ : Type) where
  transport : τ
  /-- How many messages one update takes at most. -/
  limit : Nat := 64
  control : Control := {}

/-- A step of a session; a step that fails keeps what was done before. -/
abbrev Act (τ : Type) := EStateM Disconnected (Session τ)

namespace Session

variable {τ : Type} [Transport τ]

/-- A step of the transport. -/
def onTransport {α : Type} (step : EStateM Disconnected τ α) : Act τ α := fun s =>
  match step s.transport with
  | .ok a transport => .ok a { s with transport }
  | .error e transport => .error e { s with transport }

/-- Sends an event. -/
def send (e : Event) : Act τ Unit :=
  onTransport (Transport.send e.toBytes)

/-- Sends events in order, up to the first that cannot be sent. -/
def sendAll : List Event → Act τ Unit
  | [] => pure ()
  | e :: rest => do
    send e
    sendAll rest

/-- Changes what the session knows, then sends events. -/
def perform (change : Control → Control × List Event) : Act τ Unit := do
  let s ← get
  let (control, events) := change s.control
  set { s with control }
  sendAll events

/-- Handles a message; one that is no command is passed over. -/
def handleMessage (t : Target) (bytes : Bytes) : Act τ Unit :=
  match Command.ofBytes bytes with
  | .ok c => perform (·.handle t c)
  | .error _ => pure ()

/-- Handles messages while there are some and the session is open, and counts them. -/
def handleUpTo (t : Target) : Nat → Act τ Nat
  | 0 => return 0
  | n + 1 => do
    if (← get).control.isOpen then
      match ← onTransport Transport.receive with
      | none => return 0
      | some bytes =>
        handleMessage t bytes
        return (← handleUpTo t n) + 1
    else
      return 0

/-- Handles the messages that have come, up to the limit, and counts them. -/
def update (t : Target) : Act τ Nat := do
  handleUpTo t (← get).limit

/-! ## Notifications -/

/-- Keeps a line for the next exception. -/
def queueLog (line : String) (s : Session τ) : Session τ :=
  { s with control := { s.control with log := s.control.log ++ [line] } }

/-- Takes the lines that were kept. -/
def takeLog : Act τ (List String) := do
  let s ← get
  set { s with control := { s.control with log := [] } }
  return s.control.log

/-- Tells an exception and then the lines that were kept. -/
def exception (thread : ThreadId) : Act τ Unit := do
  send (.exception thread)
  sendAll ((← takeLog).map .message)

/-- Tells that a thread has started. -/
def threadStarted (thread : ThreadId) : Act τ Unit :=
  send (.threadStarted thread)

/-- Tells that a thread has ended, which is no longer held. -/
def threadStopped (thread : ThreadId) : Act τ Unit :=
  perform fun c => ({ c with threads := c.threads.resume thread }, [.threadStopped thread])

/-- Sends a text. -/
def sendMessage (text : String) : Act τ Unit :=
  send (.message text)

/-- Sends an error. -/
def sendError (text : String) : Act τ Unit :=
  send (.error text)

/-- Ends the session, once. -/
def finish : Act τ Unit :=
  perform Control.close

end Session

end ScriptToolchain.Debug
