import ScriptToolchain.Debug.Codec

/-!
# Transport of messages

A transport carries whole messages from and to the interpreter. A link is one
that joins two ends in one process: two channels, one for each direction. What
was sent before an end is dropped is still delivered; sending to a dropped end
fails, and so does reading once nothing is left and the other end is dropped.
-/

namespace ScriptToolchain.Debug

/-- The other end is gone. -/
structure Disconnected where
deriving Repr, DecidableEq

/-- The failure in words. -/
def Disconnected.message (_ : Disconnected) : String :=
  "transport disconnected"

/-- What a session needs of the state `τ` of a transport. -/
class Transport (τ : Type) where
  /-- Sends a message. -/
  send : Bytes → EStateM Disconnected τ Unit
  /-- The next message that has come, none if there is none. -/
  receive : EStateM Disconnected τ (Option Bytes)

/-! ## Channels -/

/-- Messages on their way in one direction. -/
structure Channel where
  /-- What was sent and not yet received, in order. -/
  queue : List Bytes := []
  senderOpen : Bool := true
  receiverOpen : Bool := true
deriving Repr, DecidableEq

namespace Channel

/-- Sends a message. -/
def send (bytes : Bytes) : EStateM Disconnected Channel Unit := fun c =>
  if c.receiverOpen then .ok () { c with queue := c.queue ++ [bytes] } else .error {} c

/-- Takes the next message. -/
def receive : EStateM Disconnected Channel (Option Bytes) := fun c =>
  match c.queue with
  | bytes :: rest => .ok (some bytes) { c with queue := rest }
  | [] => if c.senderOpen then .ok none c else .error {} c

/-- All messages that wait are taken. -/
def drain (c : Channel) : List Bytes × Channel :=
  (c.queue, { c with queue := [] })

end Channel

/-! ## Links -/

/-- The two channels between debugger and interpreter. -/
structure Link where
  /-- To the interpreter. -/
  commands : Channel := {}
  /-- To the debugger. -/
  events : Channel := {}
deriving Repr, DecidableEq

namespace Link

/-- A step on the channel of commands. -/
def onCommands {α : Type} (step : EStateM Disconnected Channel α) :
    EStateM Disconnected Link α := fun l =>
  match step l.commands with
  | .ok a commands => .ok a { l with commands }
  | .error e commands => .error e { l with commands }

/-- A step on the channel of events. -/
def onEvents {α : Type} (step : EStateM Disconnected Channel α) :
    EStateM Disconnected Link α := fun l =>
  match step l.events with
  | .ok a events => .ok a { l with events }
  | .error e events => .error e { l with events }

instance : Transport Link where
  send bytes := onEvents (Channel.send bytes)
  receive := onCommands Channel.receive

/-- The end of the interpreter is dropped. -/
def dropInterpreter (l : Link) : Link :=
  { commands := { l.commands with receiverOpen := false }
    events := { l.events with senderOpen := false } }

/-- The end of the debugger is dropped. -/
def dropDebugger (l : Link) : Link :=
  { commands := { l.commands with senderOpen := false }
    events := { l.events with receiverOpen := false } }

/-! ## The end of the debugger -/

/-- Sends bytes, whether or not they are a command. -/
def sendBytes (bytes : Bytes) : EStateM Disconnected Link Unit :=
  onCommands (Channel.send bytes)

/-- Sends a command. -/
def sendCommand (c : Command) : EStateM Disconnected Link Unit :=
  sendBytes c.toBytes

/-- Takes the next event, which may be undecodable. -/
def receiveEvent : EStateM Disconnected Link (Option (Except MessageError Event)) :=
  onEvents do
    return (← Channel.receive).map Event.ofBytes

/-- The events among these messages. -/
def eventsOf (messages : List Bytes) : List Event :=
  messages.filterMap fun bytes => (Event.ofBytes bytes).toOption

/-- Takes all events that wait; what is no event is passed over. -/
def drainEvents (l : Link) : List Event × Link :=
  let (messages, events) := l.events.drain
  (eventsOf messages, { l with events })

end Link

end ScriptToolchain.Debug
