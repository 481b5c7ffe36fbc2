import ScriptToolchain.Bytes.Field
import ScriptToolchain.Bytes.Reader
import ScriptToolchain.Debug.Message

/-!
# Messages as bytes

A message is its tag and its fields in a fixed order: words, and texts that end
with a zero byte. A text is cut at its first zero character on the way out. On
the way back a message has to be there as a whole, with nothing behind it.
-/

namespace ScriptToolchain.Debug

/-! ## Encoding -/

/-- A truth value as a word. -/
def flagField (b : Bool) : Field :=
  .word (if b then 1 else 0)

/-- The fields of a variable. -/
def Variable.fields (v : Variable) : List Field :=
  [.text v.name, .text v.value, .word v.reference]

namespace Command

/-- The fields behind the tag. -/
def fields : Command → List Field
  | .run thread | .stepInto thread | .stepOver thread | .stepOut thread | .forceBreak thread =>
    [.word thread]
  | .getContext thread frame => [.word thread, .word frame]
  | .getSource source => [.word source]
  | .getVariableInfo reference => [.word reference]
  | .setBreakpoint response source line thread enabled =>
    [.word response, .word source, .word line, .word thread, flagField enabled]
  | .getSourceInfo | .getThreadInfo | .endSession => []

/-- The fields of the whole message. -/
def wire (c : Command) : List Field :=
  .raw c.kind.tag.bytes :: c.fields

/-- The bytes of the message. -/
def toBytes (c : Command) : Bytes :=
  Field.bytesOf c.wire

end Command

namespace Event

/-- The fields behind the tag. -/
def fields : Event → List Field
  | .stopped thread id line => [.word thread, .word id, .word line]
  | .exception thread | .threadStarted thread | .threadStopped thread => [.word thread]
  | .source id name text => [.word id, .text name, .text text]
  | .beginContext thread frame => [.word thread, .word frame]
  | .contextCall frame function id line this =>
    [.word frame, .text function, .word id, .word line] ++ this.fields
  | .contextVariable v => v.fields
  | .sourceInfo id name => [.word id, .text name]
  | .threadInfo thread state => [.word thread, .word state.code]
  | .beginVariableInfo reference => [.word reference]
  | .error text | .message text => [.text text]
  | .ack response ok => [.word response, flagField ok]
  | .endContext | .beginSourceInfo | .endSourceInfo | .beginThreadInfo | .endThreadInfo
  | .endVariableInfo | .sessionEnd => []

/-- The fields of the whole message. -/
def wire (e : Event) : List Field :=
  .raw e.kind.tag.bytes :: e.fields

/-- The bytes of the message. -/
def toBytes (e : Event) : Bytes :=
  Field.bytesOf e.wire

end Event

/-! ## Decoding -/

/-- Why the fields of a message cannot be read. -/
inductive FieldError where
  | read (e : ReadError)
  /-- No thread state has this code. -/
  | threadState (code : UInt32)
deriving Repr, DecidableEq

/-- The failure in words. -/
def FieldError.message : FieldError → String
  | .read e => e.message
  | .threadState code => s!"corrupted: invalid thread state {code}"

/-- Why bytes are no message. -/
inductive MessageError where
  | empty
  | unknownTag (tag : MessageTag)
  | malformed (tag : MessageTag) (cause : FieldError)
  /-- So many bytes stand behind the message. -/
  | trailing (tag : MessageTag) (extra : Nat)
deriving Repr, DecidableEq

/-- The failure in words. -/
def MessageError.message : MessageError → String
  | .empty => "empty message"
  | .unknownTag tag => s!"unknown message tag {tag.text}"
  | .malformed tag cause => s!"malformed {tag.text} message: {cause.message}"
  | .trailing tag extra => s!"{tag.text} message has {extra} trailing byte(s)"

/-- A step of reading fields. -/
abbrev ReadFields := EStateM FieldError Reader

namespace ReadFields

/-- A read of a single field. -/
def field {α : Type} (r : Read α) : ReadFields α := fun s =>
  match r s with
  | .ok a s => .ok a s
  | .error e s => .error (.read e) s

/-- Reads a word. -/
def word : ReadFields UInt32 :=
  field Reader.word32

/-- Reads a text. -/
def text : ReadFields String :=
  field Reader.text

/-- Reads a truth value; every word but zero is true. -/
def flag : ReadFields Bool :=
  return (← word) != 0

/-- Reads a variable. -/
def namedValue : ReadFields Variable := do
  let name ← text
  let value ← text
  let reference ← word
  return { name, value, reference }

/-- Reads a thread state. -/
def threadState : ReadFields ThreadState := do
  let code ← word
  match ThreadState.ofCode? code with
  | some s => return s
  | none => throw (.threadState code)

end ReadFields

/-- A whole message, whose fields are read by what `body` says for its tag. -/
def decodeMessage {α : Type} (body : MessageTag → Option (ReadFields α)) (bytes : Bytes) :
    Except MessageError α :=
  if bytes.size = 0 then .error .empty
  else if bytes.size < MessageTag.size then
    .error (.malformed .missing (.read (.unexpectedEnd (MessageTag.size - bytes.size) 0)))
  else
    let tag : MessageTag := ⟨bytes.extract 0 MessageTag.size⟩
    match body tag with
    | none => .error (.unknownTag tag)
    | some read =>
      match read { data := bytes, offset := MessageTag.size } with
      | .error cause _ => .error (.malformed tag cause)
      | .ok a r => if r.remaining = 0 then .ok a else .error (.trailing tag r.remaining)

open ReadFields

/-- Reads the fields of a command. -/
def CommandKind.read : CommandKind → ReadFields Command
  | .run => return .run (← word)
  | .stepInto => return .stepInto (← word)
  | .stepOver => return .stepOver (← word)
  | .stepOut => return .stepOut (← word)
  | .getContext => return .getContext (← word) (← word)
  | .getSource => return .getSource (← word)
  | .getSourceInfo => return .getSourceInfo
  | .getThreadInfo => return .getThreadInfo
  | .getVariableInfo => return .getVariableInfo (← word)
  | .setBreakpoint => return .setBreakpoint (← word) (← word) (← word) (← word) (← flag)
  | .forceBreak => return .forceBreak (← word)
  | .endSession => return .endSession

/-- The command whose bytes these are. -/
def Command.ofBytes (bytes : Bytes) : Except MessageError Command :=
  decodeMessage (fun tag => (CommandKind.ofTag? tag).map CommandKind.read) bytes

/-- Reads the fields of an event. -/
def EventKind.read : EventKind → ReadFields Event
  | .stopped => return .stopped (← word) (← word) (← word)
  | .exception => return .exception (← word)
  | .threadStarted => return .threadStarted (← word)
  | .threadStopped => return .threadStopped (← word)
  | .source => return .source (← word) (← text) (← text)
  | .beginContext => return .beginContext (← word) (← word)
  | .contextCall => return .contextCall (← word) (← text) (← word) (← word) (← namedValue)
  | .contextVariable => return .contextVariable (← namedValue)
  | .endContext => return .endContext
  | .beginSourceInfo => return .beginSourceInfo
  | .sourceInfo => return .sourceInfo (← word) (← text)
  | .endSourceInfo => return .endSourceInfo
  | .beginThreadInfo => return .beginThreadInfo
  | .threadInfo => return .threadInfo (← word) (← threadState)
  | .endThreadInfo => return .endThreadInfo
  | .beginVariableInfo => return .beginVariableInfo (← word)
  | .endVariableInfo => return .endVariableInfo
  | .error => return .error (← text)
  | .message => return .message (← text)
  | .ack => return .ack (← word) (← flag)
  | .sessionEnd => return .sessionEnd

/-- The event whose bytes these are. -/
def Event.ofBytes (bytes : Bytes) : Except MessageError Event :=
  decodeMessage (fun tag => (EventKind.ofTag? tag).map EventKind.read) bytes

end ScriptToolchain.Debug
