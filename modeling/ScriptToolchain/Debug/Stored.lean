import ScriptToolchain.Debug.Message
import ScriptToolchain.Json.Field

/-!
# Stored messages

The JSON forms of commands and events and the way back: a message is a variant
with the record of its fields.
-/

namespace ScriptToolchain.Debug

namespace ThreadState

/-- The name of a state. -/
def name : ThreadState → String
  | .running => "Running"
  | .blocked => "Blocked"
  | .sleeping => "Sleeping"
  | .exception => "Exception"
  | .debug => "Debug"

/-- The state with this name. -/
def ofName? (s : String) : Option ThreadState :=
  all.find? fun state => state.name = s

/-- The state that a variant names. -/
def ofJson? (v : Json) : Option ThreadState :=
  (v.unit? 1).bind ofName?

end ThreadState

namespace Command

/-- The JSON form of a command. -/
def toJson : Command → Json
  | .run thread => .variantOf "Run" [("thread", .word32 thread)]
  | .stepInto thread => .variantOf "StepInto" [("thread", .word32 thread)]
  | .stepOver thread => .variantOf "StepOver" [("thread", .word32 thread)]
  | .stepOut thread => .variantOf "StepOut" [("thread", .word32 thread)]
  | .getContext thread frame =>
    .variantOf "GetContext" [("thread", .word32 thread), ("frame", .word32 frame)]
  | .getSource source => .variantOf "GetSource" [("source", .word32 source)]
  | .getSourceInfo => .str "GetSourceInfo"
  | .getThreadInfo => .str "GetThreadInfo"
  | .getVariableInfo reference => .variantOf "GetVariableInfo" [("reference", .word32 reference)]
  | .setBreakpoint response source line thread enabled =>
    .variantOf "SetBreakpoint" [("response", .word32 response), ("source", .word32 source),
      ("line", .word32 line), ("thread", .word32 thread), ("enabled", .bool enabled)]
  | .forceBreak thread => .variantOf "ForceBreak" [("thread", .word32 thread)]
  | .endSession => .str "End"

/-- A command on a thread. -/
def onThread? (make : ThreadId → Command) (content : Json) : Option Command :=
  match content.record? ["thread"] with
  | some [thread] => thread.asWord32?.map make
  | _ => none

/-- A command with fields. -/
def ofContent? (name : String) (content : Json) : Option Command :=
  match name with
  | "Run" => onThread? .run content
  | "StepInto" => onThread? .stepInto content
  | "StepOver" => onThread? .stepOver content
  | "StepOut" => onThread? .stepOut content
  | "ForceBreak" => onThread? .forceBreak content
  | "GetContext" =>
    match content.record? ["thread", "frame"] with
    | some [thread, frame] => return .getContext (← thread.asWord32?) (← frame.asWord32?)
    | _ => none
  | "GetSource" =>
    match content.record? ["source"] with
    | some [source] => source.asWord32?.map .getSource
    | _ => none
  | "GetVariableInfo" =>
    match content.record? ["reference"] with
    | some [reference] => reference.asWord32?.map .getVariableInfo
    | _ => none
  | "SetBreakpoint" =>
    match content.record? ["response", "source", "line", "thread", "enabled"] with
    | some [response, source, line, thread, enabled] =>
      return .setBreakpoint (← response.asWord32?) (← source.asWord32?) (← line.asWord32?)
        (← thread.asWord32?) (← enabled.asBool?)
    | _ => none
  | _ => none

/-- The command that a JSON value is the form of. -/
def ofJson? (v : Json) : Option Command :=
  match v.unit? 1, v.variant? with
  | some "GetSourceInfo", _ => some .getSourceInfo
  | some "GetThreadInfo", _ => some .getThreadInfo
  | some "End", _ => some .endSession
  | _, some (name, some content) => ofContent? name content
  | _, _ => none

end Command

namespace Event

/-- The JSON form of an event. -/
def toJson : Event → Json
  | .stopped thread id line =>
    .variantOf "Break" [("thread", .word32 thread), ("source", .word32 id), ("line", .word32 line)]
  | .exception thread => .variantOf "Exception" [("thread", .word32 thread)]
  | .threadStarted thread => .variantOf "ThreadStarted" [("thread", .word32 thread)]
  | .threadStopped thread => .variantOf "ThreadStopped" [("thread", .word32 thread)]
  | .source id name text =>
    .variantOf "Source" [("id", .word32 id), ("name", .str name), ("text", .str text)]
  | .beginContext thread frame =>
    .variantOf "BeginContext" [("thread", .word32 thread), ("frame", .word32 frame)]
  | .contextCall frame function id line this =>
    .variantOf "ContextCall" [("frame", .word32 frame), ("function", .str function),
      ("source", .word32 id), ("line", .word32 line), ("this_name", .str this.name),
      ("this_value", .str this.value), ("this_reference", .word32 this.reference)]
  | .contextVariable v =>
    .variantOf "ContextVariable" [("name", .str v.name), ("value", .str v.value),
      ("reference", .word32 v.reference)]
  | .endContext => .str "EndContext"
  | .beginSourceInfo => .str "BeginSourceInfo"
  | .sourceInfo id name => .variantOf "SourceInfo" [("id", .word32 id), ("name", .str name)]
  | .endSourceInfo => .str "EndSourceInfo"
  | .beginThreadInfo => .str "BeginThreadInfo"
  | .threadInfo thread state =>
    .variantOf "ThreadInfo" [("thread", .word32 thread), ("state", .str state.name)]
  | .endThreadInfo => .str "EndThreadInfo"
  | .beginVariableInfo reference =>
    .variantOf "BeginVariableInfo" [("reference", .word32 reference)]
  | .endVariableInfo => .str "EndVariableInfo"
  | .error text => .variant "Error" (.str text)
  | .message text => .variant "Message" (.str text)
  | .ack response ok => .variantOf "Ack" [("response", .word32 response), ("ok", .bool ok)]
  | .sessionEnd => .str "SessionEnd"

/-- An event on a thread. -/
def onThread? (make : ThreadId → Event) (content : Json) : Option Event :=
  match content.record? ["thread"] with
  | some [thread] => thread.asWord32?.map make
  | _ => none

/-- An event without content. -/
def ofName? : String → Option Event
  | "EndContext" => some .endContext
  | "BeginSourceInfo" => some .beginSourceInfo
  | "EndSourceInfo" => some .endSourceInfo
  | "BeginThreadInfo" => some .beginThreadInfo
  | "EndThreadInfo" => some .endThreadInfo
  | "EndVariableInfo" => some .endVariableInfo
  | "SessionEnd" => some .sessionEnd
  | _ => none

/-- An event with content. -/
def ofContent? (name : String) (content : Json) : Option Event :=
  match name with
  | "Break" =>
    match content.record? ["thread", "source", "line"] with
    | some [thread, id, line] =>
      return .stopped (← thread.asWord32?) (← id.asWord32?) (← line.asWord32?)
    | _ => none
  | "Exception" => onThread? .exception content
  | "ThreadStarted" => onThread? .threadStarted content
  | "ThreadStopped" => onThread? .threadStopped content
  | "Source" =>
    match content.record? ["id", "name", "text"] with
    | some [id, name, text] =>
      return .source (← id.asWord32?) (← name.asString?) (← text.asString?)
    | _ => none
  | "BeginContext" =>
    match content.record? ["thread", "frame"] with
    | some [thread, frame] => return .beginContext (← thread.asWord32?) (← frame.asWord32?)
    | _ => none
  | "ContextCall" =>
    match content.record? ["frame", "function", "source", "line", "this_name", "this_value",
        "this_reference"] with
    | some [frame, function, id, line, name, value, reference] => do
      let this : Variable := {
        name := ← name.asString?
        value := ← value.asString?
        reference := ← reference.asWord32? }
      return .contextCall (← frame.asWord32?) (← function.asString?) (← id.asWord32?)
        (← line.asWord32?) this
    | _ => none
  | "ContextVariable" =>
    match content.record? ["name", "value", "reference"] with
    | some [name, value, reference] =>
      return .contextVariable {
        name := ← name.asString?
        value := ← value.asString?
        reference := ← reference.asWord32? }
    | _ => none
  | "SourceInfo" =>
    match content.record? ["id", "name"] with
    | some [id, name] => return .sourceInfo (← id.asWord32?) (← name.asString?)
    | _ => none
  | "ThreadInfo" =>
    match content.record? ["thread", "state"] with
    | some [thread, state] =>
      return .threadInfo (← thread.asWord32?) (← ThreadState.ofJson? state)
    | _ => none
  | "BeginVariableInfo" =>
    match content.record? ["reference"] with
    | some [reference] => reference.asWord32?.map .beginVariableInfo
    | _ => none
  | "Error" => content.asString?.map .error
  | "Message" => content.asString?.map .message
  | "Ack" =>
    match content.record? ["response", "ok"] with
    | some [response, ok] => return .ack (← response.asWord32?) (← ok.asBool?)
    | _ => none
  | _ => none

/-- The event that a JSON value is the form of. -/
def ofJson? (v : Json) : Option Event :=
  match (v.unit? 1).bind ofName?, v.variant? with
  | some e, _ => some e
  | none, some (name, some content) => ofContent? name content
  | none, _ => none

end Event

end ScriptToolchain.Debug
