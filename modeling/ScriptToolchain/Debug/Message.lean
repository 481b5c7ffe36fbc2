import ScriptToolchain.Bytes.Basic
import ScriptToolchain.Debug.Stepping
import ScriptToolchain.Text.Digits

/-!
# Messages

What debugger and interpreter tell each other: commands go to the interpreter,
events come from it. Every message starts with a tag of four bytes that tells
its kind.
-/

namespace ScriptToolchain.Debug

/-! ## Threads and values -/

/-- What a thread does. -/
inductive ThreadState where
  | running
  /-- Waits for a signal. -/
  | blocked
  | sleeping
  /-- Stopped by an exception. -/
  | exception
  /-- Suspended by the debugger. -/
  | debug
deriving Repr, DecidableEq

namespace ThreadState

/-- All states in the order of their codes. -/
def all : List ThreadState :=
  [.running, .blocked, .sleeping, .exception, .debug]

/-- The word that stands for the state in a message. -/
def code : ThreadState → UInt32
  | .running => 0
  | .blocked => 1
  | .sleeping => 2
  | .exception => 3
  | .debug => 4

/-- The state that a word stands for. -/
def ofCode? (w : UInt32) : Option ThreadState :=
  all.find? fun s => s.code = w

/-- The state in words. -/
def text : ThreadState → String
  | .running => "running"
  | .blocked => "blocked"
  | .sleeping => "sleeping"
  | .exception => "exception"
  | .debug => "debug"

end ThreadState

/-- A handle on a value that can be opened; zero for a value that cannot. -/
abbrev ValueRef := UInt32

/-- A variable as it is shown. -/
structure Variable where
  name : String
  value : String
  reference : ValueRef := 0
deriving Repr, DecidableEq

/-! ## Tags -/

/-- The four bytes in front of a message. -/
structure MessageTag where
  bytes : Bytes
deriving Repr, DecidableEq

namespace MessageTag

/-- The tag with these four characters of ASCII. -/
def ascii (a b c d : Char) : MessageTag :=
  ⟨#[a.toUInt8, b.toUInt8, c.toUInt8, d.toUInt8]⟩

/-- The number of bytes of a tag. -/
def size : Nat := 4

/-- The tag that is named when there are too few bytes for one. -/
def missing : MessageTag := ascii '?' '?' '?' '?'

/-- A byte as it is shown: by its number unless it is a visible character of ASCII or a blank. -/
def byteText (b : UInt8) : String :=
  if 0x20 ≤ b ∧ b ≤ 0x7E then String.singleton (Char.ofNat b.toNat)
  else "\\x" ++ Text.hexPadded 2 b.toNat

/-- The tag as it is shown. -/
def text (t : MessageTag) : String :=
  String.join (t.bytes.toList.map byteText)

/-- The tag in quotes. -/
def quoted (t : MessageTag) : String :=
  "'" ++ t.text ++ "'"

end MessageTag

/-! ## Commands -/

/-- What the debugger asks for. -/
inductive Command where
  /-- Let a thread run free. -/
  | run (thread : ThreadId)
  | stepInto (thread : ThreadId)
  | stepOver (thread : ThreadId)
  | stepOut (thread : ThreadId)
  /-- The calls of a thread, with the variables of one frame; the innermost frame is zero. -/
  | getContext (thread : ThreadId) (frame : UInt32)
  | getSource (source : UInt32)
  | getSourceInfo
  | getThreadInfo
  | getVariableInfo (reference : ValueRef)
  /-- Arm or disarm the breakpoint of a line; thread zero stands for all threads. -/
  | setBreakpoint (response source line : UInt32) (thread : ThreadId) (enabled : Bool)
  /-- Stop a thread at the next line. -/
  | forceBreak (thread : ThreadId)
  | endSession
deriving Repr, DecidableEq

/-- The kinds of commands. -/
inductive CommandKind where
  | run
  | stepInto
  | stepOver
  | stepOut
  | getContext
  | getSource
  | getSourceInfo
  | getThreadInfo
  | getVariableInfo
  | setBreakpoint
  | forceBreak
  | endSession
deriving Repr, DecidableEq

namespace CommandKind

/-- All kinds. -/
def all : List CommandKind :=
  [.run, .stepInto, .stepOver, .stepOut, .getContext, .getSource, .getSourceInfo,
    .getThreadInfo, .getVariableInfo, .setBreakpoint, .forceBreak, .endSession]

/-- The tag of a kind. -/
def tag : CommandKind → MessageTag
  | .run => .ascii 'm' 'r' 'u' 'n'
  | .stepInto => .ascii 'm' 's' 'i' 'n'
  | .stepOver => .ascii 'm' 's' 'o' 'v'
  | .stepOut => .ascii 'm' 's' 'o' 'u'
  | .getContext => .ascii 'm' 'g' 'c' 't'
  | .getSource => .ascii 'm' 'g' 's' 'r'
  | .getSourceInfo => .ascii 'm' 'g' 's' 'i'
  | .getThreadInfo => .ascii 'm' 'g' 't' 'i'
  | .getVariableInfo => .ascii 'm' 'g' 'v' 'i'
  | .setBreakpoint => .ascii 'm' 's' 'b' 'p'
  | .forceBreak => .ascii 'm' 'b' 'r' 'k'
  | .endSession => .ascii 'm' 'e' 'n' 'd'

/-- The kind with this tag. -/
def ofTag? (t : MessageTag) : Option CommandKind :=
  all.find? fun k => k.tag = t

end CommandKind

/-- The kind of a command. -/
def Command.kind : Command → CommandKind
  | .run _ => .run
  | .stepInto _ => .stepInto
  | .stepOver _ => .stepOver
  | .stepOut _ => .stepOut
  | .getContext .. => .getContext
  | .getSource _ => .getSource
  | .getSourceInfo => .getSourceInfo
  | .getThreadInfo => .getThreadInfo
  | .getVariableInfo _ => .getVariableInfo
  | .setBreakpoint .. => .setBreakpoint
  | .forceBreak _ => .forceBreak
  | .endSession => .endSession

/-! ## Events -/

/-- What the interpreter tells. -/
inductive Event where
  /-- A thread stopped at a line. -/
  | stopped (thread : ThreadId) (source line : UInt32)
  | exception (thread : ThreadId)
  | threadStarted (thread : ThreadId)
  | threadStopped (thread : ThreadId)
  | source (id : UInt32) (name text : String)
  | beginContext (thread : ThreadId) (frame : UInt32)
  /-- One frame of a context. -/
  | contextCall (frame : UInt32) (function : String) (source line : UInt32) (this : Variable)
  /-- One variable of a frame or a member of a value. -/
  | contextVariable (v : Variable)
  | endContext
  | beginSourceInfo
  | sourceInfo (id : UInt32) (name : String)
  | endSourceInfo
  | beginThreadInfo
  | threadInfo (thread : ThreadId) (state : ThreadState)
  | endThreadInfo
  | beginVariableInfo (reference : ValueRef)
  | endVariableInfo
  | error (text : String)
  | message (text : String)
  /-- The answer to a command that carried a response number. -/
  | ack (response : UInt32) (ok : Bool)
  | sessionEnd
deriving Repr, DecidableEq

/-- The kinds of events. -/
inductive EventKind where
  | stopped
  | exception
  | threadStarted
  | threadStopped
  | source
  | beginContext
  | contextCall
  | contextVariable
  | endContext
  | beginSourceInfo
  | sourceInfo
  | endSourceInfo
  | beginThreadInfo
  | threadInfo
  | endThreadInfo
  | beginVariableInfo
  | endVariableInfo
  | error
  | message
  | ack
  | sessionEnd
deriving Repr, DecidableEq

namespace EventKind

/-- All kinds. -/
def all : List EventKind :=
  [.stopped, .exception, .threadStarted, .threadStopped, .source, .beginContext, .contextCall,
    .contextVariable, .endContext, .beginSourceInfo, .sourceInfo, .endSourceInfo,
    .beginThreadInfo, .threadInfo, .endThreadInfo, .beginVariableInfo, .endVariableInfo,
    .error, .message, .ack, .sessionEnd]

/-- The tag of a kind. -/
def tag : EventKind → MessageTag
  | .stopped => .ascii 'd' 'b' 'r' 'k'
  | .exception => .ascii 'd' 'e' 'x' 'c'
  | .threadStarted => .ascii 'd' 'r' 'u' 'n'
  | .threadStopped => .ascii 'd' 's' 't' 'p'
  | .source => .ascii 'd' 's' 'r' 'c'
  | .beginContext => .ascii 'd' 'c' 't' 'x'
  | .contextCall => .ascii 'c' 'a' 'l' 'l'
  | .contextVariable => .ascii 'v' 'a' 'r' 'i'
  | .endContext => .ascii 'e' 'c' 't' 'x'
  | .beginSourceInfo => .ascii 'd' 's' 'r' 'i'
  | .sourceInfo => .ascii 's' 'r' 'c' 'i'
  | .endSourceInfo => .ascii 'e' 's' 'r' 'i'
  | .beginThreadInfo => .ascii 'd' 't' 'h' 'i'
  | .threadInfo => .ascii 't' 'h' 'r' 'i'
  | .endThreadInfo => .ascii 'e' 't' 'h' 'i'
  | .beginVariableInfo => .ascii 'd' 'v' 'a' 'r'
  | .endVariableInfo => .ascii 'e' 'v' 'a' 'r'
  | .error => .ascii 'd' 'e' 'r' 'r'
  | .message => .ascii 'd' 'm' 's' 'g'
  | .ack => .ascii 'd' 'a' 'c' 'k'
  | .sessionEnd => .ascii 'd' 'e' 'n' 'd'

/-- The kind with this tag. -/
def ofTag? (t : MessageTag) : Option EventKind :=
  all.find? fun k => k.tag = t

end EventKind

/-- The kind of an event. -/
def Event.kind : Event → EventKind
  | .stopped .. => .stopped
  | .exception _ => .exception
  | .threadStarted _ => .threadStarted
  | .threadStopped _ => .threadStopped
  | .source .. => .source
  | .beginContext .. => .beginContext
  | .contextCall .. => .contextCall
  | .contextVariable _ => .contextVariable
  | .endContext => .endContext
  | .beginSourceInfo => .beginSourceInfo
  | .sourceInfo .. => .sourceInfo
  | .endSourceInfo => .endSourceInfo
  | .beginThreadInfo => .beginThreadInfo
  | .threadInfo .. => .threadInfo
  | .endThreadInfo => .endThreadInfo
  | .beginVariableInfo _ => .beginVariableInfo
  | .endVariableInfo => .endVariableInfo
  | .error _ => .error
  | .message _ => .message
  | .ack .. => .ack
  | .sessionEnd => .sessionEnd

end ScriptToolchain.Debug
