import ScriptToolchain.Debug.Target

/-!
# Replies

The events that answer a question of the debugger. A list is told between a
first and a last event, with one event for each item in the order of the
program; a question that has no answer is told as a single error.
-/

namespace ScriptToolchain.Debug

namespace Reply

/-- The reply to a question about a source. -/
def source (t : Target) (id : UInt32) : List Event :=
  match t.source? id with
  | some s => [.source s.id s.name s.text]
  | none =>
    let shown := Text.hexPadded 8 id.toNat
    [.error s!"unknown source 0x{shown}"]

/-- All sources. -/
def sources (t : Target) : List Event :=
  [.beginSourceInfo] ++ t.sources.map (fun s => .sourceInfo s.id s.name) ++ [.endSourceInfo]

/-- What a thread does, as far as a debugger is concerned. -/
def threadState (held : Threads) (e : ThreadEntry) : ThreadState :=
  if (held.status e.id).isSuspended then .debug else e.state

/-- All threads. -/
def threads (t : Target) (held : Threads) : List Event :=
  [.beginThreadInfo] ++ t.threads.map (fun e => .threadInfo e.id (threadState held e)) ++
    [.endThreadInfo]

/-- The members of a value. -/
def members (t : Target) (reference : ValueRef) : List Event :=
  match t.members? reference with
  | some vs => [.beginVariableInfo reference] ++ vs.map .contextVariable ++ [.endVariableInfo]
  | none => [.error s!"unknown variable reference {reference}"]

/-- A frame by its position, with its variables when it is the one asked for. -/
def frame (asked : UInt32) (f : CallFrame) (position : Nat) : List Event :=
  [.contextCall position.toUInt32 f.function f.source f.line f.this] ++
    if position = asked.toNat then f.locals.map .contextVariable else []

/-- The calls of a thread. -/
def context (t : Target) (thread : ThreadId) (asked : UInt32) : List Event :=
  let frames := t.frames thread
  if frames.length ≤ asked.toNat then [.error s!"no frame {asked} on thread {thread}"]
  else
    [.beginContext thread asked] ++
      frames.zipIdx.flatMap (fun (f, position) => frame asked f position) ++ [.endContext]

end Reply

end ScriptToolchain.Debug
