import ScriptToolchain.Debug.Session

/-!
# Hooks of the interpreter

An interpreter calls its hooks when it reaches a line and when it enters or
leaves a function. A session answers whether the thread has to stop there: at
a breakpoint, or where a step ends.
-/

namespace ScriptToolchain.Debug

/-- Where an interpreter is. -/
structure Site where
  thread : ThreadId
  /-- The base of the frame that runs; at a return, of the frame that ends. -/
  base : FrameBase
  /-- The next instruction. -/
  address : CodeAddress
  source : UInt32
  line : UInt32
deriving Repr, DecidableEq

/-- What an interpreter calls; an answer `true` asks it to suspend the thread. -/
class Hooks (σ : Type) where
  /-- A new line is reached. -/
  line : Site → σ → Bool × σ
  /-- A function is entered. -/
  call : Site → σ → Bool × σ
  /-- A function is left. -/
  leave : Site → σ → Bool × σ
  /-- A thread waits for the debugger. -/
  isSuspended : ThreadId → σ → Bool

/-- The hooks of an interpreter that is not debugged. -/
structure NoHooks where
deriving Repr, DecidableEq

instance : Hooks NoHooks where
  line _ h := (false, h)
  call _ h := (false, h)
  leave _ h := (false, h)
  isSuspended _ _ := false

namespace Session

variable {τ : Type} [Transport τ]

/-- The breakpoint that is hit. -/
def breakpointAt? (s : Session τ) (site : Site) : Option CodeAddress :=
  if s.control.breakpoints.hits site.address site.thread then some site.address else none

/-- How a thread is held. -/
def status (s : Session τ) (thread : ThreadId) : ThreadStatus :=
  s.control.threads.status thread

/-- Tells that a thread stops and suspends it; a thread whose stop cannot be told goes on. -/
def stop (site : Site) (s : Session τ) : Bool × Session τ :=
  match send (.stopped site.thread site.source site.line) s with
  | .ok () s =>
    let threads := s.control.threads.suspend site.thread
    (true, { s with control := { s.control with threads } })
  | .error _ s => (false, s)

/-- A breakpoint is hit or the line ends a step. -/
def endsOnLine (s : Session τ) (site : Site) : Bool :=
  (s.breakpointAt? site).isSome || (s.status site.thread).stopsOnLine site.base

/-- A new line is reached: a suspended thread stays suspended without another word. -/
def line (site : Site) (s : Session τ) : Bool × Session τ :=
  if !s.control.isOpen then (false, s)
  else if (s.status site.thread).isSuspended then (true, s)
  else if s.endsOnLine site then s.stop site
  else (false, s)

/-- A function is entered: a step into functions goes on in the new frame. -/
def call (site : Site) (s : Session τ) : Bool × Session τ :=
  if s.control.isOpen && (s.status site.thread).followsCall then
    let threads := s.control.threads.begin site.thread .into site.base
    (false, { s with control := { s.control with threads } })
  else (false, s)

/-- A function is left. -/
def leave (site : Site) (s : Session τ) : Bool × Session τ :=
  if s.control.isOpen && (s.status site.thread).stopsOnReturn site.base then s.stop site
  else (false, s)

instance : Hooks (Session τ) where
  line := line
  call := call
  leave := leave
  isSuspended thread s := s.control.isOpen && (s.status thread).isSuspended

end Session

end ScriptToolchain.Debug
