import ScriptToolchain.Debug.Address
import ScriptToolchain.SortedMap

/-!
# Breakpoints

A breakpoint stops threads at an address: all of them or a single one. An
address is armed for one scope at a time; arming it again for the same scope
changes nothing, for another one is refused.
-/

namespace ScriptToolchain.Debug

/-- The id of a thread. -/
abbrev ThreadId := UInt32

/-- The threads that a breakpoint stops. -/
inductive Scope where
  | allThreads
  | thread (id : ThreadId)
deriving Repr, DecidableEq

namespace Scope

/-- The scope that a message names: zero stands for all threads. -/
def ofWord (w : UInt32) : Scope :=
  if w = 0 then .allThreads else .thread w

/-- The scope in words. -/
def text : Scope → String
  | .allThreads => "all threads"
  | .thread id => s!"thread {id}"

/-- A thread belongs to the scope. -/
def includes (s : Scope) (id : ThreadId) : Bool :=
  match s with
  | .allThreads => true
  | .thread only => only = id

end Scope

/-- Why a breakpoint is not armed or not disarmed. -/
inductive BreakpointError where
  /-- The address is armed for another scope. -/
  | conflict (address : CodeAddress) (existing : Scope)
  | missing (address : CodeAddress)
deriving Repr, DecidableEq

/-- The refusal in words. -/
def BreakpointError.message : BreakpointError → String
  | .conflict address existing =>
    s!"breakpoint at {address.text} already set for {existing.text}"
  | .missing address => s!"no breakpoint at {address.text}"

/-- The armed addresses and their scopes. -/
abbrev Breakpoints := SortedMap CodeAddress Scope

namespace Breakpoints

/-- Arms an address. -/
def arm (t : Breakpoints) (a : CodeAddress) (s : Scope) : Except BreakpointError Breakpoints :=
  match t.get? a with
  | some existing => if existing = s then .ok t else .error (.conflict a existing)
  | none => .ok (t.insert a s)

/-- Disarms an address and answers the scope it was armed for. -/
def disarm (t : Breakpoints) (a : CodeAddress) : Except BreakpointError (Scope × Breakpoints) :=
  match t.get? a with
  | some s => .ok (s, t.erase a)
  | none => .error (.missing a)

/-- A thread has to stop at an address. -/
def hits (t : Breakpoints) (a : CodeAddress) (id : ThreadId) : Bool :=
  match t.get? a with
  | some s => s.includes id
  | none => false

end Breakpoints

end ScriptToolchain.Debug
