import Mathlib.Tactic
import ScriptToolchain.Debug.Hooks

/-!
# Operations and their messages

An operation is what a host or an interpreter asks of a session. `Tap` puts a
record of all messages beside a transport. A session cannot tell a transport
from its tap (`step_tapped`), so the messages of an operation are those that it
leaves on a fresh tap.
-/

namespace ScriptToolchain.Debug

/-! ## Taps -/

/-- The messages that have passed a transport. -/
structure Traffic where
  received : List Bytes := []
  delivered : List Bytes := []
  /-- What could not be sent. -/
  lost : List Bytes := []

/-- A transport with a record of its messages. -/
structure Tap (τ : Type) where
  transport : τ
  traffic : Traffic := {}

namespace Tap

variable {τ : Type} [Transport τ]

/-- The tap behind a message that was sent. -/
def deliver (w : Tap τ) (bytes : Bytes) (transport : τ) : Tap τ :=
  { transport, traffic := { w.traffic with delivered := w.traffic.delivered ++ [bytes] } }

/-- The tap behind a message that could not be sent. -/
def lose (w : Tap τ) (bytes : Bytes) (transport : τ) : Tap τ :=
  { transport, traffic := { w.traffic with lost := w.traffic.lost ++ [bytes] } }

/-- The tap behind a message that has come. -/
def take (w : Tap τ) (bytes : Bytes) (transport : τ) : Tap τ :=
  { transport, traffic := { w.traffic with received := w.traffic.received ++ [bytes] } }

instance : Transport (Tap τ) where
  send bytes w :=
    match Transport.send bytes w.transport with
    | .ok () transport => .ok () (w.deliver bytes transport)
    | .error e transport => .error e (w.lose bytes transport)
  receive w :=
    match Transport.receive w.transport with
    | .ok (some bytes) transport => .ok (some bytes) (w.take bytes transport)
    | .ok none transport => .ok none { w with transport }
    | .error e transport => .error e { w with transport }

end Tap

namespace Session

variable {τ α β : Type} [Transport τ]

/-- The session with a fresh tap. -/
def tapped (s : Session τ) : Session (Tap τ) :=
  { transport := { transport := s.transport }, limit := s.limit, control := s.control }

/-- The session without its tap. -/
def bare (s : Session (Tap τ)) : Session τ :=
  { transport := s.transport.transport, limit := s.limit, control := s.control }

omit [Transport τ] in
@[simp]
theorem bare_tapped (s : Session τ) : s.tapped.bare = s :=
  rfl

/-- A result without the tap of its session. -/
def bareResult {ε : Type} :
    EStateM.Result ε (Session (Tap τ)) α → EStateM.Result ε (Session τ) α
  | .ok a s => .ok a s.bare
  | .error e s => .error e s.bare

/-- The session behind a step, whether or not it failed. -/
def behind (act : Act τ α) (s : Session τ) : Session τ :=
  match act s with
  | .ok _ s => s
  | .error _ s => s

omit [Transport τ] in
theorem behind_map (act : Act τ α) (f : α → β) (s : Session τ) :
    behind (do return f (← act)) s = behind act s := by
  unfold behind
  simp only [Bind.bind, EStateM.bind]
  cases act s <;> rfl

/-! ### No step looks at the tap -/

/-- The step does the same whether or not there is a tap. -/
def Transparent (act : Act τ α) (onTap : Act (Tap τ) α) : Prop :=
  ∀ s, act s.bare = bareResult (onTap s)

omit [Transport τ] in
theorem Transparent.bind {act : Act τ α} {onTap : Act (Tap τ) α} {next : α → Act τ β}
    {next' : α → Act (Tap τ) β} (h : Transparent act onTap)
    (h' : ∀ a, Transparent (next a) (next' a)) : Transparent (act >>= next) (onTap >>= next') := by
  intro s
  simp only [Bind.bind, EStateM.bind, h s]
  cases onTap s with
  | ok a s' => exact h' a s'
  | error e s' => rfl

omit [Transport τ] in
theorem transparent_pure (a : α) : Transparent (pure a : Act τ α) (pure a) :=
  fun _ => rfl

theorem transparent_send (e : Event) : Transparent (send e : Act τ Unit) (send e) := by
  intro s
  show onTransport (Transport.send e.toBytes) s.bare = _
  simp only [onTransport, bare, send, Transport.send]
  cases Transport.send e.toBytes s.transport.transport <;> rfl

theorem transparent_receive :
    Transparent (onTransport Transport.receive : Act τ (Option Bytes))
      (onTransport Transport.receive) := by
  intro s
  simp only [onTransport, bare, Transport.receive]
  cases Transport.receive s.transport.transport with
  | ok received w => cases received <;> rfl
  | error e w => rfl

theorem transparent_sendAll (es : List Event) :
    Transparent (sendAll es : Act τ Unit) (sendAll es) := by
  induction es with
  | nil => exact transparent_pure ()
  | cons e rest ih => exact (transparent_send e).bind fun _ => ih

theorem transparent_perform (change : Control → Control × List Event) :
    Transparent (perform change : Act τ Unit) (perform change) := by
  intro s
  exact transparent_sendAll (change s.control).2 { s with control := (change s.control).1 }

theorem transparent_handleMessage (t : Target) (bytes : Bytes) :
    Transparent (handleMessage t bytes : Act τ Unit) (handleMessage t bytes) := by
  unfold handleMessage
  cases Command.ofBytes bytes with
  | ok c => exact transparent_perform _
  | error e => exact transparent_pure ()

/-- Handles a message that may have come, and then up to `n` more. -/
def handleNext (t : Target) (n : Nat) : Option Bytes → Act τ Nat
  | none => pure 0
  | some bytes => do
    handleMessage t bytes
    return (← handleUpTo t n) + 1

theorem handleUpTo_open {t : Target} {n : Nat} {s : Session τ} (h : s.control.isOpen = true) :
    handleUpTo t (n + 1) s = (onTransport Transport.receive >>= handleNext t n) s := by
  have hget : (get : Act τ (Session τ)) s = .ok s s := rfl
  unfold handleUpTo
  simp only [Bind.bind, EStateM.bind, hget, h, if_true]
  cases onTransport Transport.receive s with
  | ok received s' => cases received <;> rfl
  | error e s' => rfl

theorem handleUpTo_closed {t : Target} {n : Nat} {s : Session τ} (h : s.control.isOpen = false) :
    handleUpTo t n s = .ok 0 s := by
  cases n with
  | zero => rfl
  | succ n =>
    have hget : (get : Act τ (Session τ)) s = .ok s s := rfl
    unfold handleUpTo
    simp only [Bind.bind, EStateM.bind, hget, h]
    rfl

theorem transparent_handleUpTo (t : Target) (n : Nat) :
    Transparent (handleUpTo t n : Act τ Nat) (handleUpTo t n) := by
  induction n with
  | zero => exact transparent_pure 0
  | succ n ih =>
    intro s
    by_cases hopen : s.control.isOpen = true
    · have hnext : ∀ received : Option Bytes,
          Transparent (handleNext t n received : Act τ Nat) (handleNext t n received) := by
        intro received
        cases received with
        | none => exact transparent_pure 0
        | some bytes =>
          exact (transparent_handleMessage t bytes).bind fun _ => ih.bind fun k =>
            transparent_pure (k + 1)
      rw [handleUpTo_open hopen, handleUpTo_open (s := s.bare) hopen]
      exact transparent_receive.bind hnext s
    · have hclosed : s.control.isOpen = false := Bool.not_eq_true _ ▸ hopen
      rw [handleUpTo_closed hclosed, handleUpTo_closed (s := s.bare) hclosed]
      rfl

/-- Handles a message, unless the session is closed. -/
def handleIfOpen (t : Target) (bytes : Bytes) : Act τ Unit := fun s =>
  if s.control.isOpen then handleMessage t bytes s else .ok () s

theorem transparent_handleIfOpen (t : Target) (bytes : Bytes) :
    Transparent (handleIfOpen t bytes : Act τ Unit) (handleIfOpen t bytes) := by
  intro s
  unfold handleIfOpen
  rw [show s.bare.control = s.control from rfl]
  split
  · exact transparent_handleMessage t bytes s
  · rfl

theorem transparent_update (t : Target) : Transparent (update t : Act τ Nat) (update t) :=
  fun s => transparent_handleUpTo t s.limit s

theorem transparent_exception (thread : ThreadId) :
    Transparent (exception thread : Act τ Unit) (exception thread) := by
  have htake : Transparent (takeLog : Act τ (List String)) takeLog := fun s => rfl
  exact (transparent_send _).bind fun _ => htake.bind fun lines => transparent_sendAll _

/-- A hook as a step that does not fail. -/
def hook (h : Session τ → Bool × Session τ) : Act τ Bool := fun s =>
  .ok (h s).1 (h s).2

theorem bare_stop (site : Site) (s : Session (Tap τ)) :
    (stop site s.bare).1 = (stop site s).1 ∧ (stop site s.bare).2 = (stop site s).2.bare := by
  unfold stop
  rw [transparent_send]
  cases send (.stopped site.thread site.source site.line) s with
  | ok u s' => exact ⟨rfl, rfl⟩
  | error e s' => exact ⟨rfl, rfl⟩

theorem transparent_line (site : Site) :
    Transparent (hook (line site) : Act τ Bool) (hook (line site)) := by
  intro s
  obtain ⟨hanswer, hafter⟩ := bare_stop site s
  unfold hook line
  -- the tests of a hook look at what the session knows, and only a stop sends
  rw [show s.bare.control = s.control from rfl, show s.bare.status = s.status from rfl,
    show s.bare.endsOnLine site = s.endsOnLine site from rfl]
  split
  · rfl
  · split
    · rfl
    · split
      · rw [hanswer, hafter]
        rfl
      · rfl

omit [Transport τ] in
theorem transparent_call (site : Site) :
    Transparent (hook (call site) : Act τ Bool) (hook (call site)) := by
  intro s
  unfold hook call
  rw [show s.bare.control = s.control from rfl, show s.bare.status = s.status from rfl]
  split <;> rfl

theorem transparent_leave (site : Site) :
    Transparent (hook (leave site) : Act τ Bool) (hook (leave site)) := by
  intro s
  obtain ⟨hanswer, hafter⟩ := bare_stop site s
  unfold hook leave
  rw [show s.bare.control = s.control from rfl, show s.bare.status = s.status from rfl]
  split
  · rw [hanswer, hafter]
    rfl
  · rfl

end Session

/-! ## Operations -/

/-- What a host or an interpreter asks of a session. -/
inductive Operation where
  /-- Handle the messages that have come. -/
  | update (t : Target)
  /-- Handle a single message. -/
  | message (t : Target) (bytes : Bytes)
  | line (site : Site)
  | call (site : Site)
  | leave (site : Site)
  | queueLog (text : String)
  | exception (thread : ThreadId)
  | threadStarted (thread : ThreadId)
  | threadStopped (thread : ThreadId)
  | sendMessage (text : String)
  | sendError (text : String)
  | finish

namespace Operation

open Session

variable {τ : Type} [Transport τ]

/-- The step of a session; only hooks answer `true`. -/
def step : Operation → Act τ Bool
  | .update t => do
    let _ ← Session.update t
    return false
  | .message t bytes => do
    handleIfOpen t bytes
    return false
  | .line site => hook (Session.line site)
  | .call site => hook (Session.call site)
  | .leave site => hook (Session.leave site)
  | .queueLog text => do
    modify (Session.queueLog text)
    return false
  | .exception thread => do
    Session.exception thread
    return false
  | .threadStarted thread => do
    Session.threadStarted thread
    return false
  | .threadStopped thread => do
    Session.threadStopped thread
    return false
  | .sendMessage text => do
    Session.sendMessage text
    return false
  | .sendError text => do
    Session.sendError text
    return false
  | .finish => do
    Session.finish
    return false

/-- The operation does the same whether or not there is a tap. -/
theorem step_tapped (op : Operation) : Transparent (op.step : Act τ Bool) op.step := by
  have hfalse : ∀ {α : Type} {act : Act τ α} {onTap : Act (Tap τ) α}, Transparent act onTap →
      Transparent (act >>= fun _ => pure false) (onTap >>= fun _ => pure false) :=
    fun h => h.bind fun _ => transparent_pure false
  cases op with
  | update t => exact hfalse (transparent_update t)
  | message t bytes => exact hfalse (transparent_handleIfOpen t bytes)
  | line site => exact transparent_line site
  | call site => exact transparent_call site
  | leave site => exact transparent_leave site
  | queueLog text => exact fun s => rfl
  | exception thread => exact hfalse (transparent_exception thread)
  | threadStarted thread => exact hfalse (transparent_send _)
  | threadStopped thread => exact hfalse (transparent_perform _)
  | sendMessage text => exact hfalse (transparent_send _)
  | sendError text => exact hfalse (transparent_send _)
  | finish => exact hfalse (transparent_perform _)

/-- The session behind the operation, which may have failed. -/
def after (op : Operation) (s : Session τ) : Session τ :=
  behind op.step s

/-- What the operation answers; one that fails answers nothing. -/
def answer (op : Operation) (s : Session τ) : Bool :=
  match op.step s with
  | .ok b _ => b
  | .error _ _ => false

/-- The messages that pass in the operation. -/
def traffic (op : Operation) (s : Session τ) : Traffic :=
  (op.after s.tapped).transport.traffic

/-- What is known behind the operation can be seen on the tap. -/
theorem control_after (op : Operation) (s : Session τ) :
    (op.after s).control = (op.after s.tapped).control := by
  have hstep := step_tapped op s.tapped
  rw [bare_tapped] at hstep
  unfold after behind
  rw [hstep]
  cases op.step s.tapped <;> rfl

/-- The answer can be seen on the tap. -/
theorem answer_tapped (op : Operation) (s : Session τ) : op.answer s = op.answer s.tapped := by
  have hstep := step_tapped op s.tapped
  rw [bare_tapped] at hstep
  unfold answer
  rw [hstep]
  cases op.step s.tapped <;> rfl

end Operation

end ScriptToolchain.Debug
