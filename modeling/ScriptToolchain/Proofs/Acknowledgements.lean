import ScriptToolchain.Proofs.Batches
import ScriptToolchain.Proofs.Steps

/-!
# Acknowledged breakpoints

A debugger knows of the breakpoints only what it was told in acknowledgements.
While nothing is lost that is all there is to know: an address is armed as the
last granted request for it says (`breakpoints_as_acknowledged`). The step is
`Account.handle`, from one command to the next; a session that is closed handles
none, so there is no more to account for.
-/

namespace ScriptToolchain.Debug

/-! ## Requests and their acknowledgements -/

/-- A wish to arm or to disarm a line, with the number under which it is answered. -/
structure BreakpointRequest where
  response : UInt32
  source : UInt32
  line : UInt32
  /-- The thread to stop, zero for all of them. -/
  thread : ThreadId
  enabled : Bool
deriving Repr, DecidableEq

/-- The answer to a request. -/
structure Acknowledgement where
  response : UInt32
  ok : Bool
deriving Repr, DecidableEq

/-- The request that a command makes. -/
def Command.request? : Command → Option BreakpointRequest
  | .setBreakpoint response source line thread enabled =>
    some { response, source, line, thread, enabled }
  | _ => none

/-- The acknowledgement that an event tells. -/
def Event.acknowledgement? : Event → Option Acknowledgement
  | .ack response ok => some { response, ok }
  | _ => none

/-- The requests among messages. -/
def requestsIn (ms : List Bytes) : List BreakpointRequest :=
  (commandsIn ms).filterMap Command.request?

/-- The acknowledgements among messages. -/
def acknowledgementsIn (ms : List Bytes) : List Acknowledgement :=
  (Link.eventsOf ms).filterMap Event.acknowledgement?

/-- Where the marks of lines are. -/
abbrev Markers := UInt32 → UInt32 → Option CodeAddress

namespace BreakpointRequest

/-- The command that makes the request. -/
def command (r : BreakpointRequest) : Command :=
  .setBreakpoint r.response r.source r.line r.thread r.enabled

/-- The threads to stop. -/
def scope (r : BreakpointRequest) : Scope :=
  Scope.ofWord r.thread

/-- The address of the line: that of the instruction behind its mark. -/
def address? (marker? : Markers) (r : BreakpointRequest) : Option CodeAddress :=
  (marker? r.source r.line).map (·.advance Opcode.tagSize.toUInt32)

/-- The line has code, and its address is free or armed alike; to be disarmed it is armed. -/
def Grantable (marker? : Markers) (armed : CodeAddress → Option Scope) (r : BreakpointRequest) :
    Prop :=
  ∃ a, r.address? marker? = some a ∧
    if r.enabled then armed a = none ∨ armed a = some r.scope else armed a ≠ none

end BreakpointRequest

/-- The last request for an address that was granted. -/
def lastGranted? (marker? : Markers) (answered : List (BreakpointRequest × Acknowledgement))
    (a : CodeAddress) : Option BreakpointRequest :=
  ((answered.filter fun x => x.2.ok ∧ x.1.address? marker? = some a).getLast?).map Prod.fst

/-- The threads that an address is armed for by what was granted. -/
def armedFor? (marker? : Markers) (answered : List (BreakpointRequest × Acknowledgement))
    (a : CodeAddress) : Option Scope :=
  (lastGranted? marker? answered a).bind fun r => if r.enabled then some r.scope else none

/-- A request that is answered counts for its own address if it is granted, and else for none. -/
theorem armedFor?_snoc (marker? : Markers)
    (answered : List (BreakpointRequest × Acknowledgement)) (r : BreakpointRequest)
    (k : Acknowledgement) (a : CodeAddress) :
    armedFor? marker? (answered ++ [(r, k)]) a =
      if k.ok ∧ r.address? marker? = some a then (if r.enabled then some r.scope else none)
      else armedFor? marker? answered a := by
  unfold armedFor? lastGranted?
  by_cases h : k.ok = true ∧ r.address? marker? = some a
  · simp [List.filter_append, h]
  · simp [List.filter_append, h]

theorem requestsIn_append (ms ms' : List Bytes) :
    requestsIn (ms ++ ms') = requestsIn ms ++ requestsIn ms' := by
  simp [requestsIn, commandsIn]

theorem acknowledgementsIn_append (ms ms' : List Bytes) :
    acknowledgementsIn (ms ++ ms') = acknowledgementsIn ms ++ acknowledgementsIn ms' := by
  simp [acknowledgementsIn, Link.eventsOf]

/-- What is cut from an event is no part of an acknowledgement. -/
theorem acknowledgementsIn_toBytes (es : List Event) :
    acknowledgementsIn (es.map Event.toBytes) = es.filterMap Event.acknowledgement? := by
  have hcut : ∀ e : Event, (Event.ofBytes e.toBytes).toOption = some e.cut := by
    intro e
    rw [Event.ofBytes_toBytes]
    rfl
  have hsame : ∀ e : Event, e.cut.acknowledgement? = e.acknowledgement? := by
    intro e
    cases e <;> rfl
  simp [acknowledgementsIn, Link.eventsOf, List.filterMap_map, hcut, hsame]

/-- None of the events is an acknowledgement. -/
def Unanswering (es : List Event) : Prop :=
  es.filterMap Event.acknowledgement? = []

/-- If nothing was lost, all was delivered. -/
theorem Sends.delivered_eq {es : List Event} {tr tr' : Traffic} {ok : Bool}
    (h : Sends es tr ok tr') (hlost : tr'.lost = []) :
    tr'.delivered = tr.delivered ++ es.map Event.toBytes := by
  cases h with
  | all => rfl
  | part sent hes => simp at hlost

/-! ## Single commands -/

namespace Control

/-- What a request does that is answered by `ok`. -/
structure Settles (marker? : Markers) (r : BreakpointRequest) (ok : Bool) (c c' : Control) :
    Prop where
  grantable : ok = true ↔ r.Grantable marker? c.breakpoints.get?
  refused : ok = false → c' = c
  /-- Its address is armed for its threads or disarmed, and no other is touched. -/
  granted : ok = true → ∃ a, r.address? marker? = some a ∧ ∀ b, c'.breakpoints.get? b =
    if a = b then (if r.enabled then some r.scope else none) else c.breakpoints.get? b
  apart : c' = { c with breakpoints := c'.breakpoints }

variable {marker? : Markers} {r : BreakpointRequest} {c c' : Control} {a : CodeAddress}

theorem settles_refused (h : ¬ r.Grantable marker? c.breakpoints.get?) :
    Settles marker? r false c c where
  grantable := iff_of_false Bool.false_ne_true h
  refused _ := rfl
  granted := nofun
  apart := rfl

theorem settles_granted {breakpoints : Breakpoints} (ha : r.address? marker? = some a)
    (h : r.Grantable marker? c.breakpoints.get?)
    (hget : ∀ b, breakpoints.get? b =
      if a = b then (if r.enabled then some r.scope else none) else c.breakpoints.get? b) :
    Settles marker? r true c { c with breakpoints } where
  grantable := iff_of_true rfl h
  refused := nofun
  granted _ := ⟨a, ha, hget⟩
  apart := rfl

theorem settles_arm (ha : r.address? marker? = some a) (henabled : r.enabled = true) :
    Settles marker? r (c.changeBreakpoint a r.scope true).1 c
      (c.changeBreakpoint a r.scope true).2 := by
  unfold changeBreakpoint Breakpoints.arm
  cases hget : c.breakpoints.get? a with
  | none =>
    apply settles_granted ha
    · exact ⟨a, ha, by simp [henabled, hget]⟩
    · intro b
      rw [SortedMap.get?_insert, henabled]
      rfl
  | some existing =>
    by_cases hsame : existing = r.scope
    · simp only [hsame, if_true]
      apply settles_granted (c := c) ha
      · exact ⟨a, ha, by simp [henabled, hget, hsame]⟩
      · -- the address was armed alike already
        intro b
        split
        · next hb => simp [← hb, hget, hsame]
        · rfl
    · simp only [hsame, if_false]
      apply settles_refused
      rintro ⟨a', ha', harmed⟩
      cases ha.symm.trans ha'
      simp [henabled, hget, hsame] at harmed

theorem settles_disarm (ha : r.address? marker? = some a) (henabled : r.enabled = false) :
    Settles marker? r (c.changeBreakpoint a r.scope false).1 c
      (c.changeBreakpoint a r.scope false).2 := by
  unfold changeBreakpoint Breakpoints.disarm
  cases hget : c.breakpoints.get? a with
  | none =>
    apply settles_refused
    rintro ⟨a', ha', harmed⟩
    cases ha.symm.trans ha'
    simp [henabled, hget] at harmed
  | some existing =>
    apply settles_granted ha
    · exact ⟨a, ha, by simp [henabled, hget]⟩
    · intro b
      rw [SortedMap.get?_erase, henabled]
      rfl

/-- A request has a single reply, which carries its number. -/
theorem handle_request (c : Control) (t : Target) (r : BreakpointRequest) : ∃ ok c',
    c.handle t r.command = (c', [.ack r.response ok]) ∧ Settles t.marker? r ok c c' := by
  refine ⟨_, _, rfl, ?_⟩
  show Settles _ r (c.setBreakpoint t r.source r.line r.scope r.enabled).1 c
    (c.setBreakpoint t r.source r.line r.scope r.enabled).2
  unfold setBreakpoint
  cases hmark : t.marker? r.source r.line with
  | none =>
    apply settles_refused
    rintro ⟨a, ha, -⟩
    simp [BreakpointRequest.address?, hmark] at ha
  | some mark =>
    have ha : r.address? t.marker? = some (mark.advance Opcode.tagSize.toUInt32) := by
      unfold BreakpointRequest.address?
      rw [hmark]
      rfl
    cases henabled : r.enabled with
    | true => exact settles_arm ha henabled
    | false => exact settles_disarm ha henabled

theorem unanswering_context (t : Target) (thread : ThreadId) (asked : UInt32) :
    Unanswering (Reply.context t thread asked) := by
  -- the frames lie between the first and the last event
  have hframe : ∀ f position, Unanswering (Reply.frame asked f position) := by
    intro f position
    unfold Reply.frame
    split <;> simp [Unanswering, Event.acknowledgement?]
  unfold Reply.context Unanswering
  dsimp only
  split
  · rfl
  · simp only [List.filterMap_append, List.filterMap_flatMap, List.append_eq_nil_iff,
      List.flatMap_eq_nil_iff]
    exact ⟨⟨rfl, fun f _ => hframe f.1 f.2⟩, rfl⟩

theorem unanswering_close (c : Control) : Unanswering c.close.2 := by
  unfold close
  split <;> rfl

/-- Every command but a request is answered by no acknowledgement. -/
theorem unanswering_handle (c : Control) (t : Target) {command : Command}
    (h : command.request? = none) : Unanswering (c.handle t command).2 := by
  -- a list between its first and its last event
  have hlist : ∀ {α : Type} {first last : Event} {item : α → Event} (items : List α),
      first.acknowledgement? = none → last.acknowledgement? = none →
      (∀ a, (item a).acknowledgement? = none) →
        Unanswering ([first] ++ items.map item ++ [last]) := by
    intro α first last item items hfirst hlast hitem
    unfold Unanswering
    simp [List.filterMap_append, List.filterMap_map, hfirst, hlast, hitem]
  have hstep : ∀ thread mode, Unanswering (c.beginStep t thread mode).2 := by
    intro thread mode
    unfold beginStep
    split <;> rfl
  cases command with
  | run thread => rfl
  | stepInto thread => exact hstep thread .into
  | stepOver thread => exact hstep thread .over
  | stepOut thread => exact hstep thread .out
  | forceBreak thread => exact hstep thread .into
  | getContext thread frame => exact unanswering_context t thread frame
  | getSource source =>
    show Unanswering (Reply.source t source)
    unfold Reply.source
    split <;> rfl
  | getSourceInfo => exact hlist t.sources rfl rfl fun _ => rfl
  | getThreadInfo => exact hlist t.threads rfl rfl fun _ => rfl
  | getVariableInfo reference =>
    show Unanswering (Reply.members t reference)
    unfold Reply.members
    split
    · exact hlist _ rfl rfl fun _ => rfl
    · rfl
  | setBreakpoint response source line thread enabled => cases h
  | endSession => exact c.unanswering_close

/-- The breakpoints are as they were, unless the session is closed. -/
def Spares (c c' : Control) : Prop :=
  c'.isOpen = true → c.isOpen = true ∧ c'.breakpoints = c.breakpoints

theorem spares_of_eq (hopen : c'.isOpen = c.isOpen)
    (hbreakpoints : c'.breakpoints = c.breakpoints) :
    Spares c c' := by
  intro hopen'
  exact ⟨hopen ▸ hopen', hbreakpoints⟩

theorem spares_close (c : Control) : Spares c c.close.1 := by
  intro hopen
  unfold close at hopen ⊢
  split at hopen
  · cases hopen
  · next hclosed => exact absurd hopen hclosed

theorem spares_handle (c : Control) (t : Target) {command : Command}
    (h : command.request? = none) : Spares c (c.handle t command).1 := by
  have hstep : ∀ thread mode, Spares c (c.beginStep t thread mode).1 := by
    intro thread mode
    unfold beginStep
    split <;> exact spares_of_eq rfl rfl
  cases command with
  | stepInto thread => exact hstep thread .into
  | stepOver thread => exact hstep thread .over
  | stepOut thread => exact hstep thread .out
  | forceBreak thread => exact hstep thread .into
  | setBreakpoint response source line thread enabled => cases h
  | endSession => exact spares_close c
  | _ => exact spares_of_eq rfl rfl

/-! ### Accounts -/

/--
The requests that were answered so far are answered under their numbers, each by whether it could
be granted, and what was granted is all that is armed.
-/
structure Account (marker? : Markers) (c : Control)
    (answered : List (BreakpointRequest × Acknowledgement)) : Prop where
  numbered : ∀ x ∈ answered, x.2.response = x.1.response
  granted : ∀ before r k after, answered = before ++ (r, k) :: after →
    (k.ok = true ↔ r.Grantable marker? (armedFor? marker? before))
  table : c.isOpen = true → ∀ a, c.breakpoints.get? a = armedFor? marker? answered a

variable {answered : List (BreakpointRequest × Acknowledgement)}

theorem Account.spares (h : Account marker? c answered) (hc : Spares c c') :
    Account marker? c' answered where
  numbered := h.numbered
  granted := h.granted
  table hopen := by
    obtain ⟨hopen', hbreakpoints⟩ := hc hopen
    rw [hbreakpoints]
    exact h.table hopen'

theorem Account.settles {ok : Bool} (h : Account marker? c answered) (hopen : c.isOpen = true)
    (hc : Settles marker? r ok c c') :
    Account marker? c' (answered ++ [(r, { response := r.response, ok })]) := by
  have htable : c.breakpoints.get? = armedFor? marker? answered := funext (h.table hopen)
  constructor
  case numbered =>
    intro x hx
    rcases List.mem_append.mp hx with hold | hnew
    · exact h.numbered x hold
    · rw [List.mem_singleton.mp hnew]
  case granted =>
    intro before r' k after heq
    -- the pair is the new one or stands before it
    rcases List.eq_nil_or_concat after with rfl | ⟨init, last, rfl⟩
    · obtain ⟨rfl, hlast⟩ := List.append_inj' heq rfl
      cases hlast
      rw [← htable]
      exact hc.grantable
    · rw [List.concat_eq_append, ← List.cons_append, ← List.append_assoc] at heq
      exact h.granted before r' k init (List.append_inj' heq rfl).1
  case table =>
    intro hopen' b
    rw [armedFor?_snoc]
    cases ok with
    | false =>
      rw [if_neg (by simp), hc.refused rfl]
      exact h.table hopen b
    | true =>
      obtain ⟨a, ha, hget⟩ := hc.granted rfl
      rw [hget b, ha, ← htable]
      simp only [true_and, Option.some.injEq]

/-- What a message that is handled adds to an account. -/
theorem Account.take (h : Account marker? c answered) (hopen : c.isOpen = true) (t : Target)
    (ht : t.marker? = marker?) (m : Bytes) : ∃ more,
      Account marker? (c.take t m).1 (answered ++ more) ∧ more.map Prod.fst = requestsIn [m] ∧
        more.map Prod.snd = (c.take t m).2.filterMap Event.acknowledgement? := by
  subst ht
  rw [take_eq]
  unfold requestsIn commandsIn
  cases hm : command? m with
  | none => exact ⟨[], by simpa using h, by simp [hm], rfl⟩
  | some command =>
    cases hrequest : command.request? with
    | none =>
      refine ⟨[], ?_, by simp [hm, hrequest], (c.unanswering_handle t hrequest).symm⟩
      rw [List.append_nil]
      exact h.spares (c.spares_handle t hrequest)
    | some r =>
      have hcommand : command = r.command := by
        cases command <;> cases hrequest
        rfl
      obtain ⟨ok, c', hhandle, hsettles⟩ := c.handle_request t r
      refine ⟨[(r, { response := r.response, ok })], ?_, by simp [hm, hrequest], ?_⟩
      · rw [Option.elim_some, hcommand, hhandle]
        exact h.settles hopen hsettles
      · rw [Option.elim_some, hcommand, hhandle]
        rfl

/-- What messages add to an account that are handled until the session is closed. -/
theorem Account.takeAll {t : Target} {ms : List Bytes} (h : Account marker? c answered)
    (ht : t.marker? = marker?) (hdue : c.due ms = ms) : ∃ more,
      Account marker? (c.takeAll t ms).1 (answered ++ more) ∧ more.map Prod.fst = requestsIn ms ∧
        more.map Prod.snd = (c.takeAll t ms).2.filterMap Event.acknowledgement? := by
  induction ms generalizing c answered with
  | nil => exact ⟨[], by simpa using h, rfl, rfl⟩
  | cons m rest ih =>
    by_cases hopen : c.isOpen = true
    · rw [due_cons hopen t m rest] at hdue
      obtain ⟨first, hfirst, hrequest, hanswer⟩ := h.take hopen t ht m
      obtain ⟨more, hmore, hrequests, hanswers⟩ := ih hfirst (List.cons.inj hdue).2
      refine ⟨first ++ more, ?_, ?_, ?_⟩
      · rw [← List.append_assoc]
        exact hmore
      · rw [List.map_append, hrequest, hrequests, ← requestsIn_append, List.singleton_append]
      · rw [List.map_append, hanswer, hanswers, ← List.filterMap_append]
        rfl
    · rw [due_of_closed hopen] at hdue
      cases hdue

end Control

/-! ## Operations -/

namespace Session

variable {τ : Type} [Transport τ]

/-- An update receives nothing behind a message that closes the session. -/
theorem received_due (t : Target) (n : Nat) (s : Session (Tap τ)) : ∃ ms,
    (behind (handleUpTo t n) s).transport.traffic.received = s.transport.traffic.received ++ ms ∧
      s.control.due ms = ms := by
  have hnothing : s.control.due [] = [] := s.control.due_nil
  induction n generalizing s with
  | zero => exact ⟨[], (List.append_nil _).symm, hnothing⟩
  | succ n ih =>
    by_cases hopen : s.control.isOpen = true
    · unfold behind
      rw [handleUpTo_open hopen]
      simp only [Bind.bind, EStateM.bind, onTransport, Transport.receive]
      cases hreceive : Transport.receive s.transport.transport with
      | error e w => exact ⟨[], (List.append_nil _).symm, hnothing⟩
      | ok received w =>
        cases received with
        | none => exact ⟨[], (List.append_nil _).symm, hnothing⟩
        | some m =>
          obtain ⟨ok, w', hreply, hhandle⟩ :=
            handleMessage_spec t m { s with transport := s.transport.take m w }
          have hreceived : w'.traffic.received = s.transport.traffic.received ++ [m] :=
            hreply.received_eq
          simp only [handleNext, Bind.bind, EStateM.bind, hhandle]
          cases ok with
          | false =>
            refine ⟨[m], hreceived, ?_⟩
            rw [Control.due_cons hopen t, Control.due_nil]
          | true =>
            obtain ⟨ms, hrest, hdue⟩ :=
              ih { s with transport := w', control := (s.control.take t m).1 }
                (Control.due_nil _)
            refine ⟨m :: ms, ?_, ?_⟩
            · have hall := congrArg (·.transport.traffic.received)
                (behind_map (handleUpTo t n) (· + 1)
                  { s with transport := w', control := (s.control.take t m).1 })
              refine hall.trans (hrest.trans ?_)
              rw [hreceived, List.append_assoc, List.singleton_append]
            · rw [Control.due_cons hopen t, hdue]
    · unfold behind
      rw [handleUpTo_closed (Bool.not_eq_true _ ▸ hopen)]
      exact ⟨[], (List.append_nil _).symm, hnothing⟩

end Session

namespace Operation

open Session

variable {τ : Type} [Transport τ]

/-- Messages are handled up to one that closes the session. -/
theorem due_handled {op : Operation} {t : Target} (h : op.target? = some t) (s : Session τ) :
    s.control.due (op.handled s) = op.handled s := by
  cases op with
  | update t' =>
    obtain ⟨ms, hreceived, hdue⟩ := received_due t' s.limit s.tapped
    have hafter : after (.update t') s.tapped = behind (handleUpTo t' s.limit) s.tapped :=
      behind_map (Session.update t') (fun _ => false) s.tapped
    have hms : handled (.update t') s = ms := by
      show (traffic (.update t') s).received = ms
      unfold traffic
      rw [hafter]
      exact hreceived
    rw [hms]
    exact hdue
  | message t' m =>
    by_cases hopen : s.control.isOpen = true
    · rw [handled_message_open hopen, Control.due_cons hopen t', Control.due_nil]
    · rw [handled_message_closed hopen, Control.due_nil]
  | _ => cases h

/-- Every other operation leaves the breakpoints alone and sends no acknowledgement. -/
theorem spares_after {op : Operation} (h : op.target? = none) {s : Session τ}
    (hs : s.control.Sound) : s.control.Spares (op.after s).control ∧
      ∃ es ok, Sends es {} ok (op.traffic s) ∧ Unanswering es := by
  cases hsite : op.site? with
  | none =>
    obtain ⟨⟨log, hcontrol⟩, ok, hsends⟩ := notify_spec h hsite s
    refine ⟨?_, _, ok, hsends, ?_⟩
    · rw [hcontrol]
      cases op with
      | finish => exact s.control.spares_close
      | _ => exact Control.spares_of_eq rfl rfl
    · cases op with
      | finish => exact s.control.unanswering_close
      | exception thread =>
        simp [notify, Unanswering, Event.acknowledgement?]
      | _ => rfl
  | some site =>
    have hstop : ∀ site : Site,
        Unanswering [.stopped site.thread site.source site.line] := fun _ => rfl
    cases does op hs with
    | handles t htarget =>
      rw [h] at htarget
      cases htarget
    | notifies hnone =>
      rw [hsite] at hnone
      cases hnone
    | passes site' b hsite' hpasses =>
      rw [hpasses.control, hpasses.traffic]
      exact ⟨Control.spares_of_eq rfl rfl, [], true, .all, rfl⟩
    | follows site' hop hanswer hmode hopen hcontrol htraffic =>
      rw [hcontrol, htraffic]
      exact ⟨Control.spares_of_eq rfl rfl, [], true, .all, rfl⟩
    | stops site' hop hfree hopen hstops =>
      rw [hstops.control, hstops.traffic]
      exact ⟨Control.spares_of_eq rfl rfl, _, true, .all, hstop site'⟩
    | misses site' hop hfree hopen hmisses =>
      rw [hmisses.control, hmisses.traffic]
      exact ⟨Control.spares_of_eq rfl rfl, _, false, .part [] (List.prefix_refl _), hstop site'⟩

theorem handled_other {op : Operation} (h : op.target? = none) (s : Session τ) :
    op.handled s = (op.traffic s).received := by
  cases op with
  | message t m => cases h
  | _ => rfl

end Operation

open Operation

variable {τ : Type} [Transport τ]

/--
A session as it was opened and used while all its messages arrived: what it has handled and what it
has delivered so far. The lines of its programs keep their marks.
-/
inductive Recounts (marker? : Markers) : Session τ → List Bytes → List Bytes → Prop
  | opened (transport : τ) (limit : Nat) : Recounts marker? { transport, limit } [] []
  | after {s : Session τ} {handled delivered : List Bytes} (op : Operation) :
    Recounts marker? s handled delivered → (∀ t, op.target? = some t → t.marker? = marker?) →
    (op.traffic s).lost = [] →
    Recounts marker? (op.after s) (handled ++ op.handled s)
      (delivered ++ (op.traffic s).delivered)
  | moved {s : Session τ} {handled delivered : List Bytes} (transport : τ) :
    Recounts marker? s handled delivered → Recounts marker? { s with transport } handled delivered

namespace Recounts

variable {marker? : Markers} {s : Session τ} {handled delivered : List Bytes}

theorem reachable (h : Recounts marker? s handled delivered) : s.Reachable := by
  induction h with
  | opened transport limit => exact .opened transport limit
  | after op _ _ _ ih => exact .after op ih
  | moved transport _ ih => exact .moved transport ih

/-- The requests and acknowledgements of a session are an account of its breakpoints. -/
theorem account (h : Recounts marker? s handled delivered) : ∃ answered,
    answered.map Prod.fst = requestsIn handled ∧
      answered.map Prod.snd = acknowledgementsIn delivered ∧
        s.control.Account marker? answered := by
  induction h with
  | opened transport limit =>
    refine ⟨[], rfl, rfl, nofun, ?_, fun _ a => rfl⟩
    intro before r k after heq
    simp at heq
  | moved transport _ ih => exact ih
  | @after s handled delivered op h ht hlost ih =>
    obtain ⟨answered, hrequests, hanswers, haccount⟩ := ih
    cases htarget : op.target? with
    | some t =>
      obtain ⟨more, hmore, hrequests', hanswers'⟩ :=
        haccount.takeAll (ht t htarget) (due_handled htarget s)
      obtain ⟨hcontrol, ok, hsends⟩ := handled_spec htarget s
      refine ⟨answered ++ more, ?_, ?_, hcontrol ▸ hmore⟩
      · rw [List.map_append, hrequests, hrequests', requestsIn_append]
      · rw [List.map_append, hanswers, hanswers', acknowledgementsIn_append,
          hsends.delivered_eq hlost, List.nil_append, acknowledgementsIn_toBytes]
    | none =>
      obtain ⟨hspares, es, ok, hsends, hes⟩ := spares_after htarget h.reachable.sound
      refine ⟨answered, ?_, ?_, haccount.spares hspares⟩
      · rw [handled_other htarget, hsends.received_eq, List.append_nil, hrequests]
      · rw [acknowledgementsIn_append, hsends.delivered_eq hlost, List.nil_append,
          acknowledgementsIn_toBytes, hes, List.append_nil, hanswers]

end Recounts

omit [Transport τ] in
/-- A thread that makes no step stops on the lines of its breakpoints. -/
theorem stopsAt_of_run {s : Session τ} {site : Site} (hopen : s.control.isOpen = true)
    (hfree : (s.status site.thread).isSuspended = false)
    (hrun : (s.status site.thread).mode = .run) :
    stopsAt s site = s.control.breakpoints.hits site.address site.thread := by
  have hbreakpoint : (s.breakpointAt? site).isSome =
      s.control.breakpoints.hits site.address site.thread := by
    unfold Session.breakpointAt?
    split <;> simp_all
  unfold stopsAt Session.endsOnLine ThreadStatus.stopsOnLine
  simp [hopen, hfree, hrun, hbreakpoint]

theorem answer_line_of_run {s : Session τ} {site : Site} (hopen : s.control.isOpen = true)
    (hfree : (s.status site.thread).isSuspended = false)
    (hrun : (s.status site.thread).mode = .run) (hdelivers : Delivers s.transport) :
    answer (.line site) s = s.control.breakpoints.hits site.address site.thread := by
  rw [← stopsAt_of_run hopen hfree hrun]
  cases hstop : stopsAt s site with
  | true => exact ((answers_of_stops (line_stops hstop) trivial).stops trivial hdelivers).1
  | false =>
    rw [(line_passes hstop).answer, hfree, Bool.and_false]

theorem hits_iff {marker? : Markers} {b : Breakpoints} {a : CodeAddress} {thread : ThreadId}
    {answered : List (BreakpointRequest × Acknowledgement)}
    (h : b.get? a = armedFor? marker? answered a) :
    b.hits a thread = true ↔ ∃ r, lastGranted? marker? answered a = some r ∧ r.enabled = true ∧
      (r.thread = 0 ∨ r.thread = thread) := by
  unfold Breakpoints.hits
  rw [h]
  unfold armedFor?
  cases lastGranted? marker? answered a with
  | none => simp
  | some r =>
    cases henabled : r.enabled with
    | false => simp [henabled]
    | true =>
      by_cases hall : r.thread = 0 <;>
        simp [henabled, BreakpointRequest.scope, Scope.ofWord, Scope.includes, hall]

/--
A request has a single reply, an acknowledgement of whether the line has code and its address is
free, armed alike or, to be disarmed, armed at all; its address is then armed or disarmed, and else
nothing happens. As long as nothing is lost, the acknowledgements answer the requests in their order
and tell all that is armed, so a thread that runs free stops on a line exactly if the last request
granted for its address armed it for all threads or for this one. The address of a line is that
behind its mark, which has room for an instruction in code below 2^32 bytes.
-/
theorem breakpoints_as_acknowledged :
    (∀ (t : Target) (c : Control) (r : BreakpointRequest), ∃ ok c',
      c.handle t r.command = (c', [.ack r.response ok]) ∧ c.Settles t.marker? r ok c') ∧
    (∀ (marker? : Markers) (r : BreakpointRequest) (mark : CodeAddress),
      marker? r.source r.line = some mark → mark.HasRoom Opcode.tagSize.toUInt32 →
      ∃ a, r.address? marker? = some a ∧ a.function = mark.function ∧
        a.offset.toNat = mark.offset.toNat + Opcode.tagSize) ∧
    ∀ {marker? : Markers} {s : Session τ} {handled delivered : List Bytes},
      Recounts marker? s handled delivered → ∃ answered,
        answered.map Prod.fst = requestsIn handled ∧
        answered.map Prod.snd = acknowledgementsIn delivered ∧
        s.control.Account marker? answered ∧
        ∀ site, s.control.isOpen = true → (s.status site.thread).isSuspended = false →
          (s.status site.thread).mode = .run → Delivers s.transport →
          (answer (.line site) s = true ↔ ∃ r, lastGranted? marker? answered site.address = some r ∧
            r.enabled = true ∧ (r.thread = 0 ∨ r.thread = site.thread)) := by
  refine ⟨fun t c r => c.handle_request t r, fun marker? r mark hmark hroom => ?_, ?_⟩
  · refine ⟨mark.advance Opcode.tagSize.toUInt32, ?_, rfl, CodeAddress.offset_advance hroom⟩
    rw [BreakpointRequest.address?, hmark, Option.map_some]
  intro marker? s handled delivered h
  obtain ⟨answered, hrequests, hanswers, haccount⟩ := h.account
  refine ⟨answered, hrequests, hanswers, haccount, ?_⟩
  intro site hopen hfree hrun hdelivers
  rw [answer_line_of_run hopen hfree hrun hdelivers]
  exact hits_iff (haccount.table hopen site.address)

namespace Example

/-- A line is armed for all threads, which another request and one without code do not change. -/
def asking : List BreakpointRequest :=
  [{ response := 5, source := 42, line := 3, thread := 0, enabled := true },
    { response := 6, source := 42, line := 3, thread := 7, enabled := true },
    { response := 7, source := 42, line := 99, thread := 0, enabled := true }]

/-- The line is disarmed and armed for a single thread. -/
def rearming : List BreakpointRequest :=
  [{ response := 8, source := 42, line := 3, thread := 0, enabled := false },
    { response := 9, source := 42, line := 3, thread := 1, enabled := true }]

/-- All these requests wait. -/
def queued : Link :=
  { commands := { queue := (asking ++ rearming).map fun r => r.command.toBytes } }

end Example

open Example in
/-- Of five requests two are refused, and the last one stops its thread. -/
theorem breakpoints_as_acknowledged_rearmed :
    ∃ answered, answered.map Prod.fst = asking ++ rearming ∧
      answered.map Prod.snd = [{ response := 5, ok := true }, { response := 6, ok := false },
        { response := 7, ok := false }, { response := 8, ok := true },
        { response := 9, ok := true }] ∧
      ∃ r, lastGranted? marked.marker? answered firstLine.address = some r ∧ r.enabled = true ∧
        (r.thread = 0 ∨ r.thread = firstLine.thread) := by
  have hrun : Recounts marked.marker? _ _ _ :=
    .after (.update marked) (.opened queued 64) (by rintro t ⟨⟩; rfl) (by decide +kernel)
  obtain ⟨answered, hrequests, hanswers, -, hline⟩ := breakpoints_as_acknowledged.2.2 hrun
  refine ⟨answered, hrequests.trans (by decide +kernel), hanswers.trans (by decide +kernel), ?_⟩
  exact (hline firstLine (by decide +kernel) (by decide +kernel) (by decide +kernel)
    (delivers_of_open (by decide +kernel))).mp (by decide +kernel)

end ScriptToolchain.Debug
