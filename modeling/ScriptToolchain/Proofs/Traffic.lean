import ScriptToolchain.Proofs.Operations

/-!
# What operations do

For each operation there is one lemma that says what a session knows behind it
and which messages have passed: `handled_spec` for updates and single messages,
`notify_spec` for notifications, and for hooks a lemma for each of their ways.
Events are sent in order, up to the first that cannot be sent.
-/

namespace ScriptToolchain.Debug

/-! ## Sent events -/

/--
The traffic behind events that are sent in order, up to the first that cannot be sent; the flag
says that all were sent.
-/
inductive Sends (es : List Event) (tr : Traffic) : Bool → Traffic → Prop
  | all : Sends es tr true { tr with delivered := tr.delivered ++ es.map Event.toBytes }
  | part (sent : List Event) {e : Event} : sent ++ [e] <+: es →
    Sends es tr false
      { tr with
        delivered := tr.delivered ++ sent.map Event.toBytes, lost := tr.lost ++ [e.toBytes] }

namespace Sends

variable {es es' : List Event} {tr tr' tr'' : Traffic} {ok : Bool}

theorem append (h : Sends es tr true tr') (h' : Sends es' tr' ok tr'') :
    Sends (es ++ es') tr ok tr'' := by
  cases h
  cases h' with
  | all =>
    rw [List.append_assoc, ← List.map_append]
    exact .all
  | part sent hes =>
    rw [List.append_assoc, ← List.map_append]
    apply Sends.part (es ++ sent)
    rw [List.append_assoc]
    exact (List.prefix_append_right_inj es).mpr hes

theorem append_right (h : Sends es tr false tr') (es' : List Event) :
    Sends (es ++ es') tr false tr' := by
  cases h with
  | part sent hes => exact .part sent (hes.trans (List.prefix_append es es'))

/-- What was received meanwhile does not matter. -/
theorem receive (h : Sends es tr ok tr') (ms : List Bytes) :
    Sends es { tr with received := tr.received ++ ms } ok
      { tr' with received := tr'.received ++ ms } := by
  cases h with
  | all => exact .all
  | part sent hes => exact .part sent hes

theorem received_eq (h : Sends es tr ok tr') : tr'.received = tr.received := by
  cases h <;> rfl

/-- Every message is that of one of the events. -/
theorem exists_event (h : Sends es tr ok tr') (hd : tr.delivered = []) (hl : tr.lost = [])
    {m : Bytes} (hm : m ∈ tr'.delivered ++ tr'.lost) : ∃ e ∈ es, m = e.toBytes := by
  cases h with
  | all =>
    rw [hd, hl, List.nil_append, List.append_nil] at hm
    obtain ⟨e, he, rfl⟩ := List.mem_map.mp hm
    exact ⟨e, he, rfl⟩
  | part sent hes =>
    rename_i e
    have hmap : m ∈ (sent ++ [e]).map Event.toBytes := by
      simpa [hd, hl] using hm
    obtain ⟨e', he', rfl⟩ := List.mem_map.mp hmap
    exact ⟨e', hes.subset he', rfl⟩

end Sends

namespace Session

variable {τ : Type} [Transport τ]

/-- A step that ends in `s` and fails unless all was sent. -/
def ended (ok : Bool) (s : Session τ) : EStateM.Result Disconnected (Session τ) Unit :=
  if ok then .ok () s else .error {} s

theorem send_eq (e : Event) (s : Session (Tap τ)) :
    send e s =
      match Transport.send e.toBytes s.transport.transport with
      | .ok () w => .ok () { s with transport := s.transport.deliver e.toBytes w }
      | .error x w => .error x { s with transport := s.transport.lose e.toBytes w } := by
  unfold send onTransport
  simp only [Transport.send]
  cases Transport.send e.toBytes s.transport.transport <;> rfl

theorem send_spec (e : Event) (s : Session (Tap τ)) : ∃ ok w,
    Sends [e] s.transport.traffic ok w.traffic ∧ send e s = ended ok { s with transport := w } := by
  rw [send_eq]
  cases Transport.send e.toBytes s.transport.transport with
  | ok u w => exact ⟨true, s.transport.deliver e.toBytes w, .all, rfl⟩
  | error x w =>
    refine ⟨false, s.transport.lose e.toBytes w, ?_, rfl⟩
    have hpart : Sends [e] s.transport.traffic false _ := .part [] (List.prefix_refl [e])
    rwa [List.map_nil, List.append_nil] at hpart

theorem sendAll_spec (es : List Event) (s : Session (Tap τ)) : ∃ ok w,
    Sends es s.transport.traffic ok w.traffic ∧
      sendAll es s = ended ok { s with transport := w } := by
  induction es generalizing s with
  | nil =>
    refine ⟨true, s.transport, ?_, rfl⟩
    have hall : Sends [] s.transport.traffic true _ := .all
    rwa [List.map_nil, List.append_nil] at hall
  | cons e rest ih =>
    obtain ⟨ok, w, hsends, hsend⟩ := send_spec e s
    unfold sendAll
    simp only [Bind.bind, EStateM.bind, hsend]
    cases ok with
    | false => exact ⟨false, w, hsends.append_right rest, rfl⟩
    | true =>
      obtain ⟨ok, w', hrest, hall⟩ := ih { s with transport := w }
      exact ⟨ok, w', hsends.append hrest, hall⟩

theorem perform_spec (change : Control → Control × List Event) (s : Session (Tap τ)) :
    ∃ ok w, Sends (change s.control).2 s.transport.traffic ok w.traffic ∧
      perform change s = ended ok { s with transport := w, control := (change s.control).1 } :=
  sendAll_spec (change s.control).2 { s with control := (change s.control).1 }

/-- The kept lines follow the exception; they are still kept if it could not be sent. -/
theorem exception_spec (thread : ThreadId) (s : Session (Tap τ)) : ∃ ok w log,
    Sends (.exception thread :: s.control.log.map .message) s.transport.traffic ok w.traffic ∧
      exception thread s =
        ended ok { s with transport := w, control := { s.control with log } } := by
  obtain ⟨ok, w, hsends, hsend⟩ := send_spec (.exception thread) s
  unfold exception
  simp only [Bind.bind, EStateM.bind, hsend]
  cases ok with
  | false =>
    exact ⟨false, w, s.control.log, hsends.append_right (s.control.log.map .message), rfl⟩
  | true =>
    obtain ⟨ok, w', hrest, hall⟩ := sendAll_spec (s.control.log.map .message)
      { s with transport := w, control := { s.control with log := [] } }
    exact ⟨ok, w', [], hsends.append hrest, hall⟩

end Session

/-! ## Handled messages -/

namespace Control

/-- Handles a message; one that is no command is passed over. -/
def take (c : Control) (t : Target) (m : Bytes) : Control × List Event :=
  match Command.ofBytes m with
  | .ok command => c.handle t command
  | .error _ => (c, [])

/-- Handles messages in order. -/
def takeAll (c : Control) (t : Target) : List Bytes → Control × List Event
  | [] => (c, [])
  | m :: rest =>
    let next := (c.take t m).1.takeAll t rest
    (next.1, (c.take t m).2 ++ next.2)

@[simp]
theorem takeAll_nil (c : Control) (t : Target) : c.takeAll t [] = (c, []) :=
  rfl

@[simp]
theorem takeAll_singleton (c : Control) (t : Target) (m : Bytes) :
    c.takeAll t [m] = c.take t m := by
  simp [takeAll]

theorem takeAll_append (c : Control) (t : Target) (ms ms' : List Bytes) :
    (c.takeAll t (ms ++ ms')).1 = ((c.takeAll t ms).1.takeAll t ms').1 := by
  induction ms generalizing c with
  | nil => rfl
  | cons m rest ih => exact ih (c.take t m).1

end Control

namespace Session

variable {τ : Type} [Transport τ]

theorem handleMessage_spec (t : Target) (m : Bytes) (s : Session (Tap τ)) : ∃ ok w,
    Sends (s.control.take t m).2 s.transport.traffic ok w.traffic ∧
      handleMessage t m s =
        ended ok { s with transport := w, control := (s.control.take t m).1 } := by
  unfold handleMessage Control.take
  cases Command.ofBytes m with
  | ok c => exact perform_spec (·.handle t c) s
  | error e => exact sendAll_spec [] s

/-- From `s` to `s'` the messages `ms` were received and handled, up to a reply that was lost. -/
def Handles (t : Target) (ms : List Bytes) (s s' : Session (Tap τ)) : Prop :=
  ∃ ok w, Sends (s.control.takeAll t ms).2
      { s.transport.traffic with received := s.transport.traffic.received ++ ms } ok w.traffic ∧
    s' = { s with transport := w, control := (s.control.takeAll t ms).1 }

omit [Transport τ] in
theorem handles_nothing (t : Target) (s : Session (Tap τ)) {w : Tap τ}
    (h : w.traffic = s.transport.traffic) : Handles t [] s { s with transport := w } := by
  refine ⟨true, w, ?_, rfl⟩
  have hall : Sends [] w.traffic true _ := .all
  rw [h, List.append_nil]
  rwa [List.map_nil, List.append_nil, h] at hall

/-- The messages that an update receives are handled in order, until a reply cannot be sent. -/
theorem handleUpTo_spec (t : Target) (n : Nat) (s : Session (Tap τ)) :
    ∃ ms, Handles t ms s (behind (handleUpTo t n) s) := by
  induction n generalizing s with
  | zero => exact ⟨[], handles_nothing t s rfl⟩
  | succ n ih =>
    by_cases hopen : s.control.isOpen = true
    · unfold behind
      rw [handleUpTo_open hopen]
      simp only [Bind.bind, EStateM.bind, onTransport, Transport.receive]
      cases hreceive : Transport.receive s.transport.transport with
      | error e w => exact ⟨[], handles_nothing t s rfl⟩
      | ok received w =>
        cases received with
        | none => exact ⟨[], handles_nothing t s rfl⟩
        | some m =>
          obtain ⟨ok, w', hreply, hhandle⟩ :=
            handleMessage_spec t m { s with transport := s.transport.take m w }
          simp only [handleNext, Bind.bind, EStateM.bind, hhandle]
          cases ok with
          | false =>
            -- the message was handled, but the lost reply ends the update
            refine ⟨[m], false, w', ?_, rfl⟩
            exact hreply.append_right []
          | true =>
            obtain ⟨ms, ok, w'', hrest, hbehind⟩ :=
              ih { s with transport := w', control := (s.control.take t m).1 }
            refine ⟨m :: ms, ok, w'', ?_, ?_⟩
            · have hfirst := hreply.receive ms
              rw [show (s.transport.take m w).traffic.received = s.transport.traffic.received ++ [m]
                from rfl, List.append_assoc] at hfirst
              exact hfirst.append hrest
            · exact (behind_map (handleUpTo t n) (· + 1) _).trans hbehind
    · unfold behind
      rw [handleUpTo_closed (Bool.not_eq_true _ ▸ hopen)]
      exact ⟨[], handles_nothing t s rfl⟩

end Session

/-! ## What an operation does -/

namespace Operation

open Session

variable {τ : Type} [Transport τ]

/-- The program to which the handled messages belong. -/
def target? : Operation → Option Target
  | .update t | .message t _ => some t
  | _ => none

/-- Where a hook is called. -/
def site? : Operation → Option Site
  | .line site | .call site | .leave site => some site
  | _ => none

/-- The messages that are handled. -/
def handled (op : Operation) (s : Session τ) : List Bytes :=
  match op with
  | .message _ m => if s.control.isOpen then [m] else []
  | op => (op.traffic s).received

/-- What a notification changes, and the events that it sends. -/
def notify : Operation → Control → Control × List Event
  | .queueLog text, c => ({ c with log := c.log ++ [text] }, [])
  | .exception thread, c => (c, .exception thread :: c.log.map .message)
  | .threadStarted thread, c => (c, [.threadStarted thread])
  | .threadStopped thread, c =>
    ({ c with threads := c.threads.resume thread }, [.threadStopped thread])
  | .sendMessage text, c => (c, [.message text])
  | .sendError text, c => (c, [.error text])
  | .finish, c => c.close
  | _, c => (c, [])

/-- What is seen on a fresh tap. -/
theorem seen (op : Operation) (s : Session τ) {s' : Session (Tap τ)} (h : op.after s.tapped = s') :
    (op.after s).control = s'.control ∧ op.traffic s = s'.transport.traffic := by
  rw [control_after, traffic, h]
  exact ⟨rfl, rfl⟩

/-- What is seen of an operation that only takes a step. -/
theorem seen_act (op : Operation) (s : Session τ) (ok : Bool) {act : Act (Tap τ) Unit}
    {s' : Session (Tap τ)} (hstep : op.step = (do act; return false))
    (hact : act s.tapped = ended ok s') :
    (op.after s).control = s'.control ∧ op.traffic s = s'.transport.traffic := by
  apply seen op s
  unfold after
  rw [hstep]
  refine (behind_map act (fun _ => false) s.tapped).trans ?_
  unfold behind
  rw [hact]
  cases ok <;> rfl

theorem handled_message_open {t : Target} {m : Bytes} {s : Session τ}
    (h : s.control.isOpen = true) :
    handled (.message t m) s = [m] :=
  if_pos h

theorem handled_message_closed {t : Target} {m : Bytes} {s : Session τ}
    (h : ¬ s.control.isOpen = true) : handled (.message t m) s = [] :=
  if_neg h

theorem handled_spec {op : Operation} {t : Target} (h : op.target? = some t) (s : Session τ) :
    (op.after s).control = (s.control.takeAll t (op.handled s)).1 ∧
      ∃ ok, Sends (s.control.takeAll t (op.handled s)).2 { received := (op.traffic s).received } ok
        (op.traffic s) := by
  cases op with
  | update t' =>
    cases h
    obtain ⟨ms, ok, w, hsends, hafter⟩ := handleUpTo_spec t s.limit s.tapped
    obtain ⟨hcontrol, htraffic⟩ := seen (.update t) s
      ((behind_map (Session.update t) (fun _ => false) s.tapped).trans hafter)
    have hms : handled (.update t) s = ms := by
      show (traffic (.update t) s).received = ms
      rw [htraffic]
      exact hsends.received_eq
    have hreceived : (traffic (.update t) s).received = ms := hms
    rw [hms, hreceived, hcontrol, htraffic]
    exact ⟨rfl, ok, hsends⟩
  | message t' m =>
    cases h
    by_cases hopen : s.control.isOpen = true
    · obtain ⟨ok, w, hsends, hhandle⟩ := handleMessage_spec t m s.tapped
      obtain ⟨hcontrol, htraffic⟩ := seen_act (.message t m) s ok rfl
        ((if_pos (show s.tapped.control.isOpen = true from hopen)).trans hhandle)
      have hreceived : (traffic (.message t m) s).received = [] := by
        rw [htraffic]
        exact hsends.received_eq
      rw [handled_message_open hopen, Control.takeAll_singleton, hreceived, hcontrol, htraffic]
      exact ⟨rfl, ok, hsends⟩
    · obtain ⟨hcontrol, htraffic⟩ := seen_act (.message t m) s true rfl
        (if_neg (show ¬ s.tapped.control.isOpen = true from hopen))
      rw [handled_message_closed hopen, Control.takeAll_nil, hcontrol, htraffic]
      exact ⟨rfl, true, .all⟩
  | _ => cases h

/-- The messages of a notification, and what is known behind it but for the kept lines. -/
theorem notify_spec {op : Operation} (ht : op.target? = none) (hs : op.site? = none)
    (s : Session τ) :
    (∃ log, (op.after s).control = { (op.notify s.control).1 with log }) ∧
      ∃ ok, Sends (op.notify s.control).2 {} ok (op.traffic s) := by
  -- most notifications send an event, or make a change and send what it brings
  have hsend : ∀ e, op.step = (do send e; return false : Act (Tap τ) Bool) →
      (op.after s).control = s.control ∧ ∃ ok, Sends [e] {} ok (op.traffic s) := by
    intro e hstep
    obtain ⟨ok, w, hsends, hsend⟩ := send_spec e s.tapped
    obtain ⟨hcontrol, htraffic⟩ := seen_act op s ok hstep hsend
    rw [hcontrol, htraffic]
    exact ⟨rfl, ok, hsends⟩
  have hperform : ∀ change, op.step = (do perform change; return false : Act (Tap τ) Bool) →
      (op.after s).control = (change s.control).1 ∧
        ∃ ok, Sends (change s.control).2 {} ok (op.traffic s) := by
    intro change hstep
    obtain ⟨ok, w, hsends, hperform⟩ := perform_spec change s.tapped
    obtain ⟨hcontrol, htraffic⟩ := seen_act op s ok hstep hperform
    rw [hcontrol, htraffic]
    exact ⟨rfl, ok, hsends⟩
  cases op with
  | queueLog text =>
    obtain ⟨hcontrol, htraffic⟩ := seen (.queueLog text) s rfl
    rw [hcontrol, htraffic]
    exact ⟨⟨_, rfl⟩, true, .all⟩
  | exception thread =>
    obtain ⟨ok, w, log, hsends, hexception⟩ := exception_spec thread s.tapped
    obtain ⟨hcontrol, htraffic⟩ := seen_act (.exception thread) s ok rfl hexception
    rw [hcontrol, htraffic]
    exact ⟨⟨log, rfl⟩, ok, hsends⟩
  | threadStarted thread =>
    obtain ⟨hcontrol, hsends⟩ := hsend _ rfl
    exact ⟨⟨_, hcontrol⟩, hsends⟩
  | threadStopped thread =>
    obtain ⟨hcontrol, hsends⟩ := hperform _ rfl
    exact ⟨⟨_, hcontrol⟩, hsends⟩
  | sendMessage text =>
    obtain ⟨hcontrol, hsends⟩ := hsend _ rfl
    exact ⟨⟨_, hcontrol⟩, hsends⟩
  | sendError text =>
    obtain ⟨hcontrol, hsends⟩ := hsend _ rfl
    exact ⟨⟨_, hcontrol⟩, hsends⟩
  | finish =>
    obtain ⟨hcontrol, hsends⟩ := hperform _ rfl
    exact ⟨⟨_, hcontrol⟩, hsends⟩
  | update t => cases ht
  | message t m => cases ht
  | line site => cases hs
  | call site => cases hs
  | leave site => cases hs

/-! ### Hooks -/

/-- What is seen of a hook. -/
theorem seen_hook (op : Operation) {h : Session (Tap τ) → Bool × Session (Tap τ)} {s : Session τ}
    {b : Bool} {s' : Session (Tap τ)} (hstep : op.step = hook h) (hrun : h s.tapped = (b, s')) :
    op.answer s = b ∧ (op.after s).control = s'.control ∧ op.traffic s = s'.transport.traffic := by
  have hafter : op.after s.tapped = s' := by
    unfold after behind
    rw [hstep]
    show (h s.tapped).2 = s'
    rw [hrun]
  refine ⟨?_, seen op s hafter⟩
  rw [answer_tapped]
  unfold answer
  rw [hstep]
  show (h s.tapped).1 = b
  rw [hrun]

/-- The hook answers `b`, and nothing else happens. -/
structure Passes (op : Operation) (s : Session τ) (b : Bool) : Prop where
  answer : op.answer s = b
  control : (op.after s).control = s.control
  traffic : op.traffic s = {}

/-- The message that a thread has stopped. -/
def stopMessage (site : Site) : Bytes :=
  (Event.stopped site.thread site.source site.line).toBytes

/-- The hook has told that the thread stops, and the thread is suspended. -/
structure Stops (op : Operation) (s : Session τ) (site : Site) : Prop where
  answer : op.answer s = true
  control : (op.after s).control =
    { s.control with threads := s.control.threads.suspend site.thread }
  traffic : op.traffic s = { delivered := [stopMessage site] }

/-- The hook could not tell that the thread stops, which goes on. -/
structure Misses (op : Operation) (s : Session τ) (site : Site) : Prop where
  /-- The message could not be sent. -/
  failed : ∃ e w, Transport.send (stopMessage site) s.transport = .error e w
  answer : op.answer s = false
  control : (op.after s).control = s.control
  traffic : op.traffic s = { lost := [stopMessage site] }

theorem stops_or_misses {op : Operation} {h : Session (Tap τ) → Bool × Session (Tap τ)}
    {s : Session τ} {site : Site} (hstep : op.step = hook h)
    (hrun : h s.tapped = stop site s.tapped) :
    Stops op s site ∨ Misses op s site := by
  unfold stop at hrun
  rw [send_eq] at hrun
  cases htransport : Transport.send (Event.stopped site.thread site.source site.line).toBytes
      s.tapped.transport.transport with
  | ok u w =>
    rw [htransport] at hrun
    obtain ⟨hanswer, hcontrol, htraffic⟩ := seen_hook op hstep hrun
    exact .inl ⟨hanswer, hcontrol, htraffic⟩
  | error e w =>
    rw [htransport] at hrun
    obtain ⟨hanswer, hcontrol, htraffic⟩ := seen_hook op hstep hrun
    exact .inr ⟨⟨e, w, htransport⟩, hanswer, hcontrol, htraffic⟩

/-- The line ends at a breakpoint or ends a step, and the thread is not suspended yet. -/
def stopsAt (s : Session τ) (site : Site) : Bool :=
  s.control.isOpen && !(s.status site.thread).isSuspended && s.endsOnLine site

theorem line_passes {s : Session τ} {site : Site} (h : stopsAt s site = false) :
    Passes (.line site) s (s.control.isOpen && (s.status site.thread).isSuspended) := by
  have hrun : Session.line site s.tapped =
      (s.control.isOpen && (s.status site.thread).isSuspended, s.tapped) := by
    unfold stopsAt at h
    unfold Session.line
    rw [show s.tapped.control = s.control from rfl, show s.tapped.status = s.status from rfl,
      show s.tapped.endsOnLine site = s.endsOnLine site from rfl]
    cases hopen : s.control.isOpen <;> cases hheld : (s.status site.thread).isSuspended <;>
      cases hends : s.endsOnLine site <;> simp_all
  obtain ⟨hanswer, hcontrol, htraffic⟩ := seen_hook (.line site) rfl hrun
  exact ⟨hanswer, hcontrol, htraffic⟩

theorem line_stops {s : Session τ} {site : Site} (h : stopsAt s site = true) :
    Stops (.line site) s site ∨ Misses (.line site) s site := by
  refine stops_or_misses (h := Session.line site) rfl ?_
  unfold stopsAt at h
  unfold Session.line
  rw [show s.tapped.control = s.control from rfl, show s.tapped.status = s.status from rfl,
    show s.tapped.endsOnLine site = s.endsOnLine site from rfl]
  simp only [Bool.and_eq_true, Bool.not_eq_true'] at h
  obtain ⟨⟨hopen, hheld⟩, hends⟩ := h
  simp [hopen, hheld, hends]

/-- The session is open, and the frame that is left ends a step. -/
def stopsBehind (s : Session τ) (site : Site) : Bool :=
  s.control.isOpen && (s.status site.thread).stopsOnReturn site.base

theorem leave_passes {s : Session τ} {site : Site} (h : stopsBehind s site = false) :
    Passes (.leave site) s false := by
  have hrun : Session.leave site s.tapped = (false, s.tapped) := by
    apply if_neg
    show ¬ stopsBehind s site = true
    rw [h]
    exact Bool.false_ne_true
  obtain ⟨hanswer, hcontrol, htraffic⟩ := seen_hook (.leave site) rfl hrun
  exact ⟨hanswer, hcontrol, htraffic⟩

theorem leave_stops {s : Session τ} {site : Site} (h : stopsBehind s site = true) :
    Stops (.leave site) s site ∨ Misses (.leave site) s site :=
  stops_or_misses (h := Session.leave site) rfl (if_pos h)

theorem call_passes {s : Session τ} {site : Site}
    (h : (s.control.isOpen && (s.status site.thread).followsCall) = false) :
    Passes (.call site) s false := by
  have hrun : Session.call site s.tapped = (false, s.tapped) := by
    apply if_neg
    show ¬ (s.control.isOpen && (s.status site.thread).followsCall) = true
    rw [h]
    exact Bool.false_ne_true
  obtain ⟨hanswer, hcontrol, htraffic⟩ := seen_hook (.call site) rfl hrun
  exact ⟨hanswer, hcontrol, htraffic⟩

/-- A step into functions goes on in the function that is entered, without a word. -/
theorem call_follows {s : Session τ} {site : Site}
    (h : (s.control.isOpen && (s.status site.thread).followsCall) = true) :
    answer (.call site) s = false ∧
      (after (.call site) s).control =
        { s.control with threads := s.control.threads.begin site.thread .into site.base } ∧
      traffic (.call site) s = {} :=
  seen_hook (.call site) (h := Session.call site) rfl (if_pos h)

end Operation

end ScriptToolchain.Debug
