import ScriptToolchain.Proofs.Suspension

/-!
# Updates in batches

An update takes messages until its limit is reached, none is left or the session
is closed by one of them. What it does depends on the messages it has taken and
not on where the queue was cut (`Consumes.trans`), so small updates, repeated
until nothing comes, end where a single one ends that takes all
(`update_in_batches`).
-/

namespace ScriptToolchain.Debug

/-! ## Transports that work -/

/-- How a transport works: what waits comes in order, and what is sent arrives. -/
structure Mailbox (τ : Type) [Transport τ] where
  works : τ → Prop
  /-- What has come and was not received yet. -/
  waiting : τ → List Bytes
  /-- What was sent. -/
  sent : τ → List Bytes
  receive_none {w : τ} : works w → waiting w = [] →
    ∃ w', Transport.receive w = .ok none w' ∧ works w' ∧ waiting w' = [] ∧ sent w' = sent w
  receive_some {w : τ} {m : Bytes} {rest : List Bytes} : works w → waiting w = m :: rest →
    ∃ w', Transport.receive w = .ok (some m) w' ∧ works w' ∧ waiting w' = rest ∧ sent w' = sent w
  send_ok {w : τ} (m : Bytes) : works w →
    ∃ w', Transport.send m w = .ok () w' ∧ works w' ∧ waiting w' = waiting w ∧
      sent w' = sent w ++ [m]

/-- A link works as long as the debugger has both its ends. -/
def Link.mailbox : Mailbox Link where
  works l := l.commands.senderOpen = true ∧ l.events.receiverOpen = true
  waiting l := l.commands.queue
  sent l := l.events.queue
  receive_none {l} h hempty := by
    refine ⟨l, ?_, h, hempty, rfl⟩
    simp [Transport.receive, Link.onCommands, Channel.receive, hempty, h.1]
  receive_some {l m rest} h hcons := by
    refine ⟨{ l with commands := { l.commands with queue := rest } }, ?_, h, rfl, rfl⟩
    simp [Transport.receive, Link.onCommands, Channel.receive, hcons]
  send_ok {l} m h := by
    refine ⟨{ l with events := { l.events with queue := l.events.queue ++ [m] } }, ?_, h, rfl, rfl⟩
    simp [Transport.send, Link.onEvents, Channel.send, h.2]

/-! ## Commands among messages -/

/-- The command that a message carries. -/
def command? (m : Bytes) : Option Command :=
  (Command.ofBytes m).toOption

/-- The commands among messages. -/
def commandsIn (ms : List Bytes) : List Command :=
  ms.filterMap command?

/-- The messages up to the first that ends the session. -/
def upToEnd : List Bytes → List Bytes
  | [] => []
  | m :: rest => m :: if command? m = some .endSession then [] else upToEnd rest

theorem upToEnd_prefix (ms : List Bytes) : upToEnd ms <+: ms := by
  induction ms with
  | nil => exact List.prefix_refl []
  | cons m rest ih =>
    unfold upToEnd
    rw [List.prefix_cons_inj]
    split
    · exact List.nil_prefix
    · exact ih

/-- Nothing behind an end is among them. -/
theorem length_upToEnd_le {before after : List Bytes} {e : Bytes}
    (he : command? e = some .endSession) :
    (upToEnd (before ++ e :: after)).length ≤ before.length + 1 := by
  induction before with
  | nil => simp [upToEnd, he]
  | cons m rest ih =>
    simp only [List.cons_append, upToEnd]
    split
    · simp
    · simpa using ih

namespace Control

/-- Handles commands in order. -/
def handleAll (c : Control) (t : Target) : List Command → Control × List Event
  | [] => (c, [])
  | command :: rest =>
    let next := (c.handle t command).1.handleAll t rest
    (next.1, (c.handle t command).2 ++ next.2)

theorem take_eq (c : Control) (t : Target) (m : Bytes) :
    c.take t m = (command? m).elim (c, []) (c.handle t) := by
  unfold take command?
  cases Command.ofBytes m <;> rfl

/-- Only the commands among messages do something. -/
theorem takeAll_eq (c : Control) (t : Target) (ms : List Bytes) :
    c.takeAll t ms = c.handleAll t (commandsIn ms) := by
  induction ms generalizing c with
  | nil => rfl
  | cons m rest ih =>
    simp only [takeAll, take_eq, ih, commandsIn, List.filterMap_cons]
    cases command? m <;> rfl

theorem events_takeAll_append (c : Control) (t : Target) (ms ms' : List Bytes) :
    (c.takeAll t (ms ++ ms')).2 = (c.takeAll t ms).2 ++ ((c.takeAll t ms).1.takeAll t ms').2 := by
  induction ms generalizing c with
  | nil => rfl
  | cons m rest ih => simp [takeAll, ih]

/-- Only an end closes a session. -/
theorem isOpen_take {c : Control} (hopen : c.isOpen = true) (t : Target) (m : Bytes) :
    (c.take t m).1.isOpen = true ↔ command? m ≠ some .endSession := by
  rw [take_eq]
  cases hm : command? m with
  | none => simpa using hopen
  | some command =>
    by_cases hend : command = .endSession
    · subst hend
      simp [handle, close, hopen]
    · have hkept : (c.handle t command).1.isOpen = c.isOpen :=
        (moves_handle c t command).isOpen_eq hend
      simp [hkept, hopen, hend]

/-- The messages that are handled if all that wait may be. -/
def due (c : Control) (waiting : List Bytes) : List Bytes :=
  if c.isOpen then upToEnd waiting else []

theorem due_prefix (c : Control) (ms : List Bytes) : c.due ms <+: ms := by
  unfold due
  split
  · exact upToEnd_prefix ms
  · exact List.nil_prefix

theorem due_of_closed {c : Control} (h : ¬ c.isOpen = true) (ms : List Bytes) : c.due ms = [] :=
  if_neg h

theorem due_nil (c : Control) : c.due [] = [] :=
  ite_self _

theorem due_cons {c : Control} (hopen : c.isOpen = true) (t : Target) (m : Bytes)
    (rest : List Bytes) : c.due (m :: rest) = m :: (c.take t m).1.due rest := by
  unfold due
  rw [if_pos hopen, upToEnd]
  congr 1
  have hstays := isOpen_take hopen t m
  split
  · rw [if_neg (by simp_all)]
  · rw [if_pos (by simp_all)]

/-- What is due is still so when some of it has been handled. -/
theorem due_takeAll {c : Control} {t : Target} {n : Nat} {ms : List Bytes}
    (h : n ≤ (c.due ms).length) :
    (c.takeAll t (ms.take n)).1.due (ms.drop n) = (c.due ms).drop n := by
  induction n generalizing c ms with
  | zero => rfl
  | succ n ih =>
    by_cases hopen : c.isOpen = true
    · cases ms with
      | nil => simp [due_nil] at h
      | cons m rest =>
        rw [due_cons hopen t m rest] at h ⊢
        exact ih (Nat.le_of_succ_le_succ h)
    · rw [due_of_closed hopen] at h
      cases h

end Control

/-! ## Updates -/

namespace Session

variable {τ : Type} [Transport τ]

/-- From `s` to `s'` the first `n` messages that waited were handled and their replies sent. -/
structure Consumes (box : Mailbox τ) (t : Target) (n : Nat) (s s' : Session τ) : Prop where
  works : box.works s'.transport
  limit : s'.limit = s.limit
  waiting : box.waiting s'.transport = (box.waiting s.transport).drop n
  control : s'.control =
    (s.control.handleAll t (commandsIn ((box.waiting s.transport).take n))).1
  sent : box.sent s'.transport = box.sent s.transport ++
    (s.control.handleAll t (commandsIn ((box.waiting s.transport).take n))).2.map Event.toBytes

variable {box : Mailbox τ} {t : Target} {s s' s'' : Session τ} {n n' : Nat}

theorem consumes_nothing (h : box.works s.transport) : Consumes box t 0 s s where
  works := h
  limit := rfl
  waiting := rfl
  control := rfl
  sent := (List.append_nil _).symm

theorem Consumes.trans (h : Consumes box t n s s') (h' : Consumes box t n' s' s'') :
    Consumes box t (n + n') s s'' := by
  have hcut : (box.waiting s.transport).take (n + n') =
      (box.waiting s.transport).take n ++ (box.waiting s'.transport).take n' := by
    rw [h.waiting, List.take_add]
  constructor
  case works => exact h'.works
  case limit => rw [h'.limit, h.limit]
  case waiting => rw [h'.waiting, h.waiting, List.drop_drop]
  case control =>
    rw [h'.control, h.control, hcut]
    simp only [← Control.takeAll_eq, Control.takeAll_append]
  case sent =>
    rw [h'.sent, h.sent, h.control, hcut]
    simp only [← Control.takeAll_eq, Control.events_takeAll_append, List.map_append,
      List.append_assoc]

theorem sendAll_works (box : Mailbox τ) (es : List Event) {s : Session τ}
    (hs : box.works s.transport) : ∃ w, sendAll es s = .ok () { s with transport := w } ∧
      box.works w ∧ box.waiting w = box.waiting s.transport ∧
        box.sent w = box.sent s.transport ++ es.map Event.toBytes := by
  induction es generalizing s with
  | nil => exact ⟨s.transport, rfl, hs, rfl, (List.append_nil _).symm⟩
  | cons e rest ih =>
    obtain ⟨w, hsend, hw, hwaiting, hsent⟩ := box.send_ok e.toBytes hs
    obtain ⟨w', hall, hw', hwaiting', hsent'⟩ := ih (s := { s with transport := w }) hw
    refine ⟨w', ?_, hw', hwaiting'.trans hwaiting, ?_⟩
    · unfold sendAll send onTransport
      simp only [Bind.bind, EStateM.bind, hsend, hall]
    · rw [hsent', hsent]
      simp

theorem handleMessage_works (box : Mailbox τ) (t : Target) (m : Bytes) {s : Session τ}
    (hs : box.works s.transport) : ∃ w,
      handleMessage t m s = .ok () { s with transport := w, control := (s.control.take t m).1 } ∧
      box.works w ∧ box.waiting w = box.waiting s.transport ∧
        box.sent w = box.sent s.transport ++ (s.control.take t m).2.map Event.toBytes := by
  unfold handleMessage Control.take
  cases Command.ofBytes m with
  | ok c =>
    exact sendAll_works box (s.control.handle t c).2
      (s := { s with control := (s.control.handle t c).1 }) hs
  | error e => exact sendAll_works box [] hs

/-- The messages that are due are handled, up to the limit. -/
theorem handleUpTo_consumes (box : Mailbox τ) (t : Target) (k : Nat) {s : Session τ}
    (hs : box.works s.transport) : ∃ n s', handleUpTo t k s = .ok n s' ∧ Consumes box t n s s' ∧
      n = min k (s.control.due (box.waiting s.transport)).length := by
  induction k generalizing s with
  | zero => exact ⟨0, s, rfl, consumes_nothing hs, (Nat.zero_min _).symm⟩
  | succ k ih =>
    by_cases hopen : s.control.isOpen = true
    · rw [handleUpTo_open hopen]
      simp only [Bind.bind, EStateM.bind, onTransport]
      cases hwaiting : box.waiting s.transport with
      | nil =>
        obtain ⟨w, hreceive, hw, hwaiting', hsent⟩ := box.receive_none hs hwaiting
        rw [hreceive, Control.due_nil]
        refine ⟨0, { s with transport := w }, rfl, ?_, rfl⟩
        exact
          { works := hw
            limit := rfl
            waiting := by rw [hwaiting]; exact hwaiting'
            control := rfl
            sent := by rw [hsent]; exact (List.append_nil _).symm }
      | cons m rest =>
        obtain ⟨w, hreceive, hw, hwaiting', hsent⟩ := box.receive_some hs hwaiting
        obtain ⟨w', hhandle, hw', hwaiting'', hsent'⟩ :=
          handleMessage_works box t m (s := { s with transport := w }) hw
        have hfirst : Consumes box t 1 s
            { s with transport := w', control := (s.control.take t m).1 } := by
          constructor
          case works => exact hw'
          case limit => rfl
          case waiting => rw [hwaiting]; exact hwaiting''.trans hwaiting'
          case control =>
            rw [hwaiting, ← Control.takeAll_eq]
            exact (congrArg Prod.fst (Control.takeAll_singleton s.control t m)).symm
          case sent =>
            rw [hwaiting, ← Control.takeAll_eq, ← hsent]
            show _ = _ ++ (s.control.takeAll t [m]).2.map Event.toBytes
            rw [Control.takeAll_singleton]
            exact hsent'
        obtain ⟨n, s', hrest, hconsumes, hn⟩ :=
          ih (s := { s with transport := w', control := (s.control.take t m).1 }) hw'
        refine ⟨n + 1, s', ?_, Nat.add_comm 1 n ▸ hfirst.trans hconsumes, ?_⟩
        · rw [hreceive]
          simp only [handleNext, Bind.bind, EStateM.bind, hhandle, hrest]
          rfl
        · rw [hn, hwaiting''.trans hwaiting', Control.due_cons hopen t m rest, List.length_cons,
            Nat.add_min_add_right]
    · rw [handleUpTo_closed (Bool.not_eq_true _ ▸ hopen), Control.due_of_closed hopen]
      exact ⟨0, s, rfl, consumes_nothing hs, rfl⟩

/-- What an update does that has taken `n` messages. -/
structure Batch (box : Mailbox τ) (t : Target) (n : Nat) (s s' : Session τ) : Prop
    extends Consumes box t n s s' where
  bound : n ≤ s.limit
  /-- It stops before its limit only if the session is closed or nothing waits. -/
  stopped : n < s.limit → s'.control.isOpen = false ∨ box.waiting s'.transport = []
  /-- A closed session takes nothing. -/
  closed : s.control.isOpen = false → n = 0
  /-- What waits behind an end stays there. -/
  behindEnd : ∀ before e after, box.waiting s.transport = before ++ e :: after →
    command? e = some .endSession → after <:+ box.waiting s'.transport
  /-- What is no command is counted, and that is all. -/
  passedOver : ∀ m rest, box.waiting s.transport = m :: rest → command? m = none →
    s.control.isOpen = true → s.limit = 1 →
      n = 1 ∧ s'.control = s.control ∧ box.sent s'.transport = box.sent s.transport

theorem Consumes.batch (h : Consumes box t n s s')
    (hn : n = min s.limit (s.control.due (box.waiting s.transport)).length) :
    Batch box t n s s' := by
  have hle : n ≤ (s.control.due (box.waiting s.transport)).length := by
    rw [hn]
    exact Nat.min_le_right ..
  constructor
  case toConsumes => exact h
  case bound =>
    rw [hn]
    exact Nat.min_le_left ..
  case stopped =>
    intro hlt
    -- all that was due was taken, so nothing is due any more
    have hall : n = (s.control.due (box.waiting s.transport)).length := by omega
    have hnone := Control.due_takeAll (t := t) hle
    rw [Control.takeAll_eq, ← h.control, ← h.waiting, hall, List.drop_length] at hnone
    cases hopen : s'.control.isOpen with
    | false => exact .inl rfl
    | true =>
      right
      cases hwaiting : box.waiting s'.transport with
      | nil => rfl
      | cons m rest =>
        rw [hwaiting, Control.due_cons hopen t] at hnone
        cases hnone
  case closed =>
    intro hclosed
    rw [Control.due_of_closed (by simp [hclosed])] at hle
    exact Nat.le_zero.mp hle
  case behindEnd =>
    intro before e after hwaiting he
    have hend : n ≤ before.length + 1 := by
      refine hle.trans ?_
      unfold Control.due
      split
      · rw [hwaiting]
        exact length_upToEnd_le he
      · exact Nat.zero_le _
    have hsuffix := List.drop_suffix_drop_left (before ++ e :: after) hend
    rw [show (before ++ e :: after).drop (before.length + 1) = after by
      simp [List.drop_append]] at hsuffix
    rw [h.waiting, hwaiting]
    exact hsuffix
  case passedOver =>
    intro m rest hwaiting hm hopen hlimit
    have hone : n = 1 := by
      rw [hn, hlimit, hwaiting, Control.due_cons hopen t m rest, List.length_cons]
      omega
    have hnothing : commandsIn ((box.waiting s.transport).take n) = [] := by
      rw [hone, hwaiting]
      simp [commandsIn, hm]
    have hcontrol := h.control
    have hsent := h.sent
    rw [hnothing] at hcontrol hsent
    exact ⟨hone, hcontrol, hsent.trans (List.append_nil _)⟩

/-! ## Many updates -/

/-- From `s` to `s'` there are updates until one takes nothing; they take `n` messages. -/
inductive Drains (t : Target) : Session τ → Nat → Session τ → Prop
  | done {s s' : Session τ} : update t s = .ok 0 s' → Drains t s 0 s'
  | more {s s' s'' : Session τ} {n n' : Nat} : update t s = .ok (n + 1) s' → Drains t s' n' s'' →
    Drains t s (n + 1 + n') s''

theorem Drains.unique (h : Drains t s n s') (h' : Drains t s n' s'') : n = n' ∧ s' = s'' := by
  induction h generalizing n' s'' with
  | done hupdate =>
    cases h' with
    | done hupdate' =>
      rw [hupdate] at hupdate'
      cases hupdate'
      exact ⟨rfl, rfl⟩
    | more hupdate' hrest =>
      rw [hupdate] at hupdate'
      cases hupdate'
  | more hupdate hrest ih =>
    cases h' with
    | done hupdate' =>
      rw [hupdate] at hupdate'
      cases hupdate'
    | more hupdate' hrest' =>
      rw [hupdate] at hupdate'
      cases hupdate'
      obtain ⟨hn, hs⟩ := ih hrest'
      exact ⟨by rw [hn], hs⟩

/-- Updates that may take something take all that is due. -/
theorem drains_due (box : Mailbox τ) (t : Target) {s : Session τ} (hs : box.works s.transport)
    (hlimit : 1 ≤ s.limit) : ∃ n s', Drains t s n s' ∧ Consumes box t n s s' ∧
      n = (s.control.due (box.waiting s.transport)).length := by
  generalize hd : (s.control.due (box.waiting s.transport)).length = d
  induction d using Nat.strong_induction_on generalizing s with
  | _ d ih =>
    obtain ⟨n, s', hupdate, hconsumes, hn⟩ := handleUpTo_consumes box t s.limit hs
    have hle : n ≤ (s.control.due (box.waiting s.transport)).length := by omega
    have hleft : (s'.control.due (box.waiting s'.transport)).length = d - n := by
      rw [hconsumes.control, ← Control.takeAll_eq, hconsumes.waiting, Control.due_takeAll hle,
        List.length_drop, hd]
    cases n with
    | zero => exact ⟨0, s', .done hupdate, hconsumes, by omega⟩
    | succ n =>
      obtain ⟨n', s'', hdrains, hconsumes', hn'⟩ :=
        ih (d - (n + 1)) (by omega) hconsumes.works (hconsumes.limit ▸ hlimit) hleft
      exact ⟨n + 1 + n', s'', .more hupdate hdrains, hconsumes.trans hconsumes', by omega⟩

/--
An update on a transport that works takes messages in order, up to its limit. Where it is cut does
not matter: updates with any limit but zero, repeated until one takes nothing, take the same
messages as a single update that may take all, send the same events and leave the session as it
does.
-/
theorem update_in_batches (box : Mailbox τ) (t : Target) {s : Session τ}
    (hs : box.works s.transport) :
    (∃ n s', update t s = .ok n s' ∧ Batch box t n s s') ∧
      ∀ k whole, 1 ≤ k → (box.waiting s.transport).length ≤ whole →
        ∃ n last, update t { s with limit := whole } = .ok n last ∧
          Batch box t n { s with limit := whole } last ∧
          (∃ s', Drains t { s with limit := k } n s') ∧
          ∀ n' s', Drains t { s with limit := k } n' s' → n' = n ∧ s'.control = last.control ∧
            box.sent s'.transport = box.sent last.transport ∧
            box.waiting s'.transport = box.waiting last.transport := by
  obtain ⟨n, s', hupdate, hconsumes, hn⟩ := handleUpTo_consumes box t s.limit hs
  refine ⟨⟨n, s', hupdate, hconsumes.batch hn⟩, ?_⟩
  intro k whole hk hwhole
  obtain ⟨n, last, hupdate, hconsumes, hn⟩ :=
    handleUpTo_consumes box t whole (s := { s with limit := whole }) hs
  obtain ⟨n', s', hdrains, hconsumes', hn'⟩ := drains_due box t (s := { s with limit := k }) hs hk
  -- the limit of the single update is no limit, so both take all that is due
  have hdue := (s.control.due_prefix (box.waiting s.transport)).length_le
  have hall : n' = n := by
    rw [hn', hn, Nat.min_eq_right (hdue.trans hwhole)]
  subst hall
  refine ⟨n', last, hupdate, hconsumes.batch hn, ⟨s', hdrains⟩, ?_⟩
  intro n'' s'' hdrains'
  obtain ⟨rfl, rfl⟩ := hdrains.unique hdrains'
  refine ⟨rfl, ?_, ?_, ?_⟩
  · rw [hconsumes'.control, hconsumes.control]
  · rw [hconsumes'.sent, hconsumes.sent]
  · rw [hconsumes'.waiting, hconsumes.waiting]

end Session

namespace Example

/-- A program with code for a single line. -/
def marked : Target :=
  { program with
    marker? source line :=
      if source = 42 ∧ line = 3 then some { function := 0, offset := 12 } else none }

/-- Two commands among messages that are none, and an end with a command behind it. -/
def crowded : Session Link where
  transport :=
    { commands :=
        { queue :=
            [#[1, 2, 3], (Command.setBreakpoint 5 42 3 0 true).toBytes, Event.sessionEnd.toBytes,
              (Command.stepInto 1).toBytes ++ #[0], (Command.stepInto 1).toBytes,
              Command.endSession.toBytes, (Command.run 1).toBytes] } }

end Example

open Example Session in
/-- Updates that take two messages each leave the command behind the end, as one update does. -/
theorem update_in_batches_crowded :
    ∃ last, update marked { crowded with limit := 7 } = .ok 6 last ∧
      last.transport.commands.queue = [(Command.run 1).toBytes] ∧
      last.transport.events.queue = [(Event.ack 5 true).toBytes, Event.sessionEnd.toBytes] ∧
      ∃ s', Drains marked { crowded with limit := 2 } 6 s' ∧ s'.control = last.control ∧
        s'.transport.events.queue = last.transport.events.queue ∧
        s'.transport.commands.queue = last.transport.commands.queue := by
  obtain ⟨n, last, hupdate, hbatch, ⟨s', hdrains⟩, hsame⟩ :=
    (update_in_batches Link.mailbox marked (s := crowded) ⟨rfl, rfl⟩).2 2 7 (by decide) (by decide)
  have hlast : behind (update marked) { crowded with limit := 7 } = last := by
    unfold behind
    rw [hupdate]
  have hleft : last.transport.commands.queue = [(Command.run 1).toBytes] := by
    rw [← hlast]
    decide +kernel
  have hreplies : last.transport.events.queue =
      [(Event.ack 5 true).toBytes, Event.sessionEnd.toBytes] := by
    rw [← hlast]
    decide +kernel
  have hn : n = 6 := by
    have hlength := congrArg List.length hbatch.waiting
    rw [show Link.mailbox.waiting last.transport = _ from hleft, List.length_drop] at hlength
    have hseven : (Link.mailbox.waiting crowded.transport).length = 7 := rfl
    simp only [List.length_singleton, hseven] at hlength
    omega
  subst hn
  exact ⟨last, hupdate, hleft, hreplies, s', hdrains, (hsame 6 s' hdrains).2⟩

end ScriptToolchain.Debug
