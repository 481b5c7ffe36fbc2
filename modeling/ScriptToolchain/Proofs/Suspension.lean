import ScriptToolchain.Proofs.Holding

/-!
# Suspended threads

`Does` says all that an operation can do to the threads. A thread is suspended
only by a hook that has told so; nothing more is told of it while it is
suspended; it is freed by a command, by its end or by the end of the session;
and nothing else than these touches it (`suspension_rules`).
-/

namespace ScriptToolchain.Debug

variable {τ : Type} [Transport τ]

namespace Operation

/-- The operation handles the command for the program. -/
def Handles (op : Operation) (t : Target) (command : Command) (s : Session τ) : Prop :=
  op.target? = some t ∧ ∃ m ∈ op.handled s, Command.ofBytes m = .ok command

/-- The operation is about the thread: a hook of it, its end, a command on it or the end of all. -/
def Touches (op : Operation) (thread : ThreadId) (s : Session τ) : Prop :=
  (∃ site, op.site? = some site ∧ site.thread = thread) ∨ op = .threadStopped thread ∨
    op = .finish ∨ ∃ t command, op.Handles t command s ∧ command.Touches thread

/-- The operation is one that frees the thread if it is suspended. -/
def Frees (op : Operation) (thread : ThreadId) (s : Session τ) : Prop :=
  op = .threadStopped thread ∨ op = .finish ∨
    ∃ t command, op.Handles t command s ∧ command.Frees t thread

/-- No message of the operation tells a stop of the thread. -/
def Silent (op : Operation) (thread : ThreadId) (s : Session τ) : Prop :=
  ∀ m ∈ (op.traffic s).delivered ++ (op.traffic s).lost, ¬ TellsStop thread m

/-- What an operation does to the threads. -/
inductive Does (op : Operation) (s : Session τ) : Prop
  | handles (t : Target) (htarget : op.target? = some t)
    (hcontrol : (op.after s).control = (s.control.takeAll t (op.handled s)).1)
    (hsilent : ∀ thread, op.Silent thread s)
  | notifies (hsite : op.site? = none)
    (hthreads : (op.after s).control.threads = (op.notify s.control).1.threads)
    (hopen : (op.after s).control.isOpen = (op.notify s.control).1.isOpen)
    (hsilent : ∀ thread, op.Silent thread s)
  /-- A hook that does nothing; only a line of a suspended thread is answered by `true`. -/
  | passes (site : Site) (b : Bool) (hsite : op.site? = some site) (hpasses : op.Passes s b)
    (hanswer : b = true ↔ op = .line site ∧ s.control.isOpen = true ∧
      (s.status site.thread).isSuspended = true)
  | follows (site : Site) (hop : op = .call site) (hanswer : op.answer s = false)
    (hmode : (s.status site.thread).mode = .into) (hopen : s.control.isOpen = true)
    (hcontrol : (op.after s).control =
      { s.control with threads := s.control.threads.begin site.thread .into site.base })
    (htraffic : op.traffic s = {})
  | stops (site : Site) (hop : op = .line site ∨ op = .leave site)
    (hfree : (s.status site.thread).isSuspended = false) (hopen : s.control.isOpen = true)
    (hstops : op.Stops s site)
  | misses (site : Site) (hop : op = .line site ∨ op = .leave site)
    (hfree : (s.status site.thread).isSuspended = false) (hopen : s.control.isOpen = true)
    (hmisses : op.Misses s site)

theorem silent_of_sends {op : Operation} {s : Session τ} {es : List Event} {tr : Traffic}
    {ok : Bool} (h : Sends es tr ok (op.traffic s)) (hd : tr.delivered = []) (hl : tr.lost = [])
    (hquiet : Quiet es) (thread : ThreadId) : op.Silent thread s := by
  intro m hm
  obtain ⟨e, he, rfl⟩ := h.exists_event hd hl hm
  exact hquiet.not_tellsStop he thread

theorem does_line {s : Session τ} (site : Site) : Does (.line site) s := by
  by_cases hstop : stopsAt s site = true
  · have hguard := hstop
    simp only [stopsAt, Bool.and_eq_true, Bool.not_eq_true'] at hguard
    obtain ⟨⟨hopen, hfree⟩, -⟩ := hguard
    rcases line_stops hstop with hstops | hmisses
    · exact .stops site (.inl rfl) hfree hopen hstops
    · exact .misses site (.inl rfl) hfree hopen hmisses
  · refine .passes site _ rfl (line_passes (Bool.not_eq_true _ ▸ hstop)) ?_
    rw [Bool.and_eq_true]
    exact ⟨fun h => ⟨rfl, h⟩, fun h => h.2⟩

theorem does_call {s : Session τ} (site : Site) : Does (.call site) s := by
  by_cases hfollow : (s.control.isOpen && (s.status site.thread).followsCall) = true
  · obtain ⟨hanswer, hcontrol, htraffic⟩ := call_follows hfollow
    rw [Bool.and_eq_true] at hfollow
    obtain ⟨hopen, hmode⟩ := hfollow
    exact .follows site rfl hanswer (of_decide_eq_true hmode) hopen hcontrol htraffic
  · refine .passes site false rfl (call_passes (Bool.not_eq_true _ ▸ hfollow)) ?_
    simp

theorem does_leave {s : Session τ} (hs : s.control.Sound) (site : Site) : Does (.leave site) s := by
  by_cases hstop : stopsBehind s site = true
  · have hguard := hstop
    simp only [stopsBehind, ThreadStatus.stopsOnReturn, Bool.and_eq_true] at hguard
    obtain ⟨hopen, hmode, -⟩ := hguard
    -- only a thread that makes a step stops at a return
    have hfree : (s.status site.thread).isSuspended = false :=
      ((hs site.thread).1.stepping (of_decide_eq_true hmode)).2
    rcases leave_stops hstop with hstops | hmisses
    · exact .stops site (.inr rfl) hfree hopen hstops
    · exact .misses site (.inr rfl) hfree hopen hmisses
  · refine .passes site false rfl (leave_passes (Bool.not_eq_true _ ▸ hstop)) ?_
    simp

theorem does (op : Operation) {s : Session τ} (hs : s.control.Sound) : op.Does s := by
  cases htarget : op.target? with
  | some t =>
    obtain ⟨hcontrol, ok, hsends⟩ := handled_spec htarget s
    exact .handles t htarget hcontrol (silent_of_sends hsends rfl rfl (quiet_takeAll _ _ _))
  | none =>
    cases hsite : op.site? with
    | none =>
      obtain ⟨⟨log, hcontrol⟩, ok, hsends⟩ := notify_spec htarget hsite s
      exact .notifies hsite (by rw [hcontrol]) (by rw [hcontrol])
        (silent_of_sends hsends rfl rfl (quiet_notify _ _))
    | some site =>
      cases op with
      | line site' => exact does_line site'
      | call site' => exact does_call site'
      | leave site' => exact does_leave hs site'
      | _ => cases hsite

theorem site?_ne_some {op : Operation} {t : Target} {site : Site} (h : op.target? = some t) :
    op.site? ≠ some site := by
  intro hsite
  cases op <;> first | cases h; done | cases hsite

theorem site?_eq {op : Operation} {site : Site} (h : op = .line site ∨ op = .leave site) :
    op.site? = some site := by
  rcases h with h | h <;> rw [h] <;> rfl

/-- What a notification does to the threads. -/
theorem notify_cases (op : Operation) (c : Control) :
    (op.notify c).1.threads = c.threads ∧ (op.notify c).1.isOpen = c.isOpen ∨
      (∃ thread, op = .threadStopped thread ∧ (op.notify c).1.threads = c.threads.resume thread ∧
        (op.notify c).1.isOpen = c.isOpen) ∨
      op = .finish ∧ (op.notify c).1.threads = {} := by
  cases op with
  | threadStopped thread => exact .inr (.inl ⟨thread, rfl, rfl, rfl⟩)
  | finish =>
    show (c.close.1.threads = _ ∧ c.close.1.isOpen = _) ∨ _ ∨ _ ∧ c.close.1.threads = _
    unfold Control.close
    split
    · exact .inr (.inr ⟨rfl, rfl⟩)
    · exact .inl ⟨rfl, rfl⟩
  | _ => exact .inl ⟨rfl, rfl⟩

/-- An operation that is not about a thread leaves it as it is. -/
theorem status_after {op : Operation} {s : Session τ} (hs : s.control.Sound) {thread : ThreadId}
    (huntouched : ¬ op.Touches thread s) : (op.after s).status thread = s.status thread := by
  unfold Touches at huntouched
  push Not at huntouched
  obtain ⟨hsite', hstopped, hfinish, hcommand⟩ := huntouched
  show (op.after s).control.threads.status thread = s.control.threads.status thread
  cases does op hs with
  | handles t htarget hcontrol hsilent =>
    rw [hcontrol]
    apply Control.status_takeAll
    intro m hm command hread
    exact hcommand t command ⟨htarget, m, hm, hread⟩
  | notifies hsite hthreads hopen hsilent =>
    rw [hthreads]
    rcases notify_cases op s.control with ⟨heq, -⟩ | ⟨id, hop, heq, -⟩ | ⟨hop, -⟩
    · rw [heq]
    · have hne : id ≠ thread := by
        intro hid
        rw [hid] at hop
        exact hstopped hop
      rw [heq, Threads.status_resume, if_neg hne]
    · exact absurd hop hfinish
  | passes site b hsite hpasses hanswer => rw [hpasses.control]
  | follows site hop hanswer hmode hopen hcontrol htraffic =>
    have hne : site.thread ≠ thread := hsite' site (by rw [hop]; rfl)
    rw [hcontrol]
    exact (Threads.status_begin ..).trans (if_neg hne)
  | stops site hop hfree hopen hstops =>
    have hne : site.thread ≠ thread := hsite' site (site?_eq hop)
    rw [hstops.control]
    exact (Threads.status_suspend ..).trans (if_neg hne)
  | misses site hop hfree hopen hmisses => rw [hmisses.control]

/-- The threads stay as they should be held. -/
theorem sound_after (op : Operation) {s : Session τ} (hs : s.control.Sound) :
    (op.after s).control.Sound := by
  intro thread
  -- what is written is always free, stepping or suspended, and each of these is clean
  cases does op hs with
  | handles t htarget hcontrol hsilent =>
    rw [hcontrol]
    exact hs.takeAll thread
  | notifies hsite hthreads hopen hsilent =>
    rw [hthreads, hopen]
    rcases notify_cases op s.control with ⟨heq, heq'⟩ | ⟨id, -, heq, heq'⟩ | ⟨-, heq⟩
    · rw [heq, heq']
      exact hs thread
    · rw [heq, heq', Threads.status_resume]
      split
      · exact ⟨ThreadStatus.clean_free, fun hheld => by cases hheld⟩
      · exact hs thread
    · rw [heq]
      exact ⟨ThreadStatus.clean_free, fun hheld => by cases hheld⟩
  | passes site b hsite hpasses hanswer =>
    rw [hpasses.control]
    exact hs thread
  | follows site hop hanswer hmode hopen hcontrol htraffic =>
    rw [hcontrol]
    dsimp only
    rw [Threads.status_begin]
    split
    · exact ⟨ThreadStatus.clean_stepping .into site.base, fun hheld => by cases hheld⟩
    · exact hs thread
  | stops site hop hfree hopen hstops =>
    rw [hstops.control]
    dsimp only
    rw [Threads.status_suspend]
    split
    · exact ⟨ThreadStatus.clean_suspended, fun _ => hopen⟩
    · exact hs thread
  | misses site hop hfree hopen hmisses =>
    rw [hmisses.control]
    exact hs thread

end Operation

namespace Session

/-- A session as it can be: opened, behind an operation, or with a transport that has changed. -/
inductive Reachable : Session τ → Prop
  | opened (transport : τ) (limit : Nat) : Reachable { transport, limit }
  | after {s : Session τ} (op : Operation) : Reachable s → Reachable (op.after s)
  | moved {s : Session τ} (transport : τ) : Reachable s → Reachable { s with transport }

theorem Reachable.sound {s : Session τ} (h : Reachable s) : s.control.Sound := by
  induction h with
  | opened transport limit =>
    intro thread
    exact ⟨ThreadStatus.clean_free, fun hheld => by cases hheld⟩
  | after op _ ih => exact op.sound_after ih
  | moved transport _ ih => exact ih

end Session

open Operation

/-- The rules of suspension for a thread, in an operation on a session. -/
structure SuspensionRules (s : Session τ) (op : Operation) (thread : ThreadId) : Prop where
  /-- Only a hook that has told so suspends the thread, by a single message, and answers `true`. -/
  told : (s.status thread).isSuspended = false → ((op.after s).status thread).isSuspended = true →
    ∃ site, site.thread = thread ∧ (op = .line site ∨ op = .leave site) ∧ op.answer s = true ∧
      (op.traffic s).delivered = [stopMessage site] ∧ (op.traffic s).lost = []
  /-- No stop is told while the thread is suspended. -/
  silent : (s.status thread).isSuspended = true → op.Silent thread s
  /-- Meanwhile its lines are answered by `true`, its calls and returns by `false`. -/
  answers : (s.status thread).isSuspended = true → ∀ site, site.thread = thread →
    (op = .line site → op.answer s = true) ∧
      (op = .call site ∨ op = .leave site → op.answer s = false)
  /-- It is freed only by its end, the end of the session or a command that frees it. -/
  freed : (s.status thread).isSuspended = true → ((op.after s).status thread).isSuspended = false →
    op.Frees thread s
  /-- A stop that could not be told is answered by `false`, and all threads are as before. -/
  missed : ∀ m ∈ (op.traffic s).lost, TellsStop thread m →
    op.answer s = false ∧ ∀ other, (op.after s).status other = s.status other
  /-- What is about other threads only does not change it. -/
  apart : ¬ op.Touches thread s → (op.after s).status thread = s.status thread

namespace Operation

variable {op : Operation} {s : Session τ} {thread : ThreadId}

theorem told_of_suspended (hs : s.control.Sound) (hbefore : (s.status thread).isSuspended = false)
    (hafter : ((op.after s).status thread).isSuspended = true) :
    ∃ site, site.thread = thread ∧ (op = .line site ∨ op = .leave site) ∧ op.Stops s site := by
  have hdiffer : (op.after s).control.threads ≠ s.control.threads := by
    intro heq
    rw [show (op.after s).status thread = s.status thread from congrArg (·.status thread) heq,
      hbefore] at hafter
    cases hafter
  have hheld : ((op.after s).control.threads.status thread).isSuspended = true := hafter
  -- all other cases free threads, let them step or leave them as they are
  cases does op hs with
  | handles t htarget hcontrol hsilent =>
    rw [hcontrol] at hheld
    have hheld' : (s.status thread).isSuspended = true := Control.suspended_of_takeAll hheld
    rw [hheld'] at hbefore
    cases hbefore
  | notifies hsite hthreads hopen hsilent =>
    rw [hthreads] at hheld hdiffer
    rcases notify_cases op s.control with ⟨heq, -⟩ | ⟨id, -, heq, -⟩ | ⟨-, heq⟩
    · exact absurd heq hdiffer
    · rw [heq, Threads.status_resume] at hheld
      split at hheld
      · cases hheld
      · rw [show (s.status thread).isSuspended = true from hheld] at hbefore
        cases hbefore
    · rw [heq] at hheld
      cases hheld
  | passes site b hsite hpasses hanswer => exact absurd (by rw [hpasses.control]) hdiffer
  | follows site hop hanswer hmode hopen hcontrol htraffic =>
    rw [hcontrol] at hheld
    dsimp only at hheld
    rw [Threads.status_begin] at hheld
    split at hheld
    · cases hheld
    · rw [show (s.status thread).isSuspended = true from hheld] at hbefore
      cases hbefore
  | stops site hop hfree hopen hstops =>
    refine ⟨site, ?_, hop, hstops⟩
    by_contra hne
    rw [hstops.control] at hheld
    dsimp only at hheld
    rw [Threads.status_suspend, if_neg hne] at hheld
    rw [show (s.status thread).isSuspended = true from hheld] at hbefore
    cases hbefore
  | misses site hop hfree hopen hmisses => exact absurd (by rw [hmisses.control]) hdiffer

/-- A message that tells a stop of a thread is not one of another thread. -/
theorem thread_eq_of_tellsStop {site : Site} (h : TellsStop thread (stopMessage site)) :
    site.thread = thread := by
  obtain ⟨source, line, heq⟩ := TellsStop.event_eq h
  cases heq
  rfl

theorem silent_of_suspended (hs : s.control.Sound) (hheld : (s.status thread).isSuspended = true) :
    op.Silent thread s := by
  have hother : ∀ {site : Site}, (s.status site.thread).isSuspended = false →
      ¬ TellsStop thread (stopMessage site) := by
    intro site hfree htells
    rw [thread_eq_of_tellsStop htells, hheld] at hfree
    cases hfree
  intro m hm
  cases does op hs with
  | handles t htarget hcontrol hsilent => exact hsilent thread m hm
  | notifies hsite hthreads hopen hsilent => exact hsilent thread m hm
  | passes site b hsite hpasses hanswer =>
    rw [hpasses.traffic] at hm
    cases hm
  | follows site hop hanswer hmode hopen hcontrol htraffic =>
    rw [htraffic] at hm
    cases hm
  | stops site hop hfree hopen hstops =>
    rw [hstops.traffic] at hm
    rw [List.mem_singleton.mp hm]
    exact hother hfree
  | misses site hop hfree hopen hmisses =>
    rw [hmisses.traffic] at hm
    rw [List.mem_singleton.mp hm]
    exact hother hfree

theorem answer_of_suspended (hs : s.control.Sound) (hheld : (s.status thread).isSuspended = true)
    {site : Site} (hsite : op.site? = some site) (hthread : site.thread = thread) :
    op.answer s = true ↔ op = .line site := by
  rw [← hthread] at hheld
  obtain ⟨hclean, hopen⟩ := hs site.thread
  have hsame : ∀ {site' : Site}, op.site? = some site' → site' = site := by
    intro site' hsite'
    rw [hsite] at hsite'
    exact (Option.some.inj hsite').symm
  cases does op hs with
  | handles t htarget hcontrol hsilent => exact absurd hsite (site?_ne_some htarget)
  | notifies hnone hthreads hopen hsilent =>
    rw [hsite] at hnone
    cases hnone
  | passes site' b hsite' hpasses hanswer =>
    rw [hsame hsite'] at hanswer
    rw [hpasses.answer, hanswer]
    exact ⟨fun h => h.1, fun h => ⟨h, hopen hheld, hheld⟩⟩
  | follows site' hop hanswer hmode hopen hcontrol htraffic =>
    -- a suspended thread makes no step
    have hrun : (s.status site.thread).mode = .run := (hclean.suspended hheld).1
    have heq : site' = site := hsame (by rw [hop]; rfl)
    rw [heq, hrun] at hmode
    cases hmode
  | stops site' hop hfree hopen hstops =>
    rw [hsame (site?_eq hop), hheld] at hfree
    cases hfree
  | misses site' hop hfree hopen hmisses =>
    rw [hsame (site?_eq hop), hheld] at hfree
    cases hfree

theorem frees_of_freed (hs : s.control.Sound) (hbefore : (s.status thread).isSuspended = true)
    (hafter : ((op.after s).status thread).isSuspended = false) : op.Frees thread s := by
  have hdiffer : (op.after s).control.threads.status thread ≠ s.control.threads.status thread := by
    intro heq
    rw [show (op.after s).status thread = s.status thread from heq, hbefore] at hafter
    cases hafter
  cases does op hs with
  | handles t htarget hcontrol hsilent =>
    have hfree : ((op.after s).control.threads.status thread).isSuspended = false := hafter
    rw [hcontrol] at hfree
    obtain ⟨m, hm, command, hread, hfrees⟩ := Control.frees_of_takeAll hbefore hfree
    exact .inr (.inr ⟨t, command, ⟨htarget, m, hm, hread⟩, hfrees⟩)
  | notifies hsite hthreads hopen hsilent =>
    rw [hthreads] at hdiffer
    rcases notify_cases op s.control with ⟨heq, -⟩ | ⟨id, hop, heq, -⟩ | ⟨hop, -⟩
    · exact absurd (by rw [heq]) hdiffer
    · by_cases hid : id = thread
      · exact .inl (hid ▸ hop)
      · rw [heq, Threads.status_resume, if_neg hid] at hdiffer
        exact absurd rfl hdiffer
    · exact .inr (.inl hop)
  | passes site b hsite hpasses hanswer => exact absurd (by rw [hpasses.control]) hdiffer
  | follows site hop hanswer hmode hopen hcontrol htraffic =>
    by_cases hthread : site.thread = thread
    · -- a suspended thread makes no step
      have hrun : (s.status thread).mode = .run := ((hs thread).1.suspended hbefore).1
      rw [hthread, hrun] at hmode
      cases hmode
    · rw [hcontrol] at hdiffer
      exact absurd ((Threads.status_begin ..).trans (if_neg hthread)) hdiffer
  | stops site hop hfree hopen hstops =>
    -- the thread that stops was not suspended
    have hthread : site.thread ≠ thread := by
      intro heq
      rw [heq, hbefore] at hfree
      cases hfree
    rw [hstops.control] at hdiffer
    exact absurd ((Threads.status_suspend ..).trans (if_neg hthread)) hdiffer
  | misses site hop hfree hopen hmisses => exact absurd (by rw [hmisses.control]) hdiffer

theorem missed_of_lost (hs : s.control.Sound) {m : Bytes} (hm : m ∈ (op.traffic s).lost)
    (htells : TellsStop thread m) : ∃ site, op.Misses s site := by
  have hmem : m ∈ (op.traffic s).delivered ++ (op.traffic s).lost := List.mem_append_right _ hm
  cases does op hs with
  | handles t htarget hcontrol hsilent => exact absurd htells (hsilent thread m hmem)
  | notifies hsite hthreads hopen hsilent => exact absurd htells (hsilent thread m hmem)
  | passes site b hsite hpasses hanswer =>
    rw [hpasses.traffic] at hm
    cases hm
  | follows site hop hanswer hmode hopen hcontrol htraffic =>
    rw [htraffic] at hm
    cases hm
  | stops site hop hfree hopen hstops =>
    rw [hstops.traffic] at hm
    cases hm
  | misses site hop hfree hopen hmisses => exact ⟨site, hmisses⟩

end Operation

/--
In every session that can be reached each thread is held as it should be, and every operation
keeps the rules of suspension for every thread.
-/
theorem suspension_rules {s : Session τ} (h : s.Reachable) :
    (∀ thread, (s.status thread).Clean) ∧
      ∀ (op : Operation) (thread : ThreadId), SuspensionRules s op thread := by
  have hs := h.sound
  refine ⟨fun thread => (hs thread).1, ?_⟩
  intro op thread
  constructor
  case told =>
    intro hbefore hafter
    obtain ⟨site, hthread, hop, hstops⟩ := told_of_suspended hs hbefore hafter
    refine ⟨site, hthread, hop, hstops.answer, ?_, ?_⟩
    · rw [hstops.traffic]
    · rw [hstops.traffic]
  case silent => exact silent_of_suspended hs
  case answers =>
    intro hheld site hthread
    constructor
    · intro hop
      have hsite : op.site? = some site := by
        rw [hop]
        rfl
      exact (answer_of_suspended hs hheld hsite hthread).mpr hop
    · intro hop
      have hsite : op.site? = some site := by
        rcases hop with hop | hop <;> rw [hop] <;> rfl
      rw [← Bool.not_eq_true, answer_of_suspended hs hheld hsite hthread]
      intro hline
      rw [hline] at hop
      rcases hop with hop | hop <;> cases hop
  case freed => exact frees_of_freed hs
  case missed =>
    intro m hm htells
    obtain ⟨site, hmisses⟩ := missed_of_lost hs hm htells
    refine ⟨hmisses.answer, ?_⟩
    intro other
    show (op.after s).control.threads.status other = _
    rw [hmisses.control]
    rfl
  case apart => exact status_after hs

namespace Example

/-- A program with a single thread, in its outermost call. -/
def program : Target where
  threads := [{ id := 1, state := .running }]
  frameBase? thread := if thread = 1 then some 0 else none
  frames _ := []
  members? _ := none
  sources := []
  marker? _ _ := none

/-- The line at which the thread is asked to stop. -/
def firstLine : Site where
  thread := 1
  base := 0
  address := { function := 0, offset := 16 }
  source := 42
  line := 3

/-- The thread has been asked to stop. -/
def asked : Session Link :=
  (Operation.message program (Command.forceBreak 1).toBytes).after { transport := {} }

/-- The thread has stopped. -/
def held : Session Link :=
  (Operation.line firstLine).after asked

/-- The debugger is gone before the thread stops. -/
def abandoned : Session Link :=
  { asked with transport := asked.transport.dropDebugger }

/-- Lets the thread go on. -/
def release : Operation :=
  .message program (Command.run 1).toBytes

/-- A line of another thread. -/
def otherLine : Operation :=
  .line { firstLine with thread := 2 }

theorem reachable_asked : asked.Reachable :=
  .after _ (.opened ({} : Link) 64)

theorem not_touches_otherLine : ¬ otherLine.Touches 1 held := by
  intro h
  rcases h with ⟨site, hsite, hthread⟩ | hop | hop | ⟨t, command, ⟨htarget, -⟩, -⟩
  · cases hsite
    exact absurd hthread (by decide)
  · cases hop
  · cases hop
  · cases htarget

end Example

open Example in
/--
A thread that is asked to stop is suspended by its next line and freed by a command, and not
touched by another thread; it is not suspended when the debugger is gone.
-/
theorem suspension_rules_held :
    (∃ site, site.thread = 1 ∧
      (Operation.line firstLine = .line site ∨ Operation.line firstLine = .leave site) ∧
      answer (.line firstLine) asked = true ∧
      (traffic (.line firstLine) asked).delivered = [stopMessage site] ∧
      (traffic (.line firstLine) asked).lost = []) ∧
    Silent (.line firstLine) 1 held ∧ answer (.line firstLine) held = true ∧
    Frees release 1 held ∧ (otherLine.after held).status 1 = held.status 1 ∧
    answer (.line firstLine) abandoned = false ∧
      (after (.line firstLine) abandoned).status 1 = abandoned.status 1 := by
  have hheld' : held.Reachable := .after _ reachable_asked
  have habandoned : abandoned.Reachable := .moved _ reachable_asked
  have hfree : (asked.status 1).isSuspended = false := by decide +kernel
  have hheld : (held.status 1).isSuspended = true := by decide +kernel
  have hfreed : ((release.after held).status 1).isSuspended = false := by decide +kernel
  have hlost : stopMessage firstLine ∈ (traffic (.line firstLine) abandoned).lost := by
    decide +kernel
  obtain ⟨-, hasked⟩ := suspension_rules reachable_asked
  obtain ⟨-, hrules⟩ := suspension_rules hheld'
  obtain ⟨hanswer, hsame⟩ := ((suspension_rules habandoned).2 (.line firstLine) 1).missed
    (stopMessage firstLine) hlost ⟨42, 3, rfl⟩
  exact ⟨(hasked (.line firstLine) 1).told hfree hheld,
    (hrules (.line firstLine) 1).silent hheld,
    ((hrules (.line firstLine) 1).answers hheld firstLine rfl).1 rfl,
    (hrules release 1).freed hheld hfreed,
    (hrules otherLine 1).apart not_touches_otherLine, hanswer, hsame 1⟩

end ScriptToolchain.Debug
