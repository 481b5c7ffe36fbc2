import ScriptToolchain.Proofs.Bytes
import ScriptToolchain.Proofs.MessageRoundTrip
import ScriptToolchain.Proofs.Traffic

/-!
# Commands and threads

`Moves` says all that a command can do to the threads that are held; what
single messages and many of them do is read off it. The messages of events can
be told apart by their tags, and no reply to a command tells a stop.
-/

namespace ScriptToolchain.Debug

/-! ## How threads are held -/

namespace Threads

@[simp]
theorem status_empty (thread : ThreadId) : status {} thread = {} :=
  rfl

theorem status_begin (t : Threads) (id thread : ThreadId) (mode : StepMode) (base : FrameBase) :
    (t.begin id mode base).status thread =
      if id = thread then .stepping mode base else t.status thread := by
  unfold status begin
  rw [SortedMap.get?_insert]
  split <;> rfl

theorem status_resume (t : Threads) (id thread : ThreadId) :
    (t.resume id).status thread = if id = thread then {} else t.status thread := by
  unfold status resume
  rw [SortedMap.get?_erase]
  split <;> rfl

theorem status_suspend (t : Threads) (id thread : ThreadId) :
    (t.suspend id).status thread = if id = thread then .suspended else t.status thread := by
  unfold status suspend
  rw [SortedMap.get?_insert]
  split <;> rfl

end Threads

namespace ThreadStatus

/-- A suspended thread makes no step, and a step has a frame and is made by a thread that runs. -/
structure Clean (s : ThreadStatus) : Prop where
  suspended : s.isSuspended = true → s.mode = .run ∧ s.marker? = none
  stepping : s.mode ≠ .run → s.marker?.isSome = true ∧ s.isSuspended = false

theorem clean_free : Clean {} where
  suspended h := by cases h
  stepping h := absurd rfl h

theorem clean_stepping (mode : StepMode) (base : FrameBase) : Clean (.stepping mode base) where
  suspended h := by cases h
  stepping _ := ⟨rfl, rfl⟩

theorem clean_suspended : Clean .suspended where
  suspended _ := ⟨rfl, rfl⟩
  stepping h := absurd rfl h

end ThreadStatus

/-! ## Commands -/

namespace Command

/-- The step that a command asks for. -/
def step? : Command → Option (ThreadId × StepMode)
  | .stepInto thread | .forceBreak thread => some (thread, .into)
  | .stepOver thread => some (thread, .over)
  | .stepOut thread => some (thread, .out)
  | _ => none

/-- The command lets the thread run or step, or it ends the session. -/
def Touches (thread : ThreadId) (c : Command) : Prop :=
  c = .run thread ∨ (∃ mode, c.step? = some (thread, mode)) ∨ c = .endSession

/-- The command frees the thread if it is suspended: a step has to find the thread. -/
def Frees (t : Target) (thread : ThreadId) (c : Command) : Prop :=
  c = .run thread ∨ (∃ mode, c.step? = some (thread, mode)) ∧ (t.frameBase? thread).isSome = true ∨
    c = .endSession

theorem step?_ne_run {c : Command} {thread : ThreadId} {mode : StepMode}
    (h : c.step? = some (thread, mode)) : mode ≠ .run := by
  intro hrun
  rw [hrun] at h
  cases c <;> cases h

end Command

/-- What a command does to the threads that are held. -/
inductive Moves (t : Target) (command : Command) (c c' : Control) : Prop
  | kept (hthreads : c'.threads = c.threads) (hopen : c'.isOpen = c.isOpen)
  | resumed (thread : ThreadId) (hcommand : command = .run thread)
    (hthreads : c'.threads = c.threads.resume thread) (hopen : c'.isOpen = c.isOpen)
  | begun (thread : ThreadId) (mode : StepMode) (base : FrameBase)
    (hcommand : command.step? = some (thread, mode)) (hbase : t.frameBase? thread = some base)
    (hthreads : c'.threads = c.threads.begin thread mode base) (hopen : c'.isOpen = c.isOpen)
  | ended (hcommand : command = .endSession) (hthreads : c'.threads = {})
    (hopen : c'.isOpen = false)

namespace Control

theorem moves_beginStep {c : Control} {t : Target} {command : Command} {thread : ThreadId}
    {mode : StepMode} (h : command.step? = some (thread, mode)) :
    Moves t command c (c.beginStep t thread mode).1 := by
  unfold beginStep
  cases hbase : t.frameBase? thread with
  | none => exact .kept rfl rfl
  | some base => exact .begun thread mode base h hbase rfl rfl

theorem moves_changeBreakpoint (c : Control) (t : Target) (command : Command) (a : CodeAddress)
    (s : Scope) (enabled : Bool) : Moves t command c (c.changeBreakpoint a s enabled).2 := by
  unfold changeBreakpoint
  cases enabled with
  | true => cases c.breakpoints.arm a s <;> exact .kept rfl rfl
  | false => cases c.breakpoints.disarm a <;> exact .kept rfl rfl

theorem moves_setBreakpoint (c : Control) (t : Target) (command : Command) (source line : UInt32)
    (s : Scope) (enabled : Bool) :
    Moves t command c (c.setBreakpoint t source line s enabled).2 := by
  unfold setBreakpoint
  cases t.marker? source line with
  | none => exact .kept rfl rfl
  | some mark => exact moves_changeBreakpoint ..

theorem moves_handle (c : Control) (t : Target) (command : Command) :
    Moves t command c (c.handle t command).1 := by
  cases command with
  | run thread => exact .resumed thread rfl rfl rfl
  | stepInto thread => exact moves_beginStep rfl
  | stepOver thread => exact moves_beginStep rfl
  | stepOut thread => exact moves_beginStep rfl
  | forceBreak thread => exact moves_beginStep rfl
  | setBreakpoint response source line thread enabled => exact moves_setBreakpoint ..
  | endSession =>
    show Moves t _ c c.close.1
    unfold close
    split
    · exact .ended rfl rfl rfl
    · exact .kept rfl rfl
  | _ => exact .kept rfl rfl

end Control

namespace Moves

variable {t : Target} {command : Command} {c c' : Control} {thread : ThreadId}

/-- A command that does not touch a thread leaves it as it is. -/
theorem status_eq (h : Moves t command c c') (huntouched : ¬ command.Touches thread) :
    c'.threads.status thread = c.threads.status thread := by
  unfold Command.Touches at huntouched
  push Not at huntouched
  obtain ⟨hrun, hstep, hend⟩ := huntouched
  cases h with
  | kept hthreads => rw [hthreads]
  | resumed id hcommand hthreads =>
    have hne : id ≠ thread := by
      intro hid
      rw [hid] at hcommand
      exact hrun hcommand
    rw [hthreads, Threads.status_resume, if_neg hne]
  | begun id mode base hcommand hbase hthreads =>
    have hne : id ≠ thread := by
      intro hid
      rw [hid] at hcommand
      exact hstep mode hcommand
    rw [hthreads, Threads.status_begin, if_neg hne]
  | ended hcommand => exact absurd hcommand hend

/-- A command leaves a thread as it is, or frees it, or lets it step. -/
theorem status_cases (h : Moves t command c c') (thread : ThreadId) :
    c'.threads.status thread = c.threads.status thread ∧ c'.isOpen = c.isOpen ∨
      c'.threads.status thread = {} ∨
        ∃ mode base, c'.threads.status thread = .stepping mode base := by
  cases h with
  | kept hthreads hopen => exact .inl ⟨by rw [hthreads], hopen⟩
  | resumed id hcommand hthreads hopen =>
    rw [hthreads, Threads.status_resume]
    split
    · exact .inr (.inl rfl)
    · exact .inl ⟨rfl, hopen⟩
  | begun id mode base hcommand hbase hthreads hopen =>
    rw [hthreads, Threads.status_begin]
    split
    · exact .inr (.inr ⟨mode, base, rfl⟩)
    · exact .inl ⟨rfl, hopen⟩
  | ended hcommand hthreads =>
    rw [hthreads]
    exact .inr (.inl rfl)

/-- No command suspends a thread. -/
theorem suspended_of (h : Moves t command c c')
    (hheld : (c'.threads.status thread).isSuspended = true) :
    (c.threads.status thread).isSuspended = true := by
  rcases h.status_cases thread with ⟨heq, -⟩ | heq | ⟨mode, base, heq⟩
  · rw [heq] at hheld
    exact hheld
  · rw [heq] at hheld
    cases hheld
  · rw [heq] at hheld
    cases hheld

theorem isOpen_eq (h : Moves t command c c') (hend : command ≠ .endSession) :
    c'.isOpen = c.isOpen := by
  cases h with
  | kept hthreads hopen => exact hopen
  | resumed id hcommand hthreads hopen => exact hopen
  | begun id mode base hcommand hbase hthreads hopen => exact hopen
  | ended hcommand => exact absurd hcommand hend

/-- A command that frees a thread is one of those that do. -/
theorem frees (h : Moves t command c c') (hbefore : (c.threads.status thread).isSuspended = true)
    (hafter : (c'.threads.status thread).isSuspended = false) : command.Frees t thread := by
  have hdiffer : c'.threads.status thread ≠ c.threads.status thread := by
    intro heq
    rw [heq, hbefore] at hafter
    cases hafter
  cases h with
  | kept hthreads => exact absurd (by rw [hthreads]) hdiffer
  | resumed id hcommand hthreads =>
    by_cases hid : id = thread
    · exact .inl (hid ▸ hcommand)
    · rw [hthreads, Threads.status_resume, if_neg hid] at hdiffer
      exact absurd rfl hdiffer
  | begun id mode base hcommand hbase hthreads =>
    by_cases hid : id = thread
    · rw [hid] at hcommand hbase
      refine .inr (.inl ⟨⟨mode, hcommand⟩, ?_⟩)
      rw [hbase]
      rfl
    · rw [hthreads, Threads.status_begin, if_neg hid] at hdiffer
      exact absurd rfl hdiffer
  | ended hcommand => exact .inr (.inr hcommand)

end Moves

namespace Control

/-- Every thread is held as it should be, and none is suspended once the session is closed. -/
def Sound (c : Control) : Prop :=
  ∀ thread, (c.threads.status thread).Clean ∧
    ((c.threads.status thread).isSuspended = true → c.isOpen = true)

theorem Sound.moves {t : Target} {command : Command} {c c' : Control} (hc : c.Sound)
    (h : Moves t command c c') : c'.Sound := by
  intro thread
  rcases h.status_cases thread with ⟨heq, hopen⟩ | heq | ⟨mode, base, heq⟩
  · rw [heq, hopen]
    exact hc thread
  · rw [heq]
    exact ⟨ThreadStatus.clean_free, fun hheld => by cases hheld⟩
  · rw [heq]
    exact ⟨ThreadStatus.clean_stepping mode base, fun hheld => by cases hheld⟩

/-! ### Messages -/

variable {t : Target} {ms : List Bytes} {thread : ThreadId}

theorem moves_take {m : Bytes} {command : Command} (c : Control)
    (h : Command.ofBytes m = .ok command) : Moves t command c (c.take t m).1 := by
  unfold take
  rw [h]
  exact moves_handle c t command

theorem take_error {m : Bytes} {e : MessageError} (c : Control) (h : Command.ofBytes m = .error e) :
    c.take t m = (c, []) := by
  unfold take
  rw [h]

/-- What every command keeps, all messages keep. -/
theorem takeAll_keeps (P : Control → Prop)
    (hstep : ∀ m ∈ ms, ∀ command, Command.ofBytes m = .ok command →
      ∀ c c', Moves t command c c' → P c → P c') {c : Control} (hc : P c) :
    P (c.takeAll t ms).1 := by
  induction ms generalizing c with
  | nil => exact hc
  | cons m rest ih =>
    -- the invariant goes through the first message into the rest
    have hrest : ∀ m' ∈ rest, ∀ command, Command.ofBytes m' = .ok command →
        ∀ c c', Moves t command c c' → P c → P c' :=
      fun m' hm' => hstep m' (List.mem_cons_of_mem m hm')
    apply ih hrest
    cases hm : Command.ofBytes m with
    | error e =>
      rw [take_error c hm]
      exact hc
    | ok command => exact hstep m List.mem_cons_self command hm _ _ (moves_take c hm) hc

theorem Sound.takeAll {c : Control} (hc : c.Sound) : (c.takeAll t ms).1.Sound :=
  takeAll_keeps Sound (fun _ _ _ _ _ _ hmoves h => h.moves hmoves) hc

/-- Messages whose commands do not touch a thread leave it as it is. -/
theorem status_takeAll (c : Control) (huntouched : ∀ m ∈ ms, ∀ command,
      Command.ofBytes m = .ok command → ¬ command.Touches thread) :
    (c.takeAll t ms).1.threads.status thread = c.threads.status thread := by
  refine takeAll_keeps (fun c' => c'.threads.status thread = c.threads.status thread) ?_ rfl
  intro m hm command hcommand c₁ c₂ hmoves hc₁
  rw [hmoves.status_eq (huntouched m hm command hcommand), hc₁]

theorem suspended_of_takeAll {c : Control}
    (hheld : ((c.takeAll t ms).1.threads.status thread).isSuspended = true) :
    (c.threads.status thread).isSuspended = true := by
  by_contra hfree
  have hkeeps : ¬ ((c.takeAll t ms).1.threads.status thread).isSuspended = true :=
    takeAll_keeps (fun c' => ¬ (c'.threads.status thread).isSuspended = true)
      (fun _ _ _ _ _ _ hmoves hc₁ hc₂ => hc₁ (hmoves.suspended_of hc₂)) hfree
  exact hkeeps hheld

/-- A thread that messages free is freed by one of their commands. -/
theorem frees_of_takeAll {c : Control} (hbefore : (c.threads.status thread).isSuspended = true)
    (hafter : ((c.takeAll t ms).1.threads.status thread).isSuspended = false) :
    ∃ m ∈ ms, ∃ command, Command.ofBytes m = .ok command ∧ command.Frees t thread := by
  by_contra hnone
  push Not at hnone
  have hkeeps : ((c.takeAll t ms).1.threads.status thread).isSuspended = true := by
    refine takeAll_keeps (fun c' => (c'.threads.status thread).isSuspended = true) ?_ hbefore
    intro m hm command hcommand c₁ c₂ hmoves hc₁
    by_contra hc₂
    exact hnone m hm command hcommand (hmoves.frees hc₁ (Bool.not_eq_true _ ▸ hc₂))
  rw [hkeeps] at hafter
  cases hafter

theorem isOpen_takeAll (c : Control) (hend : ∀ m ∈ ms, Command.ofBytes m ≠ .ok .endSession) :
    (c.takeAll t ms).1.isOpen = c.isOpen := by
  refine takeAll_keeps (fun c' => c'.isOpen = c.isOpen) ?_ rfl
  intro m hm command hcommand c₁ c₂ hmoves hc₁
  have hne : command ≠ .endSession := by
    intro heq
    rw [heq] at hcommand
    exact hend m hm hcommand
  rw [hmoves.isOpen_eq hne, hc₁]

end Control

/-! ## Messages that tell a stop -/

theorem EventKind.eq_stopped_of_tag {k : EventKind}
    (h : k.tag.bytes = EventKind.stopped.tag.bytes) :
    k = .stopped := by
  cases k <;> first | rfl | exact absurd h (by decide)

theorem bytesOf_stopped (thread : ThreadId) (source line : UInt32) :
    Field.bytesOf (Event.stopped thread source line).fields =
      Bytes.ofWord32 thread ++ Field.bytesOf [.word source, .word line] := by
  rw [Event.fields, Field.bytesOf_cons, Field.bytes_word]

/-- The message tells that the thread has stopped. -/
def TellsStop (thread : ThreadId) (m : Bytes) : Prop :=
  ∃ source line, m = (Event.stopped thread source line).toBytes

/-- No other event has a message that tells a stop of the thread. -/
theorem TellsStop.event_eq {thread : ThreadId} {e : Event} (h : TellsStop thread e.toBytes) :
    ∃ source line, e = .stopped thread source line := by
  obtain ⟨source, line, h⟩ := h
  rw [Event.toBytes_eq, Event.toBytes_eq] at h
  obtain ⟨htag, hfields⟩ := Array.append_inj h (by rw [EventKind.size_tag, EventKind.size_tag])
  have hkind : e.kind = .stopped := EventKind.eq_stopped_of_tag htag
  cases e with
  | stopped thread' source' line' =>
    -- the thread stands in the first four bytes behind the tag
    rw [bytesOf_stopped, bytesOf_stopped] at hfields
    obtain ⟨hword, -⟩ := Array.append_inj hfields rfl
    have hthread := congrArg Bytes.toWord32 hword
    rw [Bytes.toWord32_ofWord32, Bytes.toWord32_ofWord32] at hthread
    exact ⟨source', line', by rw [hthread]⟩
  | _ => cases hkind

/-- None of the events tells a stop. -/
def Quiet (es : List Event) : Prop :=
  ∀ e ∈ es, e.kind ≠ .stopped

namespace Quiet

variable {es es' : List Event}

theorem nil : Quiet [] := by
  intro e he
  cases he

theorem cons {e : Event} (h : e.kind ≠ .stopped) (h' : Quiet es) : Quiet (e :: es) := by
  intro e' he'
  cases he' with
  | head => exact h
  | tail _ hrest => exact h' e' hrest

theorem single {e : Event} (h : e.kind ≠ .stopped) : Quiet [e] :=
  cons h nil

theorem append (h : Quiet es) (h' : Quiet es') : Quiet (es ++ es') := by
  intro e he
  rcases List.mem_append.mp he with hleft | hright
  · exact h e hleft
  · exact h' e hright

theorem map {α : Type} {f : α → Event} (as : List α) (h : ∀ a, (f a).kind ≠ .stopped) :
    Quiet (as.map f) := by
  intro e he
  obtain ⟨a, -, rfl⟩ := List.mem_map.mp he
  exact h a

theorem flatMap {α : Type} {f : α → List Event} (as : List α) (h : ∀ a, Quiet (f a)) :
    Quiet (as.flatMap f) := by
  intro e he
  obtain ⟨a, -, he⟩ := List.mem_flatMap.mp he
  exact h a e he

/-- A message of a quiet event tells no stop. -/
theorem not_tellsStop (h : Quiet es) {e : Event} (he : e ∈ es) (thread : ThreadId) :
    ¬ TellsStop thread e.toBytes := by
  intro htells
  obtain ⟨source, line, heq⟩ := htells.event_eq
  exact h e he (by rw [heq]; rfl)

end Quiet

theorem quiet_frame (asked : UInt32) (f : CallFrame) (position : Nat) :
    Quiet (Reply.frame asked f position) := by
  unfold Reply.frame
  apply Quiet.append
  · exact Quiet.single nofun
  · split
    · exact Quiet.map f.locals fun _ => nofun
    · exact Quiet.nil

theorem quiet_context (t : Target) (thread : ThreadId) (asked : UInt32) :
    Quiet (Reply.context t thread asked) := by
  unfold Reply.context
  dsimp only
  split
  · exact Quiet.single nofun
  · apply Quiet.append
    · apply Quiet.append
      · exact Quiet.single nofun
      · exact Quiet.flatMap _ fun f => quiet_frame asked f.1 f.2
    · exact Quiet.single nofun

theorem quiet_close (c : Control) : Quiet c.close.2 := by
  unfold Control.close
  split
  · exact Quiet.single nofun
  · exact Quiet.nil

theorem quiet_handle (c : Control) (t : Target) (command : Command) :
    Quiet (c.handle t command).2 := by
  -- a list between its first and its last event
  have hlist : ∀ {α : Type} {first last : Event} {item : α → Event} (items : List α),
      first.kind ≠ .stopped → last.kind ≠ .stopped → (∀ a, (item a).kind ≠ .stopped) →
        Quiet ([first] ++ items.map item ++ [last]) :=
    fun items hfirst hlast hitem =>
      ((Quiet.single hfirst).append (Quiet.map items hitem)).append (Quiet.single hlast)
  have hstep : ∀ thread mode, Quiet (c.beginStep t thread mode).2 := by
    intro thread mode
    unfold Control.beginStep
    split
    · exact Quiet.nil
    · exact Quiet.single nofun
  cases command with
  | run thread => exact Quiet.nil
  | stepInto thread => exact hstep thread .into
  | stepOver thread => exact hstep thread .over
  | stepOut thread => exact hstep thread .out
  | forceBreak thread => exact hstep thread .into
  | getContext thread frame => exact quiet_context t thread frame
  | getSource source =>
    show Quiet (Reply.source t source)
    unfold Reply.source
    split <;> exact Quiet.single nofun
  | getSourceInfo =>
    exact hlist t.sources nofun nofun fun _ => nofun
  | getThreadInfo =>
    exact hlist t.threads nofun nofun fun _ => nofun
  | getVariableInfo reference =>
    show Quiet (Reply.members t reference)
    unfold Reply.members
    split
    · exact hlist _ nofun nofun fun _ => nofun
    · exact Quiet.single nofun
  | setBreakpoint response source line thread enabled => exact Quiet.single nofun
  | endSession => exact quiet_close c

theorem quiet_takeAll (c : Control) (t : Target) (ms : List Bytes) : Quiet (c.takeAll t ms).2 := by
  induction ms generalizing c with
  | nil => exact Quiet.nil
  | cons m rest ih =>
    refine Quiet.append ?_ (ih (c.take t m).1)
    unfold Control.take
    cases Command.ofBytes m with
    | ok command => exact quiet_handle c t command
    | error e => exact Quiet.nil

theorem quiet_notify (op : Operation) (c : Control) : Quiet (op.notify c).2 := by
  cases op with
  | exception thread =>
    exact Quiet.cons nofun (Quiet.map c.log fun _ => nofun)
  | threadStarted thread => exact Quiet.single nofun
  | threadStopped thread => exact Quiet.single nofun
  | sendMessage text => exact Quiet.single nofun
  | sendError text => exact Quiet.single nofun
  | finish => exact quiet_close c
  | _ => exact Quiet.nil

end ScriptToolchain.Debug
