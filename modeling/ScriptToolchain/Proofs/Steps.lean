import ScriptToolchain.Proofs.Suspension

/-!
# Where steps stop

`Nesting` follows the calls of a thread that are under way. Between a step
command and the hook that it waits for, the thread is bound to the call in
which the step was asked for, or to the innermost call for a step into
functions (`Waiting`); the bases of calls under way differ, so the base tells
the call. Hence a step stops at the hook that it waits for and at no other
(`steps_stop`).
-/

namespace ScriptToolchain.Debug

/-! ## Calls under way -/

/-- A call; its serial number tells it from later calls with the same base. -/
structure Activation where
  serial : Nat
  base : FrameBase
deriving DecidableEq

/-- The calls of a thread that are under way, the innermost first. -/
structure Nesting where
  live : List Activation
  /-- The serial number of the next call. -/
  next : Nat

namespace Nesting

/-- The nesting behind a call. -/
def push (n : Nesting) (base : FrameBase) : Nesting :=
  { live := { serial := n.next, base } :: n.live, next := n.next + 1 }

/-- A call has a greater base and a later number than the calls around it. -/
structure Ordered (n : Nesting) : Prop where
  bases : n.live.Pairwise fun a b => b.base < a.base
  serials : n.live.Pairwise fun a b => b.serial < a.serial
  fresh : ∀ a ∈ n.live, a.serial < n.next

/-- The nesting `n'` is left by an operation: hooks of the thread report its innermost call. -/
inductive Follows (thread : ThreadId) (n : Nesting) : Operation → Nesting → Prop
  | line {site : Site} {a : Activation} {rest : List Activation} (hthread : site.thread = thread)
    (hlive : n.live = a :: rest) (hbase : site.base = a.base) : Follows thread n (.line site) n
  | call {site : Site} (hthread : site.thread = thread)
    (habove : ∀ a ∈ n.live, a.base < site.base) :
    Follows thread n (.call site) (n.push site.base)
  | leave {site : Site} {a : Activation} {rest : List Activation} (hthread : site.thread = thread)
    (hlive : n.live = a :: rest) (hbase : site.base = a.base) :
    Follows thread n (.leave site) { n with live := rest }
  | other {op : Operation} (hother : ∀ site, op.site? = some site → site.thread ≠ thread) :
    Follows thread n op n

variable {n : Nesting} {a b : Activation} {rest : List Activation}

theorem Ordered.push (h : n.Ordered) {base : FrameBase} (habove : ∀ a ∈ n.live, a.base < base) :
    (n.push base).Ordered where
  bases := List.pairwise_cons.mpr ⟨habove, h.bases⟩
  serials := List.pairwise_cons.mpr ⟨h.fresh, h.serials⟩
  fresh := by
    intro a ha
    cases ha with
    | head => exact Nat.lt_succ_self n.next
    | tail _ hrest => exact Nat.lt_succ_of_lt (h.fresh a hrest)

theorem Ordered.pop (h : n.Ordered) (hlive : n.live = a :: rest) :
    Ordered { n with live := rest } where
  bases := (List.pairwise_cons.mp (hlive ▸ h.bases)).2
  serials := (List.pairwise_cons.mp (hlive ▸ h.serials)).2
  fresh b hb := h.fresh b (by rw [hlive]; exact List.mem_cons_of_mem a hb)

/-- The base tells the innermost call from all others. -/
theorem Ordered.base_eq_iff (h : n.Ordered) (hlive : n.live = a :: rest) (hb : b ∈ n.live) :
    b.base = a.base ↔ b = a := by
  constructor
  · intro hbase
    rw [hlive] at hb
    cases hb with
    | head => rfl
    | tail _ hrest =>
      have hlt : b.base < a.base := (List.pairwise_cons.mp (hlive ▸ h.bases)).1 b hrest
      rw [hbase] at hlt
      exact absurd hlt (UInt32.lt_irrefl _)
  · intro heq
    rw [heq]

end Nesting

/-! ## Steps under way -/

theorem StepMode.eq_of_ne_run (mode : StepMode) (h : mode ≠ .run) :
    mode = .into ∨ mode = .over ∨ mode = .out := by
  cases mode <;> simp at h ⊢

/-- A step command on a known thread starts the step. -/
theorem Control.status_take_step {t : Target} {m : Bytes} {command : Command} {thread : ThreadId}
    {mode : StepMode} {base : FrameBase} (c : Control) (hcommand : Command.ofBytes m = .ok command)
    (hstep : command.step? = some (thread, mode)) (hbase : t.frameBase? thread = some base) :
    (c.take t m).1.threads.status thread = .stepping mode base := by
  have hbegin : c.handle t command = c.beginStep t thread mode := by
    cases command <;> cases hstep <;> rfl
  unfold take
  rw [hcommand]
  dsimp only
  rw [hbegin]
  unfold beginStep
  rw [hbase]
  dsimp only
  rw [Threads.status_begin, if_pos rfl]

open Operation

variable {τ : Type} [Transport τ]

/-- The hook that a step waits for, which was asked for in the call `A`. -/
def Awaited (thread : ThreadId) (mode : StepMode) (A : Activation) (n : Nesting) : Operation → Prop
  | .line site => site.thread = thread ∧
    (mode = .into ∨ mode = .over ∧ n.live.head? = some A)
  | .leave site => site.thread = thread ∧
    (mode = .into ∨ (mode = .over ∨ mode = .out) ∧ n.live.head? = some A)
  | _ => False

instance (thread : ThreadId) (mode : StepMode) (A : Activation) (n : Nesting) (op : Operation) :
    Decidable (Awaited thread mode A n op) :=
  match op with
  | .line _ | .leave _ => inferInstanceAs (Decidable (_ ∧ _))
  | .update _ | .message .. | .call _ | .queueLog _ | .exception _ | .threadStarted _
  | .threadStopped _ | .sendMessage _ | .sendError _ | .finish => inferInstanceAs (Decidable False)

/-- The operation hits no breakpoint of the thread, and no command or notification is about it. -/
structure Undisturbed (thread : ThreadId) (op : Operation) (s : Session τ) : Prop where
  breakpoint : ∀ site, op = .line site → site.thread = thread → s.breakpointAt? site = none
  command : ∀ t command, op.Handles t command s → ¬ command.Touches thread
  running : op ≠ .threadStopped thread
  unfinished : op ≠ .finish

/--
Among the handled messages is a step command on the thread, whose innermost call has this base, and
no command behind it is about the thread.
-/
def AsksStep (thread : ThreadId) (mode : StepMode) (base : FrameBase) (op : Operation)
    (s : Session τ) : Prop :=
  ∃ (t : Target) (before : List Bytes) (m : Bytes) (after : List Bytes) (command : Command),
    op.target? = some t ∧ op.handled s = before ++ m :: after ∧ Command.ofBytes m = .ok command ∧
      command.step? = some (thread, mode) ∧ t.frameBase? thread = some base ∧
        ∀ m' ∈ after, ∀ command', Command.ofBytes m' = .ok command' → ¬ command'.Touches thread

/-- What a hook of the thread answers and sends; nothing for another operation. -/
def Operation.replies (op : Operation) (thread : ThreadId) (s : Session τ) :
    List (Bool × Traffic) :=
  match op.site? with
  | some site => if site.thread = thread then [(op.answer s, op.traffic s)] else []
  | none => []

/--
A step was asked for while `A` was the innermost call of the thread, and what it waits for has not
happened since. The list keeps what the hooks of the thread have answered and sent meanwhile.
-/
inductive Pending (thread : ThreadId) (mode : StepMode) (A : Activation) :
    Session τ → Nesting → List (Bool × Traffic) → Prop
  | asked {s : Session τ} {op : Operation} {n : Nesting} {rest : List Activation}
    (hs : s.Reachable) (hasks : AsksStep thread mode A.base op s)
    (hopen : (op.after s).control.isOpen = true) (hlive : n.live = A :: rest)
    (hordered : n.Ordered) : Pending thread mode A (op.after s) n []
  | next {s : Session τ} {op : Operation} {n n' : Nesting} {past : List (Bool × Traffic)}
    (h : Pending thread mode A s n past) (hundisturbed : Undisturbed thread op s)
    (hfollows : n.Follows thread op n') (hawaited : ¬ Awaited thread mode A n op) :
    Pending thread mode A (op.after s) n' (past ++ op.replies thread s)
  | moved {s : Session τ} {n : Nesting} {past : List (Bool × Traffic)}
    (h : Pending thread mode A s n past) (transport : τ) :
    Pending thread mode A { s with transport } n past

/-- How the thread is held while the step is under way: `a` is the call that it is bound to. -/
structure Waiting (thread : ThreadId) (mode : StepMode) (A : Activation) (s : Session τ)
    (n : Nesting) : Prop where
  reachable : s.Reachable
  isOpen : s.control.isOpen = true
  ordered : n.Ordered
  mode_ne : mode ≠ .run
  bound : ∃ a ∈ n.live, s.status thread = .stepping mode a.base ∧
    (mode = .into → n.live.head? = some a) ∧ (mode ≠ .into → a = A)

theorem Operation.Passes.status_eq {op : Operation} {s : Session τ} {b : Bool} {thread : ThreadId}
    (h : op.Passes s b) : (op.after s).status thread = s.status thread := by
  unfold Session.status
  rw [h.control]

namespace Waiting

variable {thread : ThreadId} {mode : StepMode} {A a : Activation} {s : Session τ} {n : Nesting}
  {site : Site} {rest : List Activation}

theorem not_suspended (h : Waiting thread mode A s n) : (s.status thread).isSuspended = false := by
  obtain ⟨b, -, hstatus, -⟩ := h.bound
  rw [hstatus]
  rfl

/-- The step is bound to the innermost call if it goes into functions or was asked for there. -/
theorem marks_iff (h : Waiting thread mode A s n) (hlive : n.live = a :: rest) :
    (s.status thread).marker? = some a.base ↔ mode = .into ∨ n.live.head? = some A := by
  obtain ⟨b, hmem, hstatus, hinto, hout⟩ := h.bound
  have hmarker : (s.status thread).marker? = some b.base := by
    rw [hstatus]
    rfl
  -- no two calls under way have the same base, so equal bases are equal calls
  rw [hmarker, Option.some.injEq, h.ordered.base_eq_iff hlive hmem, hlive, List.head?_cons,
    Option.some.injEq]
  by_cases hmode : mode = .into
  · have hhead := hinto hmode
    rw [hlive, List.head?_cons, Option.some.injEq] at hhead
    exact ⟨fun _ => .inl hmode, fun _ => hhead.symm⟩
  · rw [hout hmode]
    exact ⟨fun heq => .inr heq.symm, fun hor => (hor.resolve_left hmode).symm⟩

theorem stopsOnLine_iff (h : Waiting thread mode A s n) (hthread : site.thread = thread)
    (hlive : n.live = a :: rest) (hbase : site.base = a.base) :
    (s.status thread).stopsOnLine site.base = true ↔ Awaited thread mode A n (.line site) := by
  have hmode : (s.status thread).mode = mode := by
    obtain ⟨b, -, hstatus, -⟩ := h.bound
    rw [hstatus]
    rfl
  unfold ThreadStatus.stopsOnLine Awaited
  rw [hmode, hbase]
  simp only [Bool.and_eq_true, Bool.or_eq_true, decide_eq_true_eq, h.marks_iff hlive]
  constructor
  · intro hstops
    obtain ⟨hinto | hover, hmarks⟩ := hstops
    · exact ⟨hthread, .inl hinto⟩
    · refine ⟨hthread, ?_⟩
      rcases hmarks with hinto | hhead
      · exact .inl hinto
      · exact .inr ⟨hover, hhead⟩
  · intro hawaited
    obtain ⟨-, hinto | ⟨hover, hhead⟩⟩ := hawaited
    · exact ⟨.inl hinto, .inl hinto⟩
    · exact ⟨.inr hover, .inr hhead⟩

theorem stopsOnReturn_iff (h : Waiting thread mode A s n) (hthread : site.thread = thread)
    (hlive : n.live = a :: rest) (hbase : site.base = a.base) :
    (s.status thread).stopsOnReturn site.base = true ↔ Awaited thread mode A n (.leave site) := by
  have hmode : (s.status thread).mode = mode := by
    obtain ⟨b, -, hstatus, -⟩ := h.bound
    rw [hstatus]
    rfl
  unfold ThreadStatus.stopsOnReturn Awaited
  rw [hmode, hbase]
  simp only [Bool.and_eq_true, decide_eq_true_eq, h.marks_iff hlive]
  constructor
  · intro hstops
    obtain ⟨-, hinto | hhead⟩ := hstops
    · exact ⟨hthread, .inl hinto⟩
    · -- a return ends a step of any mode, once it is the return of the right call
      rcases mode.eq_of_ne_run h.mode_ne with hinto | hstays
      · exact ⟨hthread, .inl hinto⟩
      · exact ⟨hthread, .inr ⟨hstays, hhead⟩⟩
  · intro hawaited
    obtain ⟨-, hinto | ⟨-, hhead⟩⟩ := hawaited
    · exact ⟨h.mode_ne, .inl hinto⟩
    · exact ⟨h.mode_ne, .inr hhead⟩

/-- A line of the thread stops exactly if the step waits for it. -/
theorem stopsAt_iff (h : Waiting thread mode A s n) (hthread : site.thread = thread)
    (hlive : n.live = a :: rest) (hbase : site.base = a.base)
    (hbreakpoint : s.breakpointAt? site = none) :
    stopsAt s site = true ↔ Awaited thread mode A n (.line site) := by
  unfold stopsAt Session.endsOnLine
  rw [h.isOpen, hbreakpoint, hthread, h.not_suspended, ← h.stopsOnLine_iff hthread hlive hbase]
  simp

theorem stopsBehind_iff (h : Waiting thread mode A s n) (hthread : site.thread = thread)
    (hlive : n.live = a :: rest) (hbase : site.base = a.base) :
    stopsBehind s site = true ↔ Awaited thread mode A n (.leave site) := by
  unfold stopsBehind
  rw [h.isOpen, hthread, ← h.stopsOnReturn_iff hthread hlive hbase]
  simp

theorem passes_line (h : Waiting thread mode A s n) (hthread : site.thread = thread)
    (hlive : n.live = a :: rest) (hbase : site.base = a.base)
    (hbreakpoint : s.breakpointAt? site = none)
    (hawaited : ¬ Awaited thread mode A n (.line site)) : Passes (.line site) s false := by
  rw [← h.stopsAt_iff hthread hlive hbase hbreakpoint, Bool.not_eq_true] at hawaited
  have hpasses := line_passes hawaited
  rw [hthread, h.not_suspended, Bool.and_false] at hpasses
  exact hpasses

theorem passes_leave (h : Waiting thread mode A s n) (hthread : site.thread = thread)
    (hlive : n.live = a :: rest) (hbase : site.base = a.base)
    (hawaited : ¬ Awaited thread mode A n (.leave site)) : Passes (.leave site) s false := by
  rw [← h.stopsBehind_iff hthread hlive hbase, Bool.not_eq_true] at hawaited
  exact leave_passes hawaited

theorem followsCall_iff (h : Waiting thread mode A s n) :
    (s.control.isOpen && (s.status thread).followsCall) = true ↔ mode = .into := by
  obtain ⟨b, -, hstatus, -⟩ := h.bound
  rw [h.isOpen, hstatus, Bool.true_and]
  exact decide_eq_true_iff

end Waiting

namespace Undisturbed

variable {thread : ThreadId} {op : Operation} {s : Session τ}

theorem not_touches (h : Undisturbed thread op s)
    (hother : ∀ site, op.site? = some site → site.thread ≠ thread) : ¬ op.Touches thread s := by
  intro htouches
  rcases htouches with ⟨site, hsite, hthread⟩ | hop | hop | ⟨t, command, hhandles, hcommand⟩
  · exact hother site hsite hthread
  · exact h.running hop
  · exact h.unfinished hop
  · exact h.command t command hhandles hcommand

/-- The session stays open. -/
theorem isOpen_after (h : Undisturbed thread op s) (hs : s.control.Sound) :
    (op.after s).control.isOpen = s.control.isOpen := by
  cases does op hs with
  | handles t htarget hcontrol hsilent =>
    rw [hcontrol]
    apply Control.isOpen_takeAll
    intro m hm hread
    exact h.command t .endSession ⟨htarget, m, hm, hread⟩ (.inr (.inr rfl))
  | notifies hsite hthreads hopen hsilent =>
    rw [hopen]
    rcases notify_cases op s.control with ⟨-, heq⟩ | ⟨id, -, -, heq⟩ | ⟨hop, -⟩
    · exact heq
    · exact heq
    · exact absurd hop h.unfinished
  | passes site b hsite hpasses hanswer => rw [hpasses.control]
  | follows site hop hanswer hmode hopen hcontrol htraffic => rw [hcontrol]
  | stops site hop hfree hopen hstops => rw [hstops.control]
  | misses site hop hfree hopen hmisses => rw [hmisses.control]

end Undisturbed

namespace Waiting

variable {thread : ThreadId} {mode : StepMode} {A : Activation} {s : Session τ} {n n' : Nesting}

/-- The command binds the step to the call in which it is handled. -/
theorem asked {op : Operation} {rest : List Activation} (hs : s.Reachable)
    (hasks : AsksStep thread mode A.base op s) (hopen : (op.after s).control.isOpen = true)
    (hlive : n.live = A :: rest) (hordered : n.Ordered) : Waiting thread mode A (op.after s) n := by
  obtain ⟨t, before, m, after, command, htarget, hhandled, hcommand, hstep, hbase, hafter⟩ := hasks
  have hstatus : (op.after s).status thread = .stepping mode A.base := by
    show (op.after s).control.threads.status thread = _
    rw [(handled_spec htarget s).1, hhandled, Control.takeAll_append]
    -- what is handled behind the command leaves the thread as it is
    show ((((s.control.takeAll t before).1.take t m).1.takeAll t after).1.threads.status thread) = _
    rw [Control.status_takeAll _ hafter, Control.status_take_step _ hcommand hstep hbase]
  refine ⟨.after op hs, hopen, hordered, Command.step?_ne_run hstep, A, ?_, hstatus, ?_, ?_⟩
  · rw [hlive]
    exact List.mem_cons_self
  · intro _
    rw [hlive]
    rfl
  · intro _
    rfl

theorem next {op : Operation} (h : Waiting thread mode A s n)
    (hundisturbed : Undisturbed thread op s) (hfollows : n.Follows thread op n')
    (hawaited : ¬ Awaited thread mode A n op) : Waiting thread mode A (op.after s) n' := by
  have hsound := h.reachable.sound
  have hreachable : (op.after s).Reachable := .after op h.reachable
  have hopen : (op.after s).control.isOpen = true := by
    rw [hundisturbed.isOpen_after hsound, h.isOpen]
  obtain ⟨b, hmem, hstatus, hinto, hout⟩ := h.bound
  cases hfollows with
  | line hthread hlive hbase =>
    have hpasses := h.passes_line hthread hlive hbase
      (hundisturbed.breakpoint _ rfl hthread) hawaited
    exact ⟨hreachable, hopen, h.ordered, h.mode_ne, b, hmem, hpasses.status_eq ▸ hstatus,
      hinto, hout⟩
  | call hthread habove =>
    rename_i site
    by_cases hmode : mode = .into
    · -- the step goes on in the call that is entered
      have hfollows := h.followsCall_iff.mpr hmode
      rw [← hthread] at hfollows
      obtain ⟨-, hcontrol, -⟩ := call_follows hfollows
      have hcallee : (after (.call site) s).status thread = .stepping mode site.base := by
        show (after (.call site) s).control.threads.status thread = _
        rw [hcontrol, hmode]
        exact (Threads.status_begin ..).trans (if_pos hthread)
      exact ⟨hreachable, hopen, h.ordered.push habove, h.mode_ne, _, List.mem_cons_self, hcallee,
        fun _ => rfl, absurd hmode⟩
    · -- the call stays under way below the one that is entered
      have hpasses : Passes (.call site) s false := by
        apply call_passes
        rw [hthread, ← Bool.not_eq_true, h.followsCall_iff]
        exact hmode
      exact ⟨hreachable, hopen, h.ordered.push habove, h.mode_ne, b, List.mem_cons_of_mem _ hmem,
        hpasses.status_eq ▸ hstatus, fun hinto => absurd hinto hmode, hout⟩
  | leave hthread hlive hbase =>
    rename_i site a rest
    have hpasses := h.passes_leave hthread hlive hbase hawaited
    have hmode : mode ≠ .into := by
      intro hinto
      exact hawaited ⟨hthread, .inl hinto⟩
    -- the call that is left is not the one of the step
    have hrest : b ∈ rest := by
      rw [hlive] at hmem
      cases hmem with
      | tail _ hrest => exact hrest
      | head =>
        have hhead : n.live.head? = some A := by
          rw [hlive, List.head?_cons, hout hmode]
        have hstays := (mode.eq_of_ne_run h.mode_ne).resolve_left hmode
        exact absurd ⟨hthread, .inr ⟨hstays, hhead⟩⟩ hawaited
    exact ⟨hreachable, hopen, h.ordered.pop hlive, h.mode_ne, b, hrest, hpasses.status_eq ▸ hstatus,
      fun hinto => absurd hinto hmode, hout⟩
  | other hother =>
    have hsame := status_after hsound (hundisturbed.not_touches hother)
    exact ⟨hreachable, hopen, h.ordered, h.mode_ne, b, hmem, by rw [hsame, hstatus], hinto, hout⟩

end Waiting

/-! ## What the hooks answer -/

/-- No message is lost. -/
def Delivers (transport : τ) : Prop :=
  ∀ m, ∃ transport', Transport.send m transport = .ok () transport'

/-- A link delivers as long as the debugger listens. -/
theorem delivers_of_open {l : Link} (h : l.events.receiverOpen = true) : Delivers l := by
  intro m
  refine ⟨{ l with events := { l.events with queue := l.events.queue ++ [m] } }, ?_⟩
  simp only [Transport.send, Link.onEvents, Channel.send, h, if_true]

/-- An awaited hook stops the thread and tells so in a single message, any other is silent. -/
structure Answers (op : Operation) (s : Session τ) (site : Site) (awaited : Prop) : Prop where
  stops : awaited → Delivers s.transport →
    op.answer s = true ∧ op.traffic s = { delivered := [stopMessage site] }
  passes : ¬ awaited → op.answer s = false ∧ op.traffic s = {}

theorem Operation.Passes.answers {op : Operation} {s : Session τ} {site : Site} {awaited : Prop}
    (h : op.Passes s false) (hawaited : ¬ awaited) : Answers op s site awaited where
  stops hpos := absurd hpos hawaited
  passes _ := ⟨h.answer, h.traffic⟩

theorem answers_of_stops {op : Operation} {s : Session τ} {site : Site} {awaited : Prop}
    (h : op.Stops s site ∨ op.Misses s site) (hawaited : awaited) : Answers op s site awaited where
  stops _ hdelivers := by
    rcases h with hstops | hmisses
    · exact ⟨hstops.answer, hstops.traffic⟩
    · obtain ⟨e, w, hfailed⟩ := hmisses.failed
      obtain ⟨w', hsent⟩ := hdelivers (stopMessage site)
      rw [hfailed] at hsent
      cases hsent
  passes := absurd hawaited

/-- What the hooks of the thread answer while a step is under way. -/
theorem Waiting.answers {thread : ThreadId} {mode : StepMode} {A : Activation} {s : Session τ}
    {n n' : Nesting} {op : Operation} {site : Site} (h : Waiting thread mode A s n)
    (hundisturbed : Undisturbed thread op s) (hfollows : n.Follows thread op n')
    (hsite : op.site? = some site) (hthread : site.thread = thread) :
    Answers op s site (Awaited thread mode A n op) := by
  cases hfollows with
  | line hthread' hlive hbase =>
    cases hsite
    have hbreakpoint := hundisturbed.breakpoint site rfl hthread
    by_cases hawaited : Awaited thread mode A n (.line site)
    · have hstop := (h.stopsAt_iff hthread hlive hbase hbreakpoint).mpr hawaited
      exact answers_of_stops (line_stops hstop) hawaited
    · exact (h.passes_line hthread hlive hbase hbreakpoint hawaited).answers hawaited
  | call hthread' habove =>
    cases hsite
    have hawaited : ¬ Awaited thread mode A n (.call site) := id
    by_cases hfollow : (s.control.isOpen && (s.status site.thread).followsCall) = true
    · obtain ⟨hanswer, -, htraffic⟩ := call_follows hfollow
      exact ⟨fun hpos => absurd hpos hawaited, fun _ => ⟨hanswer, htraffic⟩⟩
    · exact (call_passes (Bool.not_eq_true _ ▸ hfollow)).answers hawaited
  | leave hthread' hlive hbase =>
    cases hsite
    by_cases hawaited : Awaited thread mode A n (.leave site)
    · have hstop := (h.stopsBehind_iff hthread hlive hbase).mpr hawaited
      exact answers_of_stops (leave_stops hstop) hawaited
    · exact (h.passes_leave hthread hlive hbase hawaited).answers hawaited
  | other hother => exact absurd hthread (hother site hsite)

namespace Pending

variable {thread : ThreadId} {mode : StepMode} {A : Activation} {s : Session τ} {n n' : Nesting}
  {past : List (Bool × Traffic)}

theorem waiting (h : Pending thread mode A s n past) : Waiting thread mode A s n := by
  induction h with
  | asked hs hasks hopen hlive hordered => exact .asked hs hasks hopen hlive hordered
  | next _ hundisturbed hfollows hawaited ih => exact ih.next hundisturbed hfollows hawaited
  | moved _ transport ih =>
    exact ⟨.moved transport ih.reachable, ih.isOpen, ih.ordered, ih.mode_ne, ih.bound⟩

/-- No hook of the thread has stopped it or sent anything yet. -/
theorem past_eq (h : Pending thread mode A s n past) : ∀ r ∈ past, r = (false, {}) := by
  -- each hook so far was not awaited when it was called, so it passed
  induction h with
  | asked =>
    intro r hr
    cases hr
  | moved _ transport ih => exact ih
  | next hpending hundisturbed hfollows hawaited ih =>
    rename_i s op n n' past
    intro r hr
    rcases List.mem_append.mp hr with hbefore | hnow
    · exact ih r hbefore
    · unfold Operation.replies at hnow
      cases hsite : op.site? with
      | none =>
        rw [hsite] at hnow
        cases hnow
      | some site =>
        rw [hsite] at hnow
        dsimp only at hnow
        split at hnow
        · rename_i hthread
          obtain ⟨hanswer, htraffic⟩ := (hpending.waiting.answers hundisturbed hfollows hsite
            hthread).passes hawaited
          rw [List.mem_singleton.mp hnow, hanswer, htraffic]
        · cases hnow

end Pending

/--
A hook of a thread that makes a step stops it exactly if it is the hook that the step waits for: it
answers `true` and tells the stop in a single message. Every hook of the thread before it has
answered `false` and sent nothing.
-/
theorem steps_stop {thread : ThreadId} {mode : StepMode} {A : Activation} {s : Session τ}
    {n n' : Nesting} {past : List (Bool × Traffic)} {op : Operation} {site : Site}
    (h : Pending thread mode A s n past) (hundisturbed : Undisturbed thread op s)
    (hfollows : n.Follows thread op n') (hsite : op.site? = some site)
    (hthread : site.thread = thread) :
    (∀ r ∈ past, r = (false, {})) ∧ Answers op s site (Awaited thread mode A n op) :=
  ⟨h.past_eq, h.waiting.answers hundisturbed hfollows hsite hthread⟩

namespace Example

/-- A hook that hits no breakpoint does not disturb a step. -/
theorem undisturbed_hook {thread : ThreadId} {op : Operation} {site : Site} {s : Session τ}
    (hsite : op.site? = some site) (hbreakpoint : s.breakpointAt? site = none) :
    Undisturbed thread op s where
  breakpoint := by
    intro site' hop _
    rw [hop] at hsite
    cases hsite
    exact hbreakpoint
  command := by
    intro t command hhandles
    exact absurd hsite (site?_ne_some hhandles.1)
  running := by
    intro hop
    rw [hop] at hsite
    cases hsite
  unfinished := by
    intro hop
    rw [hop] at hsite
    cases hsite

/-- A place in a function that is called from the first line. -/
def inner : Site :=
  { firstLine with base := 4, line := 9 }

/-- A session to which a step over the call in the first line is on its way. -/
def waiting : Session Link :=
  { transport := { commands := { queue := [(Command.stepOver 1).toBytes] } } }

/-- The thread was asked to step. -/
def askedOver : Session Link :=
  (Operation.update program).after waiting

/-- The function is entered. -/
def entered : Session Link :=
  (Operation.call inner).after askedOver

/-- A line of the function has run. -/
def running : Session Link :=
  (Operation.line inner).after entered

/-- So has a line of another thread. -/
def interleaved : Session Link :=
  otherLine.after running

/-- The function is left. -/
def returned : Session Link :=
  (Operation.leave inner).after interleaved

/-- The outermost call, in which the step is asked for. -/
def outer : Activation where
  serial := 0
  base := 0

theorem pending_askedOver : Pending 1 .over outer askedOver { live := [outer], next := 1 } [] := by
  have hhandled : handled (.update program) waiting = [] ++ (Command.stepOver 1).toBytes :: [] := by
    decide +kernel
  have hread : Command.ofBytes (Command.stepOver 1).toBytes = .ok (.stepOver 1) := by rfl
  have hopen : askedOver.control.isOpen = true := by decide +kernel
  have hasks : AsksStep 1 .over outer.base (.update program) waiting :=
    ⟨program, [], _, [], .stepOver 1, rfl, hhandled, hread, rfl, rfl, fun m hm => by cases hm⟩
  refine .asked (.opened _ 64) hasks hopen rfl ?_
  exact ⟨List.pairwise_singleton _ _, List.pairwise_singleton _ _, by decide⟩

/-- What the hooks of the thread have answered before it is back. -/
def past : List (Bool × Traffic) :=
  (Operation.call inner).replies 1 askedOver ++ (Operation.line inner).replies 1 entered ++
    otherLine.replies 1 running ++ (Operation.leave inner).replies 1 interleaved

theorem pending_returned : Pending 1 .over outer returned { live := [outer], next := 2 } past := by
  have hentered : Pending 1 .over outer entered { live := [⟨1, 4⟩, outer], next := 2 }
      ((Operation.call inner).replies 1 askedOver) :=
    pending_askedOver.next (undisturbed_hook rfl rfl) (.call rfl (by decide)) (by decide)
  have hrunning := hentered.next (undisturbed_hook rfl rfl) (.line rfl rfl rfl)
    (show ¬ Awaited 1 .over outer _ (.line inner) by decide)
  have hother : ∀ site, otherLine.site? = some site → site.thread ≠ 1 := by
    intro site hsite
    cases hsite
    decide
  have hinterleaved := hrunning.next (undisturbed_hook rfl rfl) (.other hother) (by decide)
  exact hinterleaved.next (undisturbed_hook rfl rfl) (.leave rfl rfl rfl)
    (show ¬ Awaited 1 .over outer _ (.leave inner) by decide)

end Example

open Example in
/-- A step over a call does not stop in the function that is called, but at the line behind it. -/
theorem steps_stop_over :
    (∀ r ∈ past, r = (false, {})) ∧ answer (.line firstLine) returned = true ∧
      traffic (.line firstLine) returned = { delivered := [stopMessage firstLine] } := by
  have hdelivers : Delivers returned.transport := delivers_of_open (by decide +kernel)
  have hawaited : Awaited 1 .over outer { live := [outer], next := 2 } (.line firstLine) := by
    decide
  obtain ⟨hpast, hanswers⟩ := steps_stop pending_returned (undisturbed_hook rfl rfl)
    (.line rfl rfl rfl) (show site? (.line firstLine) = some firstLine from rfl) rfl
  exact ⟨hpast, hanswers.stops hawaited hdelivers⟩

end ScriptToolchain.Debug
