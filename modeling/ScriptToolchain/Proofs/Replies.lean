import ScriptToolchain.Proofs.Batches

/-!
# Complete replies

`RepliesTo` says what the reply to each command is, without the code that makes
it. Which threads a list of threads calls held depends on the commands before
it: a suspended thread stays so until a command frees it (`held_handle`). A
reply is a single event, or a list between its first and its last event, and no
reply is the start of another one (`Complete.split`). So whoever reads the
events of a session can cut them into the replies in one way only
(`replies_complete`).
-/

namespace ScriptToolchain.Debug

/-! ## The reply to a command -/

/-- The record of a call with its number. -/
def CallFrame.record (f : CallFrame) (position : Nat) : Event :=
  .contextCall position.toUInt32 f.function f.source f.line f.this

/-- The records of calls, numbered from `first` on. -/
def records (first : Nat) (frames : List CallFrame) : List Event :=
  (frames.zipIdx first).map fun (f, position) => f.record position

/-- What is told of a thread if `held` are those that are suspended. -/
inductive ToldAs (held : ThreadId → Prop) (e : ThreadEntry) : Event → Prop
  | suspended : held e.id → ToldAs held e (.threadInfo e.id .debug)
  | own : ¬ held e.id → ToldAs held e (.threadInfo e.id e.state)

/-- The reply to a command while `held` are the threads that are suspended. -/
inductive RepliesTo (t : Target) (held : ThreadId → Prop) : Command → List Event → Prop
  | run (thread : ThreadId) : RepliesTo t held (.run thread) []
  | step {command : Command} {thread : ThreadId} {mode : StepMode} :
    command.step? = some (thread, mode) → (t.frameBase? thread).isSome = true →
    RepliesTo t held command []
  | unknownThread {command : Command} {thread : ThreadId} {mode : StepMode} :
    command.step? = some (thread, mode) → t.frameBase? thread = none →
    RepliesTo t held command [.error s!"unknown thread {thread}"]
  | noFrame {thread : ThreadId} {frame : UInt32} :
    (t.frames thread).length ≤ frame.toNat →
    RepliesTo t held (.getContext thread frame) [.error s!"no frame {frame} on thread {thread}"]
  /-- All calls are told, and behind the one that was asked for its variables. -/
  | context {thread : ThreadId} {frame : UInt32} {before after : List CallFrame} {f : CallFrame} :
    t.frames thread = before ++ f :: after → before.length = frame.toNat →
    RepliesTo t held (.getContext thread frame)
      (.beginContext thread frame :: (records 0 before ++
        f.record frame.toNat :: f.locals.map .contextVariable ++
        records (frame.toNat + 1) after) ++ [.endContext])
  | source {id : UInt32} {s : SourceEntry} : t.source? id = some s →
    RepliesTo t held (.getSource id) [.source s.id s.name s.text]
  | unknownSource {id : UInt32} : t.source? id = none →
    RepliesTo t held (.getSource id) [.error s!"unknown source 0x{Text.hexPadded 8 id.toNat}"]
  | sources : RepliesTo t held .getSourceInfo
      (.beginSourceInfo :: t.sources.map (fun s => .sourceInfo s.id s.name) ++ [.endSourceInfo])
  | threads {told : List Event} : List.Forall₂ (ToldAs held) t.threads told →
    RepliesTo t held .getThreadInfo (.beginThreadInfo :: told ++ [.endThreadInfo])
  | members {reference : ValueRef} {vs : List Variable} : t.members? reference = some vs →
    RepliesTo t held (.getVariableInfo reference)
      (.beginVariableInfo reference :: vs.map .contextVariable ++ [.endVariableInfo])
  | unknownReference {reference : ValueRef} : t.members? reference = none →
    RepliesTo t held (.getVariableInfo reference)
      [.error s!"unknown variable reference {reference}"]
  | breakpoint (response source line : UInt32) (thread : ThreadId) (enabled ok : Bool) :
    RepliesTo t held (.setBreakpoint response source line thread enabled) [.ack response ok]
  | ended : RepliesTo t held .endSession [.sessionEnd]

/-- A thread was held and no command has freed it since. -/
def StillHeld (held : ThreadId → Prop) (since : List (Target × Command)) (thread : ThreadId) :
    Prop :=
  held thread ∧ ∀ x ∈ since, ¬ x.2.Frees x.1 thread

/--
One reply to each command, in order. The threads `held` are those that were suspended before the
first command, and each command finds those that the commands before it have not freed.
-/
structure Replied (held : ThreadId → Prop) (asked : List (Target × Command))
    (replies : List (List Event)) : Prop where
  length : replies.length = asked.length
  answers : ∀ k t command reply, asked[k]? = some (t, command) → replies[k]? = some reply →
    RepliesTo t (StillHeld held (asked.take k)) command reply

theorem stillHeld_nil (held : ThreadId → Prop) : StillHeld held [] = held := by
  funext thread
  simp [StillHeld]

theorem stillHeld_cons (held : ThreadId → Prop) (t : Target) (command : Command)
    (since : List (Target × Command)) :
    StillHeld held ((t, command) :: since) =
      StillHeld (fun thread => held thread ∧ ¬ command.Frees t thread) since := by
  funext thread
  simp [StillHeld, and_assoc]

namespace Replied

variable {held : ThreadId → Prop} {asked : List (Target × Command)} {replies : List (List Event)}
variable {t : Target} {command : Command} {reply : List Event}

theorem nil (held : ThreadId → Prop) : Replied held [] [] where
  length := rfl
  answers k t command reply h := by cases h

/-- The commands behind the first one find what it has left. -/
theorem cons (h : RepliesTo t held command reply)
    (hrest : Replied (fun thread => held thread ∧ ¬ command.Frees t thread) asked replies) :
    Replied held ((t, command) :: asked) (reply :: replies) where
  length := by rw [List.length_cons, List.length_cons, hrest.length]
  answers k t' command' reply' hasked hreply := by
    cases k with
    | zero =>
      cases hasked
      cases hreply
      rw [List.take_zero, stillHeld_nil]
      exact h
    | succ k =>
      rw [List.take_succ_cons, stillHeld_cons]
      exact hrest.answers k t' command' reply' hasked hreply

end Replied

/-! ## The code gives these replies -/

namespace Reply

/-- Without the call that was asked for there are no variables. -/
theorem flatMap_frame_of_ne (asked : UInt32) (first : Nat) (frames : List CallFrame)
    (h : asked.toNat < first ∨ first + frames.length ≤ asked.toNat) :
    (frames.zipIdx first).flatMap (fun (f, position) => frame asked f position) =
      records first frames := by
  induction frames generalizing first with
  | nil => rfl
  | cons f rest ih =>
    rw [List.length_cons] at h
    have hne : first ≠ asked.toNat := by omega
    have hrest := ih (first + 1) (by omega)
    simp only [records, List.zipIdx_cons, List.flatMap_cons, List.map_cons] at hrest ⊢
    rw [hrest]
    simp [frame, CallFrame.record, hne]

theorem flatMap_frame {asked : UInt32} {before : List CallFrame} (f : CallFrame)
    (after : List CallFrame) (h : before.length = asked.toNat) :
    (before ++ f :: after).zipIdx.flatMap (fun (f, position) => frame asked f position) =
      records 0 before ++ f.record asked.toNat :: f.locals.map .contextVariable ++
        records (asked.toNat + 1) after := by
  have hbefore := flatMap_frame_of_ne asked 0 before (by omega)
  have hafter := flatMap_frame_of_ne asked (asked.toNat + 1) after (by omega)
  have hasked : frame asked f asked.toNat =
      f.record asked.toNat :: f.locals.map .contextVariable := by
    unfold frame
    rw [if_pos rfl]
    rfl
  rw [List.zipIdx_append, List.zipIdx_cons, List.flatMap_append, List.flatMap_cons, hbefore,
    Nat.zero_add, h, hafter]
  show records 0 before ++ (frame asked f asked.toNat ++ _) = _
  rw [hasked, List.append_assoc]

theorem repliesTo_context (t : Target) (held : ThreadId → Prop) (thread : ThreadId)
    (asked : UInt32) : RepliesTo t held (.getContext thread asked) (context t thread asked) := by
  unfold context
  by_cases hnone : (t.frames thread).length ≤ asked.toNat
  · rw [if_pos hnone]
    exact .noFrame hnone
  · rw [if_neg hnone]
    -- the calls are split at the one that was asked for
    have hlt : asked.toNat < (t.frames thread).length := Nat.lt_of_not_le hnone
    have hsplit : t.frames thread = (t.frames thread).take asked.toNat ++
        (t.frames thread)[asked.toNat] :: (t.frames thread).drop (asked.toNat + 1) := by
      rw [List.getElem_cons_drop, List.take_append_drop]
    have hlength : ((t.frames thread).take asked.toNat).length = asked.toNat :=
      List.length_take_of_le hlt.le
    have hrecords := flatMap_frame (t.frames thread)[asked.toNat]
      ((t.frames thread).drop (asked.toNat + 1)) hlength
    rw [← hsplit] at hrecords
    rw [hrecords]
    exact .context hsplit hlength

theorem repliesTo_threads (t : Target) (held : Threads) :
    RepliesTo t (fun thread => (held.status thread).isSuspended = true) .getThreadInfo
      (threads t held) := by
  refine RepliesTo.threads (List.forall₂_map_right_iff.mpr (List.forall₂_same.mpr ?_))
  intro e _
  unfold threadState
  by_cases hheld : (held.status e.id).isSuspended = true
  · rw [if_pos hheld]
    exact .suspended hheld
  · rw [if_neg hheld]
    exact .own hheld

end Reply

namespace Control

/-- The thread is suspended. -/
def Held (c : Control) (thread : ThreadId) : Prop :=
  (c.threads.status thread).isSuspended = true

theorem repliesTo_beginStep {c : Control} {t : Target} {command : Command} {thread : ThreadId}
    {mode : StepMode} (h : command.step? = some (thread, mode)) :
    RepliesTo t c.Held command (c.beginStep t thread mode).2 := by
  unfold beginStep
  cases hbase : t.frameBase? thread with
  | none => exact .unknownThread h hbase
  | some base => exact .step h (by rw [hbase]; rfl)

/-- The reply to a command is the one that it should have. -/
theorem repliesTo_handle {c : Control} (hopen : c.isOpen = true) (t : Target) (command : Command) :
    RepliesTo t c.Held command (c.handle t command).2 := by
  cases command with
  | run thread => exact .run thread
  | stepInto thread => exact repliesTo_beginStep rfl
  | stepOver thread => exact repliesTo_beginStep rfl
  | stepOut thread => exact repliesTo_beginStep rfl
  | forceBreak thread => exact repliesTo_beginStep rfl
  | getContext thread frame => exact Reply.repliesTo_context t c.Held thread frame
  | getSource id =>
    show RepliesTo t c.Held _ (Reply.source t id)
    unfold Reply.source
    cases hsource : t.source? id with
    | none => exact .unknownSource hsource
    | some s => exact .source hsource
  | getSourceInfo => exact .sources
  | getThreadInfo => exact Reply.repliesTo_threads t c.threads
  | getVariableInfo reference =>
    show RepliesTo t c.Held _ (Reply.members t reference)
    unfold Reply.members
    cases hmembers : t.members? reference with
    | none => exact .unknownReference hmembers
    | some vs => exact .members hmembers
  | setBreakpoint response source line thread enabled => exact .breakpoint ..
  | endSession =>
    show RepliesTo t c.Held _ c.close.2
    unfold close
    rw [if_pos hopen]
    exact .ended

/-- The threads that are suspended behind a command are those that it has not freed. -/
theorem held_handle {c : Control} (hopen : c.isOpen = true) (t : Target) (command : Command) :
    (c.handle t command).1.Held = fun thread => c.Held thread ∧ ¬ command.Frees t thread := by
  have hmoves := moves_handle c t command
  funext thread
  apply propext
  constructor
  · intro hafter
    refine ⟨hmoves.suspended_of hafter, ?_⟩
    intro hfrees
    -- whatever frees the thread leaves it running, stepping or unknown
    rcases hfrees with rfl | ⟨⟨mode, hstep⟩, hbase⟩ | rfl
    · simp [Held, handle, Threads.status_resume] at hafter
    · obtain ⟨base, hbase⟩ := Option.isSome_iff_exists.mp hbase
      cases command <;> cases hstep <;>
        simp [Held, handle, beginStep, hbase, Threads.status_begin, ThreadStatus.stepping]
          at hafter
    · simp [Held, handle, close, hopen] at hafter
  · rintro ⟨hbefore, hkept⟩
    by_contra hafter
    exact hkept (hmoves.frees hbefore (Bool.not_eq_true _ ▸ hafter))

/-! ### Many commands -/

/-- From `c` to `c'` the commands are handled in order while the session is open. -/
inductive Serves : Control → List (Target × Command) → List (List Event) → Control → Prop
  | done (c : Control) : Serves c [] [] c
  | next {c c' : Control} {t : Target} {command : Command} {asked : List (Target × Command)}
    {replies : List (List Event)} : c.isOpen = true →
    Serves (c.handle t command).1 asked replies c' →
    Serves c ((t, command) :: asked) ((c.handle t command).2 :: replies) c'

namespace Serves

variable {c c' c'' : Control} {asked asked' : List (Target × Command)}
variable {replies replies' : List (List Event)}

theorem append (h : Serves c asked replies c') (h' : Serves c' asked' replies' c'') :
    Serves c (asked ++ asked') (replies ++ replies') c'' := by
  induction h with
  | done c => exact h'
  | next hopen _ ih => exact .next hopen (ih h')

/-- A run of commands has the replies that it should have. -/
theorem replied (h : Serves c asked replies c') : Replied c.Held asked replies := by
  induction h with
  | done c => exact .nil c.Held
  | @next c c' t command asked replies hopen _ ih =>
    rw [held_handle hopen t command] at ih
    exact .cons (repliesTo_handle hopen t command) ih

end Serves

/-- The messages that are due are handled while the session is open. -/
theorem serves_due (t : Target) {n : Nat} {c : Control} {ms : List Bytes}
    (h : n ≤ (c.due ms).length) : ∃ replies,
      Serves c ((commandsIn (ms.take n)).map fun command => (t, command)) replies
        (c.handleAll t (commandsIn (ms.take n))).1 ∧
      replies.flatten = (c.handleAll t (commandsIn (ms.take n))).2 := by
  induction n generalizing c ms with
  | zero => exact ⟨[], .done c, rfl⟩
  | succ n ih =>
    by_cases hopen : c.isOpen = true
    · cases ms with
      | nil => simp [due_nil] at h
      | cons m rest =>
        rw [due_cons hopen t m rest] at h
        obtain ⟨replies, hserves, hflatten⟩ := ih (Nat.le_of_succ_le_succ h)
        rw [take_eq] at hserves hflatten
        rw [List.take_succ_cons, commandsIn, List.filterMap_cons, ← commandsIn]
        cases hm : command? m with
        | none =>
          -- what is no command changes nothing and has no reply
          rw [hm] at hserves hflatten
          exact ⟨replies, hserves, hflatten⟩
        | some command =>
          rw [hm] at hserves hflatten
          refine ⟨(c.handle t command).2 :: replies, .next hopen hserves, ?_⟩
          rw [List.flatten_cons, hflatten]
          rfl
    · rw [due_of_closed hopen] at h
      cases h

end Control

/-! ## Cutting events into replies -/

namespace EventKind

/-- The kinds of the records in a list, and of its last event. -/
structure Listing where
  records : List EventKind
  last : EventKind

/-- The list that starts with an event of this kind. -/
def listing? : EventKind → Option Listing
  | .beginContext => some ⟨[.contextCall, .contextVariable], .endContext⟩
  | .beginSourceInfo => some ⟨[.sourceInfo], .endSourceInfo⟩
  | .beginThreadInfo => some ⟨[.threadInfo], .endThreadInfo⟩
  | .beginVariableInfo => some ⟨[.contextVariable], .endVariableInfo⟩
  | _ => none

/-- The kinds of events that are replies of their own. -/
def single : List EventKind :=
  [.source, .error, .ack, .sessionEnd]

theorem listing?_of_single {k : EventKind} (h : k ∈ single) : k.listing? = none := by
  cases k <;> first | rfl | exact absurd h (by decide)

/-- No list goes on behind its last event. -/
theorem last_notMem_records {k : EventKind} {l : Listing} (h : k.listing? = some l) :
    l.last ∉ l.records := by
  cases k <;> cases h <;> decide

end EventKind

/-- A whole reply, as far as it can be seen from the kinds of its events. -/
inductive Complete : List Event → Prop
  | single {e : Event} : e.kind ∈ EventKind.single → Complete [e]
  | list {first last : Event} {records : List Event} {l : EventKind.Listing} :
    first.kind.listing? = some l → (∀ e ∈ records, e.kind ∈ l.records) → last.kind = l.last →
    Complete (first :: records ++ [last])

namespace Complete

variable {reply reply' rest rest' : List Event}

theorem ne_nil (h : Complete reply) : reply ≠ [] := by
  cases h <;> exact List.cons_ne_nil _ _

theorem cut (h : Complete reply) : Complete (reply.map Event.cut) := by
  cases h with
  | single he => exact .single (by rwa [Event.kind_cut])
  | list hfirst hrecords hlast =>
    rw [List.map_append, List.map_cons]
    refine .list (by rwa [Event.kind_cut]) ?_ (by rwa [Event.kind_cut])
    intro e he
    obtain ⟨e', he', rfl⟩ := List.mem_map.mp he
    rw [Event.kind_cut]
    exact hrecords e' he'

/-- Records end where the first event stands that is none. -/
theorem records_eq {kinds : List EventKind} {records records' : List Event} {last last' : Event}
    (hrecords : ∀ e ∈ records, e.kind ∈ kinds) (hrecords' : ∀ e ∈ records', e.kind ∈ kinds)
    (hlast : last.kind ∉ kinds) (hlast' : last'.kind ∉ kinds)
    (h : records ++ last :: rest = records' ++ last' :: rest') :
    records = records' ∧ last = last' ∧ rest = rest' := by
  have htake := congrArg (List.takeWhile fun e => decide (e.kind ∈ kinds)) h
  rw [List.takeWhile_append_of_pos (by simpa using hrecords),
    List.takeWhile_append_of_pos (by simpa using hrecords'),
    List.takeWhile_cons_of_neg (by simpa using hlast),
    List.takeWhile_cons_of_neg (by simpa using hlast'), List.append_nil, List.append_nil] at htake
  subst htake
  have hbehind := List.append_cancel_left h
  cases hbehind
  exact ⟨rfl, rfl, rfl⟩

/-- No reply is the start of another one. -/
theorem split (h : Complete reply) (h' : Complete reply') (heq : reply ++ rest = reply' ++ rest') :
    reply = reply' ∧ rest = rest' := by
  cases h with
  | @single e he =>
    cases h' with
    | single he' =>
      cases heq
      exact ⟨rfl, rfl⟩
    | list hfirst' =>
      cases heq
      rw [EventKind.listing?_of_single he] at hfirst'
      cases hfirst'
  | @list first last records l hfirst hrecords hlast =>
    cases h' with
    | single he' =>
      cases heq
      rw [EventKind.listing?_of_single he'] at hfirst
      cases hfirst
    | @list first' last' records' l' hfirst' hrecords' hlast' =>
      simp only [List.cons_append, List.append_assoc, List.nil_append, List.cons.injEq] at heq
      obtain ⟨rfl, hbehind⟩ := heq
      -- the first event tells which records follow, so both lists end with the same event
      rw [hfirst] at hfirst'
      cases hfirst'
      have hends := EventKind.last_notMem_records hfirst
      obtain ⟨rfl, rfl, rfl⟩ := records_eq hrecords hrecords' (hlast ▸ hends) (hlast' ▸ hends)
        hbehind
      exact ⟨rfl, rfl⟩

/-- Events are cut into replies in one way only. -/
theorem flatten_inj {parts parts' : List (List Event)} (h : ∀ r ∈ parts, Complete r)
    (h' : ∀ r ∈ parts', Complete r) (heq : parts.flatten = parts'.flatten) : parts = parts' := by
  induction parts generalizing parts' with
  | nil =>
    cases parts' with
    | nil => rfl
    | cons reply' rest' =>
      rw [List.flatten_nil, List.flatten_cons] at heq
      have hnone := (List.append_eq_nil_iff.mp heq.symm).1
      exact absurd hnone (h' reply' List.mem_cons_self).ne_nil
  | cons reply rest ih =>
    cases parts' with
    | nil =>
      rw [List.flatten_nil, List.flatten_cons] at heq
      have hnone := (List.append_eq_nil_iff.mp heq).1
      exact absurd hnone (h reply List.mem_cons_self).ne_nil
    | cons reply' rest' =>
      obtain ⟨rfl, hrest⟩ := (h reply List.mem_cons_self).split (h' reply' List.mem_cons_self) heq
      rw [ih (fun r hr => h r (List.mem_cons_of_mem reply hr))
        (fun r hr => h' r (List.mem_cons_of_mem reply hr)) hrest]

end Complete

theorem kind_of_mem_records {first : Nat} {frames : List CallFrame} {e : Event}
    (h : e ∈ records first frames) : e.kind = .contextCall := by
  obtain ⟨x, -, rfl⟩ := List.mem_map.mp h
  rfl

theorem ToldAs.kind_eq {held : ThreadId → Prop} {entry : ThreadEntry} {e : Event}
    (h : ToldAs held entry e) : e.kind = .threadInfo := by
  cases h <;> rfl

theorem kind_of_mem_told {held : ThreadId → Prop} {entries : List ThreadEntry} {told : List Event}
    (h : List.Forall₂ (ToldAs held) entries told) : ∀ e ∈ told, e.kind = .threadInfo := by
  induction h with
  | nil => simp
  | cons hfirst _ ih => exact List.forall_mem_cons.mpr ⟨hfirst.kind_eq, ih⟩

/-- A command has no reply or a whole one. -/
theorem RepliesTo.complete {t : Target} {held : ThreadId → Prop} {command : Command}
    {reply : List Event} (h : RepliesTo t held command reply) (hsome : reply ≠ []) :
    Complete reply := by
  cases h with
  | run thread => exact absurd rfl hsome
  | step hstep hbase => exact absurd rfl hsome
  | context hframes hlength =>
    refine .list rfl ?_ rfl
    intro e he
    simp only [List.mem_append, List.mem_cons] at he
    rcases he with (he | rfl | he) | he
    · rw [kind_of_mem_records he]
      exact List.mem_cons_self
    · exact List.mem_cons_self
    · obtain ⟨v, -, rfl⟩ := List.mem_map.mp he
      exact List.mem_cons_of_mem _ List.mem_cons_self
    · rw [kind_of_mem_records he]
      exact List.mem_cons_self
  | sources =>
    refine .list rfl ?_ rfl
    intro e he
    obtain ⟨s, -, rfl⟩ := List.mem_map.mp he
    exact List.mem_cons_self
  | threads htold =>
    refine .list rfl ?_ rfl
    intro e he
    rw [kind_of_mem_told htold e he]
    exact List.mem_cons_self
  | members hmembers =>
    refine .list rfl ?_ rfl
    intro e he
    obtain ⟨v, -, rfl⟩ := List.mem_map.mp he
    exact List.mem_cons_self
  | _ => exact .single (by simp [Event.kind, EventKind.single])

theorem Replied.complete {held : ThreadId → Prop} {asked : List (Target × Command)}
    {replies : List (List Event)} {reply : List Event} (h : Replied held asked replies)
    (hreply : reply ∈ replies) (hsome : reply ≠ []) : Complete reply := by
  obtain ⟨k, hlt, hk⟩ := List.mem_iff_getElem.mp hreply
  have hlt' : k < asked.length := h.length ▸ hlt
  refine (h.answers k asked[k].1 asked[k].2 reply ?_ ?_).complete hsome
  · rw [List.getElem?_eq_getElem hlt']
  · rw [List.getElem?_eq_getElem hlt, hk]

/-! ## Updates -/

theorem Link.eventsOf_toBytes (es : List Event) :
    eventsOf (es.map Event.toBytes) = es.map Event.cut := by
  unfold eventsOf
  rw [List.filterMap_map, ← List.filterMap_eq_map]
  congr 1
  funext e
  simp [Event.ofBytes_toBytes, Except.toOption]

namespace Session

variable {τ : Type} [Transport τ] {box : Mailbox τ} {s s' : Session τ}
variable {asked : List (Target × Command)} {told : List Bytes}

/--
From `s` to `s'` there are updates, each with the program as it is by then. They handle these
commands and send these messages; in between messages may come and go at the transport, as long as
it works.
-/
inductive Updates (box : Mailbox τ) (s : Session τ) :
    List (Target × Command) → List Bytes → Session τ → Prop
  | none : Updates box s [] [] s
  | update {asked : List (Target × Command)} {told more : List Bytes} {s' s'' : Session τ}
    {t : Target} {n : Nat} : Updates box s asked told s' → update t s' = .ok n s'' →
    box.sent s''.transport = box.sent s'.transport ++ more →
    Updates box s
      (asked ++ (commandsIn ((box.waiting s'.transport).take n)).map fun command => (t, command))
      (told ++ more) s''
  | moved {asked : List (Target × Command)} {told : List Bytes} {s' : Session τ} {w : τ} :
    Updates box s asked told s' → box.works w →
    Updates box s asked told { s' with transport := w }

/-- An update has handled a run of commands and sent the replies to them. -/
theorem update_serves (box : Mailbox τ) (t : Target) (hs : box.works s.transport) :
    ∃ n s' replies, update t s = .ok n s' ∧ box.works s'.transport ∧
      s.control.Serves
        ((commandsIn ((box.waiting s.transport).take n)).map fun command => (t, command)) replies
        s'.control ∧
      box.sent s'.transport = box.sent s.transport ++ replies.flatten.map Event.toBytes := by
  obtain ⟨n, s', hupdate, hconsumes, hn⟩ := handleUpTo_consumes box t s.limit hs
  have hdue : n ≤ (s.control.due (box.waiting s.transport)).length := by
    rw [hn]
    exact Nat.min_le_right ..
  obtain ⟨replies, hserves, hflatten⟩ := Control.serves_due t hdue
  refine ⟨n, s', replies, hupdate, hconsumes.works, ?_, ?_⟩
  · rw [hconsumes.control]
    exact hserves
  · rw [hconsumes.sent, hflatten]

/-- The commands of many updates are a single run, and what was told are the replies to it. -/
theorem Updates.serves (h : Updates box s asked told s') (hs : box.works s.transport) :
    box.works s'.transport ∧ ∃ replies, s.control.Serves asked replies s'.control ∧
      told = replies.flatten.map Event.toBytes := by
  induction h with
  | none => exact ⟨hs, [], .done s.control, rfl⟩
  | moved _ hw ih =>
    obtain ⟨-, replies, hserves, htold⟩ := ih
    exact ⟨hw, replies, hserves, htold⟩
  | @update asked told more s' s'' t n _ hupdate hmore ih =>
    obtain ⟨hs', replies, hserves, htold⟩ := ih
    obtain ⟨n', last, replies', hupdate', hworks, hserves', hsent⟩ := update_serves box t hs'
    rw [hupdate] at hupdate'
    cases hupdate'
    rw [hmore] at hsent
    refine ⟨hworks, replies ++ replies', hserves.append hserves', ?_⟩
    rw [List.flatten_append, List.map_append, ← htold, List.append_cancel_left hsent]

/--
Updates of a session on a transport that works never fail. They send one reply for each command
that has one, in the order of the commands; each reply is the one that the command should have when
the commands before it have been handled, and a thread counts as held as long as none of them has
freed it. The events that arrive can be cut into whole replies in a single way, which gives these
replies.
-/
theorem replies_complete (box : Mailbox τ) (hs : box.works s.transport)
    (h : Updates box s asked told s') :
    (∀ t, ∃ n s'' more, update t s' = .ok n s'' ∧
      box.sent s''.transport = box.sent s'.transport ++ more) ∧
    ∃ replies, Replied s.control.Held asked replies ∧
      told = replies.flatten.map Event.toBytes ∧
      ∀ parts, ((∀ part ∈ parts, Complete part) ∧ parts.flatten = Link.eventsOf told) ↔
        parts = (replies.filter (· ≠ [])).map (List.map Event.cut) := by
  obtain ⟨hs', replies, hserves, htold⟩ := h.serves hs
  refine ⟨?_, replies, hserves.replied, htold, ?_⟩
  · intro t
    obtain ⟨n, s'', replies', hupdate, -, -, hsent⟩ := update_serves box t hs'
    exact ⟨n, s'', _, hupdate, hsent⟩
  · -- the replies are a way to cut the events, and there is no other
    have hcomplete : ∀ part ∈ (replies.filter (· ≠ [])).map (List.map Event.cut),
        Complete part := by
      intro part hpart
      obtain ⟨reply, hreply, rfl⟩ := List.mem_map.mp hpart
      obtain ⟨hmem, hsome⟩ := List.mem_filter.mp hreply
      exact (hserves.replied.complete hmem (of_decide_eq_true hsome)).cut
    have hevents : ((replies.filter (· ≠ [])).map (List.map Event.cut)).flatten =
        Link.eventsOf told := by
      rw [htold, Link.eventsOf_toBytes, ← List.map_flatten, List.flatten_filter_ne_nil]
    intro parts
    constructor
    · rintro ⟨hparts, hflatten⟩
      exact Complete.flatten_inj hparts hcomplete (hflatten.trans hevents.symm)
    · rintro rfl
      exact ⟨hcomplete, hevents⟩

end Session

namespace Example

/-- A thread in two calls, and another one that sleeps. -/
def nested : Target where
  threads := [{ id := 1, state := .running }, { id := 2, state := .sleeping }]
  frameBase? thread := if thread = 1 then some 4 else none
  frames thread := if thread = 1 then
      [{ function := "f", source := 42, line := 8, base := 4
         this := { name := "this", value := "null" }, locals := [{ name := "a", value := "1" }] },
       { function := "main", source := 42, line := 12, base := 0
         this := { name := "this", value := "null" },
         locals := [{ name := "b", value := "2" }, { name := "c", value := "3" }] }]
    else []
  members? _ := none
  sources := []
  marker? _ _ := none

/-- Questions before and after the thread is let run, two of them without an answer. -/
def questions : List Command :=
  [.getThreadInfo, .run 1, .getThreadInfo, .getContext 1 1, .getContext 1 2, .stepOver 9]

/-- The thread is held when the questions come. -/
def questioned : Session Link :=
  { held with transport := { commands := { queue := questions.map Command.toBytes } } }

/-- What is told, cut into replies. -/
def answered : List (List Event) :=
  [[.beginThreadInfo, .threadInfo 1 .debug, .threadInfo 2 .sleeping, .endThreadInfo],
    [.beginThreadInfo, .threadInfo 1 .running, .threadInfo 2 .sleeping, .endThreadInfo],
    [.beginContext 1 1, .contextCall 0 "f" 42 8 { name := "this", value := "null" },
      .contextCall 1 "main" 42 12 { name := "this", value := "null" },
      .contextVariable { name := "b", value := "2" },
      .contextVariable { name := "c", value := "3" }, .endContext],
    [.error "no frame 2 on thread 1"], [.error "unknown thread 9"]]

end Example

open Example Session in
/-- Five of six commands have a reply, and what is told can be cut in one way only. -/
theorem replies_complete_questioned : ∃ last,
    Updates Link.mailbox questioned (questions.map fun command => (nested, command))
      last.transport.events.queue last ∧
    ∃ replies,
      Replied questioned.control.Held (questions.map fun command => (nested, command)) replies ∧
      last.transport.events.queue = replies.flatten.map Event.toBytes ∧
      ∀ parts, ((∀ part ∈ parts, Complete part) ∧
        parts.flatten = Link.eventsOf last.transport.events.queue) ↔ parts = answered := by
  have hworks : Link.mailbox.works questioned.transport := ⟨rfl, rfl⟩
  obtain ⟨n, last, more, hupdate, hmore⟩ :=
    (replies_complete Link.mailbox hworks .none).1 nested
  have hlast : behind (update nested) questioned = last := by
    unfold behind
    rw [hupdate]
  have hn : n = 6 := by
    have hcount : (match update nested questioned with | .ok n _ => n | .error _ _ => 0) = n := by
      rw [hupdate]
    rw [← hcount]
    decide +kernel
  have hall : commandsIn ((Link.mailbox.waiting questioned.transport).take 6) = questions := by
    decide +kernel
  have htold : last.transport.events.queue = more := hmore.trans (List.nil_append _)
  have hupdates := Updates.update .none hupdate hmore
  rw [hn, hall, List.nil_append, List.nil_append, ← htold] at hupdates
  obtain ⟨-, replies, hreplied, hsent, hparts⟩ := replies_complete Link.mailbox hworks hupdates
  have hcomplete : ∀ part ∈ answered, Complete part := by
    intro part hpart
    simp only [answered, List.mem_cons, List.not_mem_nil, or_false] at hpart
    rcases hpart with rfl | rfl | rfl | rfl | rfl
    · show Complete (_ :: [_, _] ++ [_])
      exact .list rfl (by simp [Event.kind]) rfl
    · show Complete (_ :: [_, _] ++ [_])
      exact .list rfl (by simp [Event.kind]) rfl
    · show Complete (_ :: [_, _, _, _] ++ [_])
      exact .list rfl (by simp [Event.kind]) rfl
    · exact .single (by simp [Event.kind, EventKind.single])
    · exact .single (by simp [Event.kind, EventKind.single])
  have hevents : answered.flatten = Link.eventsOf last.transport.events.queue := by
    rw [← hlast]
    decide +kernel
  have hanswered := (hparts answered).mp ⟨hcomplete, hevents⟩
  refine ⟨last, hupdates, replies, hreplied, hsent, ?_⟩
  rw [hanswered]
  exact hparts

end ScriptToolchain.Debug
