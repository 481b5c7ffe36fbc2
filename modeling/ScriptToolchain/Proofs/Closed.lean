import ScriptToolchain.Proofs.Acknowledgements

/-!
# Closed sessions

An end clears all that a session knows, whether or not the debugger can be told
of it. A session is open or `Inert`, which every operation keeps
(`settled_after`), and one that is inert stays so (`inert_after`). So behind an
end nothing starts again (`over_behind_end`).
-/

namespace ScriptToolchain.Debug

/-! ## What is known of a closed session -/

namespace Control

/-- The session is closed; nothing is armed or held, and no hook is called. -/
structure Inert (c : Control) : Prop where
  closed : c.isOpen = false
  unarmed : c.breakpoints = {}
  unheld : c.threads = {}
  unhooked : c.hooksEnabled = false

/-- The session is open or inert. -/
def Settled (c : Control) : Prop :=
  c.isOpen = true ∨ c.Inert

variable {c : Control} {t : Target} {ms : List Bytes}

theorem inert_close (hopen : c.isOpen = true) : c.close.1.Inert := by
  unfold close
  rw [if_pos hopen]
  exact ⟨rfl, rfl, rfl, rfl⟩

theorem close_of_closed (hclosed : c.isOpen = false) : c.close = (c, []) := by
  unfold close
  rw [if_neg (by rw [hclosed]; exact Bool.false_ne_true)]

theorem Inert.with_log (h : c.Inert) (log : List String) : ({ c with log } : Control).Inert :=
  ⟨h.closed, h.unarmed, h.unheld, h.unhooked⟩

/-- What a notification changes in a closed session are at most the kept lines. -/
theorem Inert.notify (h : c.Inert) (op : Operation) : (op.notify c).1.Inert := by
  cases op with
  | queueLog text => exact h.with_log _
  | threadStopped thread =>
    refine ⟨h.closed, h.unarmed, ?_, h.unhooked⟩
    show c.threads.resume thread = {}
    rw [h.unheld]
    rfl
  | finish =>
    show c.close.1.Inert
    rw [close_of_closed h.closed]
    exact h
  | _ => exact h

theorem settled_handle (hopen : c.isOpen = true) (t : Target) (command : Command) :
    (c.handle t command).1.Settled := by
  by_cases hend : command = .endSession
  · rw [hend]
    exact .inr (inert_close hopen)
  · left
    rw [(moves_handle c t command).isOpen_eq hend, hopen]

theorem settled_take (hopen : c.isOpen = true) (t : Target) (m : Bytes) :
    (c.take t m).1.Settled := by
  rw [take_eq]
  cases command? m with
  | none => exact .inl hopen
  | some command => exact settled_handle hopen t command

/-- Messages that are handled up to an end leave the session open or inert. -/
theorem Settled.takeAll (h : c.Settled) (hdue : c.due ms = ms) : (c.takeAll t ms).1.Settled := by
  induction ms generalizing c with
  | nil => exact h
  | cons m rest ih =>
    by_cases hopen : c.isOpen = true
    · rw [due_cons hopen t m rest] at hdue
      exact ih (settled_take hopen t m) (List.cons.inj hdue).2
    · rw [due_of_closed hopen] at hdue
      cases hdue

/-- An end among messages that are handled up to one closes the session. -/
theorem closed_takeAll (hdue : c.due ms = ms) {m : Bytes} (hm : m ∈ ms)
    (hend : command? m = some .endSession) : (c.takeAll t ms).1.isOpen = false := by
  induction ms generalizing c with
  | nil => cases hm
  | cons m' rest ih =>
    by_cases hopen : c.isOpen = true
    · rw [due_cons hopen t m' rest] at hdue
      have hrest : (c.take t m').1.due rest = rest := (List.cons.inj hdue).2
      rcases List.mem_cons.mp hm with rfl | hm
      · -- nothing is handled behind the end
        have hclosed : ¬ (c.take t m).1.isOpen = true := by
          rw [isOpen_take hopen]
          exact fun hne => hne hend
        rw [due_of_closed hclosed] at hrest
        rw [← hrest, takeAll_singleton]
        exact Bool.not_eq_true _ ▸ hclosed
      · exact ih hrest hm
    · rw [due_of_closed hopen] at hdue
      cases hdue

end Control

/-! ## Operations on a closed session -/

namespace Operation

open Session

variable {τ : Type} [Transport τ]

/-- A closed session handles nothing, and its hooks answer `false` without a word. -/
theorem step_closed {op : Operation} (hop : op.target?.isSome = true ∨ op.site?.isSome = true)
    {s : Session τ} (hclosed : s.control.isOpen = false) : op.step s = .ok false s := by
  cases op with
  | update t =>
    show (do let _ ← handleUpTo t s.limit; return false : Act τ Bool) s = _
    simp only [Bind.bind, EStateM.bind, handleUpTo_closed hclosed]
    rfl
  | message t m =>
    show (do handleIfOpen t m; return false : Act τ Bool) s = _
    simp only [Bind.bind, EStateM.bind, handleIfOpen, hclosed]
    rfl
  | line site => simp [step, hook, Session.line, hclosed]
  | call site => simp [step, hook, Session.call, hclosed]
  | leave site => simp [step, hook, Session.leave, hclosed]
  | _ => simp [target?, site?] at hop

/-- On a closed session every operation is as a notification: others do and send nothing. -/
theorem closed_spec (op : Operation) {s : Session τ} (hclosed : s.control.isOpen = false) :
    (∃ log, (op.after s).control = { (op.notify s.control).1 with log }) ∧
      ∃ ok, Sends (op.notify s.control).2 {} ok (op.traffic s) := by
  by_cases hop : op.target?.isSome = true ∨ op.site?.isSome = true
  · have hafter : ∀ {τ : Type} [Transport τ] {s : Session τ}, s.control.isOpen = false →
        op.after s = s := by
      intro τ _ s hclosed
      unfold after behind
      rw [step_closed hop hclosed]
    have hnotify : op.notify s.control = (s.control, []) := by
      cases op <;> first | rfl | simp [target?, site?] at hop
    have htraffic : op.traffic s = {} := by
      unfold traffic
      rw [hafter (show s.tapped.control.isOpen = false from hclosed)]
      rfl
    rw [hafter hclosed, hnotify, htraffic]
    exact ⟨⟨s.control.log, rfl⟩, true, .all⟩
  · simp only [not_or, Bool.not_eq_true, Option.isSome_eq_false_iff,
      Option.isNone_iff_eq_none] at hop
    exact notify_spec hop.1 hop.2 s

/-- A closed session stays closed. -/
theorem inert_after (op : Operation) {s : Session τ} (h : s.control.Inert) :
    (op.after s).control.Inert := by
  obtain ⟨⟨log, hcontrol⟩, -⟩ := closed_spec op h.closed
  rw [hcontrol]
  exact (h.notify op).with_log log

/-- Every operation leaves a session open or inert. -/
theorem settled_after (op : Operation) {s : Session τ} (hs : s.control.Sound)
    (h : s.control.Settled) : (op.after s).control.Settled := by
  rcases h with hopen | hinert
  · cases does op hs with
    | handles t htarget hcontrol hsilent =>
      rw [hcontrol]
      exact Control.Settled.takeAll (.inl hopen) (due_handled htarget s)
    | notifies hsite hthreads hopen' hsilent =>
      have htarget : target? .finish = none := rfl
      by_cases hfinish : op = .finish
      · subst hfinish
        obtain ⟨⟨log, hcontrol⟩, -⟩ := notify_spec htarget hsite s
        rw [hcontrol]
        exact .inr ((Control.inert_close hopen).with_log log)
      · left
        rw [hopen']
        cases op with
        | finish => exact absurd rfl hfinish
        | _ => exact hopen
    | passes site b hsite hpasses hanswer =>
      rw [hpasses.control]
      exact .inl hopen
    | follows site hop hanswer hmode hopen' hcontrol htraffic =>
      rw [hcontrol]
      exact .inl hopen
    | stops site hop hfree hopen' hstops =>
      rw [hstops.control]
      exact .inl hopen
    | misses site hop hfree hopen' hmisses =>
      rw [hmisses.control]
      exact .inl hopen
  · exact .inr (inert_after op hinert)

/-- The operation is the end of the session or handles a command for it. -/
def Ends (op : Operation) (s : Session τ) : Prop :=
  op = .finish ∨ ∃ t, op.Handles t .endSession s

theorem Ends.closed {op : Operation} {s : Session τ} (h : op.Ends s) :
    (op.after s).control.isOpen = false := by
  rcases h with rfl | ⟨t, htarget, m, hm, hread⟩
  · have htarget : target? .finish = none := rfl
    obtain ⟨⟨log, hcontrol⟩, -⟩ := notify_spec htarget rfl s
    rw [hcontrol]
    show s.control.close.1.isOpen = false
    unfold Control.close
    split
    · rfl
    · next hclosed => exact Bool.not_eq_true _ ▸ hclosed
  · rw [(handled_spec htarget s).1]
    exact Control.closed_takeAll (due_handled htarget s) hm (by rw [command?, hread]; rfl)

end Operation

/-! ## Behind an end -/

variable {τ : Type} [Transport τ]

namespace Session

theorem Reachable.settled {s : Session τ} (h : s.Reachable) : s.control.Settled := by
  induction h with
  | opened transport limit => exact .inl rfl
  | after op h ih => exact op.settled_after h.sound ih
  | moved transport _ ih => exact ih

/-- What may have become of a session by operations, between which its transport may change. -/
inductive Onward (s : Session τ) : Session τ → Prop
  | here : Onward s s
  | after {s' : Session τ} (op : Operation) : Onward s s' → Onward s (op.after s')
  | moved {s' : Session τ} (transport : τ) : Onward s s' → Onward s { s' with transport }

theorem Onward.inert {s s' : Session τ} (h : Onward s s') (hs : s.control.Inert) :
    s'.control.Inert := by
  induction h with
  | here => exact hs
  | after op _ ih => exact op.inert_after ih
  | moved transport _ ih => exact ih

/-- The session is over: no thread waits, no hook stops one or tells it, and no message is taken. -/
structure Over (s : Session τ) : Prop where
  inert : s.control.Inert
  free : ∀ thread, Hooks.isSuspended thread s = false
  line : ∀ site, Hooks.line site s = (false, s)
  call : ∀ site, Hooks.call site s = (false, s)
  leave : ∀ site, Hooks.leave site s = (false, s)
  update : ∀ t, Session.update t s = .ok 0 s

theorem over_of_inert {s : Session τ} (h : s.control.Inert) : s.Over where
  inert := h
  free thread := by simp [Hooks.isSuspended, h.closed]
  line site := by simp [Hooks.line, Session.line, h.closed]
  call site := by simp [Hooks.call, Session.call, h.closed]
  leave site := by simp [Hooks.leave, Session.leave, h.closed]
  update t := handleUpTo_closed h.closed

end Session

open Session

/--
Behind an operation that ends a session, whether or not its last message could be sent, the session
is over and stays so whatever is asked of it.
-/
theorem over_behind_end {s : Session τ} (h : s.Reachable) {op : Operation} (hends : op.Ends s)
    {s' : Session τ} (hon : Onward (op.after s) s') : s'.Over := by
  have hclosed : (op.after s).control.isOpen = false := hends.closed
  rcases (Reachable.after op h).settled with hopen | hinert
  · rw [hclosed] at hopen
    cases hopen
  · exact over_of_inert (hon.inert hinert)

namespace Example

/-- The thread is held, and the debugger is gone before the session ends. -/
def forsaken : Session Link :=
  { held with transport := held.transport.dropDebugger }

end Example

open Example Operation in
/--
The command behind an end is never taken, and a thread that was held when a session ended without
a debugger is free and stays so.
-/
theorem over_behind_end_crowded :
    (∃ s', Onward ((Operation.update marked).after crowded) s' ∧
      s'.transport.commands.queue = [(Command.run 1).toBytes] ∧
      Session.update marked s' = .ok 0 s') ∧
    ∃ s', Onward (finish.after forsaken) s' ∧
      (traffic finish forsaken).lost = [Event.sessionEnd.toBytes] ∧
      s'.control.threads = {} ∧ Hooks.line firstLine s' = (false, s') := by
  have hcrowded : crowded.Reachable := .opened crowded.transport 64
  have hforsaken : forsaken.Reachable := .moved _ (.after _ reachable_asked)
  have hends : Ends (.update marked) crowded :=
    .inr ⟨marked, rfl, Command.endSession.toBytes, by decide +kernel, by decide +kernel⟩
  have hlater : Onward ((Operation.update marked).after crowded)
      ((threadStopped 1).after ((exception 1).after ((Operation.update marked).after crowded))) :=
    .after _ (.after _ .here)
  have halone : Onward (finish.after forsaken)
      ((Operation.call firstLine).after ((threadStarted 2).after (finish.after forsaken))) :=
    .after _ (.after _ .here)
  refine ⟨⟨_, hlater, by decide +kernel, (over_behind_end hcrowded hends hlater).update marked⟩,
    _, halone, by decide +kernel, ?_, ?_⟩
  · exact (over_behind_end hforsaken (.inl rfl) halone).inert.unheld
  · exact (over_behind_end hforsaken (.inl rfl) halone).line firstLine

end ScriptToolchain.Debug
