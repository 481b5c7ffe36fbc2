import ScriptToolchain.Proofs.Closed

/-!
# Messages behind an end

The end of a session is told once, by the last message of the operation that
ends it (`speaks`). Hooks, updates and a second end look whether the session is
open and tell nothing behind it. The notices of an interpreter do not look, and
they are all that is told behind an end (`told_behind_end`).
-/

namespace ScriptToolchain.Debug

/-! ## Events of a command -/

namespace Command

/-- The kinds of events with which a command is answered. -/
def replyKinds : Command → List EventKind
  | .run _ => []
  | .stepInto _ | .stepOver _ | .stepOut _ | .forceBreak _ => [.error]
  | .getContext .. => [.beginContext, .contextCall, .contextVariable, .endContext, .error]
  | .getSource _ => [.source, .error]
  | .getSourceInfo => [.beginSourceInfo, .sourceInfo, .endSourceInfo]
  | .getThreadInfo => [.beginThreadInfo, .threadInfo, .endThreadInfo]
  | .getVariableInfo _ => [.beginVariableInfo, .contextVariable, .endVariableInfo, .error]
  | .setBreakpoint .. => [.ack]
  | .endSession => [.sessionEnd]

theorem sessionEnd_notMem_replyKinds {command : Command} (h : command ≠ .endSession) :
    .sessionEnd ∉ command.replyKinds := by
  cases command with
  | endSession => exact absurd rfl h
  | _ => simp [replyKinds]

end Command

theorem kind_context {t : Target} {thread : ThreadId} {asked : UInt32} {e : Event}
    (he : e ∈ Reply.context t thread asked) :
    e.kind ∈ (Command.getContext thread asked).replyKinds := by
  have hframe : ∀ f position, e ∈ Reply.frame asked f position →
      e.kind = .contextCall ∨ e.kind = .contextVariable := by
    intro f position he
    rcases List.mem_append.mp he with hcall | hlocals
    · rw [List.mem_singleton.mp hcall]
      exact .inl rfl
    · split at hlocals
      · obtain ⟨v, -, rfl⟩ := List.mem_map.mp hlocals
        exact .inr rfl
      · cases hlocals
  unfold Reply.context at he
  dsimp only at he
  split at he
  · rw [List.mem_singleton.mp he]
    simp [Event.kind, Command.replyKinds]
  · rcases List.mem_append.mp he with hfront | hlast
    · rcases List.mem_append.mp hfront with hfirst | hframes
      · rw [List.mem_singleton.mp hfirst]
        simp [Event.kind, Command.replyKinds]
      · obtain ⟨⟨f, position⟩, -, hmem⟩ := List.mem_flatMap.mp hframes
        rcases hframe f position hmem with hkind | hkind <;> rw [hkind] <;> simp [Command.replyKinds]
    · rw [List.mem_singleton.mp hlast]
      simp [Event.kind, Command.replyKinds]

theorem kind_handle {c : Control} {t : Target} {command : Command} {e : Event}
    (he : e ∈ (c.handle t command).2) : e.kind ∈ command.replyKinds := by
  have hstep : ∀ thread mode, e ∈ (c.beginStep t thread mode).2 → e.kind = .error := by
    intro thread mode he
    unfold Control.beginStep at he
    split at he
    · cases he
    · rw [List.mem_singleton.mp he]
      rfl
  -- a list between its first and its last event
  have hlist : ∀ {α : Type} {first last : Event} {item : α → Event} {items : List α},
      e ∈ [first] ++ items.map item ++ [last] → e = first ∨ (∃ a, e = item a) ∨ e = last := by
    intro α first last item items he
    simp only [List.mem_append, List.mem_singleton, List.mem_map] at he
    rcases he with (hfirst | ⟨a, -, rfl⟩) | hlast
    · exact .inl hfirst
    · exact .inr (.inl ⟨a, rfl⟩)
    · exact .inr (.inr hlast)
  cases command with
  | run thread => cases he
  | stepInto thread =>
    rw [hstep thread .into he]
    simp [Command.replyKinds]
  | stepOver thread =>
    rw [hstep thread .over he]
    simp [Command.replyKinds]
  | stepOut thread =>
    rw [hstep thread .out he]
    simp [Command.replyKinds]
  | forceBreak thread =>
    rw [hstep thread .into he]
    simp [Command.replyKinds]
  | getContext thread asked => exact kind_context he
  | getSource source =>
    change e ∈ Reply.source t source at he
    unfold Reply.source at he
    split at he <;> rw [List.mem_singleton.mp he] <;> simp [Event.kind, Command.replyKinds]
  | getSourceInfo =>
    rcases hlist he with rfl | ⟨a, rfl⟩ | rfl <;> simp [Event.kind, Command.replyKinds]
  | getThreadInfo =>
    rcases hlist he with rfl | ⟨a, rfl⟩ | rfl <;> simp [Event.kind, Command.replyKinds]
  | getVariableInfo reference =>
    change e ∈ Reply.members t reference at he
    unfold Reply.members at he
    split at he
    · rcases hlist he with rfl | ⟨a, rfl⟩ | rfl <;> simp [Event.kind, Command.replyKinds]
    · rw [List.mem_singleton.mp he]
      simp [Event.kind, Command.replyKinds]
  | setBreakpoint response source line thread enabled =>
    rw [List.mem_singleton.mp he]
    simp [Event.kind, Command.replyKinds]
  | endSession =>
    change e ∈ c.close.2 at he
    unfold Control.close at he
    split at he
    · rw [List.mem_singleton.mp he]
      simp [Event.kind, Command.replyKinds]
    · cases he

/-! ## Ends among events -/

/-- The message of an end. -/
def endMessage : Bytes :=
  Event.sessionEnd.toBytes

theorem eq_sessionEnd_of_toBytes {e : Event} (h : e.toBytes = endMessage) : e = .sessionEnd := by
  have hread : Event.ofBytes e.toBytes = Event.ofBytes Event.sessionEnd.toBytes := by
    rw [h]
    rfl
  rw [Event.ofBytes_toBytes, Event.ofBytes_toBytes] at hread
  have hkind : e.kind = .sessionEnd := by
    rw [← e.kind_cut, Except.ok.inj hread]
    rfl
  cases e <;> first | rfl | cases hkind

/-- An end is the last of the events, and there is none if the session is open behind them. -/
structure EndsLast (es : List Event) (c : Control) : Prop where
  last : es.Pairwise fun e _ => e ≠ .sessionEnd
  closes : c.isOpen = true → .sessionEnd ∉ es

namespace EndsLast

variable {es es' : List Event} {c : Control}

theorem of_notMem (h : .sessionEnd ∉ es) : EndsLast es c where
  last := List.pairwise_of_forall_mem_list fun _ he _ _ heq => h (heq ▸ he)
  closes _ := h

theorem single (e : Event) (h : c.isOpen = false) : EndsLast [e] c where
  last := List.pairwise_singleton _ e
  closes hopen := by
    rw [h] at hopen
    cases hopen

theorem append (h : .sessionEnd ∉ es) (h' : EndsLast es' c) : EndsLast (es ++ es') c where
  last := by
    refine List.pairwise_append.mpr ⟨(of_notMem h : EndsLast es c).last, h'.last, ?_⟩
    intro e he _ _ heq
    exact h (heq ▸ he)
  closes hopen := by
    rw [List.mem_append, not_or]
    exact ⟨h, h'.closes hopen⟩

end EndsLast

namespace Control

variable {c : Control} {t : Target} {ms : List Bytes}

theorem endsLast_close (hopen : c.isOpen = true) : EndsLast c.close.2 c.close.1 := by
  unfold close
  rw [if_pos hopen]
  exact .single _ rfl

theorem sessionEnd_notMem_take {m : Bytes} (h : command? m ≠ some .endSession) :
    .sessionEnd ∉ (c.take t m).2 := by
  rw [take_eq]
  cases hm : command? m with
  | none => exact List.not_mem_nil
  | some command =>
    intro hmem
    refine Command.sessionEnd_notMem_replyKinds ?_ (kind_handle hmem)
    rintro rfl
    exact h hm

/-- Messages that are handled up to an end have its event last. -/
theorem endsLast_takeAll (hdue : c.due ms = ms) :
    EndsLast (c.takeAll t ms).2 (c.takeAll t ms).1 := by
  induction ms generalizing c with
  | nil => exact .of_notMem List.not_mem_nil
  | cons m rest ih =>
    by_cases hopen : c.isOpen = true
    · rw [due_cons hopen t m rest] at hdue
      have hrest : (c.take t m).1.due rest = rest := (List.cons.inj hdue).2
      by_cases hend : command? m = some .endSession
      · -- nothing is handled behind the end
        have hclosed : ¬ (c.take t m).1.isOpen = true := by
          rw [isOpen_take hopen]
          exact fun hne => hne hend
        rw [due_of_closed hclosed] at hrest
        rw [← hrest, takeAll_singleton, take_eq, hend]
        exact endsLast_close hopen
      · exact .append (sessionEnd_notMem_take hend) (ih hrest)
    · rw [due_of_closed hopen] at hdue
      cases hdue

end Control

/-! ## What operations tell -/

namespace Operation

variable {τ : Type} [Transport τ]

/-- What an operation hands to the transport; only the last message may be lost. -/
def told (op : Operation) (s : Session τ) : List Bytes :=
  (op.traffic s).delivered ++ (op.traffic s).lost

/-- The operation tells something that happens in the program, or a text. -/
def isNotice : Operation → Bool
  | .exception _ | .threadStarted _ | .threadStopped _ | .sendMessage _ | .sendError _ => true
  | _ => false

theorem told_of_sends {op : Operation} {s : Session τ} {es : List Event} {received : List Bytes}
    {ok : Bool} (h : Sends es { received } ok (op.traffic s)) :
    op.told s <+: es.map Event.toBytes := by
  unfold told
  generalize op.traffic s = tr at h
  cases h with
  | all => simp
  | part sent hes => simpa using hes.map Event.toBytes

theorem told_eq_nil_iff {op : Operation} {s : Session τ} {es : List Event} {ok : Bool}
    (h : Sends es {} ok (op.traffic s)) : op.told s = [] ↔ es = [] := by
  unfold told
  generalize op.traffic s = tr at h
  cases h with
  | all => simp
  | part sent hes =>
    have hne : es ≠ [] := by
      rintro rfl
      simp at hes
    simpa using hne

theorem endsLast_notify (op : Operation) {c : Control} (hopen : c.isOpen = true) :
    EndsLast (op.notify c).2 (op.notify c).1 := by
  cases op with
  | finish => exact Control.endsLast_close hopen
  | _ => exact .of_notMem (by simp [notify])

/-- In an open session an operation tells its events in order, an end as the last of them. -/
theorem speaks (op : Operation) {s : Session τ} (hs : s.control.Sound)
    (hopen : s.control.isOpen = true) :
    ∃ es, op.told s <+: es.map Event.toBytes ∧ EndsLast es (op.after s).control := by
  have hstop : ∀ site : Site,
      EndsLast [.stopped site.thread site.source site.line] (op.after s).control :=
    fun site => .of_notMem (by simp)
  cases hsite : op.site? with
  | none =>
    cases htarget : op.target? with
    | some t =>
      obtain ⟨hcontrol, ok, hsends⟩ := handled_spec htarget s
      rw [hcontrol]
      exact ⟨_, told_of_sends hsends, Control.endsLast_takeAll (due_handled htarget s)⟩
    | none =>
      obtain ⟨⟨log, hcontrol⟩, ok, hsends⟩ := notify_spec htarget hsite s
      rw [hcontrol]
      have hnotify := endsLast_notify op hopen
      exact ⟨_, told_of_sends hsends, hnotify.last, hnotify.closes⟩
  | some site =>
    cases does op hs with
    | handles t htarget => exact absurd hsite (site?_ne_some htarget)
    | notifies hnone =>
      rw [hsite] at hnone
      cases hnone
    | passes site' b hsite' hpasses =>
      refine ⟨[], ?_, .of_notMem List.not_mem_nil⟩
      rw [told, hpasses.traffic]
      exact List.nil_prefix
    | follows site' hop hanswer hmode hopen' hcontrol htraffic =>
      refine ⟨[], ?_, .of_notMem List.not_mem_nil⟩
      rw [told, htraffic]
      exact List.nil_prefix
    | stops site' hop hfree hopen' hstops =>
      refine ⟨_, ?_, hstop site'⟩
      rw [told, hstops.traffic]
      exact List.prefix_refl _
    | misses site' hop hfree hopen' hmisses =>
      refine ⟨_, ?_, hstop site'⟩
      rw [told, hmisses.traffic]
      exact List.prefix_refl _

/-- No message but the last one is an end. -/
theorem told_end_last (op : Operation) {s : Session τ} (hs : s.control.Sound)
    (hopen : s.control.isOpen = true) :
    (op.told s).Pairwise (fun m _ => m ≠ endMessage) ∧
      ((op.after s).control.isOpen = true → endMessage ∉ op.told s) := by
  obtain ⟨es, htold, hlast⟩ := speaks op hs hopen
  constructor
  · refine List.Pairwise.sublist htold.sublist (List.pairwise_map.mpr ?_)
    exact hlast.last.imp fun hne heq => hne (eq_sessionEnd_of_toBytes heq)
  · intro hopen' hmem
    obtain ⟨e, he, heq⟩ := List.mem_map.mp (htold.subset hmem)
    exact hlast.closes hopen' (eq_sessionEnd_of_toBytes heq ▸ he)

/-- A closed session tells no end, and something exactly in a notice. -/
theorem told_closed (op : Operation) {s : Session τ} (hclosed : s.control.isOpen = false) :
    endMessage ∉ op.told s ∧ (op.told s ≠ [] ↔ op.isNotice = true) := by
  obtain ⟨-, ok, hsends⟩ := closed_spec op hclosed
  constructor
  · intro hmem
    obtain ⟨e, he, heq⟩ := List.mem_map.mp ((told_of_sends hsends).subset hmem)
    rw [eq_sessionEnd_of_toBytes heq] at he
    cases op <;> simp [notify, Control.close_of_closed hclosed] at he
  · rw [Ne, told_eq_nil_iff hsends]
    cases op <;> simp [notify, isNotice, Control.close_of_closed hclosed]

end Operation

/-! ## Whole runs -/

open Operation

variable {τ : Type} [Transport τ]

/--
A session as it was opened and used, and all that it has handed to its transport, each message with
the operation that told it.
-/
inductive Tells : Session τ → List (Operation × Bytes) → Prop
  | opened (transport : τ) (limit : Nat) : Tells { transport, limit } []
  | after {s : Session τ} {told : List (Operation × Bytes)} (op : Operation) :
    Tells s told → Tells (op.after s) (told ++ (op.told s).map (op, ·))
  | moved {s : Session τ} {told : List (Operation × Bytes)} (transport : τ) :
    Tells s told → Tells { s with transport } told

/-- An open session has told no end, and behind an end there are notices alone. -/
structure EndsOnce (c : Control) (told : List (Operation × Bytes)) : Prop where
  unended : c.isOpen = true → ∀ x ∈ told, x.2 ≠ endMessage
  behind : told.Pairwise fun x y =>
    x.2 = endMessage → y.2 ≠ endMessage ∧ y.1.isNotice = true

theorem Tells.reachable {s : Session τ} {told : List (Operation × Bytes)} (h : Tells s told) :
    s.Reachable := by
  induction h with
  | opened transport limit => exact .opened transport limit
  | after op _ ih => exact .after op ih
  | moved transport _ ih => exact .moved transport ih

theorem EndsOnce.after {s : Session τ} {told : List (Operation × Bytes)}
    (h : EndsOnce s.control told) (hs : s.control.Sound) (hsettled : s.control.Settled)
    (op : Operation) :
    EndsOnce (op.after s).control (told ++ (op.told s).map (op, ·)) := by
  rcases hsettled with hopen | hinert
  · obtain ⟨hlast, hkept⟩ := told_end_last op hs hopen
    constructor
    case unended =>
      intro hopen' x hx
      rcases List.mem_append.mp hx with hold | hnew
      · exact h.unended hopen x hold
      · obtain ⟨m, hm, rfl⟩ := List.mem_map.mp hnew
        rintro rfl
        exact hkept hopen' hm
    case behind =>
      refine List.pairwise_append.mpr ⟨h.behind, ?_, ?_⟩
      · rw [List.pairwise_map]
        exact hlast.imp fun hne heq => absurd heq hne
      · intro x hx y _ heq
        exact absurd heq (h.unended hopen x hx)
  · obtain ⟨hnone, hnotice⟩ := told_closed op hinert.closed
    have hnew : ∀ x ∈ (op.told s).map (op, ·), x.2 ≠ endMessage ∧ x.1.isNotice = true := by
      intro x hx
      obtain ⟨m, hm, rfl⟩ := List.mem_map.mp hx
      refine ⟨?_, hnotice.mp (List.ne_nil_of_mem hm)⟩
      rintro rfl
      exact hnone hm
    constructor
    case unended =>
      intro hopen'
      rw [(op.inert_after hinert).closed] at hopen'
      cases hopen'
    case behind =>
      refine List.pairwise_append.mpr ⟨h.behind, ?_, fun x _ y hy _ => hnew y hy⟩
      exact List.pairwise_of_forall_mem_list fun x _ y hy _ => hnew y hy

theorem Tells.endsOnce {s : Session τ} {told : List (Operation × Bytes)} (h : Tells s told) :
    EndsOnce s.control told := by
  induction h with
  | opened transport limit => exact ⟨fun _ => nofun, List.Pairwise.nil⟩
  | after op h ih => exact ih.after h.reachable.sound h.reachable.settled op
  | moved transport _ ih => exact ih

/--
In every run an end is told at most once, by an operation that closes the session, and all that is
told behind it is told by notices. Of a closed session every notice tells something, and no other
operation does.
-/
theorem told_behind_end {s : Session τ} {told : List (Operation × Bytes)} (h : Tells s told) :
    (∀ before op behind, told = before ++ (op, endMessage) :: behind →
      s.control.isOpen = false ∧ (∀ x ∈ before ++ behind, x.2 ≠ endMessage) ∧
        ∀ x ∈ behind, x.1.isNotice = true) ∧
    (s.control.isOpen = false → ∀ op : Operation, op.told s ≠ [] ↔ op.isNotice = true) := by
  have honce := h.endsOnce
  constructor
  · rintro before op behind rfl
    obtain ⟨-, hbehind, hbefore⟩ := List.pairwise_append.mp honce.behind
    have hafter := (List.pairwise_cons.mp hbehind).1
    refine ⟨?_, ?_, fun x hx => (hafter x hx rfl).2⟩
    · by_contra hopen
      exact honce.unended (Bool.not_eq_false _ ▸ hopen) _ (List.mem_append_cons_self ..) rfl
    · intro x hx heq
      rcases List.mem_append.mp hx with hx | hx
      · exact (hbefore x hx _ List.mem_cons_self heq).1 rfl
      · exact (hafter x hx rfl).1 heq
  · exact fun hclosed op => (told_closed op hclosed).2

namespace Example

/-- A session that is ended and still asked to send a text. -/
def belated : Session Link :=
  (Operation.sendMessage "late").after (Operation.finish.after { transport := {} })

theorem tells_belated : Tells belated
    [(.finish, endMessage), (.sendMessage "late", (Event.message "late").toBytes)] := by
  have hrun := Tells.after (.sendMessage "late") (.after .finish (.opened ({} : Link) 64))
  have htold : [] ++ (told .finish { transport := ({} : Link) }).map (Operation.finish, ·) ++
      (told (.sendMessage "late") (Operation.finish.after { transport := ({} : Link) })).map
        (Operation.sendMessage "late", ·) =
      [(.finish, endMessage), (.sendMessage "late", (Event.message "late").toBytes)] := by
    rfl
  rwa [htold] at hrun

end Example

open Example in
/-- The text is told behind the end by a notice, a second end by nothing. -/
theorem told_behind_end_belated :
    belated.control.isOpen = false ∧ (Operation.sendMessage "late").isNotice = true ∧
      told .finish belated = [] := by
  obtain ⟨hsplit, hclosed⟩ := told_behind_end tells_belated
  obtain ⟨hopen, -, hnotice⟩ := hsplit [] .finish [_] rfl
  refine ⟨hopen, hnotice _ List.mem_cons_self, ?_⟩
  by_contra htold
  exact Bool.false_ne_true ((hclosed hopen .finish).mp htold)

open Example in
/-- An end is not the last message of every session: a text arrives behind it. -/
theorem end_before_text : Tells belated
      [(.finish, endMessage), (.sendMessage "late", (Event.message "late").toBytes)] ∧
    belated.transport.events.queue = [endMessage, (Event.message "late").toBytes] :=
  ⟨tells_belated, by decide +kernel⟩

end ScriptToolchain.Debug
