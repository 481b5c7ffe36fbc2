import ScriptToolchain.Compile.Compiler
import ScriptToolchain.Proofs.Depth
import ScriptToolchain.Proofs.Frames
import ScriptToolchain.Proofs.Lowering

/-!
# Steps of the generator and of lowering

A step of generation follows a step of lowering when both succeed with the same
value or both give up with the same reports, and when a success has written the
directives of the lowered block, without its marks unless the build is a debug
build. The hosts may differ, as long as they give out the same ids. There is
one lemma for each step and for each shape of a block.
-/

namespace ScriptToolchain.Compile

/-- Two hosts give out the same ids as long as they are related. -/
structure SameIds {σ₁ σ₂ : Type} [Host σ₁] [Host σ₂] (H : σ₁ → σ₂ → Prop) : Prop where
  functionId : ∀ {a b}, H a b →
    (Host.functionId a).1 = (Host.functionId b).1 ∧
      H (Host.functionId a).2 (Host.functionId b).2
  symbolId : ∀ {a b} (name : String), H a b →
    (Host.symbolId name a).1 = (Host.symbolId name b).1 ∧
      H (Host.symbolId name a).2 (Host.symbolId name b).2
  stringId : ∀ {a b} (text : String), H a b →
    (Host.stringId text a).1 = (Host.stringId text b).1 ∧
      H (Host.stringId text a).2 (Host.stringId text b).2

theorem sameIds_eq {σ : Type} [Host σ] : SameIds (@Eq σ) where
  functionId := by rintro a b rfl; exact ⟨rfl, rfl⟩
  symbolId := by rintro a b name rfl; exact ⟨rfl, rfl⟩
  stringId := by rintro a b text rfl; exact ⟨rfl, rfl⟩

variable {σ₁ σ₂ α β : Type} (H : σ₁ → σ₂ → Prop) (debug : Bool)

/-- The line that a build has marked last: only a debug build marks. -/
def shownLine (line : UInt32) : UInt32 :=
  if debug then line else 0

/-- The generator and lowering are at the same place. -/
structure Matches (s : State σ₁) (c : Scope σ₂) : Prop where
  host : H s.host c.host
  names : s.frame.names = c.names
  line : s.frame.line = shownLine debug c.line
  outlines : List.Forall₂ (fun f (o : Outline) => o.code.Closed ∧ o.Makes false debug f) s.latest
    c.outlines
  reports : s.reports = c.reports

/-- The frame behind a lowered block. -/
def Frame.after (f : Frame) (b : Block) (c : Scope σ₂) : Frame :=
  { f.put (b.shown debug) with names := c.names, line := shownLine debug c.line }

/-- From here a step of generation goes the way of a step of lowering; a closed step makes a
closed block. -/
def GoesAs (closed : Bool) (m : Gen σ₁ α) (l : Lowering σ₂ α) (s : State σ₁) (c : Scope σ₂) :
    Prop :=
  (∃ a b s' c', m s = .ok a s' ∧ l c = .ok a b c' ∧ Matches H debug s' c' ∧
    s'.frame = s.frame.after debug b c' ∧ (closed → b.Closed)) ∨
  (∃ e s' c', m s = .error e s' ∧ l c = .error c' ∧ H s'.host c'.host ∧
    s'.reports = c'.reports)

/-- A step of generation goes the way of a step of lowering, inside a loop or not. -/
def Follows (inLoop closed : Bool) (m : Gen σ₁ α) (l : Lowering σ₂ α) : Prop :=
  ∀ s c, Matches H debug s c → s.frame.Ready inLoop → GoesAs H debug closed m l s c

/--
A step inside a call, which remembers the depth of the stack from before the call, goes the way
of a step of lowering where so many values have been pushed since.
-/
def FollowsAbove (inLoop closed : Bool) (pushed : Int) (m : Int → Gen σ₁ α)
    (l : Lowering σ₂ α) : Prop :=
  ∀ before s c, Matches H debug s c → s.frame.Ready inLoop →
    s.frame.stack.finalDepth = before + pushed → GoesAs H debug closed (m before) l s c

variable {H debug} {inLoop closed : Bool}

theorem Frame.after_pure {s : State σ₁} {c : Scope σ₂} (h : Matches H debug s c) {b : Block}
    (hb : b.shown debug = .empty) : s.frame.after debug b c = s.frame := by
  rw [Frame.after, hb, Frame.put_empty, ← h.names, ← h.line]

theorem Frame.after_after (f : Frame) (a b : Block) (c c' : Scope σ₂) :
    (f.after debug a c).after debug b c' = f.after debug (.seq a b) c' := by
  have hseq : (Block.seq a b).shown debug = .seq (a.shown debug) (b.shown debug) := by
    cases debug <;> rfl
  rw [Frame.after, Frame.after, Frame.after, hseq, Frame.put_seq]
  rfl

theorem Frame.depth_after (f : Frame) (b : Block) (c : Scope σ₂) :
    (f.after debug b c).stack.finalDepth = f.stack.finalDepth + b.net := by
  rw [← Block.net_shown debug b]
  exact Block.finalDepth_climb ..

theorem Frame.Ready.after {f : Frame} (h : f.Ready inLoop) (b : Block) (c : Scope σ₂) :
    (f.after debug b c).Ready inLoop :=
  have hput := h.put (b.shown debug)
  ⟨hput.loops, hput.neat, hput.depth⟩

/-- A loop of the generator on `line`, behind its test. -/
def Gen.rounds {σ : Type} (line top : UInt32) (exit : Option LabelId) (body tail : Gen σ Unit)
    (back : Opcode) (resume : Resume) : Gen σ Unit := do
  enterLoop
  body
  let c ← leaveLoop
  let next ← here
  tail
  emitWord back top.toUInt64
  match exit with
  | some exit => resolveHere line exit
  | none => pure ()
  closeLoop line c (← here) (match resume with
    | .top => top
    | .tail => next)

/-- Nothing was written but the directives of the frame. -/
theorem Matches.setFrame {s : State σ₁} {c : Scope σ₂} (h : Matches H debug s c) {f : Frame}
    (hnames : f.names = s.frame.names) (hline : f.line = s.frame.line) :
    Matches H debug { s with frame := f } c :=
  ⟨h.host, hnames.trans h.names, hline.trans h.line, h.outlines, h.reports⟩

/-- A step that goes on from where the first one ends. -/
theorem GoesAs.bind {m : Gen σ₁ α} {l : Lowering σ₂ α} {f : α → Gen σ₁ β} {g : α → Lowering σ₂ β}
    {s : State σ₁} {c : Scope σ₂} (hm : GoesAs H debug closed m l s c)
    (hf : ∀ a b s' c', l c = .ok a b c' → Matches H debug s' c' →
      s'.frame = s.frame.after debug b c' → GoesAs H debug closed (f a) (g a) s' c') :
    GoesAs H debug closed (m >>= f) (l >>= g) s c := by
  rcases hm with ⟨a, b, s', c', hgen, hlow, h', hframe, hclosed⟩ |
    ⟨e, s', c', hgen, hlow, hhost, hreports⟩
  · rcases hf a b s' c' hlow h' hframe with
      ⟨a', b', s'', c'', hgen', hlow', h'', hframe', hclosed'⟩ |
      ⟨e, s'', c'', hgen', hlow', hhost, hreports⟩
    · refine .inl ⟨a', .seq b b', s'', c'', ?_, ?_, h'', ?_, fun hc => ⟨hclosed hc, hclosed' hc⟩⟩
      · simp only [Bind.bind, EStateM.bind, hgen, hgen']
      · simp only [Bind.bind, hlow, hlow']
      · rw [hframe', hframe, Frame.after_after]
    · refine .inr ⟨e, s'', c'', ?_, ?_, hhost, hreports⟩
      · simp only [Bind.bind, EStateM.bind, hgen, hgen']
      · simp only [Bind.bind, hlow, hlow']
  · refine .inr ⟨e, s', c', ?_, ?_, hhost, hreports⟩
    · simp only [Bind.bind, EStateM.bind, hgen]
    · simp only [Bind.bind, hlow]

namespace Follows

theorem pure (a : α) :
    Follows H debug inLoop closed (pure a : Gen σ₁ α) (pure a : Lowering σ₂ α) := by
  intro s c h _
  refine .inl ⟨a, .empty, s, c, rfl, rfl, h, ?_, fun _ => trivial⟩
  rw [Frame.after_pure h (by cases debug <;> rfl)]

theorem bind {m : Gen σ₁ α} {l : Lowering σ₂ α} {f : α → Gen σ₁ β} {g : α → Lowering σ₂ β}
    (hm : Follows H debug inLoop closed m l)
    (hf : ∀ a, Follows H debug inLoop closed (f a) (g a)) :
    Follows H debug inLoop closed (m >>= f) (l >>= g) :=
  fun s c h hready => (hm s c h hready).bind fun a b s' c' _ h' hframe =>
    hf a s' c' h' (hframe ▸ hready.after b c')

/-- A step that leaves the frame alone and makes no code. -/
theorem of_step {m : Gen σ₁ α} {l : Lowering σ₂ α}
    (h : ∀ s c, Matches H debug s c → ∃ a s' c', m s = .ok a s' ∧ l c = .ok a .empty c' ∧
      Matches H debug s' c' ∧
      s'.frame = { s.frame with names := c'.names, line := shownLine debug c'.line }) :
    Follows H debug inLoop closed m l := by
  intro s c hs _
  obtain ⟨a, s', c', hgen, hlow, hs', hframe⟩ := h s c hs
  refine .inl ⟨a, .empty, s', c', hgen, hlow, hs', ?_, fun _ => trivial⟩
  have hb : Block.shown debug .empty = .empty := by cases debug <;> rfl
  rw [hframe, Frame.after, hb, Frame.put_empty]

theorem fail (line : UInt32) (f : Finding) :
    Follows H debug inLoop closed (Gen.fail line f : Gen σ₁ α) (Lowering.fail line f) := by
  intro s c h _
  refine .inr ⟨{}, { s with reports := f.report line :: s.reports },
    { c with reports := f.report line :: c.reports }, rfl, rfl, h.host, ?_⟩
  rw [h.reports]

theorem report (line : UInt32) (f : Finding) :
    Follows H debug inLoop closed (Gen.report line f : Gen σ₁ Unit)
      (Lowering.report line f) := by
  refine of_step fun s c h => ⟨(), { s with reports := f.report line :: s.reports }, _, rfl, rfl,
    ⟨h.host, h.names, h.line, h.outlines, congrArg _ h.reports⟩, ?_⟩
  rw [← h.names, ← h.line]

theorem names (f : VariableTable → α × VariableTable) :
    Follows H debug inLoop closed (Gen.names f : Gen σ₁ α) (Lowering.names f) := by
  refine of_step fun s c h => ⟨(f c.names).1,
    { s with frame := { s.frame with names := (f c.names).2 } }, _, ?_, rfl,
    ⟨h.host, rfl, h.line, h.outlines, h.reports⟩, ?_⟩
  · rw [← h.names]
    rfl
  · rw [← h.line]

theorem ask {f : σ₁ → α × σ₁} {g : σ₂ → α × σ₂}
    (h : ∀ {a b}, H a b → (f a).1 = (g b).1 ∧ H (f a).2 (g b).2) :
    Follows H debug inLoop closed (Gen.ask f : Gen σ₁ α) (Lowering.ask g) := by
  refine of_step fun s c hs => ⟨(g c.host).1, { s with host := (f s.host).2 }, _, ?_, rfl,
    ⟨(h hs.host).2, hs.names, hs.line, hs.outlines, hs.reports⟩, ?_⟩
  · rw [← (h hs.host).1]
    rfl
  · rw [← hs.names, ← hs.line]

theorem table :
    Follows H debug inLoop closed (Gen.read (·.names) : Gen σ₁ VariableTable)
      Lowering.table := by
  refine of_step fun s c h => ⟨c.names, s, c, ?_, rfl, h, ?_⟩
  · rw [← h.names]
    rfl
  · rw [← h.names, ← h.line]

/-- A directive that makes an instruction; the effect of a call must not saturate. -/
theorem put (op : Opcode) (x : Operand) (hx : op = .call → x.count.toNat ≤ Opcode.maxArguments) :
    Follows H debug inLoop closed (Gen.push (.emit op x) : Gen σ₁ Unit)
      (Lowering.put (.instr op x)) := by
  intro s c h _
  refine .inl ⟨(), .instr op x, { s with frame := s.frame.push (.emit op x) }, c, rfl, rfl,
    ⟨h.host, h.names, h.line, h.outlines, h.reports⟩, ?_, fun _ => trivial⟩
  have hb : Block.shown debug (.instr op x) = .instr op x := by cases debug <;> rfl
  rw [Frame.after, hb, Frame.put_closed _ (by trivial), Block.climb_instr,
    ← Opcode.effect_eq_change hx, ← h.names, ← h.line]
  rfl

theorem emit (op : Opcode) :
    Follows H debug inLoop closed (Gen.emit op : Gen σ₁ Unit) (Lowering.emit op) :=
  put op .none fun _ => Nat.zero_le _

theorem emitWord (op : Opcode) (v : UInt64) :
    Follows H debug inLoop closed (Gen.emitWord op v : Gen σ₁ Unit) (Lowering.emitWord op v) :=
  put op (.word v) fun _ => Nat.zero_le _

theorem emitInt {op : Opcode} (hop : op ≠ .call) (v : UInt32) :
    Follows H debug inLoop closed (Gen.emitInt op v : Gen σ₁ Unit) (Lowering.emitInt op v) :=
  put op _ fun hcall => absurd hcall hop

theorem pushInt (v : Int32) :
    Follows H debug inLoop closed (Gen.pushInt v : Gen σ₁ Unit) (Lowering.pushInt v) := by
  have hop : (Emitter.intPush v).1 ≠ .call := by
    unfold Emitter.intPush
    split_ifs <;> nofun
  exact put _ _ fun hcall => absurd hcall hop

theorem markLine_run (o : Options) (line : UInt32) (s : State σ₁) :
    Gen.markLine o line s =
      .ok () (if o.debug && line != 0 && line != s.frame.line then
        { s with frame := { s.frame.push (.line line) with line } } else s) := by
  have hrun : Gen.markLine o line s =
      (if o.debug && line != 0 && line != s.frame.line then
        Gen.update fun f => { f.push (.line line) with line } else Pure.pure () : Gen σ₁ Unit) s :=
    rfl
  rw [hrun]
  split <;> rfl

/-- A debug build writes the mark that lowering makes. -/
theorem markLine (o : Options) (line : UInt32) :
    Follows H o.debug inLoop closed (Gen.markLine o line : Gen σ₁ Unit)
      (Lowering.markLine line) := by
  intro s c h _
  refine .inl ?_
  rw [markLine_run, Lowering.markLine]
  have hline := h.line
  rw [shownLine] at hline
  cases hdebug : o.debug with
  | false =>
    simp only [Bool.false_and, Bool.false_eq_true, if_false]
    rw [hdebug] at h
    split
    · refine ⟨(), .mark line, s, _, rfl, rfl,
        ⟨h.host, h.names, h.line, h.outlines, h.reports⟩, ?_, fun _ => trivial⟩
      exact (Frame.after_pure h rfl).symm
    · exact ⟨(), .empty, s, c, rfl, rfl, h, (Frame.after_pure h rfl).symm, fun _ => trivial⟩
  | true =>
    rw [hdebug, if_pos rfl] at hline
    simp only [Bool.true_and, hline]
    rw [hdebug] at h
    split
    · refine ⟨(), .mark line, _, _, rfl, rfl,
        ⟨h.host, h.names, rfl, h.outlines, h.reports⟩, ?_, fun _ => trivial⟩
      rw [Frame.after, Block.shown, if_pos rfl, Frame.put_closed _ (by trivial), ← h.names]
      rfl
    · exact ⟨(), .empty, s, c, rfl, rfl, h, (Frame.after_pure h rfl).symm, fun _ => trivial⟩

/-- A jump is a branch that the loop around resolves. -/
theorem jump (j : Jump) (line : UInt32) :
    Follows H debug inLoop (!inLoop) (Gen.jump j line : Gen σ₁ Unit)
      (Lowering.jump inLoop j line) := by
  intro s c h hready
  have hb : Block.shown debug (.jump .branch j) = .jump .branch j := by cases debug <;> rfl
  rcases s with
    ⟨host, ⟨id, name, names, current, latest, size, stack, labels, loops⟩, functions, reports⟩
  cases loops with
  | nil =>
    cases inLoop with
    | true => cases hready.loops
    | false =>
      have hfail : Follows H debug false true (Gen.fail line (.strayJump j) : Gen σ₁ Unit)
          (Lowering.fail line (.strayJump j)) :=
        fail line _
      exact hfail _ c h hready
  | cons context loops =>
    cases inLoop with
    | false => cases hready.loops
    | true =>
      refine .inl ⟨(), .jump .branch j, _, c, rfl, rfl,
        ⟨h.host, h.names, h.line, h.outlines, h.reports⟩, ?_, nofun⟩
      rw [Frame.after, hb, ← h.names, ← h.line]
      cases j <;> simp [Frame.put, Frame.push, Block.directives, Block.size, Block.labels,
        LoopContext.put, LoopContext.add, Block.jumps, Block.climb_jump, Directive.climb,
        Opcode.effect_zero] <;> rfl

/-! ## Shapes -/

theorem captured_ok {l : Lowering σ₂ Unit} {a : Unit} {b : Block} {c c' : Scope σ₂}
    (h : l c = .ok a b c') : l.captured c = .ok b .empty c' := by
  rw [Lowering.captured, h]

theorem captured_error {l : Lowering σ₂ Unit} {c c' : Scope σ₂} (h : l c = .error c') :
    l.captured c = .error c' := by
  rw [Lowering.captured, h]

theorem reserve_run (op : Opcode) (s : State σ₁) :
    Gen.reserve op s =
      .ok s.frame.labels { s with frame := (s.frame.reserve op).2 } :=
  rfl

theorem resolve_run {s : State σ₁} {label : LabelId} (h : s.frame.IsOpen label)
    (line target : UInt32) :
    Gen.resolve line target label s =
      .ok () { s with frame := s.frame.settle label target } := by
  have hread : Gen.read (·.resolve label target) s = .ok (.ok (s.frame.settle label target)) s := by
    rw [← h.resolve target]
    rfl
  simp only [Gen.resolve, Bind.bind, EStateM.bind, hread]
  rfl

theorem resolveHere_run {s : State σ₁} {label : LabelId} (h : s.frame.IsOpen label)
    (line : UInt32) :
    Gen.resolveHere line label s =
      .ok () { s with frame := s.frame.settle label s.frame.here } :=
  resolve_run h line s.frame.here

/-- A branch over code. -/
theorem skip {m : Gen σ₁ Unit} {l : Lowering σ₂ Unit} (line : UInt32)
    (h : Follows H debug inLoop closed m l) (op : Opcode) :
    Follows H debug inLoop closed
      (do
        let label ← Gen.reserve op
        m
        Gen.resolveHere line label) (Lowering.skip op l) := by
  intro s c hs hready
  have hs₁ := hs.setFrame (f := (s.frame.reserve op).2) rfl rfl
  rcases h _ c hs₁ (hready.reserve op) with ⟨a, b, s₂, c₂, hgen, hlow, hs₂, hframe, hclosed⟩ |
    ⟨e, s₂, c₂, hgen, hlow, hhost, hreports⟩
  · have hopen : s₂.frame.IsOpen s.frame.labels := by
      rw [hframe]
      exact (hready.neat.isOpen_reserve op).put _
    refine .inl ⟨(), .seq .empty (.skip op b), _, c₂, ?_, ?_,
      hs₂.setFrame (f := s₂.frame.settle s.frame.labels s₂.frame.here) rfl rfl, ?_,
      fun hc => ⟨trivial, hclosed hc⟩⟩
    · simp only [Bind.bind, EStateM.bind, reserve_run, hgen, resolveHere_run hopen]
    · simp only [Lowering.skip, Bind.bind, captured_ok hlow, Lowering.put]
    · have hb : Block.shown debug (.seq .empty (.skip op b)) =
          .seq .empty (.skip op (b.shown debug)) := by
        cases debug <;> rfl
      rw [hframe, Frame.after, Frame.after, hb, Frame.put_seq, Frame.put_empty, ← Frame.put_skip]
      rfl
  · refine .inr ⟨e, s₂, c₂, ?_, ?_, hhost, hreports⟩
    · simp only [Bind.bind, EStateM.bind, reserve_run, hgen]
    · simp only [Lowering.skip, Bind.bind, captured_error hlow]

/-- Two parts of which a test takes one. -/
theorem either {m₁ m₂ : Gen σ₁ Unit} {l₁ l₂ : Lowering σ₂ Unit} (line : UInt32)
    (h₁ : Follows H debug inLoop closed m₁ l₁) (h₂ : Follows H debug inLoop closed m₂ l₂) :
    Follows H debug inLoop closed
      (do
        let skipThen ← Gen.reserve .branchZero
        m₁
        let skipElse ← Gen.reserve .branch
        Gen.resolveHere line skipThen
        m₂
        Gen.resolveHere line skipElse) (Lowering.either l₁ l₂) := by
  intro s c hs hready
  have hs₁ := hs.setFrame (f := (s.frame.reserve .branchZero).2) rfl rfl
  rcases h₁ _ c hs₁ (hready.reserve _) with ⟨a, b, s₂, c₂, hgen, hlow, hs₂, hframe, hclosed⟩ |
    ⟨e, s₂, c₂, hgen, hlow, hhost, hreports⟩
  · have hready₂ : s₂.frame.Ready inLoop := hframe ▸ (hready.reserve _).after b c₂
    have hopen : s₂.frame.IsOpen s.frame.labels := by
      rw [hframe]
      exact (hready.neat.isOpen_reserve _).put _
    -- the second branch is written before the label of the first one gets its target
    have hthen := hopen.reserve .branch
    have hsettle := resolveHere_run (s := { s₂ with frame := (s₂.frame.reserve .branch).2 })
      hthen line
    let f₃ := (s₂.frame.reserve .branch).2.settle s.frame.labels
      (s₂.frame.reserve .branch).2.here
    have helse : f₃.IsOpen s₂.frame.labels :=
      (hready₂.neat.isOpen_reserve .branch).settle (Nat.ne_of_gt hopen.1) _
    have hs₃ := hs₂.setFrame (f := f₃) rfl rfl
    rcases h₂ _ c₂ hs₃ ((hready₂.reserve .branch).settle hthen.1 _) with
      ⟨a', b', s₄, c₄, hgen', hlow', hs₄, hframe', hclosed'⟩ |
      ⟨e, s₄, c₄, hgen', hlow', hhost, hreports⟩
    · have hlast : s₄.frame.IsOpen s₂.frame.labels := by
        rw [hframe']
        exact helse.put _
      refine .inl ⟨(), .seq .empty (.seq .empty (.either b b')), _, c₄, ?_, ?_,
        hs₄.setFrame (f := s₄.frame.settle s₂.frame.labels s₄.frame.here) rfl rfl, ?_,
        fun hc => ⟨trivial, trivial, hclosed hc, hclosed' hc⟩⟩
      · simp only [Bind.bind, EStateM.bind, reserve_run, hgen, hsettle]
        rw [show m₂ { s₂ with frame := f₃ } = _ from hgen']
        exact resolveHere_run hlast line
      · simp only [Lowering.either, Bind.bind, captured_ok hlow, captured_ok hlow', Lowering.put]
      · have hb : Block.shown debug (.seq .empty (.seq .empty (.either b b'))) =
            .seq .empty (.seq .empty (.either (b.shown debug) (b'.shown debug))) := by
          cases debug <;> rfl
        rw [hframe', Frame.after, Frame.after, hb, Frame.put_seq, Frame.put_empty, Frame.put_seq,
          Frame.put_empty, ← Frame.put_either]
        simp only [f₃, hframe]
        rfl
    · refine .inr ⟨e, s₄, c₄, ?_, ?_, hhost, hreports⟩
      · simp only [Bind.bind, EStateM.bind, reserve_run, hgen, hsettle]
        rw [show m₂ { s₂ with frame := f₃ } = _ from hgen']
      · simp only [Lowering.either, Bind.bind, captured_ok hlow, captured_error hlow']
  · refine .inr ⟨e, s₂, c₂, ?_, ?_, hhost, hreports⟩
    · simp only [Bind.bind, EStateM.bind, reserve_run, hgen]
    · simp only [Lowering.either, Bind.bind, captured_error hlow]

/-- Open labels, each named once, can all get a target. -/
theorem forM_resolve_run {labels : List LabelId} (hnodup : labels.Nodup) {s : State σ₁}
    (hopen : ∀ k ∈ labels, s.frame.IsOpen k) (line target : UInt32) :
    labels.forM (Gen.resolve line target) s =
      .ok () { s with frame := s.frame.settleAll target labels } := by
  induction labels generalizing s with
  | nil => rfl
  | cons label rest ih =>
    obtain ⟨hnew, hrest⟩ := List.nodup_cons.mp hnodup
    have hfirst := resolve_run (hopen label (List.mem_cons_self ..)) line target
    have hothers := ih hrest (s := { s with frame := s.frame.settle label target }) fun k hk =>
      (hopen k (List.mem_cons_of_mem _ hk)).settle (by rintro rfl; exact hnew hk) _
    show (Gen.resolve line target label >>= fun _ => rest.forM _) s = _
    simp only [Bind.bind, EStateM.bind, hfirst, hothers]
    simp [Frame.settleAll, Frame.settle, Frame.push, Directive.size, Directive.climb]

theorem closeLoop_run {c : LoopContext} (hnodup : (c.breaks ++ c.continues).Nodup)
    {s : State σ₁} (hopen : ∀ k ∈ c.breaks ++ c.continues, s.frame.IsOpen k)
    (line exit next : UInt32) :
    Gen.closeLoop line c exit next s =
      .ok () { s with frame := (s.frame.settleAll exit c.breaks).settleAll next c.continues } := by
  obtain ⟨hbreaks, hcontinues, hapart⟩ := List.nodup_append.mp hnodup
  have hfirst := forM_resolve_run hbreaks (fun k hk => hopen k (List.mem_append_left _ hk)) line
    exit
  have hrest := forM_resolve_run hcontinues
    (s := { s with frame := s.frame.settleAll exit c.breaks }) (fun k hk =>
      (hopen k (List.mem_append_right _ hk)).settleAll (fun hk' => hapart k hk' k hk rfl) _)
    line next
  simp only [Gen.closeLoop, Bind.bind, EStateM.bind, hfirst, hrest]

theorem leaveLoop_run {s : State σ₁} {c : LoopContext} {loops : List LoopContext}
    (h : s.frame.loops = c :: loops) :
    Gen.leaveLoop s = .ok c { s with frame := s.frame.leave loops } := by
  rcases s with
    ⟨host, ⟨id, name, names, line, latest, size, stack, labels, loops'⟩, functions, reports⟩
  subst h
  rfl

theorem here_run (s : State σ₁) : Gen.here s = .ok s.frame.here s :=
  rfl

theorem emitWord_run (op : Opcode) (v : UInt64) (s : State σ₁) :
    Gen.emitWord op v s = .ok () { s with frame := s.frame.push (.emit op (.word v)) } :=
  rfl

/-- The rounds of a loop, from the place behind its test. -/
theorem rounds {m t : Gen σ₁ Unit} {l k : Lowering σ₂ Unit} (line top : UInt32)
    (exit : Option LabelId) (back : Opcode) (resume : Resume)
    (hbody : Follows H debug true false m l) (htail : Follows H debug inLoop closed t k)
    {s : State σ₁} {c : Scope σ₂} (hs : Matches H debug s c) (hready : s.frame.Ready inLoop)
    (hexit : ∀ label ∈ exit, s.frame.IsOpen label) :
    (∃ b b' s' c' c'', Gen.rounds line top exit m t back resume s = .ok () s' ∧
      l c = .ok () b c' ∧
      k c' = .ok () b' c'' ∧ Matches H debug s' c'' ∧
      s'.frame = { s.frame.rounds top exit (b.shown debug) (b'.shown debug) back resume with
        names := c''.names, line := shownLine debug c''.line } ∧ (closed → b'.Closed)) ∨
    (∃ e s' c', Gen.rounds line top exit m t back resume s = .error e s' ∧
      (l c = .error c' ∨ ∃ b c'', l c = .ok () b c'' ∧ k c'' = .error c') ∧
      H s'.host c'.host ∧ s'.reports = c'.reports) := by
  have hs₁ := hs.setFrame (f := s.frame.enter) rfl rfl
  have henter : Gen.enterLoop s = .ok () { s with frame := s.frame.enter } := rfl
  rcases hbody _ c hs₁ ⟨rfl, hready.neat, hready.depth⟩ with
    ⟨a, b, s₂, c₂, hgen, hlow, hs₂, hframe, -⟩ |
    ⟨e, s₂, c₂, hgen, hlow, hhost, hreports⟩
  · have hinner : s₂.frame.loops =
        LoopContext.put {} s.frame.labels (b.shown debug) :: s.frame.loops := by
      rw [hframe]
      rfl
    have hleave := leaveLoop_run hinner
    have hs₃ := hs₂.setFrame (f := s₂.frame.leave s.frame.loops) rfl rfl
    have hready₃ : (s₂.frame.leave s.frame.loops).Ready inLoop := by
      rw [hframe]
      exact ⟨hready.loops, hready.neat.put _, Block.finalDepth_le_maxDepth hready.depth _⟩
    rcases htail _ c₂ hs₃ hready₃ with ⟨a', b', s₄, c₄, hgen', hlow', hs₄, hframe', hclosed⟩ |
      ⟨e, s₄, c₄, hgen', hlow', hhost, hreports⟩
    · let done := { s.frame.rounds top exit (b.shown debug) (b'.shown debug) back resume with
        names := c₄.names, line := shownLine debug c₄.line }
      refine .inl ⟨b, b', { s₄ with frame := done }, c₂, c₄, ?_, hlow, hlow',
        hs₄.setFrame hs₄.names.symm hs₄.line.symm, rfl, hclosed⟩
      have hjumps : ∀ k ∈ (LoopContext.put {} s.frame.labels (b.shown debug)).breaks ++
          (LoopContext.put {} s.frame.labels (b.shown debug)).continues,
          s₄.frame.IsOpen k ∧ s.frame.labels ≤ k := by
        rw [hframe', hframe]
        intro k hk
        obtain ⟨hopen, hnew⟩ := hready.neat.isOpen_context hk
        exact ⟨hopen.put _, hnew⟩
      have hexit' : ∀ label ∈ exit, s₄.frame.IsOpen label := by
        rw [hframe', hframe]
        intro label hlabel
        exact ((hexit label hlabel).put _).put _
      let backed := s₄.frame.push (.emit back (.word top.toUInt64))
      have hnodup := LoopContext.nodup_put s.frame.labels (b.shown debug)
      cases exit with
      | none =>
        have hclose := closeLoop_run (s := { s₄ with frame := backed }) hnodup
          (fun k hk => (hjumps k hk).1.push nofun) line
        cases resume <;>
          simp only [Gen.rounds, Bind.bind, EStateM.bind, henter, hgen, hleave, here_run, hgen',
            emitWord_run, backed, hclose] <;>
          simp only [hframe', hframe] <;>
          rfl
      | some label =>
        have hsettle := resolveHere_run (s := { s₄ with frame := backed })
          ((hexit' label rfl).push nofun) line
        -- the exit was given out before the body, so that it is not one of the jumps
        have hclose := closeLoop_run
          (s := { s₄ with frame := backed.settle label backed.here }) hnodup
          (fun k hk => ((hjumps k hk).1.push (by rintro _ ⟨⟩)).settle
            (Nat.ne_of_gt (Nat.lt_of_lt_of_le (hexit label rfl).1 (hjumps k hk).2)) _) line
        cases resume <;>
          simp only [Gen.rounds, Bind.bind, EStateM.bind, henter, hgen, hleave, here_run, hgen',
            emitWord_run, backed, hsettle, hclose] <;>
          simp only [hframe', hframe] <;>
          rfl
    · refine .inr ⟨e, s₄, c₄, ?_, .inr ⟨b, c₂, hlow, hlow'⟩, hhost, hreports⟩
      simp only [Gen.rounds, Bind.bind, EStateM.bind, henter, hgen, hleave, here_run, hgen']
  · refine .inr ⟨e, s₂, c₂, ?_, .inl hlow, hhost, hreports⟩
    simp only [Gen.rounds, Bind.bind, EStateM.bind, henter, hgen]

/-- A loop without a test at its top. -/
theorem untested {m t : Gen σ₁ Unit} {l k : Lowering σ₂ Unit} (line : UInt32) (back : Opcode)
    (resume : Resume)
    (hbody : Follows H debug true false m l) (htail : Follows H debug inLoop closed t k) :
    Follows H debug inLoop closed
      (do
        let top ← Gen.here
        Gen.rounds line top none m t back resume) (Lowering.loop l k back resume) := by
  intro s c hs hready
  rcases rounds line s.frame.here none back resume hbody htail hs hready nofun with
    ⟨b, b', s', c', c'', hgen, hlow, hlow', hs', hframe, hclosed⟩ |
    ⟨e, s', c', hgen, hlow, hhost, hreports⟩
  · refine .inl ⟨(), .seq .empty (.seq .empty (.loop b b' back resume)), s', c'', ?_, ?_, hs', ?_,
      fun hc => ⟨trivial, trivial, hclosed hc⟩⟩
    · simp only [Bind.bind, EStateM.bind, here_run, hgen]
    · simp only [Lowering.loop, Bind.bind, captured_ok hlow, captured_ok hlow', Lowering.put]
    · have hb : Block.shown debug (.seq .empty (.seq .empty (.loop b b' back resume))) =
          .seq .empty (.seq .empty (.loop (b.shown debug) (b'.shown debug) back resume)) := by
        cases debug <;> rfl
      rw [hframe, Frame.put_loop, Frame.after, hb, Frame.put_seq, Frame.put_empty, Frame.put_seq,
        Frame.put_empty]
  · refine .inr ⟨e, s', c', ?_, ?_, hhost, hreports⟩
    · simp only [Bind.bind, EStateM.bind, here_run, hgen]
    · rcases hlow with hlow | ⟨b, c'', hlow, hlow'⟩
      · simp only [Lowering.loop, Bind.bind, captured_error hlow]
      · simp only [Lowering.loop, Bind.bind, captured_ok hlow, captured_error hlow']

theorem tested_ok {p l : Lowering σ₂ Unit} {u v : Unit} {a b : Block} {c c' c'' : Scope σ₂}
    (hp : p c = .ok u a c') (hl : l c' = .ok v b c'') :
    p.tested l c = .ok v (.seq a (.seq (.jump .branchZero .breakLoop) b)) c'' := by
  simp only [Lowering.tested, Bind.bind, hp, Lowering.put, hl]

theorem tested_error {p l : Lowering σ₂ Unit} {u : Unit} {a : Block} {c c' c'' : Scope σ₂}
    (hp : p c = .ok u a c') (hl : l c' = .error c'') : p.tested l c = .error c'' := by
  simp only [Lowering.tested, Bind.bind, hp, Lowering.put, hl]

/-- A loop with a test at its top. -/
theorem tested {q m t : Gen σ₁ Unit} {p l k : Lowering σ₂ Unit} (line : UInt32) (back : Opcode)
    (resume : Resume) (htest : Follows H debug inLoop true q p)
    (hbody : Follows H debug true false m l) (htail : Follows H debug inLoop closed t k) :
    Follows H debug inLoop closed
      (do
        let top ← Gen.here
        q
        let exit ← Gen.reserve .branchZero
        Gen.rounds line top (some exit) m t back resume)
      (Lowering.loop (p.tested l) k back resume) := by
  intro s c hs hready
  rcases htest s c hs hready with ⟨a, b₀, s₁, c₁, hgen₁, hlow₁, hs₁, hframe₁, hclosed₁⟩ |
    ⟨e, s₁, c₁, hgen₁, hlow₁, hhost, hreports⟩
  · have hs₂ := hs₁.setFrame (f := (s₁.frame.reserve .branchZero).2) rfl rfl
    have hready₁ : s₁.frame.Ready inLoop := hframe₁ ▸ hready.after b₀ c₁
    rcases rounds line s.frame.here (some s₁.frame.labels) back resume hbody htail hs₂
      (hready₁.reserve _) (by rintro _ ⟨⟩; exact hready₁.neat.isOpen_reserve _) with
      ⟨b, b', s', c', c'', hgen, hlow, hlow', hs', hframe, hclosed⟩ |
      ⟨e, s', c', hgen, hlow, hhost, hreports⟩
    · have hround := tested_ok hlow₁ hlow
      let loop := Block.loop (.seq b₀ (.seq (.jump .branchZero .breakLoop) b)) b' back resume
      refine .inl ⟨(), .seq .empty (.seq .empty loop), s', c'', ?_, ?_, hs', ?_,
        fun hc => ⟨trivial, trivial, hclosed hc⟩⟩
      · simp only [Bind.bind, EStateM.bind, here_run, hgen₁, reserve_run, hgen]
      · simp only [Lowering.loop, Bind.bind, captured_ok hround, captured_ok hlow', Lowering.put,
          loop]
      · have hb : Block.shown debug (.seq .empty (.seq .empty loop)) =
            .seq .empty (.seq .empty (.loop (.seq (b₀.shown debug)
              (.seq (.jump .branchZero .breakLoop) (b.shown debug))) (b'.shown debug) back
              resume)) := by
          cases debug <;> rfl
        rw [hframe, Frame.after, hb, Frame.put_seq, Frame.put_empty, Frame.put_seq,
          Frame.put_empty, ← Frame.put_tested _ ((hclosed₁ rfl).shown debug), hframe₁]
        rfl
    · refine .inr ⟨e, s', c', ?_, ?_, hhost, hreports⟩
      · simp only [Bind.bind, EStateM.bind, here_run, hgen₁, reserve_run, hgen]
      · rcases hlow with hlow | ⟨b, c'', hlow, hlow'⟩
        · simp only [Lowering.loop, Bind.bind, captured_error (tested_error hlow₁ hlow)]
        · simp only [Lowering.loop, Bind.bind, captured_ok (tested_ok hlow₁ hlow),
            captured_error hlow']
  · refine .inr ⟨e, s₁, c₁, ?_, ?_, hhost, hreports⟩
    · simp only [Bind.bind, EStateM.bind, here_run, hgen₁]
    · simp only [Lowering.loop, Bind.bind, Lowering.captured, Lowering.tested, hlow₁]

/-! ## Calls -/

section Calls

variable (line : UInt32)

/-- Behind the receiver, the function and the arguments, a call leaves one value. -/
theorem emitCall_run {s : State σ₁} {before : Int} {count : Nat} (hcount : count < UInt32.size)
    (hdepth : s.frame.stack.finalDepth = before + (count + 2))
    (hmax : s.frame.stack.finalDepth ≤ s.frame.stack.maxDepth) :
    Gen.emitCall before count line s =
      .ok () { s with frame :=
        { s.frame.push (.emit .call (.int count.toUInt32.toInt32)) with
          stack := s.frame.stack.add (-(count + 1)) } } := by
  have hsize : count.toUInt32.toNat = count := UInt32.toNat_ofNat_of_lt' hcount
  have hset : (s.frame.stack.add (Opcode.effect .call count.toUInt32)).set (before + 1) =
      s.frame.stack.add (-(count + 1)) := by
    rw [StackReport.set_call (by rw [hsize, hdepth]) hmax, hsize]
  rw [Gen.emitCall, if_pos hcount, ← hset]
  rfl

/-- The depth that is set behind a call is the one that there is, if its effect does not
saturate. -/
theorem emitCall_eq_emitInt {s : State σ₁} {before : Int} {count : Nat}
    (hcount : count ≤ Opcode.maxArguments)
    (hdepth : s.frame.stack.finalDepth = before + (count + 2))
    (hmax : s.frame.stack.finalDepth ≤ s.frame.stack.maxDepth) :
    Gen.emitCall before count line s = Gen.emitInt .call count.toUInt32 s := by
  have hlt : count < UInt32.size := Nat.lt_of_le_of_lt hcount (by decide)
  have hsize : count.toUInt32.toNat = count := UInt32.toNat_ofNat_of_lt' hlt
  have heffect : Opcode.effect .call count.toUInt32 = -(count + 1) := by
    rw [Opcode.effect_call, Opcode.argumentCount, hsize, if_pos hcount]
  rw [emitCall_run line hlt hdepth hmax, ← heffect]
  rfl

/-- A call sets the depth to what its code comes to. -/
theorem emitCall (count : Nat) :
    FollowsAbove H debug inLoop closed (count + 2)
      (fun before => (Gen.emitCall before count line : Gen σ₁ Unit))
      (Lowering.emitCall count line) := by
  intro before s c hs hready hdepth
  by_cases hcount : count < UInt32.size
  · let x : Operand := .int count.toUInt32.toInt32
    have hb : Block.shown debug (.instr .call x) = .instr .call x := by cases debug <;> rfl
    have hchange : Opcode.change .call x = -(count + 1) := by
      rw [Opcode.change, Operand.count, UInt32.toUInt32_toInt32,
        UInt32.toNat_ofNat_of_lt' hcount]
    refine .inl ⟨(), .instr .call x, _, c, emitCall_run line hcount hdepth hready.depth, ?_,
      hs.setFrame (f := { s.frame.push (.emit .call x) with
        stack := s.frame.stack.add (-(count + 1)) }) rfl rfl, ?_, fun _ => trivial⟩
    · rw [Lowering.emitCall, if_pos hcount]
      rfl
    · rw [Frame.after, hb, Frame.put_closed _ (by trivial), Block.climb_instr, hchange, ← hs.names,
        ← hs.line]
      rfl
  · have hfail : Follows H debug inLoop closed (Gen.fail line .argumentCount : Gen σ₁ Unit)
        (Lowering.fail line .argumentCount) :=
      fail line _
    show GoesAs H debug closed (Gen.emitCall before count line) _ s c
    rw [Gen.emitCall, Lowering.emitCall, if_neg hcount, if_neg hcount]
    exact hfail s c hs hready

/-- A step of a call that leaves more values on the stack. -/
theorem push {m : Gen σ₁ Unit} {l : Lowering σ₂ Unit} {f : Int → Gen σ₁ β} {g : Lowering σ₂ β}
    {pushed more : Int} (hm : Follows H debug inLoop closed m l)
    (hmore : l.Leaves more)
    (hf : FollowsAbove H debug inLoop closed (pushed + more) f g) :
    FollowsAbove H debug inLoop closed pushed
      (fun before => m >>= fun _ => f before) (l >>= fun _ => g) := by
  intro before s c hs hready hdepth
  refine (hm s c hs hready).bind fun a b s' c' hlow hs' hframe => ?_
  refine hf before s' c' hs' (hframe ▸ hready.after b c') ?_
  rw [hframe, Frame.depth_after, hdepth, hmore c a b c' hlow, Int.add_assoc]

/-- A step that remembers the depth of the stack. -/
theorem remember {m : Int → Gen σ₁ α} {l : Lowering σ₂ α}
    (h : FollowsAbove H debug inLoop closed 0 m l) :
    Follows H debug inLoop closed (Gen.depth >>= m) l :=
  fun s c hs hready => h s.frame.stack.finalDepth s c hs hready (Int.add_zero _).symm

end Calls

/-- The frame of a function comes to what its outline comes to. -/
theorem finish_after (id : UInt64) (name : Option String) (b : Block) (c : Scope σ₂)
    (root : Bool) :
    (Frame.after debug { id, name } b c).finish root debug =
      Outline.finish { id, name, names := c.names, code := b } root debug := by
  simp only [Frame.finish, Outline.finish, Outline.directives, Outline.stack, Frame.directives,
    Frame.after, Frame.put, List.append_nil]

theorem swapFrame_run (f : Frame) (s : State σ₁) :
    Gen.swapFrame f s = .ok s.frame { s with frame := f } :=
  rfl

theorem keep_run (f : CompiledFunction) (s : State σ₁) :
    Gen.keep f s = .ok () { s with latest := f :: s.latest } :=
  rfl

variable [Host σ₁] [Host σ₂]

/-- A function literal. -/
theorem function (hids : SameIds H) {m : Gen σ₁ Unit} {l : Lowering σ₂ Unit} (o : Options)
    (name : Option String) (line : UInt32) (h : Follows H o.debug false true m l) :
    Follows H o.debug inLoop closed
      (do
        let id ← Gen.ask Host.functionId
        let outer ← Gen.swapFrame { id, name }
        m
        let inner ← Gen.swapFrame outer
        Gen.keep (← Gen.close inner false o line)
        Gen.emitWord .pushFunction id) (Lowering.function name l) := by
  refine (ask hids.functionId).bind fun id => ?_
  intro s c hs _
  have hs₁ : Matches H o.debug { s with frame := { id, name } }
      { c with names := {}, line := 0 } :=
    ⟨hs.host, rfl, by cases o.debug <;> rfl, hs.outlines, hs.reports⟩
  rcases h _ _ hs₁ ⟨rfl, nofun, Int.le_refl 0⟩ with
    ⟨a, b, s₂, c₂, hgen, hlow, hs₂, hframe, hclosed⟩ |
    ⟨e, s₂, c₂, hgen, hlow, hhost, hreports⟩
  · let outline : Outline := { id, name, names := c₂.names, code := b }
    obtain ⟨f, hf, hmakes⟩ := Outline.exists_finish (o := outline) (hclosed rfl) false o.debug
    have hfinish : s₂.frame.finish false o.debug = .ok f := by
      rw [hframe, finish_after, hf]
    have hclose (t : State σ₁) : Gen.close s₂.frame false o line t = .ok f t := by
      simp only [Gen.close, hfinish]
      rfl
    refine .inl ⟨(), .instr .pushFunction (.word id),
      { s₂ with frame := s.frame.push (.emit .pushFunction (.word id)), latest := f :: s₂.latest },
      { c₂ with names := c.names, line := c.line, outlines := outline :: c₂.outlines }, ?_, ?_,
      ⟨hs₂.host, hs.names, hs.line, .cons ⟨hclosed rfl, hmakes⟩ hs₂.outlines, hs₂.reports⟩, ?_,
      fun _ => trivial⟩
    · simp only [Bind.bind, EStateM.bind, swapFrame_run, hgen, hclose, keep_run, emitWord_run]
    · simp only [hlow, outline]
    · have hb : Block.shown o.debug (.instr .pushFunction (.word id)) =
          .instr .pushFunction (.word id) := by cases o.debug <;> rfl
      rw [Frame.after, hb, Frame.put_closed _ (by trivial)]
      simp only [← hs.names, ← hs.line]
      rfl
  · refine .inr ⟨e, s₂, c₂, ?_, ?_, hhost, hreports⟩
    · simp only [Bind.bind, EStateM.bind, swapFrame_run, hgen]
    · simp only [hlow]

end Follows

end ScriptToolchain.Compile
