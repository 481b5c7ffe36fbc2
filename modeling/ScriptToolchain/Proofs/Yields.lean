import ScriptToolchain.Proofs.Growth

/-!
# What lowering yields

`Lowering.Yields` judges a step of lowering by the code that it gives, and by
what becomes of the scope: the names of the function may take slots, which the
code pays for with its bytes, and every function that is finished is fit to be
assembled. The induction over the tree follows the recursion of the generator.
-/

namespace ScriptToolchain.Compile

/-- An outline that gives a sound function. -/
structure Outline.Fine (popped : Prop) (fit : Nat → Prop) (o : Outline) : Prop where
  wellFormed : o.code.WellFormed
  keeps : o.code.Keeps popped True 0
  returns : o.code.Returns
  names : o.names.Sound
  params : fit o.names.params
  slots : 4 * o.names.slots.size ≤ 4 * o.names.params + o.code.weight

/--
What a step does to the scope: `owed` bytes for slots stand out before it and `owing` behind it,
and the functions stay fine.
-/
structure Scope.Grows {σ : Type} (popped : Prop) (fit : Nat → Prop) (owed owing : Nat)
    (code : Block) (c c' : Scope σ) : Prop where
  wellFormed : code.WellFormed
  slots : 4 * c'.names.slots.size + owed ≤ 4 * c.names.slots.size + code.weight + owing
  params : c'.names.params = c.names.params
  names : c.names.Sound → c'.names.Sound
  outlines : (∀ o ∈ c.outlines, o.Fine popped fit) → ∀ o ∈ c'.outlines, o.Fine popped fit

variable {σ α β : Type} {popped : Prop} {fit : Nat → Prop}

theorem Scope.Grows.seq {owed m owing : Nat} {a b : Block} {c c' c'' : Scope σ}
    (h : c.Grows popped fit owed m a c') (h' : c'.Grows popped fit m owing b c'') :
    c.Grows popped fit owed owing (.seq a b) c'' where
  wellFormed := ⟨h.wellFormed, h'.wellFormed⟩
  slots := by
    have := h.slots
    have := h'.slots
    rw [Block.weight_seq]
    omega
  params := h'.params.trans h.params
  names hc := h'.names (h.names hc)
  outlines hc := h'.outlines (h.outlines hc)

/-- A step that leaves the names and the functions as they are. -/
theorem Scope.Grows.of_eq {owed owing : Nat} {code : Block} {c c' : Scope σ}
    (hcode : code.WellFormed) (howed : owed ≤ code.weight + owing) (hnames : c'.names = c.names)
    (houtlines : c'.outlines = c.outlines) : c.Grows popped fit owed owing code c' where
  wellFormed := hcode
  slots := by
    rw [hnames]
    omega
  params := by rw [hnames]
  names hc := by rwa [hnames]
  outlines hc := by rwa [houtlines]

/-- The number of values that a place takes from the stack besides the one it stores. -/
def Place.depth : Place → Int
  | .field _ => 1
  | .element => 2
  | .variable .. => 0

theorem Place.depth_nonneg (p : Place) : 0 ≤ p.depth := by
  cases p <;> simp [depth]

namespace Lowering

/-- Where the step gives code, the code is such and the scope grows as it may. -/
def Yields (popped : Prop) (fit : Nat → Prop) (owed owing : Nat) (E : α → Block → Prop)
    (l : Lowering σ α) : Prop :=
  ∀ c a code c', l c = .ok a code c' → c.Grows popped fit owed owing code c' ∧ E a code

namespace Yields

variable {owed m owing : Nat} {d d' k : Int} {E : α → Block → Prop}

theorem mono {E' : α → Block → Prop} {l : Lowering σ α} (h : l.Yields popped fit owed owing E)
    (hE : ∀ a code, E a code → E' a code) : l.Yields popped fit owed owing E' :=
  fun c a code c' hl => ⟨(h c a code c' hl).1, hE a code (h c a code c' hl).2⟩

theorem bind_of {F : α → β → Block → Prop} {G : β → Block → Prop} {l : Lowering σ α}
    {f : α → Lowering σ β} (h : l.Yields popped fit owed m E)
    (hf : ∀ a, (f a).Yields popped fit m owing (F a))
    (hG : ∀ a b x y, E a x → F a b y → G b (.seq x y)) :
    (l >>= f).Yields popped fit owed owing G := by
  intro c b code c' hl
  obtain ⟨a, x, c₁, y, hfirst, hsecond, rfl⟩ := bind_eq_ok hl
  obtain ⟨hgrow, hx⟩ := h c a x c₁ hfirst
  obtain ⟨hgrow', hy⟩ := hf a c₁ b y c' hsecond
  exact ⟨hgrow.seq hgrow', hG a b x y hx hy⟩

/-- Code that goes on from the depth where the code before it ends. -/
theorem bind {l : Lowering σ α} {f : α → Lowering σ β} {e : α → Int} {g : β → Int}
    (h : l.Yields popped fit owed m fun a x => x.Moves popped d (e a))
    (hf : ∀ a, (f a).Yields popped fit m owing fun b x => x.Moves popped (e a) (g b)) :
    (l >>= f).Yields popped fit owed owing fun b x => x.Moves popped d (g b) :=
  h.bind_of hf fun _ _ _ _ hx hy => hx.seq hy

/-- A statement that starts with the code of a value. -/
theorem bind_keeps {l : Lowering σ α} {f : α → Lowering σ β} {e : α → Int} {jumps : Prop}
    (h : l.Yields popped fit owed m fun a x => x.Moves popped d (e a))
    (hf : ∀ a, (f a).Yields popped fit m owing fun _ x => x.Keeps popped jumps (e a)) :
    (l >>= f).Yields popped fit owed owing fun _ x => x.Keeps popped jumps d :=
  h.bind_of hf fun _ _ _ _ hx hy => hx.seq_keeps hy

/-- A statement behind a statement. -/
theorem keeps_bind {l : Lowering σ α} {f : α → Lowering σ β} {jumps : Prop}
    (h : l.Yields popped fit owed m fun _ x => x.Keeps popped jumps d)
    (hf : ∀ a, (f a).Yields popped fit m owing fun _ x => x.Keeps popped jumps 0) :
    (l >>= f).Yields popped fit owed owing fun _ x => x.Keeps popped jumps d :=
  h.bind_of hf fun _ _ _ _ hx hy => hx.seq hy

/-- Code from one depth to another leaves as many values. -/
theorem leaves {l : Lowering σ α}
    (h : l.Yields popped fit owed owing fun _ x => x.Moves popped d d') : l.Leaves (d' - d) :=
  fun c a code c' hl => Block.net_of_climbs (h c a code c' hl).2.climbs

/-- Code above more values. -/
theorem above {l : Lowering σ α} {e : α → Int}
    (h : l.Yields popped fit owed owing fun a x => x.Moves popped d (e a)) {k : Int}
    (hk : 0 ≤ k) :
    l.Yields popped fit owed owing fun a x => x.Moves popped (d + k) (e a + k) :=
  h.mono fun _ _ hx => hx.above hk

/-- A step that leaves more bytes owed. -/
theorem owe {l : Lowering σ α} (h : l.Yields popped fit owed owing E) (n : Nat) :
    l.Yields popped fit (owed + n) (owing + n) E := by
  intro c a code c' hl
  obtain ⟨hgrow, hcode⟩ := h c a code c' hl
  refine ⟨⟨hgrow.wellFormed, ?_, hgrow.params, hgrow.names, hgrow.outlines⟩, hcode⟩
  have := hgrow.slots
  omega

/-- A statement that is the code of no value. -/
theorem keeps {l : Lowering σ Unit} {jumps : Prop}
    (h : l.Yields popped fit owed owing fun _ x => x.Moves popped d 0) :
    l.Yields popped fit owed owing fun _ x => x.Keeps popped jumps d :=
  h.mono fun _ _ hx => hx.keeps (Int.le_refl 0) fun _ => rfl

/-- Code that is kept for later still pays. -/
theorem capture {l : Lowering σ Unit} {f : Block → Lowering σ β} {E : Block → Prop}
    {F : β → Block → Prop} (h : l.Yields popped fit owed m fun _ => E)
    (hf : ∀ b, b.WellFormed → E b → (f b).Yields popped fit (m + b.weight) owing F)
    (hF : ∀ y x, F y x → F y (.seq .empty x)) :
    (captured l >>= f).Yields popped fit owed owing F := by
  intro c y code c' hl
  obtain ⟨b, _, c₁, x, hcaptured, hsecond, rfl⟩ := bind_eq_ok hl
  obtain ⟨rfl, hfirst⟩ := captured_eq_ok hcaptured
  obtain ⟨hgrow, hb⟩ := h c () b c₁ hfirst
  obtain ⟨hgrow', hx⟩ := hf b hgrow.wellFormed hb c₁ y x c' hsecond
  refine ⟨⟨⟨trivial, hgrow'.wellFormed⟩, ?_, hgrow'.params.trans hgrow.params,
    fun hc => hgrow'.names (hgrow.names hc),
    fun hc => hgrow'.outlines (hgrow.outlines hc)⟩, hF _ _ hx⟩
  have := hgrow.slots
  have := hgrow'.slots
  rw [Block.weight_seq]
  omega

/-! ## Steps -/

/-- A value that stands for the depth reached. -/
theorem answer (a : α) {e : α → Int} (he : e a = d) :
    (Pure.pure a : Lowering σ α).Yields popped fit owed owed fun b x => x.Moves popped d (e b) := by
  rintro c _ _ _ ⟨⟩
  subst he
  exact ⟨.of_eq trivial (Nat.le_add_left ..) rfl rfl, Block.moves_empty _⟩

theorem pure (a : α) :
    (Pure.pure a : Lowering σ α).Yields popped fit owed owed fun _ x => x.Moves popped d d :=
  answer a rfl

theorem fail (line : UInt32) (f : Finding) :
    (Lowering.fail line f : Lowering σ α).Yields popped fit owed owing E :=
  fun _ _ _ _ hl => by cases hl

theorem report (line : UInt32) (f : Finding) :
    (Lowering.report line f : Lowering σ Unit).Yields popped fit owed owed
      fun _ x => x.Moves popped d d := by
  rintro c _ _ _ ⟨⟩
  exact ⟨.of_eq trivial (Nat.le_add_left ..) rfl rfl, Block.moves_empty d⟩

theorem table : (Lowering.table : Lowering σ VariableTable).Yields popped fit owed owed
    fun _ x => x.Moves popped d d := by
  rintro c _ _ _ ⟨⟩
  exact ⟨.of_eq trivial (Nat.le_add_left ..) rfl rfl, Block.moves_empty d⟩

theorem ask (f : σ → α × σ) : (Lowering.ask f).Yields popped fit owed owed
    fun _ x => x.Moves popped d d := by
  rintro c _ _ _ ⟨⟩
  exact ⟨.of_eq trivial (Nat.le_add_left ..) rfl rfl, Block.moves_empty d⟩

theorem markLine (line : UInt32) :
    (Lowering.markLine line : Lowering σ Unit).Yields popped fit owed owed
      fun _ x => x.Moves popped 0 0 := by
  intro c a code c' hl
  rw [Lowering.markLine] at hl
  split at hl
  · cases hl
    exact ⟨.of_eq trivial (Nat.le_add_left ..) rfl rfl, Block.moves_mark (Int.le_refl 0) line⟩
  · cases hl
    exact ⟨.of_eq trivial (Nat.le_add_left ..) rfl rfl, Block.moves_empty 0⟩

/-- Work on the names that takes no more than `n` slots. -/
theorem names {f : VariableTable → α × VariableTable} {n : Nat}
    (hf : ∀ t : VariableTable, t.Takes n (f t).2) (howing : owed + 4 * n ≤ owing) :
    (Lowering.names f : Lowering σ α).Yields popped fit owed owing
      fun _ x => x.Moves popped d d := by
  rintro c _ _ _ ⟨⟩
  obtain ⟨hslots, hparams, hsound⟩ := hf c.names
  refine ⟨⟨trivial, ?_, hparams, hsound, fun hc => hc⟩, Block.moves_empty d⟩
  rw [Block.weight_empty]
  simp only
  omega

/-- Code pays for the slots that were taken for it. -/
theorem put {b : Block} {E : Block → Prop} (hb : b.WellFormed) (howed : owed ≤ b.weight + owing)
    (hE : E b) : (Lowering.put b : Lowering σ Unit).Yields popped fit owed owing fun _ => E := by
  rintro c _ _ _ ⟨⟩
  exact ⟨.of_eq hb howed rfl rfl, hE⟩

/-- An instruction, with the change of the depth that its operation has. -/
theorem instr {op : Opcode} {x : Operand} (hop : op.Plain x.kind) (hd : 0 ≤ d + op.delta)
    (hd' : d' = d + op.delta) (howed : owed ≤ 4 + x.kind.size + owing) :
    (Lowering.put (.instr op x) : Lowering σ Unit).Yields popped fit owed owing
      fun _ b => b.Moves popped d d' := by
  have hchange := hop.change_eq x
  refine put ⟨hop.1.symm, hop.2.1, hop.2.2.1⟩ howed (Block.moves_instr ?_ ?_)
  · rwa [hchange]
  · rw [hchange, hd']

theorem emitInt {op : Opcode} (hop : op.Plain .int32) (v : UInt32) (hd : 0 ≤ d + op.delta)
    (hd' : d' = d + op.delta) (howed : owed ≤ 8 + owing) :
    (Lowering.emitInt op v : Lowering σ Unit).Yields popped fit owed owing
      fun _ x => x.Moves popped d d' :=
  instr hop hd hd' howed

theorem emitWord {op : Opcode} (hop : op.Plain .word64) (v : UInt64) (hd : 0 ≤ d + op.delta)
    (hd' : d' = d + op.delta) (howed : owed ≤ 12 + owing) :
    (Lowering.emitWord op v : Lowering σ Unit).Yields popped fit owed owing
      fun _ x => x.Moves popped d d' :=
  instr hop hd hd' howed

theorem pushInt (v : Int32) (hd : 0 ≤ d) :
    (Lowering.pushInt v : Lowering σ Unit).Yields popped fit owed owed
      fun _ x => x.Moves popped d (d + 1) := by
  have hpush {op : Opcode} {x : Operand} (hop : op.Plain x.kind) (hdelta : op.delta = 1) :
      (Lowering.put (.instr op x) : Lowering σ Unit).Yields popped fit owed owed
        fun _ b => b.Moves popped d (d + 1) :=
    instr hop (by omega) (by omega) (Nat.le_add_left ..)
  rw [Lowering.pushInt, Emitter.intPush]
  split_ifs
  · exact hpush (x := .none) (by decide) rfl
  · exact hpush (x := .none) (by decide) rfl
  · exact hpush (x := .int v) (show Opcode.Plain .pushInt .int32 by decide) rfl

theorem emitSymbol [Host σ] {op : Opcode} (hop : op.Plain .word64) (name : String)
    (hd : 0 ≤ d + op.delta) (hd' : d' = d + op.delta) (howed : owed ≤ 12 + owing) :
    (Lowering.emitSymbol op name : Lowering σ Unit).Yields popped fit owed owing
      fun _ x => x.Moves popped d d' :=
  (ask _).bind fun _ => emitWord hop _ hd hd' howed

/-! ## Branches -/

theorem skip {l : Lowering σ Unit} {op : Opcode} (hop : op.isBranch) (hdelta : op.delta = 0)
    (hd : 0 ≤ d) (h : l.Yields popped fit owed owing fun _ x => x.Moves popped d d) :
    (Lowering.skip op l).Yields popped fit owed owing fun _ x => x.Moves popped d d :=
  h.capture (fun b hwf hb => put ⟨hop, hwf⟩ (by rw [Block.weight_skip]; omega) (hb.skip hdelta hd))
    fun _ _ hx => (Block.moves_empty d).seq hx

theorem skip_keeps {l : Lowering σ Unit} {op : Opcode} {jumps : Prop} (hop : op.isBranch)
    (hdelta : op.delta = -1) (h : l.Yields popped fit owed owing fun _ x => x.Keeps popped jumps 0) :
    (Lowering.skip op l).Yields popped fit owed owing fun _ x => x.Keeps popped jumps 1 :=
  h.capture (fun b hwf hb => put ⟨hop, hwf⟩ (by rw [Block.weight_skip]; omega) (hb.skip hdelta))
    fun _ _ hx => (Block.moves_empty 1).seq_keeps hx

theorem either {yes no : Lowering σ Unit} {jumps : Prop}
    (hyes : yes.Yields popped fit owed m fun _ x => x.Keeps popped jumps 0)
    (hno : no.Yields popped fit m owing fun _ x => x.Keeps popped jumps 0) :
    (Lowering.either yes no).Yields popped fit owed owing fun _ x => x.Keeps popped jumps 1 := by
  have hempty (_ : Unit) (x : Block) (hx : x.Keeps popped jumps 1) :
      (Block.seq .empty x).Keeps popped jumps 1 :=
    (Block.moves_empty 1).seq_keeps hx
  refine hyes.capture (fun a hwf ha => ?_) hempty
  refine (hno.owe a.weight).capture (fun b hwf' hb => ?_) hempty
  refine put ⟨hwf, hwf'⟩ ?_ (ha.either hb)
  rw [Block.weight_either]
  omega

theorem loop {body tail : Lowering σ Unit} {back : Opcode} {jumps : Prop} (resume : Resume)
    (hop : back.isBranch) (hdelta : back.delta = 0)
    (hbody : body.Yields popped fit owed m fun _ x => x.Keeps popped True 0)
    (htail : tail.Yields popped fit m owing fun _ x => x.Keeps popped jumps 0) :
    (Lowering.loop body tail back resume).Yields popped fit owed owing
      fun _ x => x.Keeps popped jumps 0 := by
  have hempty (_ : Unit) (x : Block) (hx : x.Keeps popped jumps 0) :
      (Block.seq .empty x).Keeps popped jumps 0 :=
    (Block.moves_empty 0).seq_keeps hx
  refine hbody.capture (fun a hwf ha => ?_) hempty
  refine (htail.owe a.weight).capture (fun b hwf' hb => ?_) hempty
  refine put ⟨hop, hwf, hwf'⟩ ?_ (ha.loop hdelta resume hb)
  rw [Block.weight_loop]
  omega

theorem loop_value {body tail : Lowering σ Unit} {back : Opcode} {jumps : Prop} (resume : Resume)
    (hop : back.isBranch) (hdelta : back.delta = -1)
    (hbody : body.Yields popped fit owed m fun _ x => x.Keeps popped True 0)
    (htail : tail.Yields popped fit m owing fun _ x => x.Moves popped 0 1) :
    (Lowering.loop body tail back resume).Yields popped fit owed owing
      fun _ x => x.Keeps popped jumps 0 := by
  have hempty (_ : Unit) (x : Block) (hx : x.Keeps popped jumps 0) :
      (Block.seq .empty x).Keeps popped jumps 0 :=
    (Block.moves_empty 0).seq_keeps hx
  refine hbody.capture (fun a hwf ha => ?_) hempty
  refine (htail.owe a.weight).capture (fun b hwf' hb => ?_) hempty
  refine put ⟨hop, hwf, hwf'⟩ ?_ (ha.loop_value hdelta resume hb)
  rw [Block.weight_loop]
  omega

theorem tested {test body : Lowering σ Unit}
    (htest : test.Yields popped fit owed m fun _ x => x.Moves popped 0 1)
    (hbody : body.Yields popped fit m owing fun _ x => x.Keeps popped True 0) :
    (Lowering.tested test body).Yields popped fit owed owing fun _ x => x.Keeps popped True 0 := by
  have hjump : (Lowering.put (.jump .branchZero .breakLoop) : Lowering σ Unit).Yields popped fit
      m m fun _ x => x.Keeps popped True 1 :=
    put rfl (Nat.le_add_left ..) (Block.keeps_jump rfl .breakLoop)
  exact htest.bind_keeps fun _ => hjump.keeps_bind fun _ => hbody

theorem jump (inLoop : Bool) (j : Jump) (line : UInt32) :
    (Lowering.jump inLoop j line : Lowering σ Unit).Yields popped fit owed owed
      fun _ x => x.Keeps popped True 0 := by
  rw [Lowering.jump]
  split
  · exact put rfl (Nat.le_add_left ..) (Block.keeps_jump rfl j)
  · exact fail line _

/-! ## Functions -/

/-- Declaring parameters gives no instruction; each parameter takes a slot. -/
theorem declareParameters (popped : Prop) (d : Int) {line : UInt32} {params : List Node}
    {c c' : Scope σ} {a : Unit} {code : Block}
    (h : Lowering.declareParameters line params c = .ok a code c')
    (hc : c.names.Begun) :
    c'.names.Begun ∧ c'.names.params = c.names.params + params.length ∧
      c'.outlines = c.outlines ∧ code.WellFormed ∧ code.Moves popped d d := by
  induction params generalizing c code with
  | nil =>
    cases h
    exact ⟨hc, rfl, rfl, trivial, Block.moves_empty d⟩
  | cons n rest ih =>
    cases n with
    | parameter m name =>
      simp only [Lowering.declareParameters, Bind.bind, Lowering.names] at h
      cases hslot : (c.names.declareParameter name).1 with
      | none =>
        simp only [hslot, Lowering.fail] at h
        cases h
      | some slot =>
        obtain ⟨hbegun, hparams⟩ := hc.declareParameter hslot
        simp only [hslot] at h
        split at h
        · cases h
        · rename_i hrest
          simp only [Lowered.ok.injEq] at h
          obtain ⟨-, rfl, rfl⟩ := h
          obtain ⟨hnames, hcount, houtlines, hwf, hmoves⟩ := ih hrest hbegun
          refine ⟨hnames, ?_, houtlines, ⟨trivial, hwf⟩, (Block.moves_empty d).seq hmoves⟩
          rw [hcount, List.length_cons]
          simp only [hparams]
          omega
    | _ => cases h

/-- The code of a function behind that of its parameters. -/
theorem fine {body : Lowering σ Unit}
    (hbody : body.Yields popped fit 0 0 fun _ x => x.Keeps popped True 0) {c c' : Scope σ}
    {a : Unit} {code : Block} (h : (do body; emit .ret : Lowering σ Unit) c = .ok a code c')
    (hc : c.names.Begun) (hfit : fit c.names.params) (id : UInt64) (name : Option String) :
    (Outline.mk id name c'.names code).Fine popped fit ∧
      ((∀ o ∈ c.outlines, o.Fine popped fit) → ∀ o ∈ c'.outlines, o.Fine popped fit) := by
  have hret : (emit .ret : Lowering σ Unit).Yields popped fit 0 0 fun _ x =>
      x.Keeps popped True 0 :=
    keeps (instr (by decide) (by decide) rfl (Nat.zero_le _))
  obtain ⟨hgrow, hkeeps⟩ := (hbody.keeps_bind fun _ => hret) c a code c' h
  refine ⟨⟨hgrow.wellFormed, hkeeps, ?_, hgrow.names hc.sound, ?_, ?_⟩, hgrow.outlines⟩
  · simp only [Bind.bind] at h
    split at h
    · cases h
    · cases h
      exact ⟨rfl, rfl⟩
  · rwa [hgrow.params]
  · have := hgrow.slots
    have := hc.params
    simp only [hgrow.params]
    omega

theorem function [Host σ] {line : UInt32} {params : List Node} {body : Lowering σ Unit}
    (hbody : body.Yields popped fit 0 0 fun _ x => x.Keeps popped True 0)
    (hfit : fit params.length) (name : Option String) :
    (Lowering.function name (do
      Lowering.declareParameters line params
      body
      emit .ret) : Lowering σ Unit).Yields popped fit 0 0 fun _ x => x.Moves popped 0 1 := by
  refine (ask _).bind fun id => ?_
  intro c a code c' h
  simp only at h
  split at h
  · cases h
  · rename_i _ inner c₁ hrun
    cases h
    have hwf : (Block.instr .pushFunction (.word id)).WellFormed := ⟨rfl, rfl, nofun⟩
    refine ⟨⟨hwf, by simp only; omega, rfl, fun hc => hc, fun hc o ho => ?_⟩,
      Block.moves_instr (by rw [Opcode.change_word]; decide) (by rw [Opcode.change_word]; decide)⟩
    -- the parameters come first, the rest of the code runs behind them
    obtain ⟨_, first, c₂, rest, hparams, hrest, rfl⟩ := bind_eq_ok hrun
    obtain ⟨hbegun, hcount, houtlines, hfirst, hmoves⟩ :=
      declareParameters popped 0 hparams VariableTable.begun_empty
    have hcount' : c₂.names.params = params.length := hcount.trans (Nat.zero_add _)
    obtain ⟨hfine, hall⟩ := fine hbody hrest hbegun (by rwa [hcount']) id name
    rcases List.mem_cons.mp ho with rfl | ho
    · refine ⟨⟨hfirst, hfine.wellFormed⟩, hmoves.seq_keeps hfine.keeps, hfine.returns,
        hfine.names, hfine.params, ?_⟩
      have hslots := hfine.slots
      simp only [Block.weight_seq] at hslots ⊢
      omega
    · exact hall (by rw [houtlines]; exact hc) o ho

/-! ## Parts of nodes -/

theorem declare (m : Mark) (storage : StorageClass) (name : String) :
    (Lowering.declare m storage name : Lowering σ Unit).Yields popped fit 0 0
      fun _ x => x.Moves popped 0 0 := by
  refine (names (n := 0) (fun t => t.takes_declare name storage) (Nat.le_refl _)).bind fun a => ?_
  cases a with
  | conflict kept requested => exact report m.line _
  | new => exact pure ()
  | again => exact pure ()

theorem foreachSlot (name : String) (line : UInt32) (owed : Nat) :
    (Lowering.foreachSlot name line : Lowering σ UInt16).Yields popped fit owed (owed + 4)
      fun _ x => x.Moves popped 0 0 := by
  refine (names (n := 1) (fun t => t.takes_localSlot name) (Nat.le_refl _)).bind fun a => ?_
  cases a with
  | none => exact fail line _
  | some slot =>
    show Yields _ _ _ _ _ (if _ then _ else _)
    split
    · exact pure _
    · exact fail line _

theorem memberName (line : UInt32) (member : Node) :
    (Lowering.memberName line member : Lowering σ String).Yields popped fit 0 0
      fun _ x => x.Moves popped 0 0 := by
  rw [Lowering.memberName]
  cases member.identifier? with
  | some name => exact pure name
  | none => exact fail line _

/-- A call takes the receiver, the function and the arguments. -/
theorem emitCall (count : Nat) (line : UInt32) :
    (Lowering.emitCall count line : Lowering σ Unit).Yields popped fit 0 0
      fun _ x => x.Moves popped (count + 2) 1 := by
  rw [Lowering.emitCall]
  split
  · rename_i hcount
    have hchange : Opcode.call.change (.int count.toUInt32.toInt32) = -(count + 1) := by
      have : count.toUInt32.toNat = count := UInt32.toNat_ofNat_of_lt' hcount
      rw [Opcode.change, Operand.count, UInt32.toUInt32_toInt32, this]
    refine put ⟨rfl, rfl, by decide⟩ (Nat.zero_le _) (Block.moves_instr ?_ ?_)
    · rw [hchange]
      omega
    · rw [hchange]
      omega
  · exact fail line _

theorem pushReceiver (policy : ReceiverPolicy) (callee : Node) :
    (Lowering.pushReceiver policy callee : Lowering σ Unit).Yields popped fit 0 0
      fun _ x => x.Moves popped 0 1 := by
  cases policy with
  | currentThis => exact instr (by decide) (by decide) rfl (Nat.zero_le _)
  | memberOnly =>
    refine table.bind fun t => ?_
    show Yields _ _ _ _ _ (if _ then _ else _)
    split
    · exact instr (by decide) (by decide) rfl (Nat.zero_le _)
    · exact instr (by decide) (by decide) rfl (Nat.zero_le _)

variable [Host σ]

theorem pushConstant (v : Constant) :
    (Lowering.pushConstant v : Lowering σ Unit).Yields popped fit 0 0
      fun _ x => x.Moves popped 0 1 := by
  cases v with
  | null => exact instr (by decide) (by decide) rfl (Nat.zero_le _)
  | int v => exact pushInt v (Int.le_refl 0)
  | float bits =>
    exact instr (show Opcode.Plain .pushFloat .float32 by decide) (by decide) rfl (Nat.zero_le _)
  | str s =>
    exact (ask _).bind fun _ => emitWord (by decide) _ (by decide) rfl (Nat.zero_le _)

theorem pushVariable (m : Mark) (name : String) :
    (Lowering.pushVariable m name : Lowering σ Unit).Yields popped fit 0 0
      fun _ x => x.Moves popped 0 1 := by
  have hsymbol {op : Opcode} (hop : op.Plain .word64) (hdelta : op.delta = 1) :
      (Lowering.emitSymbol op name : Lowering σ Unit).Yields popped fit 4 0
        fun _ x => x.Moves popped 0 1 :=
    emitSymbol hop name (by omega) (by omega) (by omega)
  refine (names (n := 1) (fun t => t.takes_resolve name) (Nat.le_refl _)).bind fun a => ?_
  have hflag : (Lowering.emitSymbol (if m.flags.contains .isMember then .getThis else .getGlobal)
      name : Lowering σ Unit).Yields popped fit 4 0 fun _ x => x.Moves popped 0 1 := by
    split
    · exact hsymbol (by decide) rfl
    · exact hsymbol (by decide) rfl
  rcases a with _ | (n | _ | _)
  · exact hflag
  · exact emitInt (by decide) _ (by decide) rfl (by decide)
  · exact hsymbol (by decide) rfl
  · exact hflag

theorem storeVariable (name : String) (isMember : Bool) (line : UInt32) :
    (Lowering.storeVariable name isMember line : Lowering σ Unit).Yields popped fit 0 0
      fun _ x => x.Moves popped 1 0 := by
  have hsymbol {op : Opcode} (hop : op.Plain .word64) (hdelta : op.delta = -1) :
      (Lowering.emitSymbol op name : Lowering σ Unit).Yields popped fit 4 0
        fun _ x => x.Moves popped 1 0 :=
    emitSymbol hop name (by omega) (by omega) (by omega)
  refine (names (n := 1) (fun t => t.takes_resolve name) (Nat.le_refl _)).bind fun a => ?_
  rcases a with _ | (n | _ | _)
  · show Yields _ _ _ _ _ (if _ then _ else _)
    split
    · exact hsymbol (by decide) rfl
    · refine (names (n := 1) (fun t => t.takes_localSlot name) (Nat.le_refl _)).bind fun a => ?_
      cases a with
      | none => exact fail line _
      | some n => exact emitInt (by decide) _ (by decide) rfl (by decide)
  · exact emitInt (by decide) _ (by decide) rfl (by decide)
  · exact hsymbol (by decide) rfl
  · show (Lowering.emitSymbol (if _ then _ else _) _).Yields _ _ _ _ _
    split
    · exact hsymbol (by decide) rfl
    · exact hsymbol (by decide) rfl

theorem store (line : UInt32) (p : Place) :
    (Lowering.store line p : Lowering σ Unit).Yields popped fit 0 0
      fun _ x => x.Moves popped (p.depth + 1) 0 := by
  rcases p with name | _ | ⟨name, isMember⟩
  · exact emitSymbol (by decide) name (Int.le_refl 0) rfl (Nat.zero_le _)
  · exact instr (by decide) (Int.le_refl 0) rfl (Nat.zero_le _)
  · exact storeVariable name isMember line

end Yields

end Lowering

end ScriptToolchain.Compile
