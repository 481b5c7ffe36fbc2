import ScriptToolchain.Proofs.Interning
import ScriptToolchain.Proofs.Lowering
import ScriptToolchain.Proofs.Meaning

/-!
# What lowered code means

`Lowering.Realizes` judges a step of lowering by what its code does and by what
becomes of the table of variables. The ids in the code mean something only in
the program that is complete in the end, so that the judgement is about a scope
whose texts are among those of the program; texts are only ever added.
-/

namespace ScriptToolchain

namespace VariableTable

variable {t t' : VariableTable} {name : String} {n : Nat}

theorem extends_takeSlot (t : VariableTable) (name : String) :
    t.slots.Extends (t.takeSlot name).2.slots :=
  t.slots.extends_intern name

theorem takeSlot_listed (h : t.slots.Sound) (name : String) :
    (t.takeSlot name).2.slots.toList[(t.takeSlot name).1]? = some name :=
  h.intern_listed name

theorem extends_declareParameter (t : VariableTable) (name : String) :
    t.slots.Extends (t.declareParameter name).2.slots := by
  rw [declareParameter]
  split
  · exact t.slots.extends_refl
  · exact ({ t with classes := t.classes.insert name .local, params := t.params + 1 }
      ).extends_takeSlot name

theorem extends_declare (t : VariableTable) (name : String) (storage : StorageClass) :
    t.slots.Extends (t.declare name storage).2.slots := by
  rw [declare]
  split <;> exact t.slots.extends_refl

theorem extends_resolve (t : VariableTable) (name : String) :
    t.slots.Extends (t.resolve name).2.slots := by
  rw [resolve]
  split
  · exact t.slots.extends_refl
  · exact t.extends_takeSlot name
  · exact t.slots.extends_refl
  · exact t.slots.extends_refl

theorem extends_localSlot (t : VariableTable) (name : String) :
    t.slots.Extends (t.localSlot name).2.slots := by
  rw [localSlot]
  split
  · exact t.extends_takeSlot name
  · exact t.slots.extends_refl
  · exact ({ t with classes := t.classes.insert name .local }).extends_takeSlot name

/-- A variable is listed at its slot. -/
theorem resolve_listed (h : t.slots.Sound) (hn : t.resolve name = (some (.slot n), t')) :
    t'.slots.toList[n]? = some name := by
  rw [resolve] at hn
  split at hn
  · cases hn
  · cases hn
    exact takeSlot_listed h name
  · cases hn
  · cases hn

theorem localSlot_listed (h : t.slots.Sound) (hn : t.localSlot name = (some n, t')) :
    t'.slots.toList[n]? = some name := by
  rw [localSlot] at hn
  split at hn
  · cases hn
    exact takeSlot_listed h name
  · cases hn
  · cases hn
    exact takeSlot_listed h name

/-- The slot of a variable is one of those of the table. -/
theorem resolve_lt (h : t.slots.Sound) (hn : t.resolve name = (some (.slot n), t')) :
    n < t'.slots.size := by
  have hextends := t.extends_resolve name
  rw [hn] at hextends
  exact (hextends.sound h).lt_size (resolve_listed h hn)

theorem localSlot_lt (h : t.slots.Sound) (hn : t.localSlot name = (some n, t')) :
    n < t'.slots.size := by
  have hextends := t.extends_localSlot name
  rw [hn] at hextends
  exact (hextends.sound h).lt_size (localSlot_listed h hn)

end VariableTable

/-- A slot that fits is the one that the instruction names. -/
theorem Machine.slot?_int {n : Nat} (h : n < UInt32.size) :
    Machine.slot? (.int n.toUInt32.toInt32) = some (.slot n) := by
  rw [Machine.slot?, UInt32.toUInt32_toInt32, UInt32.toNat_ofNat_of_lt' h]

namespace Compile

/-- The texts of a scope have their numbers. -/
structure Scope.Sound (c : Scope ProgramBuilder) : Prop where
  symbols : c.host.symbols.Sound
  strings : c.host.strings.Sound
  slots : c.names.slots.Sound

/-- The scope `c'` comes from `c` by adding texts; `code` pays for symbols and strings. -/
structure Scope.Extends (c : Scope ProgramBuilder) (code : Block) (c' : Scope ProgramBuilder) :
    Prop where
  symbols : c.host.symbols.Extends c'.host.symbols
  symbolCount : c'.host.symbols.size ≤ c.host.symbols.size + code.weight
  strings : c.host.strings.Extends c'.host.strings
  stringCount : c'.host.strings.size ≤ c.host.strings.size + code.weight
  slots : c.names.slots.Extends c'.names.slots
  outlines : c'.outlines = c.outlines

/-- The texts of the scope are those of the program so far, and all numbers fit. -/
structure Scope.Within (c : Scope ProgramBuilder) (p : Program) : Prop where
  symbols : c.host.symbols.toList <+: p.symbols
  strings : c.host.strings.toList <+: p.strings
  symbolIds : p.symbols.length ≤ UInt64.size
  stringIds : p.strings.length ≤ UInt64.size
  slots : c.names.slots.size ≤ UInt32.size

namespace Scope

variable {c c' c'' : Scope ProgramBuilder} {a b : Block} {p : Program}

theorem Extends.sound (h : c.Extends a c') (hc : c.Sound) : c'.Sound :=
  ⟨h.symbols.sound hc.symbols, h.strings.sound hc.strings, h.slots.sound hc.slots⟩

theorem extends_of_eq (code : Block) (hhost : c'.host = c.host) (hnames : c'.names = c.names)
    (houtlines : c'.outlines = c.outlines) : c.Extends code c' := by
  refine ⟨?_, ?_, ?_, ?_, ?_, houtlines⟩
  · rw [hhost]
    exact Interner.extends_refl _
  · rw [hhost]
    exact Nat.le_add_right ..
  · rw [hhost]
    exact Interner.extends_refl _
  · rw [hhost]
    exact Nat.le_add_right ..
  · rw [hnames]
    exact Interner.extends_refl _

theorem Extends.seq (h : c.Extends a c') (h' : c'.Extends b c'') : c.Extends (.seq a b) c'' where
  symbols := h.symbols.trans h'.symbols
  symbolCount := by
    have := h.symbolCount
    have := h'.symbolCount
    rw [Block.weight_seq]
    omega
  strings := h.strings.trans h'.strings
  stringCount := by
    have := h.stringCount
    have := h'.stringCount
    rw [Block.weight_seq]
    omega
  slots := h.slots.trans h'.slots
  outlines := h'.outlines.trans h.outlines

/-- A larger piece of code pays for as much. -/
theorem Extends.pay (h : c.Extends a c') (hweight : a.weight ≤ b.weight) : c.Extends b c' where
  symbols := h.symbols
  symbolCount := Nat.le_trans h.symbolCount (Nat.add_le_add_left hweight _)
  strings := h.strings
  stringCount := Nat.le_trans h.stringCount (Nat.add_le_add_left hweight _)
  slots := h.slots
  outlines := h.outlines

/-- What is within the program later was within it before. -/
theorem Extends.within (h : c.Extends a c') (hc : c.Sound) (hw : c'.Within p) : c.Within p where
  symbols := h.symbols.listed.trans hw.symbols
  strings := h.strings.listed.trans hw.strings
  symbolIds := hw.symbolIds
  stringIds := hw.stringIds
  slots := Nat.le_trans (h.slots.size_le hc.slots) hw.slots

end Scope

/-- The number of a text, as an id, leads back to the text. -/
theorem getElem?_id {l l' : List String} {i : Nat} {s : String} (hi : l[i]? = some s)
    (hl : l <+: l') (hlt : l'.length ≤ UInt64.size) : l'[i.toUInt64.toNat]? = some s := by
  obtain ⟨rest, rfl⟩ := hl
  have hlen := (List.getElem?_eq_some_iff.mp hi).1
  rw [List.length_append] at hlt
  rw [UInt64.toNat_ofNat_of_lt' (by omega), List.getElem?_append_left hlen, hi]

namespace Lowering

variable {α β : Type} {p : Program}

/--
Where the step gives code, texts are added at most, and within the program the names before and
behind the step, its answer and its code are related.
-/
def Realizes (p : Program) (E : VariableTable → α → Block → VariableTable → Prop)
    (l : Lowering ProgramBuilder α) : Prop :=
  ∀ c a code c', l c = .ok a code c' → c.Sound →
    c.Extends code c' ∧ (c'.Within p → E c.names a code c'.names)

namespace Realizes

theorem mono {l : Lowering ProgramBuilder α} {E F : VariableTable → α → Block → VariableTable → Prop}
    (h : l.Realizes p E) (hE : ∀ t a code t', E t a code t' → F t a code t') :
    l.Realizes p F :=
  fun c a code c' hl hc =>
    ⟨(h c a code c' hl hc).1, fun hw => hE _ _ _ _ ((h c a code c' hl hc).2 hw)⟩

theorem bind {l : Lowering ProgramBuilder α} {f : α → Lowering ProgramBuilder β}
    {E : VariableTable → α → Block → VariableTable → Prop}
    {G : α → VariableTable → β → Block → VariableTable → Prop} (h : l.Realizes p E)
    (hf : ∀ a, (f a).Realizes p (G a)) :
    (l >>= f).Realizes p fun t b code t' =>
      ∃ a u x y, code = .seq x y ∧ E t a x u ∧ G a u b y t' := by
  intro c b code c' hl hc
  obtain ⟨a, x, c₁, y, hfirst, hsecond, rfl⟩ := bind_eq_ok hl
  obtain ⟨hext, hx⟩ := h c a x c₁ hfirst hc
  have hsound := hext.sound hc
  obtain ⟨hext', hy⟩ := hf a c₁ b y c' hsecond hsound
  exact ⟨hext.seq hext', fun hw => ⟨a, c₁.names, x, y, rfl, hx (hext'.within hsound hw), hy hw⟩⟩

/-! ## Steps -/

theorem fail {E : VariableTable → α → Block → VariableTable → Prop} (line : UInt32) (f : Finding) :
    (Lowering.fail line f : Lowering ProgramBuilder α).Realizes p E :=
  fun _ _ _ _ hl => by cases hl

/-- A step that changes neither texts nor variables. -/
theorem of_eq {l : Lowering ProgramBuilder α} {code : Block} {a : α}
    (hl : ∀ c, l c = .ok a code c) : l.Realizes p fun t b x t' => b = a ∧ x = code ∧ t' = t := by
  intro c b x c' h _
  rw [hl] at h
  cases h
  exact ⟨Scope.extends_of_eq _ rfl rfl rfl, fun _ => ⟨rfl, rfl, rfl⟩⟩

theorem pure (a : α) : (Pure.pure a : Lowering ProgramBuilder α).Realizes p
    fun t b x t' => b = a ∧ x = .empty ∧ t' = t :=
  of_eq fun _ => rfl

theorem put (b : Block) : (Lowering.put b : Lowering ProgramBuilder Unit).Realizes p
    fun t _ x t' => x = b ∧ t' = t :=
  (of_eq fun _ => rfl).mono fun _ _ _ _ h => h.2

theorem report (line : UInt32) (f : Finding) :
    (Lowering.report line f : Lowering ProgramBuilder Unit).Realizes p
      fun t _ x t' => x = .empty ∧ t' = t := by
  rintro c _ _ _ ⟨⟩ -
  exact ⟨Scope.extends_of_eq _ rfl rfl rfl, fun _ => ⟨rfl, rfl⟩⟩

theorem markLine (line : UInt32) :
    (Lowering.markLine line : Lowering ProgramBuilder Unit).Realizes p
      fun t _ x t' => x.Same .empty ∧ t' = t := by
  intro c a x c' hl _
  rw [Lowering.markLine] at hl
  split at hl
  · cases hl
    exact ⟨Scope.extends_of_eq _ rfl rfl rfl, fun _ => ⟨Block.same_mark line, rfl⟩⟩
  · cases hl
    exact ⟨Scope.extends_of_eq _ rfl rfl rfl, fun _ => ⟨Block.Same.refl _, rfl⟩⟩

/-- Work on the variables that adds slots at most. -/
theorem names {f : VariableTable → α × VariableTable}
    (hf : ∀ t : VariableTable, t.slots.Extends (f t).2.slots) :
    (Lowering.names f : Lowering ProgramBuilder α).Realizes p fun t a x t' =>
      x = .empty ∧ f t = (a, t') ∧ t.slots.Sound ∧ t'.slots.size ≤ UInt32.size := by
  rintro c _ _ _ ⟨⟩ hc
  exact ⟨⟨Interner.extends_refl _, Nat.le_add_right .., Interner.extends_refl _,
    Nat.le_add_right .., hf _, rfl⟩, fun hw => ⟨rfl, rfl, hc.slots, hw.slots⟩⟩

/-- The id of a symbol leads to it in the program. -/
theorem emitSymbol (op : Opcode) (name : String) :
    (Lowering.emitSymbol op name : Lowering ProgramBuilder Unit).Realizes p fun t _ x t' =>
      t' = t ∧ ∃ v, x.Same (.instr op v) ∧ Machine.symbol? p v = some name := by
  rintro c _ _ _ ⟨⟩ hc
  refine ⟨⟨Interner.extends_intern .., ?_, Interner.extends_refl _, Nat.le_add_right ..,
    Interner.extends_refl _, rfl⟩, fun hw => ⟨rfl, _,
      (Block.Same.refl _).empty_seq (.refl _), ?_⟩⟩
  · refine Nat.le_trans (Interner.size_intern_le ..) (Nat.add_le_add_left ?_ _)
    show 1 ≤ 0 + (Opcode.tagSize + OperandKind.word64.size)
    decide
  · exact getElem?_id (hc.symbols.intern_listed name) hw.symbols hw.symbolIds

theorem emitInt (op : Opcode) (v : UInt32) :
    (Lowering.emitInt op v : Lowering ProgramBuilder Unit).Realizes p
      fun t _ x t' => x = .instr op (.int v.toInt32) ∧ t' = t :=
  put _

end Realizes

/-! ## Expressions and commands -/

/-- The code computes the expression that goes with the variables before it. -/
def Means (p : Program) (m : VariableTable → Option (Exp × VariableTable)) :
    VariableTable → Unit → Block → VariableTable → Prop := fun t _ x t' =>
  ∃ e, m t = some (e, t') ∧ ∀ {V S : Type} (D : Domain V S), x.Computes p D e

/-- The code performs the command that goes with the variables before it. -/
def Does (p : Program) (m : VariableTable → Option (Cmd × VariableTable)) :
    VariableTable → Unit → Block → VariableTable → Prop := fun t _ x t' =>
  ∃ c, m t = some (c, t') ∧ ∀ {V S : Type} (D : Domain V S), x.Performs p D c

/-- The code pops into the variable that goes with the variables before it. -/
def Saves (p : Program) (m : VariableTable → Option (Variable × VariableTable)) :
    VariableTable → Unit → Block → VariableTable → Prop := fun t _ x t' =>
  ∃ z op v, m t = some (z, t') ∧ x.Same (.instr op v) ∧
    ∀ {V S : Type} (D : Domain V S) stack s,
      Machine.act p D op v stack s = Machine.pop (D.save z) s stack

namespace Realizes

theorem pushInt (v : Int32) : (Lowering.pushInt v : Lowering ProgramBuilder Unit).Realizes p
    (Means p fun t => some (.constant (.int v), t)) := by
  have hpush {op : Opcode} {x : Operand} (hact : ∀ {V S : Type} (D : Domain V S) stack s,
      Machine.act p D op x stack s = Machine.pushValue (D.constant (.int v)) stack s) :
      (Lowering.put (.instr op x) : Lowering ProgramBuilder Unit).Realizes p
        (Means p fun t => some (.constant (.int v), t)) := by
    refine (put _).mono ?_
    rintro t _ _ _ ⟨rfl, rfl⟩
    exact ⟨_, rfl, fun D => Block.computes_instr (hact D)⟩
  rw [Lowering.pushInt, Emitter.intPush]
  split_ifs with h0 h1
  · subst h0
    exact hpush fun _ _ _ => rfl
  · subst h1
    exact hpush fun _ _ _ => rfl
  · exact hpush fun _ _ _ => rfl

theorem pushConstant (v : Constant) :
    (Lowering.pushConstant v : Lowering ProgramBuilder Unit).Realizes p
      (Means p fun t => some (.constant v, t)) := by
  cases v with
  | null =>
    refine (put _).mono ?_
    rintro t _ _ _ ⟨rfl, rfl⟩
    exact ⟨_, rfl, fun D => Block.computes_instr fun _ _ => rfl⟩
  | int v => exact pushInt v
  | float bits =>
    refine (put _).mono ?_
    rintro t _ _ _ ⟨rfl, rfl⟩
    exact ⟨_, rfl, fun D => Block.computes_instr fun _ _ => rfl⟩
  | str text =>
    rintro c _ _ _ ⟨⟩ hc
    refine ⟨⟨Interner.extends_refl _, Nat.le_add_right .., Interner.extends_intern .., ?_,
      Interner.extends_refl _, rfl⟩, fun hw => ⟨_, rfl, fun D => ?_⟩⟩
    · refine Nat.le_trans (Interner.size_intern_le ..) (Nat.add_le_add_left ?_ _)
      show 1 ≤ 0 + (Opcode.tagSize + OperandKind.word64.size)
      decide
    · have hid := getElem?_id (hc.strings.intern_listed text) hw.strings hw.stringIds
      refine ((Block.Same.refl _).empty_seq (.refl _)).computes (Block.computes_instr ?_)
      intro stack s
      simp only [Machine.act, Machine.string?]
      rw [show p.string? (Host.stringId text c.host).1 = some text from hid]
      rfl

/-- A read of a variable by its symbol. -/
theorem pushSymbol {op : Opcode} {name : String} {z : Variable}
    (hact : ∀ {V S : Type} (D : Domain V S) v stack s, Machine.symbol? p v = some name →
      Machine.act p D op v stack s = Machine.push (D.load z) stack s) :
    (Lowering.emitSymbol op name : Lowering ProgramBuilder Unit).Realizes p
      (Means p fun t => some (.variable z, t)) := by
  refine (emitSymbol op name).mono ?_
  rintro t _ x _ ⟨rfl, v, hx, hv⟩
  exact ⟨_, rfl, fun D => hx.computes (Block.computes_instr fun stack s => hact D v stack s hv)⟩

/-- A read of a global, or of a member where the flag is set. -/
theorem pushFlagged (m : Mark) (name : String) :
    (Lowering.emitSymbol (if m.flags.contains .isMember then .getThis else .getGlobal) name :
      Lowering ProgramBuilder Unit).Realizes p (Means p fun t =>
        some (.variable (if m.flags.contains .isMember then .member name else .global name), t)) := by
  split
  · exact pushSymbol fun D v stack s hv => by simp only [Machine.act, hv]; rfl
  · exact pushSymbol fun D v stack s hv => by simp only [Machine.act, hv]; rfl

/-- The variable that is read where a name is found. -/
def found (isMember : Bool) (name : String) : Option Storage → Variable
  | some (.slot n) => .slot n
  | some .member => .member name
  | _ => if isMember then .member name else .global name

/-- A variable is read where the table of variables says. -/
theorem pushVariable (m : Mark) (name : String) :
    (Lowering.pushVariable m name : Lowering ProgramBuilder Unit).Realizes p (Means p fun t =>
      some (.variable (t.read (m.flags.contains .isMember) name).1,
        (t.read (m.flags.contains .isMember) name).2)) := by
  let Reads (a : Option Storage) (t : VariableTable) (_ : Unit) (x : Block) (t' : VariableTable) :
      Prop :=
    t' = t ∧ ((∀ n, a = some (.slot n) → n < UInt32.size) → ∀ {V S : Type} (D : Domain V S),
      x.Computes p D (.variable (found (m.flags.contains .isMember) name a)))
  refine ((names fun t => t.extends_resolve name).bind (G := Reads) fun a => ?_).mono ?_
  · have hmeans {l : Lowering ProgramBuilder Unit} {z : Variable}
        (h : l.Realizes p (Means p fun t => some (.variable z, t))) :
        l.Realizes p fun t _ x t' => t' = t ∧ ((∀ n, a = some (.slot n) → n < UInt32.size) →
          ∀ {V S : Type} (D : Domain V S), x.Computes p D (.variable z)) := by
      refine h.mono ?_
      rintro t _ x t' ⟨e, he, hx⟩
      cases he
      exact ⟨rfl, fun _ => hx⟩
    rcases a with _ | (n | _ | _)
    · exact hmeans (pushFlagged m name)
    · refine (emitInt .getLocal n.toUInt32).mono ?_
      rintro t _ _ _ ⟨rfl, rfl⟩
      refine ⟨rfl, fun hn _ _ D => Block.computes_instr fun stack s => ?_⟩
      simp only [Machine.act, Machine.slot?_int (hn n rfl)]
      rfl
    · exact hmeans (pushSymbol fun D v stack s hv => by simp only [Machine.act, hv]; rfl)
    · exact hmeans (pushFlagged m name)
  · rintro t _ _ t' ⟨a, _, x, y, rfl, ⟨rfl, hres, hsound, hsize⟩, rfl, hy⟩
    have hfound : t.read (m.flags.contains .isMember) name =
        (found (m.flags.contains .isMember) name a, t') := by
      rw [VariableTable.read, hres]
      rcases a with _ | (n | _ | _) <;> rfl
    refine ⟨.variable (found (m.flags.contains .isMember) name a), by simp only [hfound],
      fun D => ?_⟩
    refine ((Block.Same.refl _).empty_seq (.refl y)).computes (hy ?_ D)
    rintro n rfl
    exact Nat.lt_of_lt_of_le (VariableTable.resolve_lt hsound hres) hsize

/-- A write of a variable by its symbol. -/
theorem saveSymbol {op : Opcode} {name : String} {z : Variable}
    (hact : ∀ {V S : Type} (D : Domain V S) v stack s, Machine.symbol? p v = some name →
      Machine.act p D op v stack s = Machine.pop (D.save z) s stack) :
    (Lowering.emitSymbol op name : Lowering ProgramBuilder Unit).Realizes p
      (Saves p fun t => some (z, t)) := by
  refine (emitSymbol op name).mono ?_
  rintro t _ x _ ⟨rfl, v, hx, hv⟩
  exact ⟨z, op, v, rfl, hx, fun D stack s => hact D v stack s hv⟩

theorem setThis (name : String) :
    (Lowering.emitSymbol .setThis name : Lowering ProgramBuilder Unit).Realizes p
      (Saves p fun t => some (.member name, t)) :=
  saveSymbol fun D v stack s hv => by simp only [Machine.act, hv]; rfl

/-- A write of a slot, if it fits. -/
theorem setLocal (n : Nat) :
    (Lowering.emitInt .setLocal n.toUInt32 : Lowering ProgramBuilder Unit).Realizes p
      fun t a x t' => t' = t ∧
        (n < UInt32.size → Saves p (fun t => some (.slot n, t)) t a x t') := by
  refine (emitInt .setLocal n.toUInt32).mono ?_
  rintro t _ _ _ ⟨rfl, rfl⟩
  refine ⟨rfl, fun hn => ⟨.slot n, _, _, rfl, .refl _, fun D stack s => ?_⟩⟩
  simp only [Machine.act, Machine.slot?_int hn]
  rfl

/-- A variable is written where the table of variables says. -/
theorem storeVariable (name : String) (isMember : Bool) (line : UInt32) :
    (Lowering.storeVariable name isMember line : Lowering ProgramBuilder Unit).Realizes p
      (Saves p (·.write? isMember name)) := by
  -- what stands behind the question where the variable is found
  let Rest (a : Option Storage) (u : VariableTable) (b : Unit) (y : Block) (t' : VariableTable) :
      Prop :=
    ∀ t : VariableTable, t.resolve name = (a, u) → t.slots.Sound → u.slots.size ≤ UInt32.size →
      Saves p (·.write? isMember name) t b y t'
  have hsave {a : Option Storage} {z : Variable} {l : Lowering ProgramBuilder Unit}
      (hl : l.Realizes p (Saves p fun t => some (z, t)))
      (hwrite : ∀ t u : VariableTable, t.resolve name = (a, u) →
        t.write? isMember name = some (z, u)) : l.Realizes p (Rest a) := by
    refine hl.mono ?_
    rintro u _ y _ ⟨_, op, v, ⟨⟩, hy, hact⟩ t hres _ _
    exact ⟨z, op, v, hwrite t u hres, hy, hact⟩
  refine ((names fun t => t.extends_resolve name).bind (G := Rest) fun a => ?_).mono ?_
  · rcases a with _ | (n | _ | _)
    · cases isMember with
      | true => exact hsave (setThis name) fun t u h => by simp only [VariableTable.write?, h]; rfl
      | false =>
        -- what stands behind the question for a slot
        let Kept (a : Option Nat) (t : VariableTable) (b : Unit) (x : Block) (t' : VariableTable) :
            Prop :=
          ∃ n, a = some n ∧ t' = t ∧
            (n < UInt32.size → Saves p (fun t => some (.slot n, t)) t b x t')
        refine ((names fun t => t.extends_localSlot name).bind (G := Kept) fun a => ?_).mono ?_
        · cases a with
          | none => exact fail line _
          | some n => exact (setLocal n).mono fun _ _ _ _ h => ⟨n, rfl, h⟩
        rintro u _ _ t' ⟨_, _, _, y, rfl, ⟨rfl, hslot, hsound, hsize⟩, n, rfl, rfl, hy⟩ t hres _ _
        obtain ⟨_, op, v, ⟨⟩, hsame, hact⟩ :=
          hy (Nat.lt_of_lt_of_le (VariableTable.localSlot_lt hsound hslot) hsize)
        refine ⟨.slot n, op, v, ?_, (Block.Same.refl _).empty_seq hsame, hact⟩
        simp only [VariableTable.write?, hres, hslot]
        rfl
    · refine (setLocal n).mono ?_
      rintro u _ y _ ⟨rfl, hy⟩ t hres hsound hsize
      obtain ⟨_, op, v, ⟨⟩, hsame, hact⟩ :=
        hy (Nat.lt_of_lt_of_le (VariableTable.resolve_lt hsound hres) hsize)
      exact ⟨.slot n, op, v, by simp only [VariableTable.write?, hres], hsame, hact⟩
    · exact hsave (setThis name) fun t u h => by simp only [VariableTable.write?, h]
    · cases isMember with
      | true => exact hsave (setThis name) fun t u h => by simp only [VariableTable.write?, h]; rfl
      | false =>
        have hglobal : (Lowering.emitSymbol .setGlobal name : Lowering ProgramBuilder Unit).Realizes
            p (Saves p fun t => some (.global name, t)) :=
          saveSymbol fun D v stack s hv => by simp only [Machine.act, hv]; rfl
        exact hsave hglobal fun t u h => by simp only [VariableTable.write?, h]; rfl
  · rintro t _ _ t' ⟨a, u, x, y, rfl, ⟨rfl, hres, hsound, hsize⟩, hy⟩
    obtain ⟨z, op, v, hwrite, hsame, hact⟩ := hy t hres hsound hsize
    exact ⟨z, op, v, hwrite, (Block.Same.refl _).empty_seq hsame, hact⟩

/-! ## Branches -/

variable {l : Lowering ProgramBuilder Unit} {E F : VariableTable → Unit → Block → VariableTable → Prop}

theorem skip {op : Opcode} (h : l.Realizes p E) :
    (Lowering.skip op l).Realizes p fun t _ x t' =>
      ∃ y, x.Same (.skip op y) ∧ E t () y t' := by
  intro c a code c' hl hc
  obtain ⟨b, hbody, rfl⟩ := skip_eq_ok hl
  obtain ⟨hext, hx⟩ := h c () b c' hbody hc
  refine ⟨hext.pay ?_, fun hw => ⟨b, (Block.Same.refl _).empty_seq (.refl _), hx hw⟩⟩
  rw [Block.weight_seq, Block.weight_skip]
  omega

/-- Two pieces of code that are kept for one block. -/
theorem capture_both {k : Lowering ProgramBuilder Unit} {shape : Block → Block → Block}
    (h : l.Realizes p E) (hk : k.Realizes p F)
    (hweight : ∀ a b, a.weight + b.weight ≤ (shape a b).weight) :
    (do
      let a ← captured l
      Lowering.put (shape a (← captured k)) : Lowering ProgramBuilder Unit).Realizes p
      fun t _ x t' => ∃ y z u, x.Same (shape y z) ∧ E t () y u ∧ F u () z t' := by
  intro c a code c' hl hc
  obtain ⟨b, d, c₁, hfirst, hsecond, rfl⟩ := capture_both_eq_ok hl
  obtain ⟨hext, hx⟩ := h c () b c₁ hfirst hc
  have hsound := hext.sound hc
  obtain ⟨hext', hy⟩ := hk c₁ () d c' hsecond hsound
  refine ⟨(hext.seq hext').pay ?_, fun hw => ⟨b, d, c₁.names, ?_,
    hx (hext'.within hsound hw), hy hw⟩⟩
  · have := hweight b d
    simp only [Block.weight_seq]
    omega
  · exact (Block.Same.refl _).empty_seq ((Block.Same.refl _).empty_seq (.refl _))

theorem either {no : Lowering ProgramBuilder Unit} (h : l.Realizes p E) (hno : no.Realizes p F) :
    (Lowering.either l no).Realizes p fun t _ x t' =>
      ∃ y z u, x.Same (.either y z) ∧ E t () y u ∧ F u () z t' :=
  capture_both h hno fun a b => by
    rw [Block.weight_either]
    omega

theorem loop {tail : Lowering ProgramBuilder Unit} (back : Opcode) (resume : Resume)
    (h : l.Realizes p E) (htail : tail.Realizes p F) :
    (Lowering.loop l tail back resume).Realizes p fun t _ x t' =>
      ∃ y z u, x.Same (.loop y z back resume) ∧ E t () y u ∧ F u () z t' :=
  capture_both h htail fun a b => by
    rw [Block.weight_loop]
    omega

end Realizes

end Lowering

end Compile

end ScriptToolchain
