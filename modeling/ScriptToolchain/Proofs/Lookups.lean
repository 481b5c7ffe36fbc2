import Mathlib.Tactic
import ScriptToolchain.Proofs.Mentions
import ScriptToolchain.Proofs.Realizes

/-!
# Lowered code looks up what is mentioned

`Lowering.Mentions` judges a step of lowering by its lookups: each one finds
what the tree mentions, in the tables that are complete in the end. Tables only
grow, so that what is found at the end of a step is found from there on. The
functions that a step makes come to those that are known, each with lookups
that are right for the functions before it.
-/

namespace ScriptToolchain

/-- The two slots of a packed word are those that were packed. -/
theorem SlotPair.unpack_pack (s : SlotPair) : unpack s.pack = s := by
  obtain ⟨key, value⟩ := s
  have hkey : ((key.toUInt32 <<< 16 ||| value.toUInt32) >>> 16).toUInt16 = key := by
    apply UInt16.toBitVec_inj.mp
    ext i hi
    have hlow : i < 32 := by omega
    have hhigh : 16 + i < 32 := by omega
    simp [hlow, hhigh, BitVec.getLsbD_eq_getElem hi]
  have hvalue : (key.toUInt32 <<< 16 ||| value.toUInt32).toUInt16 = value := by
    apply UInt16.toBitVec_inj.mp
    simp
  rw [unpack, pack, hkey, hvalue]

namespace Compile

/-- Ids and slots of the program, and of a function with these slots, can be told apart. -/
structure Fits (p : Program) (slots : List String) : Prop where
  symbols : p.symbols.length ≤ UInt64.size
  strings : p.strings.length ≤ UInt64.size
  slots : slots.length ≤ UInt32.size

/-- The scope `c'` comes from `c` by adding texts and functions. -/
structure Scope.Adds (c c' : Scope ProgramBuilder) : Prop where
  symbols : c.host.symbols.Extends c'.host.symbols
  strings : c.host.strings.Extends c'.host.strings
  slots : c.names.slots.Extends c'.names.slots
  outlines : c.outlines ⊆ c'.outlines

/-- The texts of the scope are among those of the program and of the function in the end. -/
structure Scope.Listed (c : Scope ProgramBuilder) (p : Program) (slots : List String) : Prop where
  fits : Fits p slots
  symbols : c.host.symbols.toList <+: p.symbols
  strings : c.host.strings.toList <+: p.strings
  slots : c.names.slots.toList <+: slots
  outlines : ∀ l ∈ c.outlines, Fits p l.names.symbols

namespace Scope

variable {c c' c'' : Scope ProgramBuilder} {p : Program} {slots : List String}

theorem adds_refl (c : Scope ProgramBuilder) : c.Adds c :=
  ⟨Interner.extends_refl _, Interner.extends_refl _, Interner.extends_refl _, fun _ h => h⟩

theorem Adds.trans (h : c.Adds c') (h' : c'.Adds c'') : c.Adds c'' :=
  ⟨h.symbols.trans h'.symbols, h.strings.trans h'.strings, h.slots.trans h'.slots,
    fun _ hl => h'.outlines (h.outlines hl)⟩

theorem Adds.sound (h : c.Adds c') (hc : c.Sound) : c'.Sound :=
  ⟨h.symbols.sound hc.symbols, h.strings.sound hc.strings, h.slots.sound hc.slots⟩

/-- What is listed later was listed before. -/
theorem Adds.listed (h : c.Adds c') (hl : c'.Listed p slots) : c.Listed p slots where
  fits := hl.fits
  symbols := h.symbols.listed.trans hl.symbols
  strings := h.strings.listed.trans hl.strings
  slots := h.slots.listed.trans hl.slots
  outlines l hmem := hl.outlines l (h.outlines hmem)

end Scope

/-- The lookups of a block find what is mentioned, in order. -/
def Block.Resolves (p : Program) (slots : List String) (known : List (UInt64 × List Mention))
    (ms : List Mention) (b : Block) : Prop :=
  List.Forall₂ (fun m x => m.Resolved p slots known x.1 x.2) ms b.lookups

/-- Functions in the order of delivery, with what they mention; each one knows those before it. -/
inductive Delivered (p : Program) : List Outline → List (UInt64 × List Mention) → Prop where
  | nil : Delivered p [] []
  | snoc {ls known l ms} : Delivered p ls known → l.code.Resolves p l.names.symbols known ms →
    Delivered p (ls ++ [l]) (known ++ [(l.id, ms)])

variable {p : Program} {slots : List String} {known known' : List (UInt64 × List Mention)}
  {ms ns : List Mention}

namespace Block

variable {a b : Block}

theorem Resolves.mono (h : b.Resolves p slots known ms) (hknown : known ⊆ known') :
    b.Resolves p slots known' ms :=
  List.Forall₂.imp (fun _ _ hm => hm.mono hknown) h

theorem Resolves.seq (h : a.Resolves p slots known ms) (h' : b.Resolves p slots known ns) :
    (Block.seq a b).Resolves p slots known (ms ++ ns) :=
  List.rel_append h h'

end Block

namespace Delivered

variable {ls : List Outline}

theorem ids (h : Delivered p ls known) : known.map Prod.fst = ls.map (·.id) := by
  induction h with
  | nil => rfl
  | snoc _ _ ih => rw [List.map_append, List.map_append, ih]; rfl

theorem length_eq (h : Delivered p ls known) : known.length = ls.length := by
  simpa using congrArg List.length h.ids

/-- A delivered function has lookups that are right for the functions before it. -/
theorem resolves (h : Delivered p ls known) {k : Nat} {l : Outline} (hl : ls[k]? = some l)
    (hm : (known.map Prod.snd)[k]? = some ms) :
    l.code.Resolves p l.names.symbols (known.take k) ms := by
  induction h with
  | nil => cases hl
  | @snoc ls known last _ hbefore hlast ih =>
    have hlength := hbefore.length_eq
    by_cases hk : k < ls.length
    · rw [List.getElem?_append_left hk] at hl
      rw [List.map_append, List.getElem?_append_left (by simpa [hlength] using hk)] at hm
      rw [List.take_append_of_le_length (by omega)]
      exact ih hl hm
    · obtain ⟨hlt, -⟩ := List.getElem?_eq_some_iff.mp hl
      have heq : k = ls.length := by
        rw [List.length_append, List.length_singleton] at hlt
        omega
      subst heq
      rw [List.getElem?_concat_length] at hl
      rw [List.map_append, ← hlength, ← List.length_map Prod.snd, List.map_singleton,
        List.getElem?_concat_length] at hm
      obtain rfl := Option.some.inj hl
      obtain rfl := Option.some.inj hm
      rw [← hlength, List.take_left]
      exact hlast

end Delivered

/-- The code between two scopes resolves the mentions, and the functions made there are known. -/
def Scope.Resolves (p : Program) (slots : List String) (ms : List Mention) (code : Block)
    (c c' : Scope ProgramBuilder) : Prop :=
  ∀ known, Delivered p c.outlines.reverse known → ∃ new,
    Delivered p c'.outlines.reverse (known ++ new) ∧
      new.map Prod.snd = Mention.functionsAll ms ∧ code.Resolves p slots (known ++ new) ms

namespace Scope

variable {c c' c'' : Scope ProgramBuilder} {a b : Block}

theorem Resolves.seq (h : Scope.Resolves p slots ms a c c')
    (h' : Scope.Resolves p slots ns b c' c'') :
    Scope.Resolves p slots (ms ++ ns) (.seq a b) c c'' := by
  intro known hknown
  obtain ⟨new, hnew, hfunctions, ha⟩ := h known hknown
  obtain ⟨newer, hnewer, hfunctions', hb⟩ := h' _ hnew
  rw [List.append_assoc] at hnewer hb
  refine ⟨new ++ newer, hnewer, ?_, ?_⟩
  · rw [List.map_append, hfunctions, hfunctions', Mention.functionsAll_append]
  · refine (ha.mono ?_).seq hb
    rw [← List.append_assoc]
    exact List.subset_append_left ..

/-- Code with the same lookups resolves as much. -/
theorem Resolves.of_lookups (h : Scope.Resolves p slots ms a c c') (hab : b.lookups = a.lookups) :
    Scope.Resolves p slots ms b c c' := by
  intro known hknown
  obtain ⟨new, hnew, hfunctions, ha⟩ := h known hknown
  exact ⟨new, hnew, hfunctions, by rwa [Block.Resolves, hab]⟩

/-- A step that makes no function. -/
theorem resolves_of_eq (houtlines : c'.outlines = c.outlines)
    (hfunctions : Mention.functionsAll ms = [])
    (hcode : ∀ known, b.Resolves p slots known ms) : Scope.Resolves p slots ms b c c' := by
  intro known hknown
  refine ⟨[], ?_, hfunctions.symm, hcode _⟩
  rw [houtlines, List.append_nil]
  exact hknown

end Scope

namespace Lowering

variable {α β : Type} {A : Prop} {B : α → Prop}

/--
Where the step gives code, texts and functions are added at most. If `A` holds and the texts are
those in the end, the answer has `B` and the lookups of the code find the mentions.
-/
def Mentions (p : Program) (slots : List String) (A : Prop) (ms : List Mention) (B : α → Prop)
    (l : Lowering ProgramBuilder α) : Prop :=
  ∀ c a code c', l c = .ok a code c' → c.Sound →
    c.Adds c' ∧ (A → c'.Listed p slots → B a ∧ Scope.Resolves p slots ms code c c')

namespace Mentions

theorem of_eq {l : Lowering ProgramBuilder α} (h : l.Mentions p slots A ms B) (heq : ms = ns) :
    l.Mentions p slots A ns B :=
  heq ▸ h

theorem of_eq_of {l : Lowering ProgramBuilder α} (h : l.Mentions p slots A ms B)
    (heq : A → ms = ns) : l.Mentions p slots A ns B :=
  fun c a code c' hl hc =>
    ⟨(h c a code c' hl hc).1, fun ha hlisted => heq ha ▸ (h c a code c' hl hc).2 ha hlisted⟩

/-- What the answer of a step is known to be holds for the steps behind it. -/
theorem bind {l : Lowering ProgramBuilder α} {f : α → Lowering ProgramBuilder β} {C : β → Prop}
    (h : l.Mentions p slots A ms B) (hf : ∀ a, (f a).Mentions p slots (A ∧ B a) ns C) :
    (l >>= f).Mentions p slots A (ms ++ ns) C := by
  intro c b code c' hl hc
  obtain ⟨a, x, c₁, y, hfirst, hsecond, rfl⟩ := bind_eq_ok hl
  obtain ⟨hadds, hx⟩ := h c a x c₁ hfirst hc
  obtain ⟨hadds', hy⟩ := hf a c₁ b y c' hsecond (hadds.sound hc)
  refine ⟨hadds.trans hadds', fun ha hlisted => ?_⟩
  obtain ⟨hb, hresolves⟩ := hx ha (hadds'.listed hlisted)
  obtain ⟨hcb, hresolves'⟩ := hy ⟨ha, hb⟩ hlisted
  exact ⟨hcb, hresolves.seq hresolves'⟩

/-! ## Steps -/

theorem fail (line : UInt32) (f : Finding) :
    (Lowering.fail line f : Lowering ProgramBuilder α).Mentions p slots A ms B :=
  fun _ _ _ _ hl => by cases hl

/-- A step that adds neither texts nor functions, and whose code looks nothing up. -/
theorem quiet {l : Lowering ProgramBuilder α}
    (h : ∀ c a code c', l c = .ok a code c' → c'.host = c.host ∧ c'.names = c.names ∧
      c'.outlines = c.outlines ∧ code.lookups = [] ∧ (A → B a)) :
    l.Mentions p slots A [] B := by
  intro c a code c' hl _
  obtain ⟨hhost, hnames, houtlines, hcode, ha⟩ := h c a code c' hl
  refine ⟨⟨?_, ?_, ?_, ?_⟩, fun hA _ =>
    ⟨ha hA, Scope.resolves_of_eq houtlines rfl fun known => ?_⟩⟩
  · rw [hhost]
    exact Interner.extends_refl _
  · rw [hhost]
    exact Interner.extends_refl _
  · rw [hnames]
    exact Interner.extends_refl _
  · rw [houtlines]
    exact fun _ h => h
  · rw [Block.Resolves, hcode]
    exact .nil

theorem pure {a : α} (h : A → B a) :
    (Pure.pure a : Lowering ProgramBuilder α).Mentions p slots A [] B :=
  quiet fun _ _ _ _ hl => by cases hl; exact ⟨rfl, rfl, rfl, rfl, h⟩

theorem done : (Pure.pure () : Lowering ProgramBuilder Unit).Mentions p slots A [] fun _ => True :=
  pure fun _ => trivial

/-- Code that looks nothing up. -/
theorem put {b : Block} (hb : b.lookups = []) :
    (Lowering.put b : Lowering ProgramBuilder Unit).Mentions p slots A [] fun _ => True :=
  quiet fun _ _ _ _ hl => by cases hl; exact ⟨rfl, rfl, rfl, hb, fun _ => trivial⟩

theorem report (line : UInt32) (f : Finding) :
    (Lowering.report line f : Lowering ProgramBuilder Unit).Mentions p slots A [] fun _ => True :=
  quiet fun _ _ _ _ hl => by cases hl; exact ⟨rfl, rfl, rfl, rfl, fun _ => trivial⟩

theorem table :
    (Lowering.table : Lowering ProgramBuilder VariableTable).Mentions p slots A [] fun _ => True :=
  quiet fun _ _ _ _ hl => by cases hl; exact ⟨rfl, rfl, rfl, rfl, fun _ => trivial⟩

theorem markLine (line : UInt32) :
    (Lowering.markLine line : Lowering ProgramBuilder Unit).Mentions p slots A []
      fun _ => True := by
  refine quiet fun c a x c' hl => ?_
  rw [Lowering.markLine] at hl
  split at hl
  · cases hl
    exact ⟨rfl, rfl, rfl, rfl, fun _ => trivial⟩
  · cases hl
    exact ⟨rfl, rfl, rfl, rfl, fun _ => trivial⟩

theorem emit {op : Opcode} (hop : op.looksUp = false) :
    (Lowering.emit op : Lowering ProgramBuilder Unit).Mentions p slots A [] fun _ => True :=
  put (by simp [Block.lookups, hop])

/-- A lookup of slots. -/
theorem emitInt {op : Opcode} {v : UInt32} {m : Mention} (hm : m.functions = [])
    (hop : op.looksUp = true)
    (h : A → Fits p slots → ∀ known, m.Resolved p slots known op (.int v.toInt32)) :
    (Lowering.emitInt op v : Lowering ProgramBuilder Unit).Mentions p slots A [m]
      fun _ => True := by
  rintro c _ _ _ ⟨⟩ -
  refine ⟨c.adds_refl, fun ha hlisted => ⟨trivial, Scope.resolves_of_eq rfl ?_ fun known => ?_⟩⟩
  · rw [Mention.functionsAll, hm, Mention.functionsAll, List.nil_append]
  · rw [Block.Resolves, Block.lookups, if_pos hop]
    exact .cons (h ha hlisted.fits known) .nil

/-- A lookup of a symbol. -/
theorem emitSymbol {op : Opcode} {name : String} {m : Mention} (hm : m.functions = [])
    (hop : op.looksUp = true)
    (h : ∀ id known, p.symbol? id = some name → m.Resolved p slots known op (.word id)) :
    (Lowering.emitSymbol op name : Lowering ProgramBuilder Unit).Mentions p slots A [m]
      fun _ => True := by
  rintro c _ _ _ ⟨⟩ hc
  refine ⟨⟨Interner.extends_intern .., Interner.extends_refl _, Interner.extends_refl _,
    fun _ h => h⟩, fun _ hlisted => ⟨trivial, Scope.resolves_of_eq rfl ?_ fun known => ?_⟩⟩
  · rw [Mention.functionsAll, hm, Mention.functionsAll, List.nil_append]
  · have hid := getElem?_id (hc.symbols.intern_listed name) hlisted.symbols hlisted.fits.symbols
    rw [Block.Resolves, Block.lookups, Block.lookups, Block.lookups, if_pos hop]
    exact .cons (h _ known hid) .nil

/-- The field of a selected member is looked up by the name of the identifier. -/
theorem getField {name : String} {member : Node} (h : A → member.identifier? = some name) :
    (Lowering.emitSymbol .getDot name : Lowering ProgramBuilder Unit).Mentions p slots A
      (member.selected .getField) fun _ => True := by
  have hname : (Lowering.emitSymbol .getDot name : Lowering ProgramBuilder Unit).Mentions p slots A
      [.getField name] fun _ => True :=
    emitSymbol rfl rfl fun _ _ hid => .getDot hid
  exact hname.of_eq_of fun hA => (Node.selected_eq (h hA) _).symm

theorem setField {name : String} {member : Node} (h : A → member.identifier? = some name) :
    (Lowering.emitSymbol .setDot name : Lowering ProgramBuilder Unit).Mentions p slots A
      (member.selected .setField) fun _ => True := by
  have hname : (Lowering.emitSymbol .setDot name : Lowering ProgramBuilder Unit).Mentions p slots A
      [.setField name] fun _ => True :=
    emitSymbol rfl rfl fun _ _ hid => .setDot hid
  exact hname.of_eq_of fun hA => (Node.selected_eq (h hA) _).symm

/-- Work on the variables that adds slots at most. -/
theorem names {f : VariableTable → α × VariableTable}
    (hf : ∀ t : VariableTable, t.slots.Extends (f t).2.slots)
    (hB : A → Fits p slots → ∀ t : VariableTable, t.slots.Sound →
      (f t).2.slots.toList <+: slots → B (f t).1) :
    (Lowering.names f : Lowering ProgramBuilder α).Mentions p slots A [] B := by
  rintro c _ _ _ ⟨⟩ hc
  refine ⟨⟨Interner.extends_refl _, Interner.extends_refl _, hf _, fun _ h => h⟩,
    fun hA hlisted => ⟨hB hA hlisted.fits _ hc.slots hlisted.slots,
      Scope.resolves_of_eq rfl rfl fun _ => .nil⟩⟩

/-! ## Variables -/

/-- A slot where the name is listed is found by its number. -/
theorem getElem?_slot {n : Nat} {name : String} (hn : slots[n]? = some name)
    (hfits : Fits p slots) : slots[n.toUInt32.toInt32.toUInt32.toNat]? = some name := by
  have hlt := (List.getElem?_eq_some_iff.mp hn).1
  rw [UInt32.toUInt32_toInt32, UInt32.toNat_ofNat_of_lt' (Nat.lt_of_lt_of_le hlt hfits.slots), hn]

/-- Where a variable is found in a slot, the slot is the one of the name. -/
theorem resolve (name : String) :
    (Lowering.names (·.resolve name) : Lowering ProgramBuilder (Option Storage)).Mentions p slots
      A [] fun a => ∀ n, a = some (.slot n) → slots[n]? = some name := by
  refine names (fun t => t.extends_resolve name) fun _ _ t ht hslots n hn => ?_
  obtain ⟨rest, rfl⟩ := hslots
  have hlisted := VariableTable.resolve_listed ht (Prod.ext hn rfl)
  rw [List.getElem?_append_left (List.getElem?_eq_some_iff.mp hlisted).1, hlisted]

theorem localSlot (name : String) :
    (Lowering.names (·.localSlot name) : Lowering ProgramBuilder (Option Nat)).Mentions p slots
      A [] fun a => ∀ n, a = some n → slots[n]? = some name := by
  refine names (fun t => t.extends_localSlot name) fun _ _ t ht hslots n hn => ?_
  obtain ⟨rest, rfl⟩ := hslots
  have hlisted := VariableTable.localSlot_listed ht (Prod.ext hn rfl)
  rw [List.getElem?_append_left (List.getElem?_eq_some_iff.mp hlisted).1, hlisted]

/-- A variable is looked up by its name, wherever it is found. -/
theorem pushVariable (m : Mark) (name : String) :
    (Lowering.pushVariable m name : Lowering ProgramBuilder Unit).Mentions p slots A [.load name]
      fun _ => True := by
  have hthis {A : Prop} : (Lowering.emitSymbol .getThis name : Lowering ProgramBuilder
      Unit).Mentions p slots A [.load name] fun _ => True :=
    emitSymbol rfl rfl fun _ _ hid => .getThis hid
  have hflag {A : Prop} : (Lowering.emitSymbol (if m.flags.contains .isMember then .getThis
      else .getGlobal) name : Lowering ProgramBuilder Unit).Mentions p slots A [.load name]
        fun _ => True := by
    split
    · exact hthis
    · exact emitSymbol rfl rfl fun _ _ hid => .getGlobal hid
  refine (resolve name).bind fun a => ?_
  rcases a with _ | (n | _ | _)
  · exact hflag
  · exact emitInt rfl rfl fun hn hfits _ => .getLocal (getElem?_slot (hn.2 n rfl) hfits)
  · exact hthis
  · exact hflag

theorem storeVariable (name : String) (isMember : Bool) (line : UInt32) :
    (Lowering.storeVariable name isMember line : Lowering ProgramBuilder Unit).Mentions p slots A
      [.store name] fun _ => True := by
  have hthis {A : Prop} : (Lowering.emitSymbol .setThis name : Lowering ProgramBuilder
      Unit).Mentions p slots A [.store name] fun _ => True :=
    emitSymbol rfl rfl fun _ _ hid => .setThis hid
  refine (resolve name).bind fun a => ?_
  rcases a with _ | (n | _ | _)
  · show Mentions _ _ _ _ _ (if _ then _ else _)
    split
    · exact hthis
    · refine (localSlot name).bind fun a => ?_
      cases a with
      | none => exact fail line _
      | some n =>
        exact emitInt rfl rfl fun hn hfits _ => .setLocal (getElem?_slot (hn.2 n rfl) hfits)
  · exact emitInt rfl rfl fun hn hfits _ => .setLocal (getElem?_slot (hn.2 n rfl) hfits)
  · exact hthis
  · show Mentions _ _ _ _ _ (Lowering.emitSymbol (if _ then _ else _) _)
    split
    · exact hthis
    · exact emitSymbol rfl rfl fun _ _ hid => .setGlobal hid

/-- The slot of a variable of `foreach` is the one of its name. -/
theorem foreachSlot (name : String) (line : UInt32) :
    (Lowering.foreachSlot name line : Lowering ProgramBuilder UInt16).Mentions p slots A []
      fun k => slots[k.toNat]? = some name := by
  refine (localSlot name).bind fun a => ?_
  cases a with
  | none => exact fail line _
  | some n =>
    show Mentions _ _ _ _ _ (if _ then _ else _)
    split
    · rename_i hlt
      refine pure fun hn => ?_
      rw [UInt16.toNat_ofNat_of_lt' hlt]
      exact hn.2 n rfl
    · exact fail line _

/-- The variables of a `foreach` are looked up in one instruction. -/
theorem advance {key value : String} {k v : UInt16}
    (h : A → slots[k.toNat]? = some key ∧ slots[v.toNat]? = some value) :
    (Lowering.emitInt .foreach (SlotPair.pack { key := k, value := v }) :
      Lowering ProgramBuilder Unit).Mentions p slots A [.advance key value] fun _ => True := by
  refine emitInt rfl rfl fun hA _ _ => .foreach ?_ ?_
  · rw [UInt32.toUInt32_toInt32, SlotPair.unpack_pack]
    exact (h hA).1
  · rw [UInt32.toUInt32_toInt32, SlotPair.unpack_pack]
    exact (h hA).2

/-! ## Parts of nodes -/

theorem pushInt (v : Int32) :
    (Lowering.pushInt v : Lowering ProgramBuilder Unit).Mentions p slots A [] fun _ => True := by
  rw [Lowering.pushInt, Emitter.intPush]
  split_ifs
  · exact put rfl
  · exact put rfl
  · exact put rfl

/-- What a constant mentions: its text, if it has one. -/
theorem pushConstant (m : Mark) (v : Constant) :
    (Lowering.pushConstant v : Lowering ProgramBuilder Unit).Mentions p slots A
      (Node.mentions (.constant m v)) fun _ => True := by
  cases v with
  | null => exact put rfl
  | int v => exact pushInt v
  | float bits => exact put rfl
  | str text =>
    rintro c _ _ _ ⟨⟩ hc
    refine ⟨⟨Interner.extends_refl _, Interner.extends_intern .., Interner.extends_refl _,
      fun _ h => h⟩, fun _ hlisted => ⟨trivial, Scope.resolves_of_eq rfl rfl fun known => ?_⟩⟩
    have hid := getElem?_id (hc.strings.intern_listed text) hlisted.strings hlisted.fits.strings
    exact .cons (.pushString hid) .nil

theorem pushReceiver (policy : ReceiverPolicy) (callee : Node) :
    (Lowering.pushReceiver policy callee : Lowering ProgramBuilder Unit).Mentions p slots A []
      fun _ => True := by
  cases policy with
  | currentThis => exact emit rfl
  | memberOnly =>
    refine table.bind fun t => ?_
    show Mentions _ _ _ _ _ (if _ then _ else _)
    split
    · exact emit rfl
    · exact emit rfl

theorem emitCall (count : Nat) (line : UInt32) :
    (Lowering.emitCall count line : Lowering ProgramBuilder Unit).Mentions p slots A []
      fun _ => True := by
  rw [Lowering.emitCall]
  split
  · exact put rfl
  · exact fail line _

theorem declare (m : Mark) (storage : StorageClass) (name : String) :
    (Lowering.declare m storage name : Lowering ProgramBuilder Unit).Mentions p slots A []
      fun _ => True := by
  have hnames : (Lowering.names (·.declare name storage) : Lowering ProgramBuilder
      Declared).Mentions p slots A [] fun _ => True :=
    names (fun t => t.extends_declare name storage) fun _ _ _ _ _ => trivial
  refine hnames.bind fun d => ?_
  cases d with
  | conflict kept requested => exact report m.line _
  | _ => exact done

theorem declareParameters (line : UInt32) (params : List Node) :
    (Lowering.declareParameters line params : Lowering ProgramBuilder Unit).Mentions p slots A []
      fun _ => True := by
  induction params generalizing A with
  | nil => exact done
  | cons n rest ih =>
    cases n with
    | parameter m name =>
      have hnames : (Lowering.names (·.declareParameter name) : Lowering ProgramBuilder
          (Option Nat)).Mentions p slots A [] fun _ => True :=
        names (fun t => t.extends_declareParameter name) fun _ _ _ _ _ => trivial
      refine hnames.bind fun a => ?_
      cases a with
      | none => exact fail _ _
      | some _ => exact ih
    | _ => exact fail _ _

/-- The name of a selected member is the one that is mentioned. -/
theorem memberName (line : UInt32) (member : Node) :
    (Lowering.memberName line member : Lowering ProgramBuilder String).Mentions p slots A []
      fun name => member.identifier? = some name := by
  rw [Lowering.memberName]
  split
  · rename_i name hname
    exact pure fun _ => hname
  · exact fail line _

theorem jump (inLoop : Bool) (j : Jump) (line : UInt32) :
    (Lowering.jump inLoop j line : Lowering ProgramBuilder Unit).Mentions p slots A []
      fun _ => True := by
  rw [Lowering.jump]
  split
  · exact put rfl
  · exact fail line _

theorem asStatement {l : Lowering ProgramBuilder Unit} (role : Role) (line : UInt32)
    (h : l.Mentions p slots A ms fun _ => True) :
    (Lowering.asStatement role line l).Mentions p slots A ms fun _ => True := by
  cases role with
  | statement => exact h
  | value name => exact fail line _

theorem asValue {l : Option String → Lowering ProgramBuilder Unit} (role : Role) (m : Mark)
    (h : ∀ {A : Prop} name, (l name).Mentions p slots A ms fun _ => True) :
    (Lowering.asValue role m l).Mentions p slots A ms fun _ => True := by
  cases role with
  | value name => exact (markLine m.line).bind fun _ => h name
  | statement =>
    have hpop {A : Prop} : (if m.flags.contains .popResult then Lowering.emit .pop
        else Pure.pure () : Lowering ProgramBuilder Unit).Mentions p slots A []
          fun _ => True := by
      split
      · exact emit rfl
      · exact done
    exact (markLine m.line).bind fun _ => ((h none).bind fun _ => hpop).of_eq (List.append_nil ms)

/-! ## Branches -/

variable {l k : Lowering ProgramBuilder Unit}

theorem skip {op : Opcode} (h : l.Mentions p slots A ms fun _ => True) :
    (Lowering.skip op l).Mentions p slots A ms fun _ => True := by
  intro c a code c' hl hc
  obtain ⟨b, hbody, rfl⟩ := skip_eq_ok hl
  obtain ⟨hadds, hx⟩ := h c () b c' hbody hc
  exact ⟨hadds, fun hA hlisted => ⟨trivial, (hx hA hlisted).2.of_lookups rfl⟩⟩

/-- Two pieces of code that are kept for one block. -/
theorem capture_both {shape : Block → Block → Block}
    (h : l.Mentions p slots A ms fun _ => True) (hk : k.Mentions p slots A ns fun _ => True)
    (hshape : ∀ a b, (shape a b).lookups = a.lookups ++ b.lookups) :
    (do
      let a ← captured l
      Lowering.put (shape a (← captured k)) : Lowering ProgramBuilder Unit).Mentions p slots A
      (ms ++ ns) fun _ => True := by
  intro c a code c' hl hc
  obtain ⟨b, d, c₁, hfirst, hsecond, rfl⟩ := capture_both_eq_ok hl
  obtain ⟨hadds, hx⟩ := h c () b c₁ hfirst hc
  obtain ⟨hadds', hy⟩ := hk c₁ () d c' hsecond (hadds.sound hc)
  refine ⟨hadds.trans hadds', fun hA hlisted => ⟨trivial, ?_⟩⟩
  exact ((hx hA (hadds'.listed hlisted)).2.seq (hy hA hlisted).2).of_lookups (hshape b d)

theorem either (h : l.Mentions p slots A ms fun _ => True)
    (hk : k.Mentions p slots A ns fun _ => True) :
    (Lowering.either l k).Mentions p slots A (ms ++ ns) fun _ => True :=
  capture_both h hk fun _ _ => rfl

theorem loop (back : Opcode) (resume : Resume) (h : l.Mentions p slots A ms fun _ => True)
    (hk : k.Mentions p slots A ns fun _ => True) :
    (Lowering.loop l k back resume).Mentions p slots A (ms ++ ns) fun _ => True :=
  capture_both h hk fun _ _ => rfl

theorem tested (h : l.Mentions p slots A ms fun _ => True)
    (hk : ∀ {A : Prop}, k.Mentions p slots A ns fun _ => True) :
    (Lowering.tested l k).Mentions p slots A (ms ++ ns) fun _ => True :=
  h.bind fun _ => (put rfl).bind fun _ => hk

/-! ## Functions -/

/--
A function literal is known behind the functions of its body, with what its body mentions in the
slots of its own.
-/
theorem function (name : Option String)
    (h : ∀ slots, l.Mentions p slots True ms fun _ => True) :
    (Lowering.function name l).Mentions p slots A [.function ms] fun _ => True := by
  intro c a code c' hl hc
  obtain ⟨body, c₁, hbody, rfl, rfl⟩ := function_eq_ok hl
  have hstart : ({ c with host := (Host.functionId c.host).2, names := {}, line := 0 } :
      Scope ProgramBuilder).Sound := ⟨hc.symbols, hc.strings, Interner.sound_empty⟩
  obtain ⟨hadds, hinner⟩ := h c₁.names.symbols _ _ _ _ hbody hstart
  refine ⟨⟨hadds.symbols, hadds.strings, Interner.extends_refl _,
    fun _ hmem => List.mem_cons_of_mem _ (hadds.outlines hmem)⟩, fun _ hlisted => ?_⟩
  refine ⟨trivial, fun known hknown => ?_⟩
  -- the slots of the body are the names that its own table has in the end
  have hwithin : c₁.Listed p c₁.names.symbols :=
    ⟨hlisted.outlines _ (List.mem_cons_self ..), hlisted.symbols, hlisted.strings,
      List.prefix_rfl, fun _ hmem => hlisted.outlines _ (List.mem_cons_of_mem _ hmem)⟩
  obtain ⟨new, hnew, hfunctions, hcode⟩ := (hinner trivial hwithin).2 known hknown
  refine ⟨new ++ [((Host.functionId c.host).1, ms)], ?_, ?_, ?_⟩
  · rw [List.reverse_cons, ← List.append_assoc]
    exact hnew.snoc hcode
  · rw [List.map_append, hfunctions]
    exact (List.append_nil _).symm
  · refine .cons (.pushFunction ?_) .nil
    simp

end Mentions

end Lowering

end Compile

end ScriptToolchain
