import ScriptToolchain.Proofs.Grammar
import ScriptToolchain.Proofs.Lookups
import ScriptToolchain.Proofs.Uses
import ScriptToolchain.Proofs.Walks

/-!
# Lowered code touches what is used

An instruction that reads or writes a variable names its place: a slot, or a
symbol by its id. `Lowering.Touches` judges a step of lowering by the uses of
the tree: the table of variables goes through them, and the places that the code
names are those that the uses touch, one by one. Symbols keep their ids, so that
a place that is named at the end of a step is named alike from there on.
-/

namespace ScriptToolchain

/-- The place of a variable as an instruction names it. -/
inductive Cell where
  | slot (n : UInt32)
  | member (symbol : UInt64)
  | global (symbol : UInt64)
deriving Repr, DecidableEq

/-- How the place of a variable is named, where the names in it have ids. -/
def Variable.cell? (symbols : Interner) : Variable → Option Cell
  | .slot n => some (.slot n.toUInt32)
  | .member name => (symbols.position? name).map fun i => .member i.toUInt64
  | .global name => (symbols.position? name).map fun i => .global i.toUInt64

namespace Access

/-- What an instruction does with the places that it names. -/
def of? : Opcode → Operand → Option (Access Cell)
  | .getLocal, .int v => some (.get (.slot v.toUInt32))
  | .setLocal, .int v => some (.set (.slot v.toUInt32))
  | .getThis, .word id => some (.get (.member id))
  | .setThis, .word id => some (.set (.member id))
  | .getGlobal, .word id => some (.get (.global id))
  | .setGlobal, .word id => some (.set (.global id))
  | .foreach, .int v =>
    let slots := SlotPair.unpack v.toUInt32
    some (.advance (.slot slots.key.toUInt32) (.slot slots.value.toUInt32))
  | .pushThis, .none => some (.push true)
  | .pushNull, .none => some (.push false)
  | _, _ => none

theorem of?_of_isBranch {op : Opcode} (h : op.isBranch = true) (x : Operand) : of? op x = none := by
  cases op <;> cases x <;> first | rfl | cases h

theorem of?_foreach (v : Int32) :
    of? .foreach (.int v) =
      some (.advance (.slot (SlotPair.unpack v.toUInt32).key.toUInt32)
        (.slot (SlotPair.unpack v.toUInt32).value.toUInt32)) :=
  rfl

/-- An access of variables is an access of the places that name them. -/
inductive Shown (symbols : Interner) : Access Variable → Access Cell → Prop where
  | get {v c} (h : v.cell? symbols = some c) : Shown symbols (.get v) (.get c)
  | set {v c} (h : v.cell? symbols = some c) : Shown symbols (.set v) (.set c)
  | advance {k v c d} (hkey : k.cell? symbols = some c) (hvalue : v.cell? symbols = some d) :
    Shown symbols (.advance k v) (.advance c d)
  | push {this} : Shown symbols (.push this) (.push this)

namespace Shown

variable {symbols : Interner} {v w : Variable} {c d : Cell}

theorem cell_of_get (h : Shown symbols (.get v) (.get c)) : v.cell? symbols = some c := by
  cases h with
  | get h => exact h

theorem cell_of_set (h : Shown symbols (.set v) (.set c)) : v.cell? symbols = some c := by
  cases h with
  | set h => exact h

theorem cells_of_advance (h : Shown symbols (.advance v w) (.advance c d)) :
    v.cell? symbols = some c ∧ w.cell? symbols = some d := by
  cases h with
  | advance hkey hvalue => exact ⟨hkey, hvalue⟩

theorem eq_of_push {this this' : Bool} (h : Shown symbols (.push this) (.push this')) :
    this = this' := by
  cases h
  rfl

end Shown

end Access

/-- Texts keep their numbers. -/
def Interner.Numbers (t t' : Interner) : Prop :=
  ∀ ⦃s i⦄, t.position? s = some i → t'.position? s = some i

theorem Interner.numbers_intern (t : Interner) (s : String) : t.Numbers (t.intern s).2 := by
  intro u i h
  rw [position?_intern]
  split
  case isTrue heq => rw [intern, ← heq, h]
  case isFalse => exact h

variable {symbols symbols' : Interner}

theorem Variable.cell?_member {name : String} {i : Nat} (h : symbols.position? name = some i) :
    (Variable.member name).cell? symbols = some (.member i.toUInt64) := by
  rw [cell?, h]
  rfl

theorem Variable.cell?_global {name : String} {i : Nat} (h : symbols.position? name = some i) :
    (Variable.global name).cell? symbols = some (.global i.toUInt64) := by
  rw [cell?, h]
  rfl

theorem Variable.cell?_mono (h : symbols.Numbers symbols') {v : Variable} {c : Cell}
    (hc : v.cell? symbols = some c) : v.cell? symbols' = some c := by
  cases v with
  | slot n => exact hc
  | member name | global name =>
    obtain ⟨i, hi, rfl⟩ := Option.map_eq_some_iff.mp hc
    rw [cell?, h hi]
    rfl

theorem Access.Shown.mono (h : symbols.Numbers symbols') {a : Access Variable} {b : Access Cell}
    (hab : a.Shown symbols b) : a.Shown symbols' b := by
  cases hab with
  | get hc => exact .get (Variable.cell?_mono h hc)
  | set hc => exact .set (Variable.cell?_mono h hc)
  | advance hkey hvalue =>
    exact .advance (Variable.cell?_mono h hkey) (Variable.cell?_mono h hvalue)
  | push => exact .push

namespace Compile

/-! ## Operations of blocks -/

namespace Block

/-- The operations of a block that are no branches, in the order of the code. -/
def operations : Block → List (Opcode × Operand)
  | .empty | .mark _ | .jump .. => []
  | .instr op x => [(op, x)]
  | .seq a b | .either a b | .loop a b .. => a.operations ++ b.operations
  | .skip _ body => body.operations

theorem operations_shown (b : Block) (debug : Bool) :
    (b.shown debug).operations = b.operations := by
  have hunmark (b : Block) : b.unmark.operations = b.operations := by
    induction b with
    | empty | instr | mark | jump => rfl
    | seq a b iha ihb => rw [unmark, operations, iha, ihb, operations]
    | skip op body ih => rw [unmark, operations, ih, operations]
    | either yes no ihy ihn => rw [unmark, operations, ihy, ihn, operations]
    | loop body tail back resume ihb iht => rw [unmark, operations, ihb, iht, operations]
  cases debug with
  | true => rfl
  | false => exact hunmark b

/-- What is read off instructions, but not off branches and marks, is read off the operations. -/
theorem filterMap_place {α : Type} {f : Opcode → Operand → Option α}
    (hbranch : ∀ op x, op.isBranch = true → f op x = none) (hline : f .line .none = none)
    {b : Block} (h : b.WellFormed) (start exit next : Nat) :
    (b.place start exit next).filterMap (fun i => f i.opcode i.operand) =
      b.operations.filterMap fun o => f o.1 o.2 := by
  have hgoto {op : Opcode} (hop : op.isBranch = true) (start target : Nat)
      (rest : List Instruction) :
      (goto start op target :: rest).filterMap (fun i => f i.opcode i.operand) =
        rest.filterMap fun i => f i.opcode i.operand :=
    List.filterMap_cons_none (hbranch op _ hop)
  induction b generalizing start exit next with
  | empty => rfl
  | mark => exact List.filterMap_cons_none hline
  | instr op x => rfl
  | seq a b iha ihb =>
    rw [place, List.filterMap_append, iha h.1, ihb h.2, operations, List.filterMap_append]
  | skip op body ih => rw [place, hgoto h.1, ih h.2, operations]
  | either yes no ihy ihn =>
    rw [place, hgoto rfl, List.filterMap_append, hgoto rfl, ihy h.1, ihn h.2, operations,
      List.filterMap_append]
  | loop body tail back resume ihb iht =>
    rw [place, List.filterMap_append, List.filterMap_append, hgoto h.1, List.filterMap_nil,
      List.append_nil, ihb h.2.1, iht h.2.2, operations, List.filterMap_append]
  | jump op j =>
    cases j with
    | breakLoop => exact hgoto h _ _ []
    | continueLoop => exact hgoto h _ _ []

/-- What the code of a block does with places, in order. -/
def accesses (b : Block) : List (Access Cell) :=
  b.operations.filterMap fun o => Access.of? o.1 o.2

theorem accesses_seq (a b : Block) : (seq a b).accesses = a.accesses ++ b.accesses :=
  List.filterMap_append

theorem accesses_instr {op : Opcode} {x : Operand} {a : Access Cell}
    (h : Access.of? op x = some a) : (instr op x).accesses = [a] :=
  List.filterMap_cons_some h

end Block

/-! ## Scopes -/

/-- The state of a host that collects a program. -/
abbrev Builder := Watched ProgramBuilder

/-- The uses of a tree in the code between two scopes. -/
structure Scope.Touches (policy : ReceiverPolicy) (us : List Use) (code : Block)
    (c c' : Scope Builder) : Prop where
  names : c'.names = Use.after c.names us
  numbers : c.host.host.symbols.Numbers c'.host.host.symbols
  accesses : List.Forall₂ (Access.Shown c'.host.host.symbols)
    (Use.touches policy c.names us) code.accesses

variable {policy : ReceiverPolicy}

namespace Scope.Touches

variable {us vs : List Use} {a b : Block} {c c' c'' : Scope Builder}

theorem seq (h : Scope.Touches policy us a c c') (h' : Scope.Touches policy vs b c' c'') :
    Scope.Touches policy (us ++ vs) (.seq a b) c c'' where
  names := by rw [h'.names, h.names, Use.after_append]
  numbers _ _ hi := h'.numbers (h.numbers hi)
  accesses := by
    rw [Use.touches_append, Block.accesses_seq]
    -- what the first part names has the same ids behind the second one
    refine List.rel_append (h.accesses.imp fun _ _ ha => ha.mono h'.numbers) ?_
    rw [← h.names]
    exact h'.accesses

theorem of_accesses (h : Scope.Touches policy us a c c') (hab : b.accesses = a.accesses) :
    Scope.Touches policy us b c c' where
  names := h.names
  numbers := h.numbers
  accesses := by
    rw [hab]
    exact h.accesses

end Scope.Touches

namespace Lowering

variable {α β : Type} {P : VariableTable → Prop} {us vs : List Use}

/-- Where the step gives code from a table with `P`, its code has these uses. -/
def Touches (policy : ReceiverPolicy) (P : VariableTable → Prop) (us : List Use)
    (l : Lowering Builder α) : Prop :=
  ∀ c a code c', l c = .ok a code c' → P c.names → Scope.Touches policy us code c c'

/-- Any table. -/
def Any : VariableTable → Prop := fun _ => True

/-- The step leaves the names alone, and its code does this with places. -/
def Shows (as : List (Access Variable)) (l : Lowering Builder α) : Prop :=
  ∀ c a code c', l c = .ok a code c' → c'.names = c.names ∧
    c.host.host.symbols.Numbers c'.host.host.symbols ∧
    List.Forall₂ (Access.Shown c'.host.host.symbols) as code.accesses

namespace Shows

theorem put {b : Block} (hb : b.accesses = []) :
    (Lowering.put b : Lowering Builder Unit).Shows [] := by
  rintro c a code c' ⟨⟩
  exact ⟨rfl, fun _ _ h => h, by rw [hb]; exact .nil⟩

theorem pure (a : α) : (Pure.pure a : Lowering Builder α).Shows [] := by
  rintro c a code c' ⟨⟩
  exact ⟨rfl, fun _ _ h => h, .nil⟩

theorem report (line : UInt32) (f : Finding) :
    (Lowering.report line f : Lowering Builder Unit).Shows [] := by
  rintro c a code c' ⟨⟩
  exact ⟨rfl, fun _ _ h => h, .nil⟩

theorem markLine (line : UInt32) : (Lowering.markLine line : Lowering Builder Unit).Shows [] := by
  intro c a code c' hl
  rw [Lowering.markLine] at hl
  split at hl
  · cases hl
    exact ⟨rfl, fun _ _ h => h, .nil⟩
  · cases hl
    exact ⟨rfl, fun _ _ h => h, .nil⟩

/-- The operation does nothing with places. -/
theorem emit {op : Opcode} (h : Access.of? op .none = none) :
    (Lowering.emit op : Lowering Builder Unit).Shows [] :=
  put (List.filterMap_cons_none h)

theorem push {op : Opcode} {this : Bool} (h : Access.of? op .none = some (.push this)) :
    (Lowering.emit op : Lowering Builder Unit).Shows [.push this] := by
  rintro c a code c' ⟨⟩
  refine ⟨rfl, fun _ _ h => h, ?_⟩
  rw [Block.accesses_instr h]
  exact .cons .push .nil

/-- The operation does something with slots. -/
theorem emitInt {op : Opcode} {v : UInt32} {a : Access Variable} {b : Access Cell}
    (h : Access.of? op (.int v.toInt32) = some b) (hab : ∀ symbols, a.Shown symbols b) :
    (Lowering.emitInt op v : Lowering Builder Unit).Shows [a] := by
  rintro c _ code c' ⟨⟩
  refine ⟨rfl, fun _ _ h => h, ?_⟩
  rw [Block.accesses_instr h]
  exact .cons (hab _) .nil

/-- The operation does something with the member or the global of a name. -/
theorem emitSymbol {op : Opcode} {name : String} {as : List (Access Variable)}
    (h : ∀ (symbols : Interner) i, symbols.position? name = some i →
      List.Forall₂ (Access.Shown symbols) as (Access.of? op (.word i.toUInt64)).toList) :
    (Lowering.emitSymbol op name : Lowering Builder Unit).Shows as := by
  rintro c a code c' ⟨⟩
  refine ⟨rfl, Interner.numbers_intern _ name, ?_⟩
  have hself := (c.host.host.symbols.position?_intern name name).trans (if_pos rfl)
  exact h _ _ hself

/-! ### Places of variables -/

theorem getLocal (n : Nat) :
    (Lowering.emitInt .getLocal n.toUInt32 : Lowering Builder Unit).Shows [.get (.slot n)] :=
  emitInt rfl fun _ => .get (by simp only [Variable.cell?, UInt32.toUInt32_toInt32])

theorem setLocal (n : Nat) :
    (Lowering.emitInt .setLocal n.toUInt32 : Lowering Builder Unit).Shows [.set (.slot n)] :=
  emitInt rfl fun _ => .set (by simp only [Variable.cell?, UInt32.toUInt32_toInt32])

theorem getThis (name : String) :
    (Lowering.emitSymbol .getThis name : Lowering Builder Unit).Shows [.get (.member name)] :=
  emitSymbol fun _ _ hi => .cons (.get (Variable.cell?_member hi)) .nil

theorem setThis (name : String) :
    (Lowering.emitSymbol .setThis name : Lowering Builder Unit).Shows [.set (.member name)] :=
  emitSymbol fun _ _ hi => .cons (.set (Variable.cell?_member hi)) .nil

theorem getFlagged (flagged : Bool) (name : String) :
    (Lowering.emitSymbol (if flagged then .getThis else .getGlobal) name :
      Lowering Builder Unit).Shows [.get (if flagged then .member name else .global name)] := by
  cases flagged with
  | true => exact getThis name
  | false => exact emitSymbol fun _ _ hi => .cons (.get (Variable.cell?_global hi)) .nil

theorem setFlagged (flagged : Bool) (name : String) :
    (Lowering.emitSymbol (if flagged then .setThis else .setGlobal) name :
      Lowering Builder Unit).Shows [.set (if flagged then .member name else .global name)] := by
  cases flagged with
  | true => exact setThis name
  | false => exact emitSymbol fun _ _ hi => .cons (.set (Variable.cell?_global hi)) .nil

end Shows

namespace Touches

variable {l k : Lowering Builder Unit}

theorem of_eq {l : Lowering Builder α} (h : l.Touches policy P us) (heq : us = vs) :
    l.Touches policy P vs :=
  heq ▸ h

theorem any {l : Lowering Builder α} (h : l.Touches policy Any us) : l.Touches policy P us :=
  fun c a code c' hl _ => h c a code c' hl trivial

theorem of_eq_of {l : Lowering Builder α} (h : l.Touches policy P us)
    (heq : ∀ t, P t → us = vs) : l.Touches policy P vs :=
  fun c a code c' hl hP => heq c.names hP ▸ h c a code c' hl hP

/-- What is known behind a step holds for the steps behind it. -/
theorem bind_from {Q : α → VariableTable → Prop} {l : Lowering Builder α}
    {f : α → Lowering Builder β} (h : l.Touches policy P us)
    (hQ : ∀ {c a code c'}, l c = .ok a code c' → P c.names → Q a c'.names)
    (hf : ∀ a, (f a).Touches policy (Q a) vs) : (l >>= f).Touches policy P (us ++ vs) := by
  intro c b code c' hl hP
  obtain ⟨a, x, c₁, y, hfirst, hsecond, rfl⟩ := bind_eq_ok hl
  exact (h c a x c₁ hfirst hP).seq (hf a c₁ b y c' hsecond (hQ hfirst hP))

theorem bind {l : Lowering Builder α} {f : α → Lowering Builder β} (h : l.Touches policy P us)
    (hf : ∀ a, (f a).Touches policy Any vs) : (l >>= f).Touches policy P (us ++ vs) :=
  h.bind_from (fun _ _ => trivial) hf

/-- What is known of names stays known. -/
theorem bind_keeps {l : Lowering Builder α} {f : α → Lowering Builder β}
    (hkeeps : ∀ {t t' : VariableTable}, t.Keeps t' → P t → P t') (h : l.Touches policy P us)
    (hf : ∀ a, (f a).Touches policy P vs) : (l >>= f).Touches policy P (us ++ vs) := by
  refine h.bind_from (Q := fun _ => P) (fun hl hP => ?_) hf
  rw [(h _ _ _ _ hl hP).names]
  exact hkeeps (Use.keeps_after _ us) hP

/-- A step behind which nothing is used. -/
theorem done {l : Lowering Builder α} {f : α → Lowering Builder β} (h : l.Touches policy P us)
    (hf : ∀ a, (f a).Touches policy Any []) : (l >>= f).Touches policy P us :=
  (h.bind hf).of_eq (List.append_nil us)

theorem fail (line : UInt32) (f : Finding) :
    (Lowering.fail line f : Lowering Builder α).Touches policy P us :=
  fun _ _ _ _ hl => by cases hl

/-- A step whose code does what a use touches that asks for nothing. -/
theorem shows {l : Lowering Builder α} {u : Use} (hrequests : u.requests = [])
    (h : ∀ t, l.Shows (u.touch policy t)) : l.Touches policy P [u] := by
  intro c a code c' hl _
  obtain ⟨hnames, hnumbers, haccesses⟩ := h c.names c a code c' hl
  have hnext : u.next c.names = c.names := by
    rw [Use.next, hrequests]
    rfl
  refine ⟨hnames.trans hnext.symm, hnumbers, ?_⟩
  rw [Use.touches, hnext, Use.touches, List.append_nil]
  exact haccesses

/-- A step that uses nothing. -/
theorem quiet {l : Lowering Builder α} (h : l.Shows []) : l.Touches policy P [] := by
  intro c a code c' hl _
  obtain ⟨hnames, hnumbers, haccesses⟩ := h c a code c' hl
  exact ⟨hnames, hnumbers, haccesses⟩

theorem pure (a : α) : (Pure.pure a : Lowering Builder α).Touches policy P [] :=
  quiet (Shows.pure a)

theorem emit {op : Opcode} (h : Access.of? op .none = none) :
    (Lowering.emit op : Lowering Builder Unit).Touches policy P [] :=
  quiet (Shows.emit h)

theorem markLine (line : UInt32) :
    (Lowering.markLine line : Lowering Builder Unit).Touches policy P [] :=
  quiet (Shows.markLine line)

theorem pushInt (v : Int32) : (Lowering.pushInt v : Lowering Builder Unit).Touches policy P [] := by
  have hpush : (Block.instr (Emitter.intPush v).1 (Emitter.intPush v).2).accesses = [] := by
    rw [Emitter.intPush]
    split
    · rfl
    · split <;> rfl
  exact quiet (Shows.put hpush)

/-- The operation names a symbol, but no variable. -/
theorem emitSymbol {op : Opcode} {name : String} (h : ∀ id, Access.of? op (.word id) = none) :
    (Lowering.emitSymbol op name : Lowering Builder Unit).Touches policy P [] :=
  quiet (Shows.emitSymbol fun _ i _ => by rw [h]; exact .nil)

/-- The table is asked, and the code depends on the answer. -/
theorem names_run {f : VariableTable → α × VariableTable} {g : α → Lowering Builder β}
    {as : List (Access Variable)} {c c' : Scope Builder} {b : β} {code : Block}
    (hl : (Lowering.names f >>= g) c = .ok b code c') (h : (g (f c.names).1).Shows as) :
    c'.names = (f c.names).2 ∧ c.host.host.symbols.Numbers c'.host.host.symbols ∧
      List.Forall₂ (Access.Shown c'.host.host.symbols) as code.accesses := by
  obtain ⟨_, _, _, y, ⟨⟩, hsecond, rfl⟩ := bind_eq_ok hl
  exact h _ b y c' hsecond

/-- A use asks the table, and the code depends on the answer. -/
theorem names {f : VariableTable → α × VariableTable} {g : α → Lowering Builder β} {u : Use}
    (hnext : ∀ t, (f t).2 = u.next t) (h : ∀ t, (g (f t).1).Shows (u.touch policy (u.next t))) :
    (Lowering.names f >>= g).Touches policy P [u] := by
  intro c b code c' hl _
  obtain ⟨hnames, hnumbers, haccesses⟩ := names_run hl (h c.names)
  refine ⟨hnames.trans (hnext c.names), hnumbers, ?_⟩
  rw [Use.touches, Use.touches, List.append_nil]
  exact haccesses

/-! ## Variables -/

/-- A variable that was resolved is read from its place. -/
theorem pushVariable (m : Mark) (name : String) :
    (Lowering.pushVariable m name : Lowering Builder Unit).Touches policy P
      [.load (m.flags.contains .isMember) name] := by
  refine names (fun _ => rfl) fun t => ?_
  show Shows [.get ((t.resolve name).2.variable (m.flags.contains .isMember) name)] _
  rcases h : t.class? name with _ | (_ | _ | _)
  · simp only [VariableTable.resolve, h, VariableTable.variable]
    exact Shows.getFlagged _ name
  · simp only [VariableTable.resolve, h, VariableTable.variable_takeSlot h]
    exact Shows.getLocal _
  · simp only [VariableTable.resolve, h, VariableTable.variable]
    exact Shows.getThis name
  · simp only [VariableTable.resolve, h, VariableTable.variable]
    exact Shows.getFlagged _ name

/-- A variable is written where it would be read from then on. -/
theorem storeVariable (name : String) (flagged : Bool) (line : UInt32) :
    (Lowering.storeVariable name flagged line : Lowering Builder Unit).Touches policy P
      [.store flagged name] := by
  cases flagged with
  | true =>
    refine names (fun _ => rfl) fun t => ?_
    show Shows [.set ((t.resolve name).2.variable true name)] _
    rcases h : t.class? name with _ | (_ | _ | _)
    · simp only [VariableTable.resolve, h, VariableTable.variable]
      exact Shows.setThis name
    · simp only [VariableTable.resolve, h, VariableTable.variable_takeSlot h]
      exact Shows.setLocal _
    · simp only [VariableTable.resolve, h, VariableTable.variable]
      exact Shows.setThis name
    · simp only [VariableTable.resolve, h, VariableTable.variable]
      exact Shows.setFlagged true name
  | false =>
    intro c a code c' hl _
    have answer (hrun : c'.names = Use.next c.names (.store false name) ∧
        c.host.host.symbols.Numbers c'.host.host.symbols ∧
        List.Forall₂ (Access.Shown c'.host.host.symbols)
          [.set ((Use.next c.names (.store false name)).variable false name)] code.accesses) :
        Scope.Touches policy [.store false name] code c c' :=
      ⟨hrun.1, hrun.2.1, hrun.2.2⟩
    refine answer ?_
    cases h : c.names.class? name with
    | none =>
      -- the name becomes local
      have hnext : Use.next c.names (.store false name) = (c.names.localSlot name).2 := by
        show ((c.names.resolve name).2.localSlot name).2 = _
        simp only [VariableTable.resolve, h]
      obtain ⟨_, _, _, y, ⟨⟩, hsecond, rfl⟩ := bind_eq_ok hl
      simp only [VariableTable.resolve, h] at hsecond
      rw [hnext]
      refine names_run hsecond ?_
      have hlocal : (c.names.tell name .local 0).class? name = some .local := by
        rw [VariableTable.class?_tell, if_pos rfl]
      simp only [VariableTable.localSlot, h]
      show Shows [.set (((c.names.tell name .local 0).takeSlot name).2.variable false name)] _
      rw [VariableTable.variable_takeSlot hlocal]
      exact Shows.setLocal _
    | some storage =>
      -- the name is placed once it is resolved, so that asking for a slot changes nothing
      have hnext : Use.next c.names (.store false name) = (c.names.resolve name).2 :=
        (VariableTable.placed_resolve h).localSlot_eq
      rw [hnext]
      refine names_run hl ?_
      cases storage with
      | «local» =>
        simp only [VariableTable.resolve, h, VariableTable.variable_takeSlot h]
        exact Shows.setLocal _
      | member =>
        simp only [VariableTable.resolve, h, VariableTable.variable]
        exact Shows.setThis name
      | global =>
        simp only [VariableTable.resolve, h, VariableTable.variable]
        exact Shows.setFlagged false name

theorem store (line : UInt32) (p : Place) :
    (Lowering.store line p : Lowering Builder Unit).Touches policy P
      (match p with
        | .variable name flagged => [.store flagged name]
        | _ => []) := by
  match p with
  | .field name => exact emitSymbol fun _ => rfl
  | .element => exact emit rfl
  | .variable name flagged => exact storeVariable name flagged line

/-- A use that touches no place asks the table. -/
theorem ask {f : VariableTable → α × VariableTable} {u : Use} (hnext : ∀ t, (f t).2 = u.next t)
    (htouch : ∀ t, u.touch policy t = []) :
    (Lowering.names f : Lowering Builder α).Touches policy P [u] := by
  rintro c _ code c' ⟨⟩ -
  refine ⟨hnext c.names, fun _ _ h => h, ?_⟩
  rw [Use.touches, Use.touches, htouch]
  exact .nil

theorem declare (m : Mark) (storage : StorageClass) (name : String) :
    (Lowering.declare m storage name : Lowering Builder Unit).Touches policy P
      [.declare storage name] := by
  refine (ask (f := (·.declare name storage)) (u := .declare storage name) (fun _ => rfl)
    fun _ => rfl).done fun a => ?_
  cases a with
  | conflict kept requested => exact quiet (Shows.report m.line _)
  | _ => exact pure ()

theorem foreachSlot (name : String) (line : UInt32) :
    (Lowering.foreachSlot name line : Lowering Builder UInt16).Touches policy P [.hold name] := by
  refine (ask (f := (·.localSlot name)) (u := .hold name) (fun _ => rfl)
    fun _ => rfl).done fun a => ?_
  cases a with
  | none => exact fail line _
  | some n =>
    show Touches _ _ _ (if _ then _ else _)
    split
    · exact pure _
    · exact fail line _

/-- The slot that a `foreach` was given for the name. -/
def Held (name : String) (slot : UInt16) (t : VariableTable) : Prop :=
  t.class? name = some .local ∧ t.slots.position? name = some slot.toNat

theorem Held.keeps {name : String} {slot : UInt16} {t t' : VariableTable} (h : Held name slot t)
    (hkeeps : t.Keeps t') : Held name slot t' :=
  ⟨hkeeps.classes h.1, hkeeps.slots h.2⟩

theorem keeps_foreachSlot {name : String} {line : UInt32} {c c' : Scope Builder} {slot : UInt16}
    {code : Block} (h : Lowering.foreachSlot name line c = .ok slot code c') :
    c.names.Keeps c'.names := by
  have hholds : (Lowering.foreachSlot name line : Lowering Builder UInt16).Touches .currentThis Any
      [.hold name] := foreachSlot name line
  rw [(hholds _ _ _ _ h trivial).names]
  exact Use.keeps_after _ _

theorem foreachSlot_held {name : String} {line : UInt32} {c c' : Scope Builder} {slot : UInt16}
    {code : Block} (h : Lowering.foreachSlot name line c = .ok slot code c') :
    Held name slot c'.names := by
  obtain ⟨_, _, _, y, ⟨⟩, hsecond, rfl⟩ := bind_eq_ok h
  cases hslot : (c.names.localSlot name).1 with
  | none =>
    simp only [hslot] at hsecond
    cases hsecond
  | some n =>
    simp only [hslot] at hsecond
    split at hsecond
    case isTrue hlt =>
      cases hsecond
      obtain ⟨hclass, hposition⟩ := VariableTable.localSlot_eq_some hslot
      exact ⟨hclass, hposition.trans (congrArg some (UInt16.toNat_ofNat_of_lt' hlt).symm)⟩
    case isFalse => cases hsecond

/-- A round of a `foreach` sets the slots that were given. -/
theorem advance {key value : String} {k v : UInt16} :
    (Lowering.emitInt .foreach (SlotPair.pack { key := k, value := v }) :
      Lowering Builder Unit).Touches policy (fun t => Held key k t ∧ Held value v t)
      [.advance key value] := by
  rintro c a code c' ⟨⟩ ⟨hkey, hvalue⟩
  have hplaced {name : String} {slot : UInt16} (h : Held name slot c.names) :
      c.names.Placed name :=
    ⟨.local, h.1, fun _ => ⟨_, h.2⟩⟩
  have hvariable {name : String} {slot : UInt16} (h : Held name slot c.names) :
      c.names.variable false name = .slot slot.toNat := by
    rw [VariableTable.variable, h.1]
    simp only [h.2, Option.getD_some]
  have hnext : Use.next c.names (.advance key value) = c.names := by
    show ((c.names.localSlot key).2.localSlot value).2 = c.names
    rw [(hplaced hkey).localSlot_eq, (hplaced hvalue).localSlot_eq]
  refine ⟨hnext.symm, fun _ _ h => h, ?_⟩
  rw [Use.touches, Use.touches, hnext, Use.touch, hvariable hkey, hvariable hvalue]
  have haccess : Access.of? .foreach
      (.int (SlotPair.pack { key := k, value := v }).toInt32) =
        some (.advance (.slot k.toUInt32) (.slot v.toUInt32)) := by
    rw [Access.of?_foreach, UInt32.toUInt32_toInt32, SlotPair.unpack_pack]
  rw [Block.accesses_instr haccess]
  have hcell (slot : UInt16) (symbols : Interner) :
      (Variable.slot slot.toNat).cell? symbols = some (.slot slot.toUInt32) := by
    rw [← UInt32.ofNat_uInt16ToNat]
    rfl
  exact .cons (.advance (hcell k _) (hcell v _)) .nil

theorem pushConstant (m : Mark) (value : Constant) :
    (Lowering.pushConstant value : Lowering Builder Unit).Touches policy P
      (Node.uses (.constant m value)) := by
  cases value with
  | null => exact shows (u := .null) rfl fun _ => Shows.push rfl
  | int v => exact pushInt v
  | float bits => exact quiet (Shows.put rfl)
  | str text =>
    refine quiet ?_
    rintro c a code c' ⟨⟩
    exact ⟨rfl, fun _ _ h => h, .nil⟩

theorem emitCall (count : Nat) (line : UInt32) :
    (Lowering.emitCall count line : Lowering Builder Unit).Touches policy P [] := by
  rw [Lowering.emitCall]
  split
  · exact quiet (Shows.put rfl)
  · exact fail line _

/-- Two steps are judged before a third one. -/
theorem bind_both {γ : Type} {l : Lowering Builder α} {k : α → Lowering Builder β}
    {f : β → Lowering Builder γ} (h : (l >>= k).Touches policy P us)
    (hf : ∀ b, (f b).Touches policy Any vs) :
    (l >>= fun a => k a >>= f).Touches policy P (us ++ vs) := by
  intro c d code c' hl hP
  obtain ⟨a, x, c₁, _, hfirst, hrest, rfl⟩ := bind_eq_ok hl
  obtain ⟨b, y, c₂, z, hsecond, hthird, rfl⟩ := bind_eq_ok hrest
  have hboth : (l >>= k) c = .ok b (.seq x y) c₂ := by
    simp only [Bind.bind, hfirst, hsecond]
  refine ((h c b _ c₂ hboth hP).seq (hf b c₂ d z c' hthird trivial)).of_accesses ?_
  simp only [Block.accesses_seq, List.append_assoc]

/-- What is pushed as the receiver depends on the names before it. -/
theorem pushReceiver_run {callee : Node} {c c' : Scope Builder} {code : Block}
    (hl : Lowering.pushReceiver policy callee c = .ok () code c') :
    c'.names = c.names ∧ c.host.host.symbols.Numbers c'.host.host.symbols ∧
      List.Forall₂ (Access.Shown c'.host.host.symbols)
        [.push (policy = .currentThis || Gen.isMemberCallee c.names callee)] code.accesses := by
  cases policy with
  | currentThis => exact Shows.push rfl c () code c' hl
  | memberOnly =>
    obtain ⟨_, _, _, y, ⟨⟩, hsecond, rfl⟩ := bind_eq_ok hl
    split at hsecond
    case isTrue h =>
      rw [h]
      exact Shows.push rfl _ () y c' hsecond
    case isFalse h =>
      rw [Bool.eq_false_of_not_eq_true h]
      exact Shows.push rfl _ () y c' hsecond

theorem memberName (line : UInt32) (member : Node) :
    (Lowering.memberName line member : Lowering Builder String).Touches policy P [] := by
  rw [Lowering.memberName]
  split
  · exact pure _
  · exact fail line _

theorem jump (inLoop : Bool) (j : Jump) (line : UInt32) :
    (Lowering.jump inLoop j line : Lowering Builder Unit).Touches policy P [] := by
  rw [Lowering.jump]
  split
  · exact quiet (Shows.put rfl)
  · exact fail line _

theorem asStatement (role : Role) (line : UInt32) (h : l.Touches policy P us) :
    (Lowering.asStatement role line l).Touches policy P us := by
  cases role with
  | statement => exact h
  | value name => exact fail line _

theorem asValue {l : Option String → Lowering Builder Unit} (role : Role) (m : Mark)
    (h : ∀ name, (l name).Touches policy Any us) :
    (Lowering.asValue role m l).Touches policy P us := by
  cases role with
  | value name => exact (markLine m.line).bind fun _ => h name
  | statement =>
    refine (markLine m.line).bind fun _ => (h none).done fun _ => ?_
    show Touches _ _ _ (if _ then _ else _)
    split
    · exact emit rfl
    · exact pure ()

/-! ## Branches -/

theorem skip (op : Opcode) (h : l.Touches policy P us) :
    (Lowering.skip op l).Touches policy P us := by
  intro c a code c' hl hP
  obtain ⟨b, hbody, rfl⟩ := skip_eq_ok hl
  exact (h c () b c' hbody hP).of_accesses rfl

/-- Two pieces of code that are kept for one block. -/
theorem capture_both {shape : Block → Block → Block} (h : l.Touches policy P us)
    (hk : k.Touches policy Any vs)
    (hshape : ∀ a b, (shape a b).operations = a.operations ++ b.operations) :
    (do
      let a ← captured l
      Lowering.put (shape a (← captured k)) : Lowering Builder Unit).Touches policy P
      (us ++ vs) := by
  intro c a code c' hl hP
  obtain ⟨b, d, c₁, hfirst, hsecond, rfl⟩ := capture_both_eq_ok hl
  refine ((h c () b c₁ hfirst hP).seq (hk c₁ () d c' hsecond trivial)).of_accesses ?_
  exact congrArg (List.filterMap _) (hshape b d)

theorem either (h : l.Touches policy P us) (hk : k.Touches policy Any vs) :
    (Lowering.either l k).Touches policy P (us ++ vs) :=
  capture_both h hk fun _ _ => rfl

theorem loop (back : Opcode) (resume : Resume) (h : l.Touches policy P us)
    (hk : k.Touches policy Any vs) : (Lowering.loop l k back resume).Touches policy P (us ++ vs) :=
  capture_both h hk fun _ _ => rfl

theorem tested (h : l.Touches policy P us) (hk : k.Touches policy Any vs) :
    (Lowering.tested l k).Touches policy P (us ++ vs) :=
  h.bind fun _ => (quiet (Shows.put rfl)).bind fun _ => hk

/-! ## Function literals -/

/-- The names of a function literal are its own. -/
theorem function (name : Option String) (h : l.Touches policy Any us) :
    (Lowering.function name l).Touches policy P [] := by
  intro c a code c' hl _
  -- the table of the function around comes back, the symbols of the host stay
  obtain ⟨inner, c₁, hrun, rfl, rfl⟩ := function_eq_ok hl
  exact ⟨rfl, (h _ _ _ _ hrun trivial).numbers, .nil⟩

theorem declareParameters (line : UInt32) (params : List Node) :
    (Lowering.declareParameters line params : Lowering Builder Unit).Touches policy P
      ((params.filterMap Node.parameter?).map .bind) := by
  induction params generalizing P with
  | nil => exact pure ()
  | cons n rest ih =>
    cases n with
    | parameter m name =>
      refine (ask (f := (·.declareParameter name)) (u := .bind name) (fun _ => rfl)
        fun _ => rfl).bind fun a => ?_
      cases a with
      | none => exact fail _ _
      | some slot => exact ih
    | _ => exact fail _ _

end Touches

end Lowering

end Compile

end ScriptToolchain
