import ScriptToolchain.Proofs.Markers
import ScriptToolchain.Proofs.Shape
import ScriptToolchain.Proofs.UsedNodes

/-!
# Loads and stores of a name agree

The instructions of a function go through the uses of its source, in order, and
each use leaves a footprint: what its instructions do with which places. A name
that was declared, bound, held by a `foreach` or assigned to keeps its place from
then on, whatever follows.
-/

namespace ScriptToolchain

theorem Variable.eq_slot_of_cell? {symbols : Interner} {v : Variable} {s : UInt32}
    (h : v.cell? symbols = some (.slot s)) : ∃ n, v = .slot n ∧ n.toUInt32 = s := by
  cases v with
  | slot n => exact ⟨n, rfl, Cell.slot.inj (Option.some.inj h)⟩
  | member | global => obtain ⟨_, -, ⟨⟩⟩ := Option.map_eq_some_iff.mp h

/-- A variable in a slot is a local. -/
theorem VariableTable.class?_of_variable {t : VariableTable} {flagged : Bool} {name : String}
    {n : Nat} (h : t.variable flagged name = .slot n) :
    t.class? name = some .local ∧ (t.slots.position? name).getD 0 = n := by
  rw [VariableTable.variable] at h
  rcases hclass : t.class? name with _ | (_ | _ | _) <;> rw [hclass] at h
  · cases flagged <;> cases h
  · exact ⟨rfl, Variable.slot.inj h⟩
  · cases h
  · cases flagged <;> cases h

/-! ## Footprints -/

/-- What the instruction does with the place of a variable, if anything. -/
def Instruction.access? (i : Instruction) : Option (Access Cell) :=
  Access.of? i.opcode i.operand

/-- A use with what its instructions do. -/
structure Footprint where
  use : Use
  accesses : List (Access Cell)
deriving Repr, DecidableEq

namespace Footprint

/-- The instructions do what the use is about. -/
inductive Fits : Footprint → Prop where
  | bind {name} : Fits ⟨.bind name, []⟩
  | declare {storage name} : Fits ⟨.declare storage name, []⟩
  | hold {name} : Fits ⟨.hold name, []⟩
  | load {flagged name cell} : Fits ⟨.load flagged name, [.get cell]⟩
  | store {flagged name cell} : Fits ⟨.store flagged name, [.set cell]⟩
  | advance {key value cell cell'} : Fits ⟨.advance key value, [.advance cell cell']⟩
  | callee {flagged name this cell} : Fits ⟨.callee flagged name, [.push this, .get cell]⟩
  | receiver {this} : Fits ⟨.receiver, [.push this]⟩
  | this : Fits ⟨.this, [.push true]⟩
  | null : Fits ⟨.null, [.push false]⟩

/-- The instructions read or write the name at the place. -/
inductive Finds : Footprint → Bool → String → Cell → Prop where
  | load {flagged name cell} : Finds ⟨.load flagged name, [.get cell]⟩ flagged name cell
  | store {flagged name cell} : Finds ⟨.store flagged name, [.set cell]⟩ flagged name cell
  | callee {flagged name this cell} :
    Finds ⟨.callee flagged name, [.push this, .get cell]⟩ flagged name cell
  | key {key value cell cell'} : Finds ⟨.advance key value, [.advance cell cell']⟩ false key cell
  | value {key value cell cell'} :
    Finds ⟨.advance key value, [.advance cell cell']⟩ false value cell'

/-- From a table, the footprints are what the uses touch, one by one. -/
inductive Trail (policy : Compile.ReceiverPolicy) (symbols : Interner) :
    VariableTable → List Footprint → Prop where
  | nil {t} : Trail policy symbols t []
  | cons {t e rest}
    (h : List.Forall₂ (Access.Shown symbols) (e.use.touch policy (e.use.next t)) e.accesses)
    (hrest : Trail policy symbols (e.use.next t) rest) : Trail policy symbols t (e :: rest)

variable {policy : Compile.ReceiverPolicy} {symbols : Interner} {t : VariableTable}

/-- What some uses touch falls apart into their footprints. -/
theorem exists_trail {us : List Use} {accesses : List (Access Cell)}
    (h : List.Forall₂ (Access.Shown symbols) (Use.touches policy t us) accesses) :
    ∃ trail : List Footprint, trail.map (·.use) = us ∧
      trail.flatMap (·.accesses) = accesses ∧ Trail policy symbols t trail := by
  induction us generalizing t accesses with
  | nil =>
    cases h
    exact ⟨[], rfl, rfl, .nil⟩
  | cons u rest ih =>
    have hfirst := (List.forall₂_take_append _ _ _ h.flip).flip
    have hrest := (List.forall₂_drop_append _ _ _ h.flip).flip
    obtain ⟨trail, huses, haccesses, htrail⟩ := ih hrest
    refine ⟨⟨u, _⟩ :: trail, ?_, ?_, .cons hfirst htrail⟩
    · rw [List.map_cons, huses]
    · rw [List.flatMap_cons, haccesses]
      exact List.take_append_drop ..

section

variable {e : Footprint}
  (h : List.Forall₂ (Access.Shown symbols) (e.use.touch policy t) e.accesses)
include h

/-- What a use touches shows in its footprint. -/
theorem fits_of_shown : e.Fits := by
  obtain ⟨u, accesses⟩ := e
  cases u with
  | bind | declare | hold =>
    cases h
    constructor
  | load | store | advance | receiver | this | null =>
    rcases h with _ | ⟨⟨⟩, ⟨⟩⟩
    constructor
  | callee =>
    rcases h with _ | ⟨⟨⟩, _ | ⟨⟨⟩, ⟨⟩⟩⟩
    constructor

/-- A name is found where the table has its place. -/
theorem Finds.cell {flagged : Bool} {name : String} {cell : Cell}
    (hfinds : e.Finds flagged name cell) :
    name ∈ e.use.names ∧ (t.variable flagged name).cell? symbols = some cell := by
  cases hfinds with
  | load => exact ⟨List.mem_singleton_self _, (List.forall₂_cons.mp h).1.cell_of_get⟩
  | store => exact ⟨List.mem_singleton_self _, (List.forall₂_cons.mp h).1.cell_of_set⟩
  | callee =>
    have hload := (List.forall₂_cons.mp h).2
    exact ⟨List.mem_singleton_self _, (List.forall₂_cons.mp hload).1.cell_of_get⟩
  | key => exact ⟨List.mem_cons_self .., (List.forall₂_cons.mp h).1.cells_of_advance.1⟩
  | value =>
    exact ⟨List.mem_cons_of_mem _ (List.mem_singleton_self _),
      (List.forall₂_cons.mp h).1.cells_of_advance.2⟩

end

namespace Trail

variable {before after : List Footprint} {e e' : Footprint} {flagged : Bool} {name : String}
  {cell : Cell}

/-- Each footprint is made behind the uses before it. -/
theorem split (h : Trail policy symbols t (before ++ e :: after)) :
    List.Forall₂ (Access.Shown symbols)
      (e.use.touch policy (e.use.next (Use.after t (before.map (·.use))))) e.accesses := by
  induction before generalizing t with
  | nil =>
    cases h with
    | cons h hrest => exact h
  | cons x rest ih =>
    cases h with
    | cons _ hrest => exact ih hrest

theorem fits (h : Trail policy symbols t trail) (he : e ∈ trail) : e.Fits := by
  obtain ⟨before, after, rfl⟩ := List.append_of_mem he
  exact fits_of_shown h.split

/-- The table behind a trail, from one of its footprints on. -/
theorem after_split (t : VariableTable) (before after : List Footprint) (e : Footprint) :
    Use.after t ((before ++ e :: after).map (·.use)) =
      Use.after (e.use.next (Use.after t (before.map (·.use)))) (after.map (·.use)) := by
  rw [List.map_append, List.map_cons, Use.after_append]
  rfl

/-- Where a name has a class, it is found at its place in the last table. -/
theorem found (h : Trail policy symbols t (before ++ e :: after))
    (hfinds : e.Finds flagged name cell)
    (hclass : (e.use.next (Use.after t (before.map (·.use)))).class? name ≠ none) :
    ((Use.after t ((before ++ e :: after).map (·.use))).variable flagged name).cell? symbols =
      some cell := by
  obtain ⟨hname, hcell⟩ := hfinds.cell h.split
  rw [after_split, Use.variable_after hname hclass, hcell]

/-- What is found in a slot is a local, and has this slot in the last table. -/
theorem found_slot {s : UInt32} (h : Trail policy symbols t (before ++ e :: after))
    (hfinds : e.Finds flagged name (.slot s)) :
    ∃ n, (Use.after t ((before ++ e :: after).map (·.use))).slots.position? name = some n ∧
      n.toUInt32 = s := by
  obtain ⟨hname, hcell⟩ := hfinds.cell h.split
  obtain ⟨m, hvariable, hm⟩ := Variable.eq_slot_of_cell? hcell
  obtain ⟨hlocal, rfl⟩ := VariableTable.class?_of_variable hvariable
  have hplaced := Use.placed_next hname (hlocal ▸ Option.some_ne_none _)
  obtain ⟨storage, hclass, hposition⟩ := hplaced
  obtain ⟨n, hn⟩ := hposition (Option.some.inj (hclass.symm.trans hlocal))
  rw [hn, Option.getD_some] at hm
  rw [after_split]
  exact ⟨n, (Use.keeps_after _ _).slots hn, hm⟩

/-- Where a name was settled, it has a class from there on. -/
theorem class?_of_settles {later between : List Footprint} (t : VariableTable)
    (hsettles : e.use.Settles name) (hlater : e :: later = between ++ e' :: after) :
    (e'.use.next (Use.after t (between.map (·.use)))).class? name ≠ none := by
  cases between with
  | nil =>
    obtain ⟨rfl, -⟩ := List.cons.inj hlater
    exact hsettles.class?_next t
  | cons x rest =>
    obtain ⟨rfl, -⟩ := List.cons.inj hlater
    obtain ⟨storage, hclass⟩ := Option.ne_none_iff_exists'.mp (hsettles.class?_next t)
    have hkept := (Use.keeps_next _ e'.use).classes
      ((Use.keeps_after (e.use.next t) (rest.map (·.use))).classes hclass)
    exact hkept ▸ Option.some_ne_none _

/-- Behind a use that settles a name, its unflagged uses find its place in the last table. -/
theorem found_settled (h : Trail policy symbols t (before ++ e :: after))
    (hsettles : e.use.Settles name) (hlater : e' ∈ e :: after)
    (hfinds : e'.Finds flagged name cell) :
    ((Use.after t ((before ++ e :: after).map (·.use))).variable flagged name).cell? symbols =
      some cell := by
  obtain ⟨between, behind, hbetween⟩ := List.append_of_mem hlater
  have hclass := class?_of_settles (Use.after t (before.map (·.use))) hsettles hbetween
  rw [← Use.after_append, ← List.map_append] at hclass
  rw [hbetween, ← List.append_assoc] at h ⊢
  exact h.found hfinds hclass

end Trail

/--
The names of a function are kept in these slots and at other places, the same ones for loads and
stores.
-/
structure Agree (slots : List String) (trail : List Footprint) : Prop where
  /-- A slot is that of the name that is listed for it. -/
  named : ∀ e ∈ trail, ∀ flagged name s, e.Finds flagged name (.slot s) →
    slots[s.toNat]? = some name
  /-- Different names have different slots, and a name has one. -/
  paired : ∀ e ∈ trail, ∀ e' ∈ trail, ∀ flagged name s flagged' name' s',
    e.Finds flagged name (.slot s) → e'.Finds flagged' name' (.slot s') → (name = name' ↔ s = s')
  /-- A name that was settled has one place for all its unflagged uses from there on. -/
  settled : ∀ before e after name, trail = before ++ e :: after → e.use.Settles name →
    ∀ e₁ ∈ e :: after, ∀ e₂ ∈ e :: after, ∀ cell₁ cell₂, e₁.Finds false name cell₁ →
      e₂.Finds false name cell₂ → cell₁ = cell₂

/-- Loads and stores agree along the trail of a function whose slots can be counted. -/
theorem Trail.agree {trail : List Footprint} (h : Trail policy symbols {} trail)
    (hsize : (Use.after {} (trail.map (·.use))).symbols.length < 2 ^ 32) :
    Agree (Use.after {} (trail.map (·.use))).symbols trail := by
  have hregular := Use.regular_after (trail.map (·.use))
  have hnamed : ∀ e ∈ trail, ∀ flagged name s, e.Finds flagged name (.slot s) →
      (Use.after {} (trail.map (·.use))).symbols[s.toNat]? = some name := by
    intro e he flagged name s hfinds
    obtain ⟨before, after, rfl⟩ := List.append_of_mem he
    obtain ⟨n, hn, rfl⟩ := h.found_slot hfinds
    -- no slot number is cut off where the code names it
    have hlisted := hregular.slots.sound.listed hn
    have hlt := (List.getElem?_eq_some_iff.mp hlisted).1
    rw [Nat.toUInt32, UInt32.toNat_ofNat_of_lt' (Nat.lt_trans hlt hsize)]
    exact hlisted
  refine ⟨hnamed, ?_, ?_⟩
  · intro e he e' he' flagged name s flagged' name' s' hfinds hfinds'
    have hname := hnamed e he flagged name s hfinds
    have hname' := hnamed e' he' flagged' name' s' hfinds'
    constructor
    · rintro rfl
      have hlt := (List.getElem?_eq_some_iff.mp hname).1
      exact UInt32.toNat_inj.mp
        ((List.getElem?_inj hlt hregular.slots.nodup).mp (hname.trans hname'.symm))
    · rintro rfl
      exact Option.some.inj (hname.symm.trans hname')
  · rintro before e after name rfl hsettles e₁ he₁ e₂ he₂ cell₁ cell₂ hfinds₁ hfinds₂
    have h₁ := h.found_settled hsettles he₁ hfinds₁
    exact Option.some.inj (h₁.symm.trans (h.found_settled hsettles he₂ hfinds₂))

end Footprint

/-! ## Functions -/

/-- The parameters and the body of each function of a unit, in the order of their making. -/
def Node.functions (n : Node) : List (List String × Node) :=
  (left (n.tour false)).map
    (fun o => (o.literal.parameters.filterMap parameter?, o.literal.body)) ++ [([], n)]

namespace CompiledFunction

/-- The instructions of the function go through the uses of its source, in order. -/
structure Leaves (f : CompiledFunction) (params : List String) (body : Node)
    (trail : List Footprint) : Prop where
  uses : trail.map (·.use) = params.map .bind ++ body.uses
  code : ∃ is, Code.decode f.code = .ok is ∧
    is.filterMap Instruction.access? = trail.flatMap (·.accesses)

/-- The names of the slots of the function; those of the parameters are the first ones. -/
structure Slots (f : CompiledFunction) (params slots : List String) : Prop where
  nodup : slots.Nodup
  length : slots.length = f.params.toNat + f.locals.toNat
  params : params <+: slots

end CompiledFunction

namespace Compile

variable {policy : ReceiverPolicy} {l : Outline} {params : List String} {body : Node}

/-- The names and the code of the outline are those of a function with these uses. -/
structure Outline.Uses (policy : ReceiverPolicy) (l : Outline) (params : List String)
    (body : Node) : Prop where
  names : l.names = Use.after {} (params.map .bind ++ body.uses)
  accesses : ∃ symbols, List.Forall₂ (Access.Shown symbols)
    (Use.touches policy {} (params.map .bind ++ body.uses)) l.code.accesses
  params : params <+: l.names.symbols

theorem Outline.Describes.uses {literal : Node}
    (h : l.Describes ProgramBuilder policy literal) :
    l.Uses policy (literal.parameters.filterMap Node.parameter?) literal.body := by
  obtain ⟨m, params, body, rfl, c, c', hnames, -, hrun, hl⟩ := h
  have htouches := uses_literal (P := Lowering.Any) m.line params body c _ _ c' hrun trivial
  refine ⟨?_, ⟨_, hnames ▸ htouches.accesses⟩, ?_⟩
  · rw [hl, htouches.names, hnames]
    rfl
  · obtain ⟨_, x, c₁, y, hdeclare, hrest, -⟩ := Lowering.bind_eq_ok hrun
    have hsymbols := symbols_declareParameters (hnames ▸ VariableTable.regular_empty) hdeclare
    have hbody := uses_unit (P := Lowering.Any) body c₁ _ y c' hrest trivial
    have hfirst : params.filterMap Node.parameter? <+: c₁.names.symbols := by
      rw [hsymbols, hnames]
      exact List.prefix_rfl
    rw [hl, hbody.names]
    exact hfirst.trans (Use.keeps_after c₁.names body.uses).symbols

theorem Outline.LoweredBy.uses {n : Node}
    (h : l.LoweredBy (σ := Watched ProgramBuilder) (Lowering.unit policy n)) :
    l.Uses policy [] n := by
  obtain ⟨c, c', hnames, -, hrun, hl⟩ := h
  have htouches := uses_unit (P := Lowering.Any) n c _ _ c' hrun trivial
  refine ⟨?_, ⟨_, hnames ▸ htouches.accesses⟩, List.nil_prefix⟩
  rw [hl, htouches.names, hnames]
  rfl

/-- The function leaves the trail, whose names have slots that can be counted. -/
structure Trails (policy : ReceiverPolicy) (symbols : Interner) (f : CompiledFunction)
    (params : List String) (body : Node) (trail : List Footprint) : Prop where
  leaves : f.Leaves params body trail
  made : Footprint.Trail policy symbols {} trail
  slots : f.Slots params (Use.after {} (trail.map (·.use))).symbols
  lt : (Use.after {} (trail.map (·.use))).symbols.length < 2 ^ 32

/-- The function of an outline leaves a trail of the uses of the outline. -/
theorem Outline.Uses.trails {root debug : Bool} {f : CompiledFunction} {popped : Prop}
    (h : l.Uses policy params body) (hfine : l.Fine popped (· < 2 ^ 31))
    (hmakes : l.Makes root debug f) (hsize : f.code.size < 2 ^ 32) :
    ∃ symbols trail, Trails policy symbols f params body trail := by
  obtain ⟨symbols, haccesses⟩ := h.accesses
  obtain ⟨trail, huses, hflat, htrail⟩ := Footprint.exists_trail haccesses
  obtain ⟨hdecode, -⟩ := hmakes.placed hfine.wellFormed hsize
  obtain ⟨hlength, hlt⟩ := hmakes.length_slots hfine hsize
  have hcode : (l.instructions debug).filterMap Instruction.access? = l.code.accesses := by
    rw [Outline.instructions]
    refine (Block.filterMap_place (fun _ x hop => Access.of?_of_isBranch hop x) rfl
      (hfine.wellFormed.shown debug) 0 0 0).trans ?_
    rw [Block.operations_shown]
    rfl
  have hnames : Use.after {} (trail.map (·.use)) = l.names := huses ▸ h.names.symm
  have hnodup : l.names.symbols.Nodup := hnames ▸ (Use.regular_after _).slots.nodup
  refine ⟨symbols, trail, ⟨huses, _, hdecode, hcode.trans hflat.symm⟩, htrail, ?_, ?_⟩
  · rw [hnames]
    exact ⟨hnodup, hlength, h.params⟩
  · rw [hnames]
    exact hlt

/-- A delivered function leaves a trail of the uses of its source. -/
theorem delivered_trails (c : Compiler) (n : Node) (host : ProgramBuilder)
    (hparams : n.ParamsFit (· < 2 ^ 31)) {k : Nat} {f : CompiledFunction}
    (hf : (c.compile n ({ host } : Watched ProgramBuilder)).2.2.delivered[k]? = some f)
    (hsize : f.code.size < 2 ^ 32) :
    ∃ params body symbols trail, n.functions[k]? = some (params, body) ∧
      Trails c.options.receiver symbols f params body trail := by
  obtain ⟨⟨params, body⟩, hfunction, htrails⟩ := delivered_each False (· < 2 ^ 31)
    (Q := fun f x => f.code.size < 2 ^ 32 →
      ∃ symbols trail, Trails c.options.receiver symbols f x.1 x.2 trail) c host
    (fun literal => (literal.parameters.filterMap Node.parameter?, literal.body)) ([], n)
    ⟨False.elim, fun hm => hparams hm⟩ False.elim (by decide)
    (fun hdescribes hfine hmakes hsize => hdescribes.uses.trails hfine hmakes hsize)
    (fun hunit hfine hmakes hsize => hunit.uses.trails hfine hmakes hsize) hf
  obtain ⟨symbols, trail, h⟩ := htrails hsize
  exact ⟨params, body, symbols, trail, hfunction, h⟩

/--
Loads and stores of a name agree in every function that a unit is compiled to. Its instructions go
through the uses of its source in the order of the code, and each use reads or writes its own
names. Every slot has one name, parameters first; no two names share a slot and no name has two.
Once a name was declared, bound as a parameter, held by a `foreach`, or assigned to without flag,
all its later uses without flag find one place: a slot, a member or a global. Symbols have the ids
of a host that collects a program, the code stays below the largest address, and no function
literal has too many parameters to count its slots.
-/
theorem loads_and_stores_agree (c : Compiler) (n : Node) (host : ProgramBuilder)
    (hparams : n.ParamsFit (· < 2 ^ 31)) {k : Nat} {f : CompiledFunction}
    (hf : (c.compile n ({ host } : Watched ProgramBuilder)).2.2.delivered[k]? = some f)
    (hsize : f.code.size < 2 ^ 32) :
    ∃ params body trail slots, n.functions[k]? = some (params, body) ∧
      f.Leaves params body trail ∧ f.Slots params slots ∧ (∀ e ∈ trail, e.Fits) ∧
      Footprint.Agree slots trail := by
  obtain ⟨params, body, symbols, trail, hfunction, h⟩ := delivered_trails c n host hparams hf hsize
  exact ⟨params, body, trail, _, hfunction, h.leaves, h.slots, fun _ he => h.made.fits he,
    h.made.agree h.lt⟩

/--
The body of a function that reads a global, stores to a local of its name, and reads it; a
declaration in between comes too late to make it a member.
-/
def tallyBody : Node :=
  .block {} [
    .operation { line := 2 } .assign [.identifier {} "total",
      .operation {} .add [.identifier {} "total", .identifier {} "step"]],
    .foreach { line := 3 } (.identifier {} "step") none "item"
      (.operation { line := 4 } .assign [.identifier {} "count", .identifier {} "item"]),
    .declaration { line := 5 } .member "total",
    .ret { line := 6 } (some (.identifier {} "total"))]

/-- A unit with a member that is declared and a function literal with a parameter. -/
def tallyUnit : Node :=
  .block {} [
    .declaration { line := 1 } .member "tally",
    .operation { line := 2 } .assign [.identifier {} "tally",
      .function {} [.parameter {} "step"] tallyBody]]

example : tallyBody.uses = [.load false "total", .load false "step", .store false "total",
    .hold "(key)", .hold "item", .load false "step", .advance "(key)" "item",
    .load false "item", .store false "count", .declare .member "total", .load false "total"] :=
  rfl

/-- The functions that a host is handed for the unit. -/
def tallyFunctions : List CompiledFunction :=
  (Compiler.compile { options := {} } tallyUnit
    ({ host := {} } : Watched ProgramBuilder)).2.2.delivered

theorem loads_and_stores_agree_tally :
    ∃ f params body trail slots, tallyFunctions[0]? = some f ∧
      tallyUnit.functions[0]? = some (params, body) ∧ f.Leaves params body trail ∧
      f.Slots params slots ∧ (∀ e ∈ trail, e.Fits) ∧ Footprint.Agree slots trail := by
  have hparams : tallyUnit.ParamsFit (· < 2 ^ 31) := by decide +kernel
  have hlength : 0 < tallyFunctions.length := by decide +kernel
  have hsize : ∀ f ∈ tallyFunctions, f.code.size < 2 ^ 32 := by decide +kernel
  have hf := List.getElem?_eq_getElem hlength
  obtain ⟨params, body, trail, slots, h⟩ := loads_and_stores_agree { options := {} } tallyUnit {}
    hparams hf (hsize _ (List.getElem_mem hlength))
  exact ⟨_, params, body, trail, slots, hf, h⟩

end Compile

end ScriptToolchain
