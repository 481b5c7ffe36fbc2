import Mathlib.Data.List.Forall2
import ScriptToolchain.Compile.Program
import ScriptToolchain.Proofs.Depth
import ScriptToolchain.Proofs.Lowering

/-!
# What a tree mentions

A tree mentions variables, fields, texts and function literals. Each mention
becomes one instruction whose operand is looked up: in the slots of the
function, in the symbols or strings of the program, or among the functions that
were delivered before. `Mention.Resolved` says that the lookup finds what the
tree has written there, and `CompiledFunction.Closed` says so of all code of a
function.
-/

namespace ScriptToolchain

/-- A place of a tree that mentions a variable, a field, a text or a function. -/
inductive Mention where
  | load (name : String)
  | store (name : String)
  | getField (name : String)
  | setField (name : String)
  | text (s : String)
  /-- The variables that a `foreach` sets in each round. -/
  | advance (key value : String)
  /-- A function literal, with what its body mentions. -/
  | function (inner : List Mention)

namespace Mention

mutual

/-- What the functions mention that are made of a mention, in the order of delivery. -/
def functions : Mention → List (List Mention)
  | .function inner => functionsAll inner ++ [inner]
  | _ => []

/-- What the functions mention that are made of some mentions. -/
def functionsAll : List Mention → List (List Mention)
  | [] => []
  | m :: rest => functions m ++ functionsAll rest

end

theorem functionsAll_append (ms ns : List Mention) :
    functionsAll (ms ++ ns) = functionsAll ms ++ functionsAll ns := by
  induction ms with
  | nil => rfl
  | cons m rest ih => rw [List.cons_append, functionsAll, ih, functionsAll, List.append_assoc]

end Mention

namespace Node

/-- What selecting a member mentions: the name of the member, if it is an identifier. -/
def selected (member : Node) (mention : String → Mention) : List Mention :=
  (member.identifier?.map mention).toList

theorem selected_eq {member : Node} {name : String} (h : member.identifier? = some name)
    (mention : String → Mention) : member.selected mention = [mention name] := by
  rw [selected, h]
  rfl

/-- What storing to the left side of an assignment mentions. -/
def stored : Node → List Mention
  | .operation _ .dot [_, member] => member.selected .setField
  | .identifier _ name => [.store name]
  | _ => []

mutual

/-- What a tree mentions outside the bodies of its function literals, in the order of the code. -/
def mentions : Node → List Mention
  | .block _ items => mentionsAll items
  | .ifElse _ cond thenBranch elseBranch =>
    mentions cond ++ (mentions thenBranch ++ mentionsOption elseBranch)
  | .whileLoop _ cond body => mentions cond ++ mentions body
  | .doLoop _ body cond => mentions body ++ mentions cond
  | .forLoop _ init cond step body =>
    mentionsOption init ++ (mentionsOption cond ++ (mentions body ++ mentionsOption step))
  | .foreach _ collection key value body =>
    mentions collection ++ .advance (key.getD Compile.hiddenKey) value :: mentions body
  | .ret _ value => mentionsOption value
  | .operation _ op operands =>
    match op, operands with
    | .assign, [target, value] => mentionsPlace target ++ (mentions value ++ target.stored)
    | .dot, [object, member] => mentions object ++ member.selected .getField
    | _, operands => mentionsAll operands
  | .constant _ (.str s) => [.text s]
  | .identifier _ name => [.load name]
  | .call _ callee args receiver => mentionsOption receiver ++ (mentions callee ++ mentionsAll args)
  | .function _ _ body => [.function (mentions body)]
  | .table _ fields => mentionsFields fields
  | _ => []

/-- What is mentioned before the value of an assignment to the node. -/
def mentionsPlace : Node → List Mention
  | .operation _ op operands =>
    match op, operands with
    | .dot, [object, _] => mentions object
    | .index, [object, key] => mentions object ++ mentions key
    | _, _ => []
  | _ => []

/-- What some trees mention. -/
def mentionsAll : List Node → List Mention
  | [] => []
  | n :: rest => mentions n ++ mentionsAll rest

/-- What a tree mentions that may be missing. -/
def mentionsOption : Option Node → List Mention
  | none => []
  | some n => mentions n

/-- What the fields of a table literal mention. -/
def mentionsFields : List Node → List Mention
  | [] => []
  | field :: rest =>
    (if Compile.Gen.operator? field = some .assignField then mentionsKeyed field
      else mentions field) ++ mentionsFields rest

/-- What a keyed field of a table literal mentions. -/
def mentionsKeyed : Node → List Mention
  | .operation _ _ operands =>
    match operands with
    | [key, value] => mentions value ++ key.selected .setField
    | _ => []
  | _ => []

end

/-- What the functions of a unit mention, in the order of delivery: the root comes last. -/
def units (n : Node) : List (List Mention) :=
  Mention.functionsAll n.mentions ++ [n.mentions]

end Node

/-! ## Lookups -/

/-- The operand of the operation names slots, a symbol, a string or a function. -/
def Opcode.looksUp : Opcode → Bool
  | .getLocal | .setLocal | .foreach | .getDot | .setDot | .getGlobal | .setGlobal | .getThis
  | .setThis | .pushString | .pushFunction => true
  | _ => false

theorem Opcode.looksUp_of_isBranch {op : Opcode} (h : op.isBranch = true) : op.looksUp = false := by
  cases op <;> first | rfl | cases h

/--
The instruction looks up what is mentioned, in a function with these slots, where so many functions
are known with what they mention.
-/
inductive Mention.Resolved (p : Program) (slots : List String)
    (known : List (UInt64 × List Mention)) : Mention → Opcode → Operand → Prop where
  | getLocal {name v} : slots[v.toUInt32.toNat]? = some name →
    Resolved p slots known (.load name) .getLocal (.int v)
  | getGlobal {name id} : p.symbol? id = some name →
    Resolved p slots known (.load name) .getGlobal (.word id)
  | getThis {name id} : p.symbol? id = some name →
    Resolved p slots known (.load name) .getThis (.word id)
  | setLocal {name v} : slots[v.toUInt32.toNat]? = some name →
    Resolved p slots known (.store name) .setLocal (.int v)
  | setGlobal {name id} : p.symbol? id = some name →
    Resolved p slots known (.store name) .setGlobal (.word id)
  | setThis {name id} : p.symbol? id = some name →
    Resolved p slots known (.store name) .setThis (.word id)
  | getDot {name id} : p.symbol? id = some name →
    Resolved p slots known (.getField name) .getDot (.word id)
  | setDot {name id} : p.symbol? id = some name →
    Resolved p slots known (.setField name) .setDot (.word id)
  | pushString {s id} : p.string? id = some s →
    Resolved p slots known (.text s) .pushString (.word id)
  | foreach {key value v} : slots[(SlotPair.unpack v.toUInt32).key.toNat]? = some key →
    slots[(SlotPair.unpack v.toUInt32).value.toNat]? = some value →
    Resolved p slots known (.advance key value) .foreach (.int v)
  | pushFunction {inner id} : (id, inner) ∈ known →
    Resolved p slots known (.function inner) .pushFunction (.word id)

/-- The operand of the instruction is below the table that it is looked up in. -/
structure Instruction.Closed (p : Program) (f : CompiledFunction)
    (earlier : List CompiledFunction) (i : Instruction) : Prop where
  slot : i.opcode = .getLocal ∨ i.opcode = .setLocal →
    ∃ v, i.operand = .int v ∧ v.toUInt32.toNat < f.params.toNat + f.locals.toNat
  foreach : i.opcode = .foreach → ∃ v, i.operand = .int v ∧
    (SlotPair.unpack v.toUInt32).key.toNat < f.params.toNat + f.locals.toNat ∧
    (SlotPair.unpack v.toUInt32).value.toNat < f.params.toNat + f.locals.toNat
  symbol : i.opcode ∈ [.getDot, .setDot, .getGlobal, .setGlobal, .getThis, .setThis] →
    ∃ id, i.operand = .word id ∧ id.toNat < p.symbols.length
  string : i.opcode = .pushString → ∃ id, i.operand = .word id ∧ id.toNat < p.strings.length
  function : i.opcode = .pushFunction → ∃ id, i.operand = .word id ∧ ∃ g ∈ earlier, g.id = id

/-- The ids of functions with what they mention. -/
def knownFunctions (fs : List CompiledFunction) (units : List (List Mention)) :
    List (UInt64 × List Mention) :=
  (fs.map (·.id)).zip units

/--
The code `is` of a function with these slots is closed in a program, where the functions `earlier`
were delivered before it: what its source mentions is what its instructions look up, in order.
-/
structure CompiledFunction.Closed (p : Program) (earlier : List CompiledFunction)
    (units : List (List Mention)) (ms : List Mention) (f : CompiledFunction)
    (is : List Instruction) (slots : List String) : Prop where
  decode : Code.decode f.code = .ok is
  slotCount : slots.length = f.params.toNat + f.locals.toNat
  symbols : ∀ names, f.symbols = some names → names = slots
  closed : ∀ i ∈ is, i.Closed p f earlier
  resolved : List.Forall₂
    (fun m i => m.Resolved p slots (knownFunctions earlier units) i.opcode i.operand) ms
    (is.filter (·.opcode.looksUp))

section

variable {p : Program} {slots : List String} {known known' : List (UInt64 × List Mention)}
  {m : Mention} {op : Opcode} {x : Operand}

/-- What is resolved stays so when more functions are known. -/
theorem Mention.Resolved.mono (h : m.Resolved p slots known op x) (hknown : known ⊆ known') :
    m.Resolved p slots known' op x := by
  cases h with
  | getLocal h => exact .getLocal h
  | getGlobal h => exact .getGlobal h
  | getThis h => exact .getThis h
  | setLocal h => exact .setLocal h
  | setGlobal h => exact .setGlobal h
  | setThis h => exact .setThis h
  | getDot h => exact .getDot h
  | setDot h => exact .setDot h
  | pushString h => exact .pushString h
  | foreach hkey hvalue => exact .foreach hkey hvalue
  | pushFunction h => exact .pushFunction (hknown h)

end

/-- An instruction that resolves a mention has its operand below the table. -/
theorem Mention.Resolved.closed {p : Program} {slots : List String}
    {earlier : List CompiledFunction} {units : List (List Mention)} {f : CompiledFunction}
    {m : Mention} {i : Instruction}
    (h : m.Resolved p slots (knownFunctions earlier units) i.opcode i.operand)
    (hslots : slots.length = f.params.toNat + f.locals.toNat) : i.Closed p f earlier := by
  have hslot {k : Nat} {name : String} (hk : slots[k]? = some name) :
      k < f.params.toNat + f.locals.toNat :=
    hslots ▸ (List.getElem?_eq_some_iff.mp hk).1
  have hsymbol {id : UInt64} {name : String} (hid : p.symbol? id = some name) :
      id.toNat < p.symbols.length :=
    (List.getElem?_eq_some_iff.mp hid).1
  obtain ⟨address, op, x⟩ := i
  simp only at h
  constructor
  · rintro (rfl | rfl)
    · cases h with
      | getLocal hv => exact ⟨_, rfl, hslot hv⟩
    · cases h with
      | setLocal hv => exact ⟨_, rfl, hslot hv⟩
  · rintro rfl
    cases h with
    | foreach hkey hvalue => exact ⟨_, rfl, hslot hkey, hslot hvalue⟩
  · intro hop
    cases h with
    | getDot hid | setDot hid | getGlobal hid | setGlobal hid | getThis hid | setThis hid =>
      exact ⟨_, rfl, hsymbol hid⟩
    | _ => simp at hop
  · rintro rfl
    cases h with
    | pushString hid => exact ⟨_, rfl, (List.getElem?_eq_some_iff.mp hid).1⟩
  · rintro rfl
    cases h with
    | pushFunction hid =>
      obtain ⟨g, hg, hgid⟩ := List.mem_map.mp (List.of_mem_zip hid).1
      exact ⟨_, rfl, g, hg, hgid⟩

/-- An instruction that looks nothing up is closed in every program. -/
theorem Instruction.closed_of_not_looksUp {p : Program} {f : CompiledFunction}
    {earlier : List CompiledFunction} {i : Instruction} (h : i.opcode.looksUp = false) :
    i.Closed p f earlier := by
  constructor
  · rintro (hop | hop) <;> simp [hop, Opcode.looksUp] at h
  · intro hop
    simp [hop, Opcode.looksUp] at h
  · intro hop
    simp only [List.mem_cons, List.not_mem_nil, or_false] at hop
    rcases hop with hop | hop | hop | hop | hop | hop <;> simp [hop, Opcode.looksUp] at h
  · intro hop
    simp [hop, Opcode.looksUp] at h
  · intro hop
    simp [hop, Opcode.looksUp] at h

/-- A function whose lookups find what is mentioned is closed. -/
theorem CompiledFunction.closed_of_resolved {p : Program} {earlier : List CompiledFunction}
    {units : List (List Mention)} {ms : List Mention} {f : CompiledFunction}
    {is : List Instruction} {slots : List String} (hdecode : Code.decode f.code = .ok is)
    (hslots : slots.length = f.params.toNat + f.locals.toNat)
    (hsymbols : ∀ names, f.symbols = some names → names = slots)
    (h : List.Forall₂
      (fun m i => m.Resolved p slots (knownFunctions earlier units) i.opcode i.operand) ms
      (is.filter (·.opcode.looksUp))) : f.Closed p earlier units ms is slots where
  decode := hdecode
  slotCount := hslots
  symbols := hsymbols
  closed := by
    intro i hi
    by_cases hop : i.opcode.looksUp = true
    · have hflip : List.Forall₂ (fun i m => i.Closed p f earlier ∧
          m.Resolved p slots (knownFunctions earlier units) i.opcode i.operand)
          (is.filter (·.opcode.looksUp)) ms :=
        List.Forall₂.flip (h.imp fun m i hm => ⟨hm.closed hslots, hm⟩)
      exact ((List.forall₂_and_left _ _).mp hflip).1 i (List.mem_filter.mpr ⟨hi, hop⟩)
    · exact Instruction.closed_of_not_looksUp (Bool.eq_false_iff.mpr hop)
  resolved := h

/-! ## Lookups of blocks -/

namespace Compile.Block

/-- The operations of a block whose operands are looked up, in the order of the code. -/
def lookups : Block → List (Opcode × Operand)
  | .empty | .mark _ | .jump .. => []
  | .instr op x => if op.looksUp then [(op, x)] else []
  | .seq a b => a.lookups ++ b.lookups
  | .skip _ body => body.lookups
  | .either yes no => yes.lookups ++ no.lookups
  | .loop body tail _ _ => body.lookups ++ tail.lookups

theorem lookups_shown (b : Block) (debug : Bool) : (b.shown debug).lookups = b.lookups := by
  have hunmark (b : Block) : b.unmark.lookups = b.lookups := by
    induction b with
    | empty | instr | mark | jump => rfl
    | seq a b iha ihb => rw [unmark, lookups, iha, ihb, lookups]
    | skip op body ih => rw [unmark, lookups, ih, lookups]
    | either yes no ihy ihn => rw [unmark, lookups, ihy, ihn, lookups]
    | loop body tail back resume ihb iht => rw [unmark, lookups, ihb, iht, lookups]
  cases debug with
  | true => rfl
  | false => exact hunmark b

/-- A branch looks nothing up. -/
theorem filter_goto {op : Opcode} (hop : op.isBranch = true) (start target : Nat)
    (rest : List Instruction) :
    (goto start op target :: rest).filter (·.opcode.looksUp) =
      rest.filter (·.opcode.looksUp) :=
  List.filter_cons_of_neg (by simp [goto, Opcode.looksUp_of_isBranch hop])

/-- The instructions of a block that look something up. -/
theorem filter_place {b : Block} (h : b.WellFormed) (start exit next : Nat) :
    ((b.place start exit next).filter (·.opcode.looksUp)).map (fun i => (i.opcode, i.operand)) =
      b.lookups := by
  induction b generalizing start exit next with
  | empty | mark => rfl
  | instr op x =>
    by_cases hop : op.looksUp = true
    · simp [place, lookups, hop]
    · simp [place, lookups, hop]
  | seq a b iha ihb =>
    rw [place, List.filter_append, List.map_append, iha h.1, ihb h.2, lookups]
  | skip op body ih => rw [place, filter_goto h.1, ih h.2, lookups]
  | either yes no ihy ihn =>
    rw [place, filter_goto rfl, List.filter_append, filter_goto rfl, List.map_append, ihy h.1,
      ihn h.2, lookups]
  | loop body tail back resume ihb iht =>
    rw [place, List.filter_append, List.filter_append, filter_goto h.1, List.filter_nil,
      List.append_nil, List.map_append, ihb h.2.1, iht h.2.2, lookups]
  | jump op j =>
    cases j with
    | breakLoop =>
      rw [place, filter_goto h]
      rfl
    | continueLoop =>
      rw [place, filter_goto h]
      rfl

end Compile.Block

end ScriptToolchain
