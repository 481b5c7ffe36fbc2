import ScriptToolchain.Compile.Generate
import ScriptToolchain.Proofs.Machine
import ScriptToolchain.Proofs.SlotOrder

/-!
# What a function does with its names

The uses of a function are read off its tree, in the order of the code. A use
asks the table of variables for its names and then touches places of variables.
Both loads and stores go to `VariableTable.variable` in the table behind them:
a store tells a new name its class before it looks where the name is kept. From
where a name has a class on, the place for its unflagged uses is the one of the
last table (`Use.variable_after`).
-/

namespace ScriptToolchain

/-- What is done with the places of variables. -/
inductive Access (α : Type) where
  | get (place : α)
  | set (place : α)
  /-- A round of a `foreach` sets two variables. -/
  | advance (key value : α)
  /-- Pushes `this`, or null. -/
  | push (this : Bool)
deriving Repr, DecidableEq

/-- What a function does with a name, and what it pushes as receivers are pushed. -/
inductive Use where
  /-- The name is that of a parameter. -/
  | bind (name : String)
  | declare (storage : StorageClass) (name : String)
  /-- A `foreach` begins that sets the name. -/
  | hold (name : String)
  | load (flagged : Bool) (name : String)
  | store (flagged : Bool) (name : String)
  /-- A round of a `foreach` sets two names. -/
  | advance (key value : String)
  /-- A call without receiver of the function that the name stands for. -/
  | callee (flagged : Bool) (name : String)
  /-- A call without receiver of what another expression stands for, which is met next. -/
  | receiver
  | this
  | null
deriving Repr, DecidableEq

namespace Node

/-- What storing to the left side of an assignment uses. -/
def saved : Node → List Use
  | .identifier m name => [.store (m.flags.contains .isMember) name]
  | _ => []

/-- What a call without receiver uses for its callee, of which these are the uses. -/
def called : Node → List Use → List Use
  | .identifier m name, _ => [.callee (m.flags.contains .isMember) name]
  | .operation _ .dot _, us => us
  | _, us => .receiver :: us

mutual

/-- What a tree uses outside the bodies of its function literals, in the order of the code. -/
def uses : Node → List Use
  | .declaration _ storage name => [.declare storage name]
  | .block _ items => usesAll items
  | .ifElse _ cond thenBranch elseBranch =>
    uses cond ++ (uses thenBranch ++ usesOption elseBranch)
  | .whileLoop _ cond body => uses cond ++ uses body
  | .doLoop _ body cond => uses body ++ uses cond
  | .forLoop _ init cond step body =>
    usesOption init ++ (usesOption cond ++ (uses body ++ usesOption step))
  | .foreach _ collection key value body =>
    .hold (key.getD Compile.hiddenKey) :: .hold value ::
      (uses collection ++ .advance (key.getD Compile.hiddenKey) value :: uses body)
  | .ret _ value => usesOption value
  | .operation _ op operands =>
    match op, operands with
    | .assign, [target, value] => usesPlace target ++ (uses value ++ target.saved)
    | .dot, [object, _] => uses object
    | _, operands => usesAll operands
  | .constant _ .null => [.null]
  | .identifier m name => [.load (m.flags.contains .isMember) name]
  | .call _ callee args receiver =>
    (match receiver with
      | some receiver => uses receiver ++ uses callee
      | none => callee.called (uses callee)) ++ usesAll args
  | .this _ => [.this]
  | .table _ fields => usesFields fields
  | _ => []

/-- What is used before the value of an assignment to the node. -/
def usesPlace : Node → List Use
  | .operation _ op operands =>
    match op, operands with
    | .dot, [object, _] => uses object
    | .index, [object, key] => uses object ++ uses key
    | _, _ => []
  | _ => []

/-- What some trees use. -/
def usesAll : List Node → List Use
  | [] => []
  | n :: rest => uses n ++ usesAll rest

/-- What a tree uses that may be missing. -/
def usesOption : Option Node → List Use
  | none => []
  | some n => uses n

/-- What the fields of a table literal use. -/
def usesFields : List Node → List Use
  | [] => []
  | field :: rest =>
    (if Compile.Gen.operator? field = some .assignField then usesKeyed field else uses field) ++
      usesFields rest

/-- What a keyed field of a table literal uses. -/
def usesKeyed : Node → List Use
  | .operation _ _ operands =>
    match operands with
    | [_, value] => uses value
    | _ => []
  | _ => []

end

end Node

/-! ## Places -/

/-- The place of a variable: a local is found first, then the flag counts, then the class. -/
def VariableTable.variable (t : VariableTable) (flagged : Bool) (name : String) : Variable :=
  match t.class? name with
  | some .local => .slot ((t.slots.position? name).getD 0)
  | some .member => .member name
  | _ => if flagged then .member name else .global name

namespace Use

/-- What a use asks of the table of variables; a store asks for a slot where the name is new. -/
def requests : Use → List VariableTable.Request
  | .bind name => [.declareParameter name]
  | .declare storage name => [.declare name storage]
  | .hold name => [.localSlot name]
  | .load _ name | .callee _ name | .store true name => [.resolve name]
  | .store false name => [.resolve name, .localSlot name]
  | .advance key value => [.localSlot key, .localSlot value]
  | .receiver | .this | .null => []

/-- The table behind a use. -/
def next (t : VariableTable) (u : Use) : VariableTable :=
  (t.serve u.requests).2

/-- The table behind some uses. -/
def after (t : VariableTable) (us : List Use) : VariableTable :=
  us.foldl next t

/-- What a use touches, where `t` is the table behind it. -/
def touch (policy : Compile.ReceiverPolicy) (t : VariableTable) : Use → List (Access Variable)
  | .load flagged name => [.get (t.variable flagged name)]
  | .store flagged name => [.set (t.variable flagged name)]
  | .advance key value => [.advance (t.variable false key) (t.variable false value)]
  | .callee flagged name =>
    [.push (policy = .currentThis || (flagged || t.class? name = some .member)),
      .get (t.variable flagged name)]
  | .receiver => [.push (policy = .currentThis)]
  | .this => [.push true]
  | .null => [.push false]
  | .bind _ | .declare .. | .hold _ => []

/-- What some uses touch, in order. -/
def touches (policy : Compile.ReceiverPolicy) : VariableTable → List Use → List (Access Variable)
  | _, [] => []
  | t, u :: rest => u.touch policy (u.next t) ++ touches policy (u.next t) rest

theorem after_append (t : VariableTable) (us vs : List Use) :
    after t (us ++ vs) = after (after t us) vs :=
  List.foldl_append

theorem touches_append (policy : Compile.ReceiverPolicy) (t : VariableTable) (us vs : List Use) :
    touches policy t (us ++ vs) = touches policy t us ++ touches policy (after t us) vs := by
  induction us generalizing t with
  | nil => rfl
  | cons u rest ih =>
    rw [List.cons_append, touches, ih, touches, List.append_assoc]
    rfl

theorem after_eq_serve (t : VariableTable) (us : List Use) :
    after t us = (t.serve (us.flatMap requests)).2 := by
  induction us generalizing t with
  | nil => rfl
  | cons u rest ih =>
    rw [List.flatMap_cons, VariableTable.serve_append]
    exact ih _

theorem keeps_next (t : VariableTable) (u : Use) : t.Keeps (u.next t) :=
  VariableTable.keeps_serve t u.requests

theorem keeps_after (t : VariableTable) (us : List Use) : t.Keeps (after t us) := by
  rw [after_eq_serve]
  exact VariableTable.keeps_serve t _

theorem regular_after (us : List Use) : (after {} us).Regular := by
  rw [after_eq_serve]
  exact VariableTable.regular_empty.serve _

end Use

/-! ## Names that have a class -/

namespace VariableTable

variable {t t' : VariableTable} {name : String}

/-- The name has a class, and a slot if it is local. -/
def Placed (t : VariableTable) (name : String) : Prop :=
  ∃ storage, t.class? name = some storage ∧
    (storage = .local → ∃ n, t.slots.position? name = some n)

/-- A placed name stays where it is. -/
theorem Keeps.variable_eq (h : t.Keeps t') (hplaced : t.Placed name) (flagged : Bool) :
    t'.variable flagged name = t.variable flagged name := by
  obtain ⟨storage, hclass, hslot⟩ := hplaced
  rw [VariableTable.variable, VariableTable.variable, h.classes hclass, hclass]
  cases storage with
  | «local» =>
    obtain ⟨n, hn⟩ := hslot rfl
    simp only [h.slots hn, hn]
  | member | global => rfl

theorem Keeps.placed (h : t.Keeps t') (hplaced : t.Placed name) : t'.Placed name := by
  obtain ⟨storage, hclass, hslot⟩ := hplaced
  refine ⟨storage, h.classes hclass, fun hlocal => ?_⟩
  obtain ⟨n, hn⟩ := hslot hlocal
  exact ⟨n, h.slots hn⟩

/-- A local that takes its slot is found there. -/
theorem variable_takeSlot (h : t.class? name = some .local) (flagged : Bool) :
    (t.takeSlot name).2.variable flagged name = .slot (t.takeSlot name).1 := by
  rw [VariableTable.variable, class?_takeSlot, h]
  simp only [position?_takeSlot, if_true, Option.getD_some]

/-- A name with a class is placed once it is resolved. -/
theorem placed_resolve {storage : StorageClass} (h : t.class? name = some storage) :
    (t.resolve name).2.Placed name := by
  rw [resolve, h]
  cases storage with
  | «local» =>
    exact ⟨.local, h, fun _ => ⟨_, by rw [position?_takeSlot, if_pos rfl]⟩⟩
  | member => exact ⟨.member, h, by rintro ⟨⟩⟩
  | global => exact ⟨.global, h, by rintro ⟨⟩⟩

/-- A name is placed once a slot was asked for. -/
theorem placed_localSlot (t : VariableTable) (name : String) :
    (t.localSlot name).2.Placed name := by
  rw [localSlot]
  rcases h : t.class? name with _ | (_ | _ | _)
  · refine ⟨.local, ?_, fun _ => ⟨_, by rw [position?_takeSlot, if_pos rfl]⟩⟩
    rw [class?_takeSlot, class?_insert, if_pos rfl]
  · exact ⟨.local, h, fun _ => ⟨_, by rw [position?_takeSlot, if_pos rfl]⟩⟩
  · exact ⟨.member, h, by rintro ⟨⟩⟩
  · exact ⟨.global, h, by rintro ⟨⟩⟩

/-- A slot that is given is that of a local. -/
theorem localSlot_eq_some {n : Nat} (h : (t.localSlot name).1 = some n) :
    (t.localSlot name).2.class? name = some .local ∧
      (t.localSlot name).2.slots.position? name = some n := by
  rw [localSlot] at h ⊢
  rcases hclass : t.class? name with _ | (_ | _ | _) <;> simp only [hclass] at h ⊢ <;> cases h
  · refine ⟨?_, by rw [position?_takeSlot, if_pos rfl]⟩
    rw [class?_takeSlot, class?_insert, if_pos rfl]
  · exact ⟨hclass, by rw [position?_takeSlot, if_pos rfl]⟩

/-- Nothing is to be done for a name that is placed. -/
theorem Placed.localSlot_eq (h : t.Placed name) : (t.localSlot name).2 = t := by
  obtain ⟨storage, hclass, hslot⟩ := h
  rw [localSlot, hclass]
  cases storage with
  | «local» =>
    obtain ⟨n, hn⟩ := hslot rfl
    simp only [VariableTable.takeSlot, Interner.intern, hn]
  | member | global => rfl

theorem class?_resolve (t : VariableTable) (name other : String) :
    (t.resolve name).2.class? other = t.class? other := by
  rw [resolve]
  rcases t.class? name with _ | (_ | _ | _) <;> rfl

theorem class?_declareParameter_self (t : VariableTable) (name : String) :
    (t.declareParameter name).2.class? name ≠ none := by
  rw [declareParameter]
  cases h : t.class? name with
  | some storage => simp [h]
  | none =>
    show (VariableTable.takeSlot _ name).2.class? name ≠ none
    rw [class?_takeSlot, class?_insert, if_pos rfl]
    exact Option.some_ne_none _

theorem class?_declare_self (t : VariableTable) (name : String) (storage : StorageClass) :
    (t.declare name storage).2.class? name ≠ none := by
  rw [declare]
  cases h : t.class? name with
  | some kept => simp [h]
  | none =>
    rw [class?_insert, if_pos rfl]
    exact Option.some_ne_none _

end VariableTable

namespace Use

/-- A callee is loaded behind its receiver. -/
theorem touches_callee (policy : Compile.ReceiverPolicy) (t : VariableTable) (flagged : Bool)
    (name : String) :
    touches policy t [.callee flagged name] =
      .push (policy = .currentThis || (flagged || t.class? name = some .member)) ::
        touches policy t [.load flagged name] := by
  have hclass : (next t (.callee flagged name)).class? name = t.class? name :=
    t.class?_resolve name name
  simp only [touches, touch, hclass]
  rfl

/-- From here on the name has a class: it is stored to without flag, declared, or bound. -/
inductive Settles : Use → String → Prop where
  | bind {name} : Settles (.bind name) name
  | declare {storage name} : Settles (.declare storage name) name
  | hold {name} : Settles (.hold name) name
  | store {name} : Settles (.store false name) name

/-- The names whose places a use touches. -/
def names : Use → List String
  | .load _ name | .store _ name | .callee _ name => [name]
  | .advance key value => [key, value]
  | _ => []

variable {t : VariableTable} {u : Use} {name : String}

theorem Settles.class?_next (h : u.Settles name) (t : VariableTable) :
    (u.next t).class? name ≠ none := by
  have hplaced {t : VariableTable} (h : t.Placed name) : t.class? name ≠ none := by
    obtain ⟨storage, hclass, -⟩ := h
    rw [hclass]
    exact Option.some_ne_none _
  cases h with
  | bind => exact t.class?_declareParameter_self name
  | @declare storage => exact t.class?_declare_self name storage
  | hold => exact hplaced (t.placed_localSlot name)
  | store => exact hplaced ((t.resolve name).2.placed_localSlot name)

/-- A name that has a class behind a use of its place is placed there. -/
theorem placed_next (hname : name ∈ u.names) (hclass : (u.next t).class? name ≠ none) :
    (u.next t).Placed name := by
  have hresolve (hclass : (t.resolve name).2.class? name ≠ none) :
      (t.resolve name).2.Placed name := by
    rw [VariableTable.class?_resolve] at hclass
    obtain ⟨storage, h⟩ := Option.ne_none_iff_exists'.mp hclass
    exact VariableTable.placed_resolve h
  cases u with
  | load flagged n | callee flagged n =>
    cases List.mem_singleton.mp hname
    exact hresolve hclass
  | store flagged n =>
    cases List.mem_singleton.mp hname
    cases flagged with
    | true => exact hresolve hclass
    | false => exact (t.resolve name).2.placed_localSlot name
  | advance key value =>
    -- the key is placed first, and asking for the value keeps it
    have hkey := t.placed_localSlot key
    have hvalue := (t.localSlot key).2.placed_localSlot value
    simp only [names, List.mem_cons, List.not_mem_nil, or_false] at hname
    rcases hname with rfl | rfl
    · exact (keeps_next _ (.hold value)).placed hkey
    · exact hvalue
  | _ => cases hname

/-- Where a name has a class, its place is that of the last table. -/
theorem variable_after (hname : name ∈ u.names) (hclass : (u.next t).class? name ≠ none)
    (flagged : Bool) (us : List Use) :
    (after (u.next t) us).variable flagged name = (u.next t).variable flagged name :=
  (keeps_after _ us).variable_eq (placed_next hname hclass) flagged

end Use

end ScriptToolchain
