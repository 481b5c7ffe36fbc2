import ScriptToolchain.Proofs.Naming
import ScriptToolchain.Proofs.Realizes

/-!
# Slots in the order of first use

A table of variables is asked to declare names and to find them, in any order.
`Request.Means` says what an answer tells of the classes, the slots and the
parameters in front of the request and behind it. `Request.does` says all that
a request can do: it tells a new name its class, it gives out the slot of a
local, or both, or nothing. So a name keeps its class and its slot, and the
slots are numbered as they were first given out (`slots_in_order`).
-/

namespace ScriptToolchain

/-- A new text is listed behind the others; a known one changes nothing. -/
theorem Interner.Distinct.toList_intern {t : Interner} (h : t.Distinct) (s : String) :
    (t.intern s).2.toList = if s ∈ t.toList then t.toList else t.toList ++ [s] := by
  rw [Interner.intern]
  cases hs : t.position? s with
  | some i =>
    rw [if_pos (List.mem_of_getElem? (h.sound.listed hs))]
  | none =>
    rw [if_neg fun hmem => h.numbered s hmem hs]
    simp only [Interner.toList, List.reverse_cons]

/-- A text has the number that it is given, the others have theirs. -/
theorem Interner.position?_intern (t : Interner) (s u : String) :
    (t.intern s).2.position? u = if u = s then some (t.intern s).1 else t.position? u := by
  rw [Interner.intern]
  cases hs : t.position? s with
  | some i =>
    by_cases heq : u = s
    · rw [if_pos heq, heq, hs]
    · rw [if_neg heq]
  | none =>
    simp only [Interner.position?, Std.TreeMap.getElem?_insert, Std.compare_eq_iff_eq]
    simp only [eq_comm]

namespace VariableTable

variable {t t' t'' : VariableTable} {name : String} {storage : StorageClass} {extra : Nat}

/-! ## Tables as they come about -/

/-- No two names share a slot, and a name with a slot is a local. -/
structure Regular (t : VariableTable) : Prop where
  slots : t.slots.Distinct
  locals : ∀ {name}, name ∈ t.symbols → t.class? name = some .local

/-- What is known of a name in `t`, its class or its slot, is still so in `t'`. -/
structure Keeps (t t' : VariableTable) : Prop where
  classes : ∀ {name storage}, t.class? name = some storage → t'.class? name = some storage
  slots : ∀ {name n}, t.slots.position? name = some n → t'.slots.position? name = some n
  symbols : t.symbols <+: t'.symbols

theorem keeps_refl (t : VariableTable) : t.Keeps t :=
  ⟨fun h => h, fun h => h, List.prefix_rfl⟩

theorem Keeps.trans (h : t.Keeps t') (h' : t'.Keeps t'') : t.Keeps t'' :=
  ⟨fun hc => h'.classes (h.classes hc), fun hn => h'.slots (h.slots hn),
    h.symbols.trans h'.symbols⟩

theorem regular_empty : Regular {} where
  slots := Interner.distinct_empty
  locals := by rintro name ⟨⟩

/-- The table with the class of a new name; so many more names are parameters. -/
def tell (t : VariableTable) (name : String) (storage : StorageClass) (extra : Nat) :
    VariableTable :=
  { t with classes := t.classes.insert name storage, params := t.params + extra }

theorem class?_tell (t : VariableTable) (name other : String) (storage : StorageClass)
    (extra : Nat) :
    (t.tell name storage extra).class? other =
      if other = name then some storage else t.class? other :=
  t.class?_insert name other storage _

theorem keeps_tell (h : t.class? name = none) : t.Keeps (t.tell name storage extra) where
  classes {other _} hc := by
    rw [class?_tell, if_neg, hc]
    rintro rfl
    rw [h] at hc
    cases hc
  slots hn := hn
  symbols := List.prefix_rfl

theorem Regular.tell (ht : t.Regular) (h : t.class? name = none) :
    (t.tell name storage extra).Regular where
  slots := ht.slots
  locals hmem := (keeps_tell h).classes (ht.locals hmem)

theorem class?_takeSlot (t : VariableTable) (name other : String) :
    (t.takeSlot name).2.class? other = t.class? other :=
  rfl

theorem position?_takeSlot (t : VariableTable) (name other : String) :
    (t.takeSlot name).2.slots.position? other =
      if other = name then some (t.takeSlot name).1 else t.slots.position? other :=
  t.slots.position?_intern name other

theorem keeps_takeSlot (t : VariableTable) (name : String) : t.Keeps (t.takeSlot name).2 where
  classes h := h
  slots {other n} h := by
    rw [position?_takeSlot]
    split
    case isTrue heq =>
      subst heq
      rw [takeSlot, Interner.intern, h]
    case isFalse => exact h
  symbols := (t.extends_takeSlot name).listed

theorem Regular.symbols_takeSlot (ht : t.Regular) (name : String) :
    (t.takeSlot name).2.symbols = if name ∈ t.symbols then t.symbols else t.symbols ++ [name] :=
  ht.slots.toList_intern name

/-- A local gets its slot. -/
theorem Regular.takeSlot (ht : t.Regular) (h : t.class? name = some .local) :
    (t.takeSlot name).2.Regular where
  slots := ht.slots.intern name
  locals hmem := by
    rcases Interner.mem_intern hmem with hmem | rfl
    · exact ht.locals hmem
    · exact h

/-- A new name has no slot. -/
theorem Regular.not_mem (ht : t.Regular) (h : t.class? name = none) : name ∉ t.symbols := by
  intro hmem
  rw [ht.locals hmem] at h
  cases h

/-- A new local gets the next slot. -/
theorem Regular.symbols_add (ht : t.Regular) (h : t.class? name = none) (extra : Nat) :
    ((t.tell name .local extra).takeSlot name).2.symbols = t.symbols ++ [name] :=
  ((ht.tell h).symbols_takeSlot name).trans (if_neg (ht.not_mem h))

/-! ## Requests -/

/-- What a table of variables is asked. -/
inductive Request where
  | declareParameter (name : String)
  | declare (name : String) (storage : StorageClass)
  | resolve (name : String)
  | localSlot (name : String)
deriving Repr, DecidableEq

/-- What it answers. -/
inductive Answer where
  | slot (n : Option Nat)
  | declared (d : Declared)
  | storage (s : Option Storage)
deriving Repr, DecidableEq

/-- The slot that is given out with the answer. -/
def Answer.slot? : Answer → Option Nat
  | .slot n => n
  | .storage (some (.slot n)) => some n
  | _ => none

/-- The name that is asked for. -/
def Request.asked : Request → String
  | .declareParameter name | .declare name _ | .resolve name | .localSlot name => name

/-- The answer, and the table behind the request. -/
def Request.answer (t : VariableTable) : Request → Answer × VariableTable
  | .declareParameter name =>
    let (slot, t) := t.declareParameter name
    (.slot slot, t)
  | .declare name storage =>
    let (d, t) := t.declare name storage
    (.declared d, t)
  | .resolve name =>
    let (s, t) := t.resolve name
    (.storage s, t)
  | .localSlot name =>
    let (slot, t) := t.localSlot name
    (.slot slot, t)

/-- The request is for a parameter. -/
def Request.isParameter : Request → Bool
  | .declareParameter _ => true
  | _ => false

/-- The answers to requests in order, and the table behind them. -/
def serve (t : VariableTable) : List Request → List Answer × VariableTable
  | [] => ([], t)
  | r :: rest =>
    let (answer, t) := r.answer t
    let (answers, t) := serve t rest
    (answer :: answers, t)

/-- The slots in the answers, each with the name that was asked for. -/
def slotsGiven : List Request → List Answer → List (String × Nat)
  | r :: rest, a :: answers => (a.slot?.map (r.asked, ·)).toList ++ slotsGiven rest answers
  | _, _ => []

theorem serve_cons (t : VariableTable) (r : Request) (rest : List Request) :
    serve t (r :: rest) =
      ((r.answer t).1 :: (serve (r.answer t).2 rest).1, (serve (r.answer t).2 rest).2) :=
  rfl

theorem serve_append (t : VariableTable) (rs more : List Request) :
    serve t (rs ++ more) = ((serve t rs).1 ++ (serve (serve t rs).2 more).1,
      (serve (serve t rs).2 more).2) := by
  induction rs generalizing t with
  | nil => rfl
  | cons r rest ih =>
    rw [List.cons_append, serve_cons, ih, serve_cons]
    rfl

/-! ## What answers mean -/

/-- What a table tells: the classes of the names, the names of the slots and how many of them are
parameters. -/
structure Shows (t : VariableTable) (classes : String → Option StorageClass)
    (symbols : List String) (params : Nat) : Prop where
  classes : t.class? = classes
  symbols : t.symbols = symbols
  params : t.params = params

/--
The answer to a request in front of which the table is `t` and behind which it is `t'`. The slot of
a local is its place in the list of names, to which it is added if it is not there.
-/
def Request.Means (t t' : VariableTable) : Request → Answer → Prop
  | .declareParameter name, a =>
    match t.class? name with
    | some _ => a = .slot none ∧ t'.Shows t.class? t.symbols t.params
    | none =>
      a = .slot (some t.symbols.length) ∧
        t'.Shows (Function.update t.class? name (some .local)) (t.symbols ++ [name]) (t.params + 1)
  | .declare name storage, a =>
    match t.class? name with
    | some kept =>
      a = .declared (if kept = storage then .again kept else .conflict kept storage) ∧
        t'.Shows t.class? t.symbols t.params
    | none =>
      a = .declared (.new storage) ∧
        t'.Shows (Function.update t.class? name (some storage)) t.symbols t.params
  | .resolve name, a =>
    match t.class? name with
    | some .local =>
      a = .storage (some (.slot (t.symbols.idxOf name))) ∧
        t'.Shows t.class? (if name ∈ t.symbols then t.symbols else t.symbols ++ [name]) t.params
    | some .member => a = .storage (some .member) ∧ t'.Shows t.class? t.symbols t.params
    | some .global => a = .storage (some .global) ∧ t'.Shows t.class? t.symbols t.params
    | none => a = .storage none ∧ t'.Shows t.class? t.symbols t.params
  | .localSlot name, a =>
    match t.class? name with
    | some .local =>
      a = .slot (some (t.symbols.idxOf name)) ∧
        t'.Shows t.class? (if name ∈ t.symbols then t.symbols else t.symbols ++ [name]) t.params
    | some .member | some .global => a = .slot none ∧ t'.Shows t.class? t.symbols t.params
    | none =>
      a = .slot (some t.symbols.length) ∧
        t'.Shows (Function.update t.class? name (some .local)) (t.symbols ++ [name]) t.params

theorem shows_self (t : VariableTable) : t.Shows t.class? t.symbols t.params :=
  ⟨rfl, rfl, rfl⟩

theorem class?_tell_eq_update (t : VariableTable) (name : String) (storage : StorageClass)
    (extra : Nat) :
    (t.tell name storage extra).class? = Function.update t.class? name (some storage) := by
  funext other
  rw [class?_tell, Function.update_apply]

/-- A name takes its place in the list of names. -/
theorem Regular.takeSlot_fst (ht : t.Regular) (name : String) :
    (t.takeSlot name).1 = t.symbols.idxOf name := by
  have hlisted : (t.takeSlot name).2.symbols[(t.takeSlot name).1]? = some name :=
    takeSlot_listed ht.slots.sound name
  have hnodup : (t.takeSlot name).2.symbols.Nodup := (ht.slots.intern name).nodup
  have hidx : (t.takeSlot name).2.symbols.idxOf name = (t.takeSlot name).1 := by
    obtain ⟨hlt, heq⟩ := List.getElem?_eq_some_iff.mp hlisted
    have h := hnodup.idxOf_getElem _ hlt
    rwa [heq] at h
  rw [← hidx, ht.symbols_takeSlot]
  split
  case isTrue => rfl
  case isFalse hnew => rw [List.idxOf_append_of_notMem hnew, List.idxOf_eq_length hnew]; simp

theorem Regular.shows_takeSlot (ht : t.Regular) (name : String) :
    (t.takeSlot name).2.Shows t.class?
      (if name ∈ t.symbols then t.symbols else t.symbols ++ [name]) t.params :=
  ⟨rfl, ht.symbols_takeSlot name, rfl⟩

/-- A new local takes the next place. -/
theorem Regular.shows_add (ht : t.Regular) (h : t.class? name = none) (extra : Nat) :
    ((t.tell name .local extra).takeSlot name).1 = t.symbols.length ∧
      ((t.tell name .local extra).takeSlot name).2.Shows
        (Function.update t.class? name (some .local)) (t.symbols ++ [name]) (t.params + extra) :=
  ⟨((ht.tell h).takeSlot_fst name).trans (List.idxOf_eq_length (ht.not_mem h)),
    t.class?_tell_eq_update name .local extra, ht.symbols_add h extra, rfl⟩

/-- Every answer means what it says. -/
theorem Regular.means (ht : t.Regular) (r : Request) :
    r.Means t (r.answer t).2 (r.answer t).1 := by
  cases r with
  | declareParameter name =>
    simp only [Request.answer, Request.Means, VariableTable.declareParameter]
    cases h : t.class? name with
    | none =>
      obtain ⟨hslot, hshows⟩ := ht.shows_add h 1
      exact ⟨congrArg (Answer.slot ∘ some) hslot, hshows⟩
    | some storage => exact ⟨rfl, t.shows_self⟩
  | declare name storage =>
    simp only [Request.answer, Request.Means, VariableTable.declare]
    cases h : t.class? name with
    | none => exact ⟨rfl, t.class?_tell_eq_update name storage 0, rfl, rfl⟩
    | some kept => exact ⟨rfl, t.shows_self⟩
  | resolve name =>
    simp only [Request.answer, Request.Means, VariableTable.resolve]
    rcases h : t.class? name with _ | (_ | _ | _)
    · exact ⟨rfl, t.shows_self⟩
    · exact ⟨congrArg (Answer.storage ∘ some ∘ Storage.slot) (ht.takeSlot_fst name),
        ht.shows_takeSlot name⟩
    · exact ⟨rfl, t.shows_self⟩
    · exact ⟨rfl, t.shows_self⟩
  | localSlot name =>
    simp only [Request.answer, Request.Means, VariableTable.localSlot]
    rcases h : t.class? name with _ | (_ | _ | _)
    · obtain ⟨hslot, hshows⟩ := ht.shows_add h 0
      exact ⟨congrArg (Answer.slot ∘ some) hslot, hshows⟩
    · exact ⟨congrArg (Answer.slot ∘ some) (ht.takeSlot_fst name), ht.shows_takeSlot name⟩
    · exact ⟨rfl, t.shows_self⟩
    · exact ⟨rfl, t.shows_self⟩

/-! ## What requests do -/

/-- All that a request can do to a table, with the slot that it is given. -/
inductive Does (t : VariableTable) : Option (String × Nat) → VariableTable → Prop where
  | nothing : Does t none t
  | declare (name : String) (storage : StorageClass) (h : t.class? name = none) :
    Does t none (t.tell name storage 0)
  | take (name : String) (h : t.class? name = some .local) :
    Does t (some (name, (t.takeSlot name).1)) (t.takeSlot name).2
  /-- A new local gets its class and its slot. -/
  | add (name : String) (extra : Nat) (hextra : extra ≤ 1) (h : t.class? name = none) :
    Does t (some (name, ((t.tell name .local extra).takeSlot name).1))
      ((t.tell name .local extra).takeSlot name).2

theorem Request.does (t : VariableTable) (r : Request) :
    t.Does ((r.answer t).1.slot?.map (r.asked, ·)) (r.answer t).2 := by
  cases r with
  | declareParameter name =>
    simp only [answer, VariableTable.declareParameter]
    cases h : t.class? name with
    | none => exact .add name 1 (Nat.le_refl 1) h
    | some storage => exact .nothing
  | declare name storage =>
    simp only [answer, VariableTable.declare]
    cases h : t.class? name with
    | none => exact .declare name storage h
    | some kept => exact .nothing
  | resolve name =>
    simp only [answer, VariableTable.resolve]
    rcases h : t.class? name with _ | (_ | _ | _)
    · exact .nothing
    · exact .take name h
    · exact .nothing
    · exact .nothing
  | localSlot name =>
    simp only [answer, VariableTable.localSlot]
    rcases h : t.class? name with _ | (_ | _ | _)
    · exact .add name 0 (Nat.zero_le 1) h
    · exact .take name h
    · exact .nothing
    · exact .nothing

variable {slot : Option (String × Nat)}

theorem Does.keeps (h : t.Does slot t') : t.Keeps t' := by
  cases h with
  | nothing => exact t.keeps_refl
  | declare _ _ hnew => exact keeps_tell hnew
  | take => exact t.keeps_takeSlot _
  | add _ _ _ hnew => exact (keeps_tell hnew).trans (keeps_takeSlot _ _)

theorem Does.regular (h : t.Does slot t') (ht : t.Regular) : t'.Regular := by
  cases h with
  | nothing => exact ht
  | declare _ _ hnew => exact ht.tell hnew
  | take _ hlocal => exact ht.takeSlot hlocal
  | add name _ _ hnew =>
    refine (ht.tell hnew).takeSlot ?_
    rw [class?_tell, if_pos rfl]

theorem keeps_serve (t : VariableTable) (rs : List Request) : t.Keeps (serve t rs).2 := by
  induction rs generalizing t with
  | nil => exact t.keeps_refl
  | cons r rest ih => exact (r.does t).keeps.trans (ih _)

theorem Regular.serve (ht : t.Regular) (rs : List Request) : (serve t rs).2.Regular := by
  induction rs generalizing t with
  | nil => exact ht
  | cons r rest ih => exact ih ((r.does t).regular ht)

/-! ## Slots that were given out -/

/-- The slots of the table are those that were given out so far. -/
structure Allots (t : VariableTable) (given : List (String × Nat)) : Prop where
  regular : t.Regular
  ordered : t.symbols = (given.map Prod.fst).eraseDups
  listed : ∀ {name slot}, (name, slot) ∈ given → t.symbols[slot]? = some name
  params : t.params ≤ t.symbols.length

variable {given : List (String × Nat)}

theorem allots_empty : Allots {} [] where
  regular := regular_empty
  ordered := rfl
  listed := nofun
  params := Nat.le_refl 0

/-- Texts in the order of their first occurrence, with one more text. -/
theorem eraseDups_concat (l : List String) (s : String) :
    (l ++ [s]).eraseDups = if s ∈ l.eraseDups then l.eraseDups else l.eraseDups ++ [s] := by
  rw [List.eraseDups_append, List.removeAll]
  by_cases h : s ∈ l
  · simp [h]
  · simp [h, List.eraseDups_cons]

theorem Keeps.getElem? (h : t.Keeps t') {slot : Nat} (hs : t.symbols[slot]? = some name) :
    t'.symbols[slot]? = some name := by
  obtain ⟨more, hmore⟩ := h.symbols
  rw [← hmore, List.getElem?_append_left (List.getElem?_eq_some_iff.mp hs).1, hs]

/-- A request adds the slot that it is given to those given out before. -/
theorem Does.allots (h : t.Does slot t') (ha : t.Allots given) :
    t'.Allots (given ++ slot.toList) where
  regular := h.regular ha.regular
  ordered := by
    cases h with
    | nothing => rw [Option.toList_none, List.append_nil, ha.ordered]
    | declare =>
      rw [Option.toList_none, List.append_nil]
      exact ha.ordered
    | take name =>
      rw [ha.regular.symbols_takeSlot, Option.toList_some, List.map_append, List.map_singleton,
        eraseDups_concat, ha.ordered]
    | add name extra _ hnew =>
      rw [(ha.regular.tell hnew).symbols_takeSlot, Option.toList_some, List.map_append,
        List.map_singleton, eraseDups_concat, ← ha.ordered]
      rfl
  listed {other n} hmem := by
    rcases List.mem_append.mp hmem with hmem | hmem
    -- what was given out before stays where it is
    · exact h.keeps.getElem? (ha.listed hmem)
    · cases h with
      | nothing | declare => cases hmem
      | take =>
        cases List.mem_singleton.mp hmem
        exact takeSlot_listed ha.regular.slots.sound other
      | add _ _ _ hnew =>
        cases List.mem_singleton.mp hmem
        exact takeSlot_listed (ha.regular.tell hnew).slots.sound other
  params := by
    cases h with
    | nothing | declare => exact ha.params
    | take name => exact Nat.le_trans ha.params (t.keeps_takeSlot name).symbols.length_le
    | add name extra hextra hnew =>
      rw [ha.regular.symbols_add hnew, List.length_append]
      exact Nat.add_le_add ha.params hextra

theorem Allots.serve (ha : t.Allots given) (rs : List Request) :
    (serve t rs).2.Allots (given ++ slotsGiven rs (serve t rs).1) := by
  induction rs generalizing t given with
  | nil => simpa [VariableTable.serve, slotsGiven] using ha
  | cons r rest ih =>
    rw [serve_cons, slotsGiven, ← List.append_assoc]
    exact ih ((r.does t).allots ha)

/-! ## Parameters -/

theorem params_answer (t : VariableTable) {r : Request} (h : r.isParameter = false) :
    (r.answer t).2.params = t.params := by
  cases r with
  | declareParameter name => cases h
  | declare name storage =>
    simp only [Request.answer, VariableTable.declare]
    split <;> rfl
  | resolve name =>
    simp only [Request.answer, VariableTable.resolve]
    rcases t.class? name with _ | (_ | _ | _) <;> rfl
  | localSlot name =>
    simp only [Request.answer, VariableTable.localSlot]
    rcases t.class? name with _ | (_ | _ | _) <;> rfl

theorem params_serve (t : VariableTable) {rs : List Request}
    (h : ∀ r ∈ rs, r.isParameter = false) : (serve t rs).2.params = t.params := by
  induction rs generalizing t with
  | nil => rfl
  | cons r rest ih =>
    rw [serve_cons, ih _ fun r hr => h r (List.mem_cons_of_mem _ hr)]
    exact t.params_answer (h r List.mem_cons_self)

/-- Only the parameters `names` are known so far. -/
structure Heads (t : VariableTable) (names : List String) : Prop where
  regular : t.Regular
  symbols : t.symbols = names.eraseDups
  params : t.params = t.symbols.length
  known : ∀ name, t.class? name = none ∨ name ∈ t.symbols

theorem heads_empty : Heads {} [] where
  regular := regular_empty
  symbols := rfl
  params := rfl
  known _ := .inl rfl

/-- A parameter takes the next slot; one that is known is refused. -/
theorem Heads.declareParameter {names : List String} (h : t.Heads names) (name : String) :
    (t.declareParameter name).2.Heads (names ++ [name]) := by
  rw [VariableTable.declareParameter]
  cases hname : t.class? name with
  | some storage =>
    have hmem : name ∈ t.symbols := (h.known name).resolve_left (by simp [hname])
    refine ⟨h.regular, ?_, h.params, h.known⟩
    rw [eraseDups_concat, ← h.symbols, if_pos hmem]
  | none =>
    have hlocal : (t.tell name .local 1).class? name = some .local := by
      rw [class?_tell, if_pos rfl]
    have hsymbols := h.regular.symbols_add hname 1
    refine ⟨(h.regular.tell hname).takeSlot hlocal, ?_, ?_, fun other => ?_⟩
    · exact hsymbols.trans (by rw [eraseDups_concat, ← h.symbols, if_neg (h.regular.not_mem hname)])
    · refine Eq.trans ?_ (congrArg List.length hsymbols).symm
      rw [List.length_append, ← h.params]
      rfl
    · by_cases hother : other = name
      · right
        exact hsymbols ▸ List.mem_append_right _ (by rw [hother]; exact List.mem_singleton_self _)
      · refine (h.known other).imp (fun hnone => ?_) fun hmem => ?_
        · exact (t.class?_tell name other .local 1).trans (by rw [if_neg hother, hnone])
        · exact hsymbols ▸ List.mem_append_left _ hmem

/-- After parameters alone, the slots are those of the parameters in their order. -/
theorem heads_serve (names : List String) :
    (serve {} (names.map .declareParameter)).2.Heads names := by
  -- the request that is served last comes off first
  induction names using List.reverseRecOn with
  | nil => exact heads_empty
  | append_singleton names name ih =>
    rw [List.map_append, serve_append]
    exact ih.declareParameter name

/-! ## The order of the slots -/

/-- The slots of a table are numbered in the order in which they were first given out. -/
structure Numbered (t : VariableTable) (given : List (String × Nat)) : Prop where
  /-- The names of the slots, each where it was first given a slot. -/
  ordered : t.symbols = (given.map Prod.fst).eraseDups
  /-- A name that was given a slot is listed there. -/
  listed : ∀ name slot, (name, slot) ∈ given → t.symbols[slot]? = some name
  /-- A name has one slot, and a slot has one name. -/
  paired : ∀ name slot name' slot', (name, slot) ∈ given → (name', slot') ∈ given →
    (name = name' ↔ slot = slot')
  /-- No slot is left out, and there are no others. -/
  dense : ∀ slot, slot < t.symbols.length ↔ ∃ name, (name, slot) ∈ given
  /-- Members and globals have no slot. -/
  locals : ∀ name ∈ t.symbols, t.class? name = some .local
  params_le : t.params ≤ t.symbols.length
  params_add_locals : t.params + t.locals = t.symbols.length

/-- The number of a slot and the numbers of parameters and locals are words, and the difference that
is the number of locals does not underflow. -/
structure InWords (t : VariableTable) (given : List (String × Nat)) : Prop where
  slots : ∀ name slot, (name, slot) ∈ given → slot.toUInt32.toNat = slot
  params : t.params.toUInt32.toNat = t.params
  params_le : t.params.toUInt32 ≤ t.symbols.length.toUInt32
  locals : t.locals.toUInt32 = t.symbols.length.toUInt32 - t.params.toUInt32
  params_add_locals : t.params.toUInt32.toNat + t.locals.toUInt32.toNat = t.symbols.length

theorem Allots.numbered (h : t.Allots given) : t.Numbered given where
  ordered := h.ordered
  listed _ _ hmem := h.listed hmem
  paired name slot name' slot' hmem hmem' := by
    have hslot := h.listed hmem
    have hslot' := h.listed hmem'
    constructor
    · rintro rfl
      exact (List.getElem?_inj (List.getElem?_eq_some_iff.mp hslot).1 h.regular.slots.nodup).mp
        (hslot.trans hslot'.symm)
    · rintro rfl
      exact Option.some.inj (hslot.symm.trans hslot')
  dense slot := by
    constructor
    · intro hlt
      have hname : t.symbols[slot] ∈ (given.map Prod.fst).eraseDups := by
        rw [← h.ordered]
        exact List.getElem_mem hlt
      obtain ⟨⟨name, slot'⟩, hmem, hfst⟩ := List.mem_map.mp (List.mem_eraseDups.mp hname)
      have hslot : t.symbols[slot]? = some name := by rw [List.getElem?_eq_getElem hlt, ← hfst]
      have heq := (List.getElem?_inj hlt h.regular.slots.nodup).mp
        (hslot.trans (h.listed hmem).symm)
      exact ⟨name, heq ▸ hmem⟩
    · rintro ⟨name, hmem⟩
      exact (List.getElem?_eq_some_iff.mp (h.listed hmem)).1
  locals _ hmem := h.regular.locals hmem
  params_le := h.params
  params_add_locals := by
    have hsize : t.symbols.length = t.slots.size := by
      rw [symbols, Interner.toList, List.length_reverse, h.regular.slots.sound.counted]
    rw [VariableTable.locals, ← hsize]
    exact Nat.add_sub_cancel' h.params

/-- Fewer than 2^32 slots are counted in words. -/
theorem Numbered.inWords (h : t.Numbered given) (hfew : t.symbols.length < 2 ^ 32) :
    t.InWords given := by
  have hle := h.params_le
  have hsum := h.params_add_locals
  have hword {n : Nat} (hn : n ≤ t.symbols.length) : n.toUInt32.toNat = n :=
    UInt32.toNat_ofNat_of_lt' (Nat.lt_of_le_of_lt hn hfew)
  have hsymbols := hword (Nat.le_refl _)
  have hparams := hword hle
  have hlocals : t.locals.toUInt32.toNat = t.locals := hword (by omega)
  have hbelow : t.params.toUInt32 ≤ t.symbols.length.toUInt32 := by
    rw [UInt32.le_iff_toNat_le, hparams, hsymbols]
    exact hle
  refine ⟨fun name slot hmem => ?_, hparams, hbelow, ?_, ?_⟩
  · exact hword (Nat.le_of_lt ((h.dense slot).mpr ⟨name, hmem⟩))
  · rw [← UInt32.toNat_inj, UInt32.toNat_sub_of_le _ _ hbelow, hlocals, hsymbols, hparams]
    omega
  · rw [hparams, hlocals]
    exact hsum

/--
Whatever a table was asked, each answer means what it says. However declarations and uses follow
each other, names keep their classes and slots, and slots are numbered in the order in which they
were first given out, in words as long as fewer than 2^32 of them are taken. Where all parameters
are declared first, theirs are the first slots, in the order of their declarations.
-/
theorem slots_in_order (requests later : List Request)
    (hfew : (serve {} (requests ++ later)).2.symbols.length < 2 ^ 32) :
    (∀ r : Request, r.Means (serve {} requests).2 (r.answer (serve {} requests).2).2
      (r.answer (serve {} requests).2).1) ∧
    (serve {} requests).2.Keeps (serve {} (requests ++ later)).2 ∧
    (serve {} (requests ++ later)).2.Numbered
      (slotsGiven (requests ++ later) (serve {} (requests ++ later)).1) ∧
    (serve {} (requests ++ later)).2.InWords
      (slotsGiven (requests ++ later) (serve {} (requests ++ later)).1) ∧
    ∀ names : List String, requests = names.map .declareParameter →
      (∀ r ∈ later, r.isParameter = false) →
      (serve {} (requests ++ later)).2.params = names.eraseDups.length ∧
      ∀ slot, slot < (serve {} (requests ++ later)).2.params →
        (serve {} (requests ++ later)).2.symbols[slot]? = names.eraseDups[slot]? := by
  have hkeeps : (serve {} requests).2.Keeps (serve {} (requests ++ later)).2 := by
    rw [serve_append]
    exact keeps_serve _ later
  have hallots := allots_empty.serve (requests ++ later)
  rw [List.nil_append] at hallots
  have hnumbered := hallots.numbered
  refine ⟨(regular_empty.serve requests).means, hkeeps, hnumbered, hnumbered.inWords hfew, ?_⟩
  rintro names rfl hlater
  have hheads := heads_serve names
  have hparams : (serve {} (names.map .declareParameter ++ later)).2.params =
      names.eraseDups.length := by
    rw [serve_append, params_serve _ hlater, hheads.params, hheads.symbols]
  refine ⟨hparams, fun slot hslot => ?_⟩
  obtain ⟨more, hmore⟩ := hkeeps.symbols
  rw [hparams] at hslot
  rw [← hmore, hheads.symbols, List.getElem?_append_left hslot]

/-- Two parameters of one name, a global, and two locals of which the later is used first. -/
def firstUses : List Request :=
  [.declareParameter "p", .declareParameter "p", .declare "g" .global, .declare "a" .local,
    .localSlot "b", .resolve "a", .localSlot "g"]

/-- Their slots are those of the parameter, of `b` and of `a`. -/
theorem slots_in_order_firstUses :
    (serve {} firstUses).2.symbols.length < 2 ^ 32 ∧
      slotsGiven firstUses (serve {} firstUses).1 = [("p", 0), ("b", 1), ("a", 2)] ∧
      (serve {} firstUses).2.symbols = ["p", "b", "a"] ∧
      (serve {} firstUses).2.class? "g" = some .global ∧
      (serve {} firstUses).2.params.toUInt32 = 1 ∧ (serve {} firstUses).2.locals.toUInt32 = 2 := by
  have hfew : (serve {} ([] ++ firstUses)).2.symbols.length < 2 ^ 32 := by decide +kernel
  have hgiven : slotsGiven firstUses (serve {} firstUses).1 = [("p", 0), ("b", 1), ("a", 2)] := by
    decide +kernel
  have hparams : (serve {} firstUses).2.params.toUInt32 = 1 := by decide +kernel
  obtain ⟨-, -, hnumbered, hwords, -⟩ := slots_in_order [] firstUses hfew
  have hordered := hnumbered.ordered
  rw [List.nil_append, hgiven] at hordered
  have hlocals := hwords.locals
  rw [hnumbered.ordered, List.nil_append, hgiven, hparams] at hlocals
  exact ⟨hfew, hgiven, hordered, by decide +kernel, hparams, hlocals⟩

end VariableTable

end ScriptToolchain
