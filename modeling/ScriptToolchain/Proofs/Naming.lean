import Mathlib.Data.List.Dedup
import ScriptToolchain.Proofs.Growth
import ScriptToolchain.Proofs.Interning
import ScriptToolchain.Proofs.Shape

/-!
# Names of a function

Which names the variables of a function have, and what that means for its
table: a function of few names has few slots, and a variable of `foreach` that
is nowhere declared a member or a global always gets one.
-/

namespace ScriptToolchain

namespace Node

/-- The nodes right below that are evaluated in the same function. -/
def inner : Node → List Node
  | .function .. => []
  | .operation _ .dot [object, _] => [object]
  | .operation _ .assignField [_, value] => [value]
  | n => n.children

theorem mem_children_of_inner {m n : Node} (h : m ∈ n.inner) : m ∈ n.children := by
  unfold inner at h
  split at h
  · cases h
  · exact List.mem_cons.mpr (.inl (List.mem_singleton.mp h))
  · exact List.mem_cons_of_mem _ h
  · exact h

/-- The second node is the first one or is evaluated below it in the same function. -/
inductive Owns : Node → Node → Prop where
  | self (n : Node) : Owns n n
  | child {n m k : Node} (h : m ∈ n.inner) (hk : Owns m k) : Owns n k

theorem Owns.inner {body n m : Node} (h : body.Owns n) (hm : m ∈ n.inner) : body.Owns m := by
  induction h with
  | self n => exact .child hm (.self m)
  | child hk _ ih => exact .child hk (ih hm)

/-- The variables that a `foreach` sets. -/
def loopNames : Node → List String
  | .foreach _ _ key value _ => [key.getD Compile.hiddenKey, value]
  | _ => []

/-- The variables that the node itself uses. -/
def variableNames : Node → List String
  | .identifier _ name => [name]
  | n => n.loopNames

/-- The name is that of a variable which a `foreach` of the function sets. -/
def SetsInLoop (body : Node) (name : String) : Prop :=
  ∃ l, body.Owns l ∧ name ∈ l.loopNames

/-- The function has no other variables, and those that a `foreach` sets are at most locals. -/
structure Uses (body : Node) (names : List String) : Prop where
  few : names.length ≤ UInt16.size
  listed : ∀ {n name}, body.Owns n → name ∈ n.variableNames → name ∈ names
  locals : ∀ {m storage name}, body.Owns (.declaration m storage name) →
    body.SetsInLoop name → storage = .local

/-- The names of a function with these parameters fit. -/
def FunctionNamesFit (params : List Node) (body : Node) : Prop :=
  ∃ names, body.Uses names ∧ ∀ name ∈ params.filterMap parameter?, name ∈ names

/-- The names of every function of the tree fit. -/
structure NamesFit (n : Node) : Prop where
  root : FunctionNamesFit [] n
  literals : ∀ {m params body}, n.Contains (.function m params body) →
    FunctionNamesFit params body

/-! ## Deciding what a function uses -/

/-- The nodes of the function up to `k` levels below. -/
def owned : Nat → Node → List Node
  | 0, _ => []
  | k + 1, n => n :: n.inner.flatMap (owned k)

/-- As many levels as there are nodes are all levels. -/
theorem mem_owned {k : Nat} {n m : Node} (hk : n.count ≤ k) : m ∈ owned k n ↔ n.Owns m := by
  induction k generalizing n with
  | zero => exact absurd (Nat.le_trans n.one_le_count hk) (by decide)
  | succ k ih =>
    have hbelow {l : Node} (hl : l ∈ n.inner) : l.count ≤ k := by
      have := count_lt_of_mem_children (mem_children_of_inner hl)
      omega
    rw [owned, List.mem_cons, List.mem_flatMap]
    constructor
    · rintro (rfl | ⟨l, hl, hm⟩)
      · exact .self m
      · exact .child hl ((ih (hbelow hl)).mp hm)
    · rintro (_ | ⟨hl, hm⟩)
      · exact .inl rfl
      · exact .inr ⟨_, hl, (ih (hbelow hl)).mpr hm⟩

/-- The class that a declaration gives, if the node is one of this name. -/
def declares? (name : String) : Node → Option StorageClass
  | .declaration _ storage other => if other = name then some storage else none
  | _ => none

theorem declares?_eq_some {name : String} {storage : StorageClass} {n : Node} :
    n.declares? name = some storage ↔ ∃ m, n = .declaration m storage name := by
  cases n <;> simp [declares?]
  grind

instance (body : Node) (names : List String) : Decidable (body.Uses names) :=
  let nodes := owned body.count body
  decidable_of_iff (names.length ≤ UInt16.size ∧
      (∀ n ∈ nodes, ∀ name ∈ n.variableNames, name ∈ names) ∧
      ∀ l ∈ nodes, ∀ name ∈ l.loopNames, ∀ d ∈ nodes,
        d.declares? name = none ∨ d.declares? name = some .local) <| by
  simp only [nodes, mem_owned (Nat.le_refl _)]
  constructor
  · rintro ⟨hfew, hlisted, hlocals⟩
    refine ⟨hfew, fun hn hname => hlisted _ hn _ hname, ?_⟩
    rintro m storage name hd ⟨l, hl, hname⟩
    have hclass := hlocals l hl name hname _ hd
    simpa [declares?] using hclass
  · rintro ⟨hfew, hlisted, hlocals⟩
    refine ⟨hfew, fun n hn name hname => hlisted hn hname, fun l hl name hname d hd => ?_⟩
    cases hclass : d.declares? name with
    | none => exact .inl rfl
    | some storage =>
      obtain ⟨m, rfl⟩ := declares?_eq_some.mp hclass
      rw [hlocals hd ⟨l, hl, hname⟩]
      exact .inr rfl

/-- The variables of the function, each once. -/
def usedNames (params : List Node) (body : Node) : List String :=
  ((owned body.count body).flatMap variableNames ++ params.filterMap parameter?).dedup

theorem mem_usedNames {params : List Node} {body : Node} {name : String} :
    name ∈ usedNames params body ↔
      (∃ n, body.Owns n ∧ name ∈ n.variableNames) ∨ name ∈ params.filterMap parameter? := by
  simp only [usedNames, List.mem_dedup, List.mem_append, List.mem_flatMap,
    mem_owned (Nat.le_refl _)]

/-- Names fit if those that are used do: there are never fewer. -/
theorem functionNamesFit_iff {params : List Node} {body : Node} :
    FunctionNamesFit params body ↔ body.Uses (usedNames params body) := by
  constructor
  · rintro ⟨names, huses, hparams⟩
    refine ⟨?_, fun hn hname => mem_usedNames.mpr (.inl ⟨_, hn, hname⟩), huses.locals⟩
    have hsub : usedNames params body ⊆ names := by
      intro name hname
      rcases mem_usedNames.mp hname with ⟨n, hn, hname⟩ | hname
      · exact huses.listed hn hname
      · exact hparams name hname
    exact Nat.le_trans ((List.nodup_dedup _).subperm hsub).length_le huses.few
  · exact fun huses => ⟨_, huses, fun name hname => mem_usedNames.mpr (.inr hname)⟩

instance (params : List Node) (body : Node) : Decidable (FunctionNamesFit params body) :=
  decidable_of_iff _ functionNamesFit_iff.symm

instance (n : Node) : Decidable n.NamesFit :=
  decidable_of_iff (FunctionNamesFit [] n ∧ holdsDown (fun
    | .function _ params body => FunctionNamesFit params body
    | _ => true) n.count n = true) <| by
  rw [holdsDown_iff (Nat.le_refl _)]
  constructor
  · rintro ⟨hroot, h⟩
    exact ⟨hroot, fun hm => of_decide_eq_true (h _ hm)⟩
  · rintro ⟨hroot, h⟩
    refine ⟨hroot, fun m hm => ?_⟩
    split
    · exact decide_eq_true (h hm)
    · rfl

end Node

namespace VariableTable

/-- The slots belong to these names, and names for which `loop` holds are at most locals. -/
structure Within (names : List String) (loop : String → Prop) (t : VariableTable) : Prop where
  slots : t.slots.Distinct
  listed : ∀ name ∈ t.slots.toList, name ∈ names
  locals : ∀ {name}, loop name → ∀ {storage}, t.class? name = some storage → storage = .local

variable {names : List String} {loop : String → Prop} {t : VariableTable} {name : String}

theorem within_empty (names : List String) (loop : String → Prop) : Within names loop {} where
  slots := Interner.distinct_empty
  listed := by rintro name ⟨⟩
  locals _ _ h := by
    rw [class?, Std.TreeMap.getElem?_emptyc] at h
    cases h

theorem class?_insert (t : VariableTable) (name other : String) (storage : StorageClass)
    (params : Nat) :
    ({ t with classes := t.classes.insert name storage, params } : VariableTable).class? other =
      if other = name then some storage else t.class? other := by
  simp only [class?, Std.TreeMap.getElem?_insert]
  by_cases h : other = name
  · subst h
    simp
  · rw [if_neg h, if_neg]
    intro heq
    exact h (Std.LawfulEqCmp.eq_of_compare heq).symm

theorem Within.insert (h : t.Within names loop) {storage : StorageClass}
    (hs : loop name → storage = .local) {params : Nat} :
    Within names loop { t with classes := t.classes.insert name storage, params } where
  slots := h.slots
  listed := h.listed
  locals hl _ hc := by
    rw [class?_insert] at hc
    split at hc
    · rename_i heq
      cases hc
      exact hs (heq ▸ hl)
    · exact h.locals hl hc

theorem Within.takeSlot (h : t.Within names loop) (hn : name ∈ names) :
    (t.takeSlot name).2.Within names loop where
  slots := h.slots.intern name
  listed other ho := by
    rcases Interner.mem_intern ho with ho | rfl
    · exact h.listed other ho
    · exact hn
  locals hl _ hc := h.locals hl hc

/-- Slots are counted by names. -/
theorem Within.takeSlot_lt (h : t.Within names loop) (hn : name ∈ names) :
    (t.takeSlot name).1 < names.length := by
  have hlisted := h.slots.sound.intern_listed name
  have hslots := h.takeSlot hn
  exact Nat.lt_of_lt_of_le (hslots.slots.sound.lt_size hlisted)
    (hslots.slots.size_le hslots.listed)

theorem Within.declare (h : t.Within names loop) {storage : StorageClass}
    (hs : loop name → storage = .local) : (t.declare name storage).2.Within names loop := by
  rw [VariableTable.declare]
  split
  · exact h
  · exact h.insert hs

theorem Within.declareParameter (h : t.Within names loop) (hn : name ∈ names) :
    (t.declareParameter name).2.Within names loop := by
  rw [VariableTable.declareParameter]
  split
  · exact h
  · exact ((h.insert fun _ => rfl).takeSlot hn)

theorem Within.resolve (h : t.Within names loop) (hn : name ∈ names) :
    (t.resolve name).2.Within names loop := by
  rw [VariableTable.resolve]
  split
  · exact h
  · exact h.takeSlot hn
  · exact h
  · exact h

theorem Within.localSlot (h : t.Within names loop) (hn : name ∈ names) :
    (t.localSlot name).2.Within names loop := by
  rw [VariableTable.localSlot]
  split
  · exact h.takeSlot hn
  · exact h
  · exact (h.insert fun _ => rfl).takeSlot hn

/-- A name that is at most a local gets one of the slots. -/
theorem Within.localSlot_some (h : t.Within names loop) (hn : name ∈ names) (hl : loop name) :
    ∃ slot, (t.localSlot name).1 = some slot ∧ slot < names.length := by
  rw [VariableTable.localSlot]
  cases hclass : t.class? name with
  | none =>
    exact ⟨_, rfl, (h.insert fun _ => rfl).takeSlot_lt hn⟩
  | some storage =>
    cases h.locals hl hclass
    exact ⟨_, rfl, h.takeSlot_lt hn⟩

end VariableTable

end ScriptToolchain
