/-!
# Maps as sorted lists

A finite map is the list of its entries in the ascending order of their keys.
`insert` replaces the value of a key that is there. What a map answers after
`insert` and `erase` is said by `get?_insert` and `get?_erase`.
-/

namespace ScriptToolchain

/-- A finite map from `κ` to `ν`. -/
structure SortedMap (κ ν : Type) where
  entries : List (κ × ν) := []
deriving Repr, DecidableEq

namespace SortedMap

variable {κ ν : Type}

/-- The number of keys. -/
def size (m : SortedMap κ ν) : Nat :=
  m.entries.length

/-- There is no key. -/
def isEmpty (m : SortedMap κ ν) : Bool :=
  m.entries.isEmpty

variable [DecidableEq κ]

/-- The value that a list of entries gives a key. -/
def find? (k : κ) : List (κ × ν) → Option ν
  | [] => none
  | (key, v) :: rest => if key = k then some v else find? k rest

/-- The value of a key. -/
def get? (m : SortedMap κ ν) (k : κ) : Option ν :=
  find? k m.entries

/-- The key has a value. -/
def contains (m : SortedMap κ ν) (k : κ) : Bool :=
  (m.get? k).isSome

/-- The map without a key. -/
def erase (m : SortedMap κ ν) (k : κ) : SortedMap κ ν :=
  { entries := m.entries.filter fun e => e.1 ≠ k }

variable [LT κ] [DecidableLT κ]

/-- An entry put at its place, over an entry with the same key. -/
def place (k : κ) (v : ν) : List (κ × ν) → List (κ × ν)
  | [] => [(k, v)]
  | (key, w) :: rest =>
    if key = k then (k, v) :: rest
    else if k < key then (k, v) :: (key, w) :: rest
    else (key, w) :: place k v rest

/-- The map that gives `k` the value `v`. -/
def insert (m : SortedMap κ ν) (k : κ) (v : ν) : SortedMap κ ν :=
  { entries := place k v m.entries }

theorem find?_place (k j : κ) (v : ν) (entries : List (κ × ν)) :
    find? j (place k v entries) = if k = j then some v else find? j entries := by
  induction entries with
  | nil => simp [place, find?]
  | cons e rest ih =>
    obtain ⟨key, w⟩ := e
    by_cases hk : key = k
    · subst hk
      by_cases hj : key = j <;> simp [place, find?, hj]
    · by_cases hlt : k < key
      · simp [place, find?, hk, hlt]
      · by_cases hj : k = j
        · subst hj
          simp [place, find?, hk, hlt, ih]
        · simp [place, find?, hk, hlt, ih, hj]

/-- An insertion changes the value of its key and of no other. -/
theorem get?_insert (m : SortedMap κ ν) (k j : κ) (v : ν) :
    (m.insert k v).get? j = if k = j then some v else m.get? j :=
  find?_place k j v m.entries

omit [LT κ] [DecidableLT κ] in
/-- An erased key has no value, and every other key keeps its own. -/
theorem get?_erase (m : SortedMap κ ν) (k j : κ) :
    (m.erase k).get? j = if k = j then none else m.get? j := by
  obtain ⟨entries⟩ := m
  simp only [get?, erase]
  induction entries with
  | nil => simp [find?]
  | cons e rest ih =>
    obtain ⟨key, w⟩ := e
    by_cases hk : key = k
    · subst hk
      by_cases hj : key = j
      · simp_all
      · simp_all [find?]
    · by_cases hj : key = j
      · subst hj
        have hk' : ¬ k = key := fun h => hk h.symm
        simp [find?, hk, hk']
      · simp_all [find?]

end SortedMap

end ScriptToolchain
