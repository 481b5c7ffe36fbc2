import ScriptToolchain.Source
import ScriptToolchain.Proofs.Remainder

/-!
# Sources are told apart by their checksums

The table of sources only looks at checksums. Registering texts one after the
other leaves, for each checksum, the first text that has it, in the order in
which they came (`registered_by_checksum`). A text that comes first among all
texts with its checksum is found under it as it was registered, and any other
text is not held: the one found in its place is another one.
-/

namespace ScriptToolchain.SourceTable

/-- A text to be registered, and its name if it has one. -/
structure Submission where
  text : String
  name : Option String := none
deriving Repr, DecidableEq

/-- The source that a text becomes if there is none with its checksum. -/
def Submission.entry (s : Submission) : SourceEntry :=
  { id := idOf s.text, name := s.name.getD unnamed, text := s.text }

/-- Registers texts one after the other. -/
def addAll (t : SourceTable) (l : List Submission) : SourceTable :=
  l.foldl (fun t s => (t.add s.text s.name).2) t

theorem addAll_cons (t : SourceTable) (s : Submission) (l : List Submission) :
    t.addAll (s :: l) = (t.add s.text s.name).2.addAll l :=
  rfl

theorem add_of_get?_eq_some {t : SourceTable} {s : Submission} {e : SourceEntry}
    (h : t.get? (idOf s.text) = some e) : t.add s.text s.name = (idOf s.text, t) := by
  rw [add, h]

theorem add_of_get?_eq_none {t : SourceTable} {s : Submission}
    (h : t.get? (idOf s.text) = none) :
    t.add s.text s.name = (idOf s.text, { entries := t.entries ++ [s.entry] }) := by
  rw [add, h]
  rfl

/-! ## What is found under a checksum -/

theorem id_of_get?_eq_some {t : SourceTable} {id : UInt32} {e : SourceEntry}
    (h : t.get? id = some e) : e.id = id := by
  simpa using List.find?_some h

/-- A registration answers for its own checksum only, and only if nothing did before. -/
theorem get?_add (t : SourceTable) (s : Submission) (id : UInt32) :
    (t.add s.text s.name).2.get? id =
      (t.get? id).or (if idOf s.text = id then some s.entry else none) := by
  cases hfound : t.get? (idOf s.text) with
  | some e =>
    rw [add_of_get?_eq_some hfound]
    split
    · subst id
      rw [hfound, Option.some_or]
    · rw [Option.or_none]
  | none =>
    rw [add_of_get?_eq_none hfound]
    simp only [get?, List.find?_append, List.find?_singleton, decide_eq_true_eq]
    rfl

theorem get?_addAll (t : SourceTable) (l : List Submission) (id : UInt32) :
    (t.addAll l).get? id =
      (t.get? id).or ((l.find? fun s => idOf s.text = id).map Submission.entry) := by
  induction l generalizing t with
  | nil => simp [addAll]
  | cons s l ih =>
    rw [addAll_cons, ih, get?_add, Option.or_assoc, List.find?_cons]
    by_cases hs : idOf s.text = id <;> simp [hs]

/-- Under a checksum stands the first text that has it. -/
theorem get?_addAll_empty (l : List Submission) (id : UInt32) :
    (addAll {} l).get? id = (l.find? fun s => idOf s.text = id).map Submission.entry :=
  get?_addAll {} l id

theorem exists_get?_of_mem {l : List Submission} {s : Submission} (hs : s ∈ l) :
    ∃ e, (addAll {} l).get? (idOf s.text) = some e := by
  rw [get?_addAll_empty]
  cases hfound : l.find? fun other => idOf other.text = idOf s.text with
  | some other => exact ⟨other.entry, rfl⟩
  | none =>
    have hne : ¬idOf s.text = idOf s.text := by simpa using List.find?_eq_none.mp hfound s hs
    exact absurd rfl hne

/-- Of the texts with one checksum, the first is found and no other. -/
theorem get?_of_first {l before after : List Submission} {s : Submission}
    (hl : l = before ++ s :: after) (hfirst : ∀ other ∈ before, other.text ≠ s.text) :
    ∃ e, (addAll {} l).get? (idOf s.text) = some e ∧
      (e.text = s.text ↔ ∀ other ∈ before, idOf other.text ≠ idOf s.text) ∧
      (e.text = s.text → e = s.entry) := by
  rw [get?_addAll_empty, hl, List.find?_append, List.find?_cons_of_pos (by simp)]
  cases hother : before.find? fun other => idOf other.text = idOf s.text with
  | some other =>
    -- an earlier text has the checksum; it is another one, and it stays
    have hmem := List.mem_of_find?_eq_some hother
    have hid : idOf other.text = idOf s.text := by simpa using List.find?_some hother
    have htext : other.entry.text ≠ s.text := hfirst other hmem
    exact ⟨other.entry, rfl, ⟨fun h => absurd h htext, fun h => absurd hid (h other hmem)⟩,
      fun h => absurd h htext⟩
  | none =>
    have hnone : ∀ other ∈ before, idOf other.text ≠ idOf s.text := by
      simpa using List.find?_eq_none.mp hother
    exact ⟨s.entry, rfl, ⟨fun _ => hnone, fun _ => rfl⟩, fun _ => rfl⟩

/-! ## The table as a list -/

/-- The table holds sources from the list in its order, with different checksums. -/
structure Lists (t : SourceTable) (l : List Submission) : Prop where
  sublist : t.entries.Sublist (l.map Submission.entry)
  distinct : t.entries.Pairwise fun e e' => e.id ≠ e'.id

theorem Lists.add {t : SourceTable} {l : List Submission} (h : t.Lists l) (s : Submission) :
    (t.add s.text s.name).2.Lists (l ++ [s]) := by
  have hgrown : (l ++ [s]).map Submission.entry = l.map Submission.entry ++ [s.entry] := by simp
  cases hfound : t.get? (idOf s.text) with
  | some e =>
    rw [add_of_get?_eq_some hfound]
    refine ⟨?_, h.distinct⟩
    rw [hgrown]
    exact h.sublist.trans (List.sublist_append_left _ _)
  | none =>
    rw [add_of_get?_eq_none hfound]
    refine ⟨?_, List.pairwise_append.mpr ⟨h.distinct, List.pairwise_singleton _ _, ?_⟩⟩
    · rw [hgrown]
      exact h.sublist.append (List.Sublist.refl _)
    · intro e he e' he'
      rw [List.mem_singleton.mp he']
      have hid : ¬e.id = idOf s.text := by simpa using List.find?_eq_none.mp hfound e he
      exact hid

theorem Lists.addAll {t : SourceTable} {l : List Submission} (h : t.Lists l)
    (more : List Submission) : (t.addAll more).Lists (l ++ more) := by
  induction more generalizing t l with
  | nil => simpa [SourceTable.addAll] using h
  | cons s more ih =>
    rw [addAll_cons, List.append_cons]
    exact ih (h.add s)

theorem lists_addAll (l : List Submission) : (addAll {} l).Lists l :=
  Lists.addAll (l := []) ⟨List.Sublist.slnil, List.Pairwise.nil⟩ l

/-- Registered texts share a source if and only if they share a checksum. -/
theorem get?_eq_iff {l : List Submission} {s s' : Submission} (hs : s ∈ l) :
    (addAll {} l).get? (idOf s.text) = (addAll {} l).get? (idOf s'.text) ↔
      idOf s.text = idOf s'.text := by
  refine ⟨fun h => ?_, congrArg _⟩
  obtain ⟨e, he⟩ := exists_get?_of_mem hs
  exact (id_of_get?_eq_some he).symm.trans (id_of_get?_eq_some (h.symm.trans he))

/--
After any registrations, a checksum is answered with the first text that has it, under the name
given there. So the first registration of a text is the one that is found, as it was given, if and
only if no other text with its checksum came before; texts share a source if and only if they share
a checksum; and the sources stand in the order of their registration, one for each checksum. The
checksum of a text is the standard CRC-32 of its bytes.
-/
theorem registered_by_checksum (l : List Submission) :
    (∀ id, (addAll {} l).get? id =
        (l.find? fun s => idOf s.text = id).map Submission.entry) ∧
      (∀ before s after, l = before ++ s :: after → (∀ other ∈ before, other.text ≠ s.text) →
        ∃ e, (addAll {} l).get? (idOf s.text) = some e ∧
          (e.text = s.text ↔ ∀ other ∈ before, idOf other.text ≠ idOf s.text) ∧
          (e.text = s.text → e = s.entry)) ∧
      (∀ s ∈ l, ∀ s' ∈ l,
        (addAll {} l).get? (idOf s.text) = (addAll {} l).get? (idOf s'.text) ↔
          idOf s.text = idOf s'.text) ∧
      (addAll {} l).Lists l ∧
      ∀ text c, c = idOf text ↔ Checksum.register (~~~c) =
        (Checksum.message (Bytes.ofText text).toList * Polynomial.X ^ 32 +
            Checksum.register 0xFFFFFFFF * Polynomial.X ^ (8 * (Bytes.ofText text).size)) %ₘ
          Checksum.generator :=
  ⟨get?_addAll_empty l, fun _ _ _ => get?_of_first, fun _ hs _ _ => get?_eq_iff hs,
    lists_addAll l, fun _ => Checksum.eq_crc32_iff _⟩

/-- Two texts with one checksum. -/
def colliding : List Submission :=
  [⟨"plumless", some "a.gm"⟩, ⟨"buckeroo", some "b.gm"⟩]

/-- Of two texts with one checksum, the later is not held. -/
theorem later_text_lost :
    ¬∀ (l : List Submission), ∀ s ∈ l, ∃ e, (addAll {} l).get? (idOf s.text) = some e ∧
      e.text = s.text := by
  intro held
  obtain ⟨e, he, htext⟩ := held colliding ⟨"buckeroo", some "b.gm"⟩ (by decide)
  have hfound : ((addAll {} colliding).get? (idOf "buckeroo")).map (·.text) = some "plumless" := by
    decide +kernel
  rw [he, Option.map_some, htext] at hfound
  exact absurd hfound (by decide)

end ScriptToolchain.SourceTable
