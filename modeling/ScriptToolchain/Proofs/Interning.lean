import ScriptToolchain.Text.Interner
import Mathlib.Data.List.Perm.Subperm

/-!
# Interned texts keep their numbers

A text is listed at its number, and what is listed once stays where it is:
lists only grow at their end.
-/

namespace ScriptToolchain.Interner

/-- Every text is listed at its number. -/
structure Sound (t : Interner) : Prop where
  counted : t.latest.length = t.size
  listed : ∀ {s i}, t.position? s = some i → t.toList[i]? = some s

theorem sound_empty : ({} : Interner).Sound where
  counted := rfl
  listed h := by
    rw [position?, Std.TreeMap.getElem?_emptyc] at h
    cases h

theorem Sound.lt_size {t : Interner} (h : t.Sound) {s : String} {i : Nat}
    (hi : t.toList[i]? = some s) : i < t.size := by
  obtain ⟨hlt, -⟩ := List.getElem?_eq_some_iff.mp hi
  rwa [toList, List.length_reverse, h.counted] at hlt

/-- The interner `t'` comes from `t` by adding texts. -/
structure Extends (t t' : Interner) : Prop where
  listed : t.toList <+: t'.toList
  sound : t.Sound → t'.Sound

theorem extends_refl (t : Interner) : t.Extends t :=
  ⟨List.prefix_rfl, fun h => h⟩

theorem Extends.trans {t t' t'' : Interner} (h : t.Extends t') (h' : t'.Extends t'') :
    t.Extends t'' :=
  ⟨h.listed.trans h'.listed, fun ht => h'.sound (h.sound ht)⟩

theorem Extends.size_le {t t' : Interner} (h : t.Extends t') (ht : t.Sound) :
    t.size ≤ t'.size := by
  have := h.listed.length_le
  rwa [toList, toList, List.length_reverse, List.length_reverse, ht.counted,
    (h.sound ht).counted] at this

theorem size_intern_le (t : Interner) (s : String) : (t.intern s).2.size ≤ t.size + 1 := by
  rw [intern]
  split
  · exact Nat.le_succ _
  · exact Nat.le_refl _

theorem extends_intern (t : Interner) (s : String) : t.Extends (t.intern s).2 := by
  rw [intern]
  split
  · exact t.extends_refl
  · refine ⟨⟨[s], by simp only [toList, List.reverse_cons]⟩, fun h => ⟨?_, ?_⟩⟩
    · simp only [List.length_cons, h.counted]
    · intro u i hi
      simp only [position?, Std.TreeMap.getElem?_insert] at hi
      simp only [toList, List.reverse_cons]
      split at hi
      · rename_i hs
        cases hi
        rw [← h.counted, ← List.length_reverse, List.getElem?_concat_length,
          Std.LawfulEqCmp.eq_of_compare hs]
      · have hu : t.latest.reverse[i]? = some u := h.listed hi
        rw [List.getElem?_append_left (List.getElem?_eq_some_iff.mp hu).1]
        exact hu

/-- The number of a text is where it is listed from now on. -/
theorem Sound.intern_listed {t : Interner} (h : t.Sound) (s : String) :
    (t.intern s).2.toList[(t.intern s).1]? = some s := by
  rw [intern]
  split
  · rename_i i hi
    exact h.listed hi
  · simp only [toList, List.reverse_cons]
    rw [← h.counted, ← List.length_reverse, List.getElem?_concat_length]

/-- Every text is listed once and has its number. -/
structure Distinct (t : Interner) : Prop where
  sound : t.Sound
  nodup : t.toList.Nodup
  numbered : ∀ s ∈ t.toList, t.position? s ≠ none

theorem distinct_empty : ({} : Interner).Distinct where
  sound := sound_empty
  nodup := List.nodup_nil
  numbered := by rintro s ⟨⟩

theorem mem_intern {t : Interner} {s u : String} (h : u ∈ (t.intern s).2.toList) :
    u ∈ t.toList ∨ u = s := by
  rw [intern] at h
  split at h
  · exact .inl h
  · simpa only [toList, List.reverse_cons, List.mem_append, List.mem_singleton] using h

theorem Distinct.intern {t : Interner} (h : t.Distinct) (s : String) : (t.intern s).2.Distinct := by
  have hsound := (t.extends_intern s).sound h.sound
  cases hs : t.position? s with
  | some i =>
    rw [Interner.intern, hs]
    exact h
  | none =>
    have hall (u : String) := t.mem_intern (s := s) (u := u)
    rw [Interner.intern, hs] at hsound hall ⊢
    refine ⟨hsound, ?_, fun u hu => ?_⟩
    · simp only [toList, List.reverse_cons]
      refine List.nodup_append.mpr ⟨h.nodup, by simp, ?_⟩
      rintro u hu v hv rfl
      exact h.numbered u hu (List.mem_singleton.mp hv ▸ hs)
    · simp only [position?, Std.TreeMap.getElem?_insert]
      split
      · exact nofun
      · rename_i hne
        refine h.numbered u ((hall u hu).resolve_right ?_)
        rintro rfl
        exact hne Std.ReflCmp.compare_self

/-- There are no more texts than in a list that has all of them. -/
theorem Distinct.size_le {t : Interner} (h : t.Distinct) {names : List String}
    (hall : ∀ s ∈ t.toList, s ∈ names) : t.size ≤ names.length := by
  have hlength : t.toList.length = t.size := by
    rw [toList, List.length_reverse, h.sound.counted]
  rw [← hlength]
  exact (List.subperm_of_subset h.nodup hall).length_le

end ScriptToolchain.Interner
