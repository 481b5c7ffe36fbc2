import Mathlib.Tactic
import ScriptToolchain.Code.Function

/-!
# Search by halves

A predicate that holds on a first part of a list ends somewhere, and a search by
halves finds that place: with each round the end stays in reach of the part that
is left. In a line table in order this is the last entry at or before an
address. Of other tables the search tells nothing that is used here.
-/

namespace ScriptToolchain

variable {α : Type} {p : α → Bool} {l : List α}

/-- A search by halves keeps the end of the first part in reach: `n` elements satisfy the
predicate. -/
theorem narrow_spec {n base size : Nat} (hn : ∀ k, (l[k]?).any p = true ↔ k < n)
    (hbase : base < n ∨ base = 0) (hend : n ≤ base + size) :
    (narrow p l base size < n ∨ narrow p l base size = 0) ∧ n ≤ narrow p l base size + 1 := by
  fun_induction narrow p l base size with
  | case1 base size hone middle ih =>
    by_cases hmiddle : middle < n
    · have hp := (hn middle).mpr hmiddle
      rw [dif_pos hp] at ih
      rw [if_pos hp]
      exact ih (.inl hmiddle) (by omega)
    · have hp := mt (hn middle).mp hmiddle
      rw [dif_neg hp] at ih
      rw [if_neg hp]
      exact ih hbase (by omega)
  | case2 base size hone => exact ⟨hbase, by omega⟩

/-- The search finds the end of the first part. -/
theorem partitionPoint_eq {n : Nat} (hn : ∀ k, (l[k]?).any p = true ↔ k < n) :
    partitionPoint p l = n := by
  have hlength : n ≤ l.length := by
    by_contra hlt
    have hlast := (hn l.length).mpr (not_le.mp hlt)
    simp at hlast
  have hwithin : n ≤ 0 + l.length := by omega
  obtain ⟨hfirst, hend⟩ := narrow_spec hn (.inr rfl) hwithin
  rw [partitionPoint]
  split
  case isTrue h =>
    have := (hn _).mp h
    omega
  case isFalse h =>
    have := mt (hn _).mpr h
    omega

/-- Where the predicate holds on a first part, that part is as long as what is taken with it. -/
theorem any_getElem?_iff_lt_takeWhile
    (h : l.Pairwise fun a b => p b = true → p a = true) {k : Nat} :
    (l[k]?).any p = true ↔ k < (l.takeWhile p).length := by
  induction l generalizing k with
  | nil => simp
  | cons a rest ih =>
    obtain ⟨hfirst, hrest⟩ := List.pairwise_cons.mp h
    by_cases ha : p a = true
    · rw [List.takeWhile_cons_of_pos ha, List.length_cons]
      cases k with
      | zero => simp [ha]
      | succ k => rw [List.getElem?_cons_succ, ih hrest, Nat.succ_lt_succ_iff]
    · rw [List.takeWhile_cons_of_neg ha]
      cases k with
      | zero => simpa using ha
      | succ k =>
        rw [List.getElem?_cons_succ, List.length_nil, Option.any_eq_true]
        refine ⟨?_, fun hlt => absurd hlt (Nat.not_lt_zero _)⟩
        rintro ⟨b, hb, hp⟩
        exact absurd (hfirst b (List.mem_of_getElem? hb) hp) ha

/-- In a table in order, the line of an address is that of the last entry up to it. -/
theorem CompiledFunction.lineAt?_of_rises {f : CompiledFunction} {entries : List LineEntry}
    (hlines : f.lines = some entries)
    (hrise : entries.Pairwise fun a b => a.address < b.address) (address : UInt32) :
    f.lineAt? address = ((entries.takeWhile (·.address ≤ address)).getLast?).map (·.line) := by
  have hfirst : entries.Pairwise fun a b =>
      decide (b.address ≤ address) = true → decide (a.address ≤ address) = true :=
    hrise.imp fun hlt hle => decide_eq_true (UInt32.le_trans (UInt32.le_of_lt hlt)
      (of_decide_eq_true hle))
  have hpoint := partitionPoint_eq fun k => any_getElem?_iff_lt_takeWhile hfirst (k := k)
  have hprefix := List.takeWhile_prefix (l := entries) fun e => decide (e.address ≤ address)
  rw [lineAt?, hlines]
  simp only [hpoint, List.getLast?_eq_getElem?]
  generalize entries.takeWhile (fun e => decide (e.address ≤ address)) = front at hprefix ⊢
  obtain ⟨back, rfl⟩ := hprefix
  cases hfront : front.length with
  | zero =>
    rw [List.length_eq_zero_iff.mp hfront]
    rfl
  | succ behind =>
    have hlast : (front ++ back)[behind]? = front[behind]? :=
      List.getElem?_append_left (by omega)
    rw [Nat.add_sub_cancel, ← hlast]

end ScriptToolchain
