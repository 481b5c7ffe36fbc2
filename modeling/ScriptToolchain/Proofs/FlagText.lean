import Mathlib.Data.List.TakeWhile
import Mathlib.Tactic
import ScriptToolchain.Tree.Flags

/-!
# Texts of flags

The text of a set of flags lists its parts with a bar between blanks. Reading
splits it at the bars and trims what is between them, and so finds the parts
again; together they are the set, with the bits that have no name.
-/

namespace ScriptToolchain.NodeFlags

/-- A part is written without blanks and bars. -/
structure Solid (p : List Char) : Prop where
  ne_nil : p ≠ []
  all : ∀ c ∈ p, Text.isBlank c = false ∧ c ≠ '|'

/-- No character of the part is a blank or a bar. -/
theorem solid_of_all {p : List Char} (hne : p ≠ [])
    (hall : p.all (fun c => !Text.isBlank c && c != '|') = true) : Solid p where
  ne_nil := hne
  all c hc := by simpa using List.all_eq_true.mp hall c hc

/-- Blanks at the ends of a part are taken off. -/
theorem trim_solid {p : List Char} (h : Solid p) {before behind : List Char}
    (hbefore : ∀ c ∈ before, Text.isBlank c = true)
    (hbehind : ∀ c ∈ behind, Text.isBlank c = true) :
    Text.trim (before ++ p ++ behind) = p := by
  obtain ⟨first, rest, rfl⟩ := List.exists_cons_of_ne_nil h.ne_nil
  have hfirst : Text.isBlank first = false := (h.all first List.mem_cons_self).1
  have hdrop : (before ++ (first :: rest) ++ behind).dropWhile Text.isBlank =
      first :: rest ++ behind := by
    rw [List.append_assoc, List.dropWhile_append_of_pos hbefore, List.cons_append,
      List.dropWhile_cons_of_neg (by rw [hfirst]; exact Bool.false_ne_true)]
  have hlast : ((first :: rest).reverse).dropWhile Text.isBlank = (first :: rest).reverse := by
    obtain ⟨last, init, hreverse⟩ :=
      List.exists_cons_of_ne_nil (List.reverse_ne_nil_iff.mpr h.ne_nil)
    have hmem : last ∈ first :: rest := by
      rw [← List.mem_reverse, hreverse]
      exact List.mem_cons_self
    have hblank : ¬ Text.isBlank last = true := by
      rw [(h.all last hmem).1]
      exact Bool.false_ne_true
    rw [hreverse, List.dropWhile_cons_of_neg hblank]
  rw [Text.trim, hdrop, List.reverse_append,
    List.dropWhile_append_of_pos fun c hc => hbehind c (List.mem_reverse.mp hc), hlast,
    List.reverse_reverse]

/-- What is left of a text with a character that is no blank. -/
theorem trim_ne_nil {s : List Char} {c : Char} (hc : c ∈ s) (hblank : Text.isBlank c = false) :
    Text.trim s ≠ [] := by
  intro hnil
  have hall := List.dropWhile_eq_nil_iff.mp (List.reverse_eq_nil_iff.mp hnil)
  have hall' : Text.isBlank c = true := by
    rw [← List.takeWhile_append_dropWhile (p := Text.isBlank) (l := s)] at hc
    rcases List.mem_append.mp hc with hc | hc
    · exact List.mem_takeWhile_imp hc
    · exact hall c (List.mem_reverse.mpr hc)
  rw [hblank] at hall'
  cases hall'

/-- The parts are solid and stand for these sets. -/
def Reads (parts : List (List Char × NodeFlags)) : Prop :=
  ∀ x ∈ parts, Solid x.1 ∧ part? x.1 = some x.2

/-- Splitting at the bars finds the parts again. -/
theorem ofParts?_splitOn (parts : List (List Char × NodeFlags)) (x : List Char × NodeFlags)
    {before : List Char} (hbefore : ∀ c ∈ before, Text.isBlank c = true ∧ c ≠ '|')
    (h : Reads (x :: parts)) :
    ofParts? ((before ++ [' ', '|', ' '].intercalate ((x :: parts).map Prod.fst)).splitOn '|') =
      some ((x :: parts).foldr (fun x f => x.2.union f) {}) := by
  induction parts generalizing x before with
  | nil =>
    obtain ⟨hsolid, hpart⟩ := h x List.mem_cons_self
    have hbar : '|' ∉ before ++ x.1 := by
      rw [List.mem_append]
      rintro (hmem | hmem)
      · exact (hbefore _ hmem).2 rfl
      · exact (hsolid.all _ hmem).2 rfl
    have htrim : Text.trim (before ++ x.1 ++ []) = x.1 :=
      trim_solid hsolid (fun c hc => (hbefore c hc).1) nofun
    rw [List.append_nil] at htrim
    rw [List.map_singleton, List.intercalate_singleton, List.splitOn_eq_singleton hbar, ofParts?,
      htrim, hpart]
    rfl
  | cons y parts ih =>
    obtain ⟨hsolid, hpart⟩ := h x List.mem_cons_self
    have hbar : '|' ∉ before ++ x.1 ++ [' '] := by
      rw [List.mem_append, List.mem_append]
      rintro ((hmem | hmem) | hmem)
      · exact (hbefore _ hmem).2 rfl
      · exact (hsolid.all _ hmem).2 rfl
      · cases List.mem_singleton.mp hmem
    have hspace (c : Char) (hc : c ∈ [' ']) : Text.isBlank c = true ∧ c ≠ '|' := by
      rw [List.mem_singleton.mp hc]
      decide
    have hrest := @ih y [' '] hspace fun z hz => h z (List.mem_cons_of_mem _ hz)
    have htext : before ++ [' ', '|', ' '].intercalate ((x :: y :: parts).map Prod.fst) =
        (before ++ x.1 ++ [' ']) ++
          '|' :: ([' '] ++ [' ', '|', ' '].intercalate ((y :: parts).map Prod.fst)) := by
      simp [List.intercalate_cons_cons]
    rw [htext, List.splitOn_append_cons_self_of_not_mem hbar, ofParts?,
      trim_solid hsolid (fun c hc => (hbefore c hc).1) (fun c hc => (hspace c hc).1), hpart, hrest]
    rfl

/-- The digits of a byte in base 16 stand for it. -/
theorem part?_digits : ∀ n < 256,
    ('0' :: 'x' :: Nat.toDigits 16 n).all (fun c => !Text.isBlank c && c != '|') = true ∧
      part? ('0' :: 'x' :: Nat.toDigits 16 n) = some ⟨n.toUInt8⟩ := by
  decide +kernel

/-- The parts of the text of a set, each with what it stands for. -/
def parts (f : NodeFlags) : List (List Char × NodeFlags) :=
  ((named.filter fun (_, flag) => f.contains flag).map fun (name, flag) => (name.toList, flag)) ++
    if f.unnamedBits = 0 then []
    else [('0' :: 'x' :: Nat.toDigits 16 f.unnamedBits.toNat, ⟨f.unnamedBits⟩)]

theorem toList_text (f : NodeFlags) :
    f.text.toList = [' ', '|', ' '].intercalate (f.parts.map Prod.fst) := by
  rw [text, String.toList_intercalate, parts]
  congr 1
  rw [List.map_append, List.map_append, List.map_map, List.map_map]
  congr 1
  split
  · rfl
  · simp [Text.hex]

theorem reads_parts (f : NodeFlags) : Reads f.parts := by
  have hnamed : ∀ x ∈ named, Solid x.1.toList ∧ part? x.1.toList = some x.2 := by
    intro x hx
    simp only [named, List.mem_cons, List.not_mem_nil, or_false] at hx
    rcases hx with rfl | rfl
    · exact ⟨solid_of_all (by decide +kernel) (by decide +kernel), by decide +kernel⟩
    · exact ⟨solid_of_all (by decide +kernel) (by decide +kernel), by decide +kernel⟩
  intro x hx
  rcases List.mem_append.mp hx with hx | hx
  · obtain ⟨y, hy, rfl⟩ := List.mem_map.mp hx
    exact hnamed y (List.mem_of_mem_filter hy)
  · split at hx
    · cases hx
    · rw [List.mem_singleton.mp hx]
      obtain ⟨hall, hpart⟩ := part?_digits f.unnamedBits.toNat (UInt8.toNat_lt _)
      refine ⟨solid_of_all (List.cons_ne_nil _ _) hall, ?_⟩
      rw [hpart, Nat.toUInt8, UInt8.ofNat_toNat]

/-- A set is the union of its parts. -/
theorem union_parts (f : NodeFlags) : f.parts.foldr (fun x g => x.2.union g) {} = f := by
  obtain ⟨⟨b⟩⟩ := f
  revert b
  decide +kernel

/-- The text of a set of flags is read as the set. -/
theorem ofText?_text (f : NodeFlags) : ofText? f.text = some f := by
  have hreads := f.reads_parts
  have hunion := f.union_parts
  rw [ofText?, toList_text]
  cases hparts : f.parts with
  | nil =>
    rw [hparts] at hunion
    rw [← hunion]
    rfl
  | cons x ps =>
    rw [hparts] at hreads hunion
    obtain ⟨hsolid, -⟩ := hreads x List.mem_cons_self
    obtain ⟨c, cs, hx⟩ := List.exists_cons_of_ne_nil hsolid.ne_nil
    have hc : c ∈ [' ', '|', ' '].intercalate ((x :: ps).map Prod.fst) := by
      have hmem : c ∈ x.1 := by rw [hx]; exact List.mem_cons_self
      cases ps with
      | nil => simpa using hmem
      | cons y ps => simp [List.intercalate_cons_cons, hmem]
    have hblank : Text.isBlank c = false := (hsolid.all c (by rw [hx]; exact List.mem_cons_self)).1
    have htrim := trim_ne_nil hc hblank
    rw [if_neg (by rwa [List.isEmpty_iff])]
    exact (@ofParts?_splitOn ps x [] nofun hreads).trans (congrArg some hunion)

end ScriptToolchain.NodeFlags
