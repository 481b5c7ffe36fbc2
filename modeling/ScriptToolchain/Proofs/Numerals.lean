import Mathlib.Tactic
import ScriptToolchain.Json.Number
import ScriptToolchain.Json.Parser

/-!
# Numerals and their texts

The digits of a natural write it, and the text of a numeral is read back to the
last digit, as long as nothing behind it goes on with the number.
-/

namespace ScriptToolchain

namespace Digit

theorem ofChar?_toChar (d : Digit) : ofChar? d.toChar = some d := by
  revert d
  decide

/-- The characters of digits are no others. -/
theorem toChar_ne (d : Digit) {c : Char} (h : ofChar? c = none) : d.toChar ≠ c := by
  rintro rfl
  rw [ofChar?_toChar] at h
  cases h

theorem ofChar?_digitChar {n : Nat} (h : n < 10) : ofChar? n.digitChar = some (Fin.ofNat 10 n) := by
  revert h n
  decide

theorem toChar_ofNat {n : Nat} (h : n < 10) : toChar (Fin.ofNat 10 n) = n.digitChar := by
  revert h n
  decide

/-- The digits of a natural, the last one apart. -/
theorem ofNat_eq (n : Nat) :
    ofNat n = if n < 10 then [Fin.ofNat 10 n] else ofNat (n / 10) ++ [Fin.ofNat 10 n] := by
  rw [ofNat, Nat.toDigits_eq_if (by decide)]
  split
  · rw [List.filterMap_cons, ofChar?_digitChar ‹_›]
    rfl
  · rw [List.filterMap_append, List.filterMap_cons,
      ofChar?_digitChar (Nat.mod_lt n (by decide : 0 < 10))]
    simp [ofNat, Fin.ofNat]

theorem ofNat_ne_nil (n : Nat) : ofNat n ≠ [] := by
  rw [ofNat_eq]
  split
  · exact List.cons_ne_nil _ _
  · exact List.append_ne_nil_of_right_ne_nil _ (List.cons_ne_nil _ _)

theorem toNat_concat (ds : List Digit) (d : Digit) : toNat (ds ++ [d]) = toNat ds * 10 + d.val :=
  List.foldl_concat ..

/-- The digits of a natural write it. -/
@[simp]
theorem toNat_ofNat (n : Nat) : toNat (ofNat n) = n := by
  induction n using Nat.strongRecOn with
  | ind n ih =>
    rw [ofNat_eq]
    split
    · simp [toNat, Fin.ofNat, Nat.mod_eq_of_lt ‹_›]
    · rw [toNat_concat, ih (n / 10) (by omega)]
      simp only [Fin.ofNat]
      omega

/-- There is a digit, and a zero does not stand before another one. -/
structure Leads (ds : List Digit) : Prop where
  ne_nil : ds ≠ []
  nonzero : 1 < ds.length → ds.head? ≠ some zero

theorem head?_ofNat {n : Nat} (h : 0 < n) : (ofNat n).head? ≠ some zero := by
  induction n using Nat.strongRecOn with
  | ind n ih =>
    rw [ofNat_eq]
    split
    · intro hzero
      have hval := congrArg (fun d : Option Digit => d.map Fin.val) hzero
      simp [Fin.ofNat, zero] at hval
      omega
    · rw [List.head?_append_of_ne_nil _ (ofNat_ne_nil _)]
      exact ih (n / 10) (by omega) (by omega)

theorem leads_ofNat (n : Nat) : Leads (ofNat n) where
  ne_nil := ofNat_ne_nil n
  nonzero h := by
    refine head?_ofNat (Nat.pos_of_ne_zero ?_)
    rintro rfl
    exact absurd h (by decide)

/-- The text of a natural has its digits. -/
theorem toList_toString (n : Nat) : (toString n).toList = (ofNat n).map toChar := by
  have hdigits : ∀ n, Nat.toDigits 10 n = (ofNat n).map toChar := by
    intro n
    induction n using Nat.strongRecOn with
    | ind n ih =>
      rw [ofNat_eq, Nat.toDigits_eq_if (by decide)]
      split
      · rw [List.map_singleton, toChar_ofNat ‹_›]
      · rw [ih (n / 10) (by omega), List.map_append, List.map_singleton,
          ← toChar_ofNat (Nat.mod_lt n (by decide : 0 < 10))]
        simp [Fin.ofNat]
  exact (String.toList_ofList).trans (hdigits n)

end Digit

namespace Json

/-! ## Reading a number -/

/-- The text does not go on with digits. -/
def NoDigit (s : List Char) : Prop :=
  ∀ c, s.head? = some c → Digit.ofChar? c = none

/-- The text does not go on with a number that ends in front of it. -/
structure NumberEnds (s : List Char) : Prop where
  digit : NoDigit s
  point : s.head? ≠ some '.'
  exponent : s.head? ≠ some 'e' ∧ s.head? ≠ some 'E'

theorem numberEnds_nil : NumberEnds [] :=
  ⟨nofun, nofun, nofun, nofun⟩

theorem digits_map (ds : List Digit) {rest : List Char} (h : NoDigit rest) :
    digits (ds.map Digit.toChar ++ rest) = (ds, rest) := by
  induction ds with
  | nil =>
    cases rest with
    | nil => rfl
    | cons c rest =>
      rw [List.map_nil, List.nil_append, digits, h c rfl]
  | cons d ds ih =>
    rw [List.map_cons, List.cons_append, digits, Digit.ofChar?_toChar]
    simp only [ih]

theorem someDigits?_map {ds : List Digit} (hds : ds ≠ []) {rest : List Char} (h : NoDigit rest) :
    someDigits? (ds.map Digit.toChar ++ rest) = some (ds, rest) := by
  rw [someDigits?, digits_map ds h]
  cases ds with
  | nil => exact absurd rfl hds
  | cons d ds => rfl

theorem whole?_map {ds : List Digit} (hds : Digit.Leads ds) {rest : List Char} (h : NoDigit rest) :
    whole? (ds.map Digit.toChar ++ rest) = some (ds, rest) := by
  rw [whole?, digits_map ds h]
  match ds, hds with
  | [], hds => exact absurd rfl hds.ne_nil
  | [d], _ => rfl
  | d :: e :: ds, hds =>
    have hd : d ≠ Digit.zero := by
      rintro rfl
      exact hds.nonzero (by simp) rfl
    exact if_neg hd

/-- A digit is no sign. -/
theorem sign_map {ds : List Digit} (hds : ds ≠ []) (rest : List Char) :
    sign (ds.map Digit.toChar ++ rest) = (false, ds.map Digit.toChar ++ rest) := by
  cases ds with
  | nil => exact absurd rfl hds
  | cons d ds =>
    rw [List.map_cons, List.cons_append, sign]
    exact fun s hs => d.toChar_ne (by decide) (List.cons.inj hs).1

/-- The text of an integer is read as an exponent. -/
theorem exponentBody?_toString (e : Int) {rest : List Char} (h : NoDigit rest) :
    exponentBody? ((toString e).toList ++ rest) = some (e, rest) := by
  cases e with
  | ofNat n =>
    have htext : (toString (Int.ofNat n)).toList = (Digit.ofNat n).map Digit.toChar :=
      Digit.toList_toString n
    have hne := Digit.ofNat_ne_nil n
    have hdigits := someDigits?_map hne h
    have hsign := sign_map hne rest
    rw [htext, exponentBody?, hsign]
    · simp [hdigits]
    · obtain ⟨d, ds, hds⟩ := List.exists_cons_of_ne_nil hne
      intro s hs
      rw [hds, List.map_cons, List.cons_append] at hs
      exact d.toChar_ne (by decide) (List.cons.inj hs).1
  | negSucc n =>
    have htext : (toString (Int.negSucc n)).toList =
        '-' :: (Digit.ofNat (n + 1)).map Digit.toChar := by
      rw [← Digit.toList_toString]
      exact String.toList_append
    rw [htext, List.cons_append, exponentBody?]
    · simp only [sign, someDigits?_map (Digit.ofNat_ne_nil _) h]
      simp [Int.negSucc_eq]
    · simp

/-- What stands behind the digits before the point. -/
def fractionText (n : Numeral) : List Char :=
  if n.fraction.isEmpty then [] else '.' :: n.fraction.map Digit.toChar

/-- What stands behind the digits. -/
def exponentText (n : Numeral) : List Char :=
  match n.exponent with
  | none => []
  | some e => 'e' :: (toString e).toList

theorem toList_text (n : Numeral) :
    n.text.toList = (if n.negative then ['-'] else []) ++ n.whole.map Digit.toChar ++
      fractionText n ++ exponentText n := by
  rcases n with ⟨negative, whole, fraction, exponent⟩
  cases negative <;> cases fraction <;> cases exponent <;>
    simp [Numeral.text, fractionText, exponentText]

theorem exponent?_text (n : Numeral) {rest : List Char} (h : NumberEnds rest) :
    exponent? (exponentText n ++ rest) = some (n.exponent, rest) := by
  rw [exponentText]
  cases n.exponent with
  | none =>
    rw [List.nil_append, exponent?]
    · exact fun s hs => h.exponent.1 (by rw [hs]; rfl)
    · exact fun s hs => h.exponent.2 (by rw [hs]; rfl)
  | some e =>
    rw [List.cons_append, exponent?, exponentBody?_toString e h.digit]
    rfl

theorem fraction?_text (n : Numeral) {rest : List Char} (h : NoDigit rest)
    (hpoint : rest.head? ≠ some '.') :
    fraction? (fractionText n ++ rest) = some (n.fraction, rest) := by
  rw [fractionText]
  cases hfraction : n.fraction with
  | nil =>
    rw [List.isEmpty_nil, if_pos rfl, List.nil_append, fraction?]
    exact fun s hs => hpoint (by rw [hs]; rfl)
  | cons d ds =>
    rw [List.isEmpty_cons, if_neg Bool.false_ne_true, List.cons_append, fraction?,
      someDigits?_map (List.cons_ne_nil _ _) h]

/-- The text of a numeral is read back. -/
theorem number?_text {n : Numeral} (h : Digit.Leads n.whole) {rest : List Char}
    (hrest : NumberEnds rest) : number? (n.text.toList ++ rest) = some (n, rest) := by
  have hsign : sign (n.text.toList ++ rest) =
      (n.negative, n.whole.map Digit.toChar ++ (fractionText n ++ (exponentText n ++ rest))) := by
    rw [toList_text]
    cases n.negative with
    | true => simp [sign]
    | false => simpa using sign_map h.ne_nil (fractionText n ++ (exponentText n ++ rest))
  have hexponent : NoDigit (exponentText n ++ rest) ∧
      (exponentText n ++ rest).head? ≠ some '.' := by
    rw [exponentText]
    cases n.exponent with
    | none => exact ⟨hrest.digit, hrest.point⟩
    | some e => exact ⟨fun c hc => by cases hc; decide, nofun⟩
  have hfraction : NoDigit (fractionText n ++ (exponentText n ++ rest)) := by
    rw [fractionText]
    split
    · exact hexponent.1
    · exact fun c hc => by cases hc; decide
  rw [number?, hsign]
  simp only [whole?_map h hfraction, fraction?_text n hexponent.1 hexponent.2,
    exponent?_text n hrest, bind, Option.bind, pure]

/-! ## Integers -/

/-- An integer of 64 bits is taken for itself. -/
theorem readNumber?_ofInt {i : Int} (hleast : -2 ^ 63 ≤ i) (hgreatest : i < 2 ^ 64) :
    (readNumber? (Numeral.ofInt i)).bind NumberValue.toInt? = some i := by
  rw [readNumber?]
  simp only [Numeral.ofInt, Numeral.isIntegral, List.isEmpty_nil, Option.isNone_none,
    Bool.true_and, Digit.toNat_ofNat]
  by_cases hneg : i < 0
  · have hword : 1 ≤ i.natAbs ∧ 2 * i.natAbs ≤ UInt64.size := by
      rw [UInt64.size]
      omega
    simp [hneg, hword, NumberValue.toInt?, abs_of_neg hneg]
  · have hword : i.natAbs < UInt64.size := by
      rw [UInt64.size]
      omega
    simp [hneg, hword, NumberValue.toInt?]
    omega

/-- An integer is read back between bounds of 64 bits. -/
theorem intBetween?_int {least greatest i : Int} (h : least ≤ i ∧ i ≤ greatest)
    (hleast : -2 ^ 63 ≤ i) (hgreatest : i < 2 ^ 64) :
    (Json.int i).intBetween? least greatest = some i := by
  rw [Json.int, intBetween?, readNumber?_ofInt hleast hgreatest]
  exact if_pos h

end Json

end ScriptToolchain
