import Mathlib.Tactic
import ScriptToolchain.Code.Listing
import ScriptToolchain.Proofs.CodeRoundTrip
import ScriptToolchain.Proofs.Numerals

/-!
# Listings and their code

A line of a listing is a row of words with blanks between them, and no word has a
blank or a line end in it. So the lines are found again in the text, and the
words in the lines (`lines_of_text`, `words_of_line`). The words of a line give
back address, operation and immediate, but for floats with one text
(`alike_of_words`); that is all that a listing loses (`code_eq_iff_alike`).
-/

namespace ScriptToolchain

/-! ## Words -/

/-- A text without blanks and line ends. -/
structure Text.Word (s : String) : Prop where
  blank : ' ' ∉ s.toList
  lineEnd : '\n' ∉ s.toList

namespace Text

theorem word_of_all {s : String} (h : ∀ c ∈ s.toList, c ≠ ' ' ∧ c ≠ '\n') : Word s where
  blank hmem := (h _ hmem).1 rfl
  lineEnd hmem := (h _ hmem).2 rfl

instance (s : String) : Decidable (Word s) :=
  decidable_of_iff ((s.toList.all fun c => c != ' ' && c != '\n') = true)
    ⟨fun h => word_of_all (by simpa using h), fun h => by
      rw [List.all_eq_true]
      intro c hc
      simp only [Bool.and_eq_true, bne_iff_ne]
      exact ⟨fun hblank => h.blank (hblank ▸ hc), fun hend => h.lineEnd (hend ▸ hc)⟩⟩

theorem word_append {s s' : String} (h : Word s) (h' : Word s') : Word (s ++ s') where
  blank := by
    rw [String.toList_append, List.mem_append, not_or]
    exact ⟨h.blank, h'.blank⟩
  lineEnd := by
    rw [String.toList_append, List.mem_append, not_or]
    exact ⟨h.lineEnd, h'.lineEnd⟩

theorem word_digits {s : String} (h : ∀ c ∈ s.toList, c.isDigit = true) : Word s := by
  apply word_of_all
  intro c hc
  have hdigit := h c hc
  constructor
  · rintro rfl
    exact absurd hdigit (by decide)
  · rintro rfl
    exact absurd hdigit (by decide)

theorem isDigit_of_mem_decimal {n : Nat} {c : Char} (h : c ∈ (toString n).toList) :
    c.isDigit = true := by
  rw [Nat.toString_eq_repr, Nat.toList_repr] at h
  exact Nat.isDigit_of_mem_toDigits (by decide) (by decide) h

theorem word_decimal (n : Nat) : Word (toString n) :=
  word_digits fun _ => isDigit_of_mem_decimal

theorem toList_zeroPadded (width n : Nat) : (zeroPadded width n).toList =
    List.replicate (width - (toString n).length) '0' ++ Nat.toDigits 10 n := by
  rw [zeroPadded, padLeft, String.toList_append, String.toList_ofList, Nat.toString_eq_repr,
    Nat.toList_repr]

theorem word_zeroPadded (width n : Nat) : Word (zeroPadded width n) := by
  apply word_digits
  intro c hc
  rw [toList_zeroPadded] at hc
  rcases List.mem_append.mp hc with hzero | hdigit
  · rw [List.eq_of_mem_replicate hzero]
    rfl
  · exact Nat.isDigit_of_mem_toDigits (by decide) (by decide) hdigit

/-- Zeros in front do not change what digits write. -/
theorem zeroPadded_injective {width m n : Nat} (h : zeroPadded width m = zeroPadded width n) :
    m = n := by
  have hvalue : ∀ n, Nat.ofDigitChars 10 (zeroPadded width n).toList 0 = n := by
    intro n
    rw [toList_zeroPadded, Nat.ofDigitChars_append, Nat.ofDigitChars_replicate_zero, Nat.mul_zero,
      Nat.ofDigitChars_ten_toDigits]
  rw [← hvalue m, h, hvalue n]

theorem decimal_injective {m n : Nat} (h : toString m = toString n) : m = n := by
  have hvalue : ∀ n : Nat, Nat.ofDigitChars 10 (toString n).toList 0 = n := by
    intro n
    rw [Nat.toString_eq_repr, Nat.toList_repr, Nat.ofDigitChars_ten_toDigits]
  rw [← hvalue m, h, hvalue n]

theorem word_integer (i : Int) : Word (toString i) := by
  cases i with
  | ofNat n => exact word_decimal n
  | negSucc n => exact word_append (s := "-") (by decide) (word_decimal (n + 1))

/-- A sign is no digit. -/
theorem decimal_ne_negative (m n : Nat) : toString m ≠ "-" ++ toString n := by
  intro h
  have hsign : '-' ∈ (toString m).toList := by
    rw [h, String.toList_append]
    exact List.mem_append_left _ (by decide)
  exact absurd (isDigit_of_mem_decimal hsign) (by decide)

theorem integer_injective {i j : Int} (h : toString i = toString j) : i = j := by
  cases i with
  | ofNat m =>
    cases j with
    | ofNat n => exact congrArg Int.ofNat (decimal_injective h)
    | negSucc n => exact absurd h (decimal_ne_negative m (n + 1))
  | negSucc m =>
    cases j with
    | ofNat n => exact absurd h.symm (decimal_ne_negative n (m + 1))
    | negSucc n =>
      have hdigits : toString (m + 1) = toString (n + 1) := String.append_right_inj "-" |>.mp h
      exact congrArg Int.negSucc (Nat.succ.inj (decimal_injective hdigits))

end Text

open Text

/-! ## The words of an instruction -/

/-- The word of a slot pair comes back from its halves. -/
theorem SlotPair.pack_unpack (w : UInt32) : (unpack w).pack = w := by
  have hw : w.toNat < 2 ^ 32 := w.toNat_lt
  have hlow : w.toNat % 2 ^ 16 < 2 ^ 16 := Nat.mod_lt _ (by decide)
  apply UInt32.toNat_inj.mp
  calc (unpack w).pack.toNat = (w.toNat / 2 ^ 16) <<< 16 ||| w.toNat % 2 ^ 16 := by
        have hhigh : w.toNat / 2 ^ 16 % 2 ^ 16 = w.toNat / 2 ^ 16 := Nat.mod_eq_of_lt (by omega)
        have hshift : (w.toNat / 2 ^ 16) <<< 16 % 2 ^ 32 = (w.toNat / 2 ^ 16) <<< 16 := by
          rw [Nat.shiftLeft_eq]
          exact Nat.mod_eq_of_lt (by omega)
        simp only [pack, unpack, UInt32.toNat_or, UInt32.toNat_shiftLeft, UInt16.toNat_toUInt32,
          UInt32.toNat_toUInt16, UInt32.toNat_shiftRight, Nat.shiftRight_eq_div_pow,
          UInt32.reduceToNat, Nat.reduceMod, hhigh, hshift]
    _ = (w.toNat / 2 ^ 16) <<< 16 + w.toNat % 2 ^ 16 :=
        (Nat.shiftLeft_add_eq_or_of_lt hlow _).symm
    _ = w.toNat := by
        rw [Nat.shiftLeft_eq]
        omega

theorem Opcode.mnemonic_injective {op op' : Opcode} (h : op.mnemonic = op'.mnemonic) :
    op = op' := by
  -- a mnemonic stands in the table at the place of its operation only
  have hplace : ∀ op : Opcode,
      all.findIdx? (fun other => other.mnemonic = op.mnemonic) = some op.ctorIdx := by
    intro op
    cases op <;> decide +kernel
  have hidx : op.ctorIdx = op'.ctorIdx := by
    have hop := hplace op
    rw [h, hplace op'] at hop
    exact (Option.some.inj hop).symm
  have hopcode : ∀ op : Opcode, ofTag? op.tag = some op := Opcode.ofTag?_tag
  have htag : op.tag = op'.tag := congrArg Nat.toUInt32 hidx
  exact Option.some.inj ((hopcode op).symm.trans (htag ▸ hopcode op'))

namespace Listing

/-- The words of an immediate. -/
def operandWords (op : Opcode) : Operand → List String
  | .none => []
  | .int v =>
    if op = .foreach then
      let slots := SlotPair.unpack v.toUInt32
      ["k" ++ toString slots.key, "v" ++ toString slots.value]
    else [toString v]
  | .float bits => [float bits]
  | .word v => [if op.isBranch then "@" ++ zeroPadded 4 v.toNat else "#" ++ toString v]

/-- The words of an instruction. -/
def words (i : Instruction) : List String :=
  zeroPadded 4 i.address.toNat :: i.opcode.mnemonic :: operandWords i.opcode i.operand

theorem toList_instruction (i : Instruction) :
    (instruction i).toList = [' '].intercalate ((words i).map String.toList) := by
  rcases i with ⟨address, op, x⟩
  cases x with
  | none => simp [instruction, operand, words, operandWords, List.intercalate, toString]
  | int v =>
    by_cases hop : op = .foreach <;>
      simp [instruction, operand, words, operandWords, List.intercalate, hop, toString]
  | float bits => simp [instruction, operand, words, operandWords, List.intercalate, toString]
  | word v =>
    cases hop : op.isBranch <;>
      simp [instruction, operand, words, operandWords, List.intercalate, hop, toString]

theorem word_mnemonic (op : Opcode) : Word op.mnemonic := by
  cases op <;> decide

/-- The characters of a numeral are no blanks and no line ends. -/
theorem word_numeral (n : Numeral) : Word n.text := by
  have hdigits : ∀ (ds : List Digit) (c : Char), c ∈ ds.map Digit.toChar → c ≠ ' ' ∧ c ≠ '\n' := by
    intro ds c hc
    obtain ⟨d, -, rfl⟩ := List.mem_map.mp hc
    exact ⟨d.toChar_ne (by decide), d.toChar_ne (by decide)⟩
  apply word_of_all
  intro c hc
  rw [Json.toList_text, List.mem_append, List.mem_append, List.mem_append] at hc
  rcases hc with ((hsign | hwhole) | hfraction) | hexponent
  · split at hsign
    · rw [List.mem_singleton.mp hsign]
      decide
    · cases hsign
  · exact hdigits _ c hwhole
  · rw [Json.fractionText] at hfraction
    split at hfraction
    · cases hfraction
    · rcases List.mem_cons.mp hfraction with rfl | hmem
      · decide
      · exact hdigits _ c hmem
  · rw [Json.exponentText] at hexponent
    split at hexponent
    · cases hexponent
    · rename_i e _
      rcases List.mem_cons.mp hexponent with rfl | hmem
      · decide
      · constructor
        · rintro rfl
          exact (word_integer e).blank hmem
        · rintro rfl
          exact (word_integer e).lineEnd hmem

theorem word_float (bits : UInt32) : Word (float bits) := by
  unfold float
  split
  · decide
  · split
    · decide
    · decide
  · exact word_numeral _

theorem word_of_mem_words {i : Instruction} {w : String} (h : w ∈ words i) : Word w := by
  have hoperand : ∀ w ∈ operandWords i.opcode i.operand, Word w := by
    cases i.operand with
    | none => nofun
    | int v =>
      intro w hw
      rw [operandWords] at hw
      split at hw
      · rcases List.mem_cons.mp hw with rfl | hw
        · exact word_append (by decide) (word_decimal _)
        · rw [List.mem_singleton.mp hw]
          exact word_append (by decide) (word_decimal _)
      · rw [List.mem_singleton.mp hw]
        exact word_integer v.toInt
    | float bits =>
      intro w hw
      rw [List.mem_singleton.mp hw]
      exact word_float bits
    | word v =>
      intro w hw
      rw [List.mem_singleton.mp hw]
      split
      · exact word_append (by decide) (word_zeroPadded 4 v.toNat)
      · exact word_append (by decide) (word_decimal v.toNat)
  rcases List.mem_cons.mp h with rfl | h
  · exact word_zeroPadded 4 i.address.toNat
  · rcases List.mem_cons.mp h with rfl | h
    · exact word_mnemonic i.opcode
    · exact hoperand w h

/-! ## Lines and words are found again -/

/-- The words of a line are what stands between its blanks. -/
theorem words_of_line (i : Instruction) :
    (instruction i).toList.splitOn ' ' = (words i).map String.toList := by
  rw [toList_instruction]
  apply List.splitOn_intercalate
  · intro l hl
    obtain ⟨w, hw, rfl⟩ := List.mem_map.mp hl
    exact (word_of_mem_words hw).blank
  · exact List.cons_ne_nil _ _

/-- What separates lists brings no other character with it. -/
theorem notMem_intercalate {sep c : Char} (hsep : c ≠ sep) {ls : List (List Char)}
    (h : ∀ l ∈ ls, c ∉ l) : c ∉ [sep].intercalate ls := by
  induction ls with
  | nil => exact List.not_mem_nil
  | cons l rest ih =>
    obtain ⟨hl, hrest⟩ := List.forall_mem_cons.mp h
    cases rest with
    | nil => rwa [List.intercalate_singleton]
    | cons l' rest =>
      rw [List.intercalate_cons_cons, List.mem_append, List.mem_append, not_or, not_or,
        List.mem_singleton]
      exact ⟨⟨hl, hsep⟩, ih hrest⟩

theorem lineEnd_notMem_instruction (i : Instruction) : '\n' ∉ (instruction i).toList := by
  rw [toList_instruction]
  apply notMem_intercalate (by decide)
  intro l hl
  obtain ⟨w, hw, rfl⟩ := List.mem_map.mp hl
  exact (word_of_mem_words hw).lineEnd

/-- The lines of a text are what stands before its line ends. -/
theorem lines_of_text {lines : List String} (h : ∀ s ∈ lines, '\n' ∉ s.toList) :
    (ofLines lines).toList.splitOn '\n' = lines.map String.toList ++ [[]] := by
  induction lines with
  | nil => rfl
  | cons s rest ih =>
    obtain ⟨hs, hrest⟩ := List.forall_mem_cons.mp h
    have htext : (ofLines (s :: rest)).toList = s.toList ++ '\n' :: (ofLines rest).toList := by
      simp [ofLines, String.toList_join]
    rw [htext, List.splitOn_append_cons_self_of_not_mem hs, ih hrest]
    rfl

/-! ## What a listing keeps -/

/-- The instructions are the same, but for floats with one text. -/
inductive Alike : Instruction → Instruction → Prop
  | same (i : Instruction) : Alike i i
  | float (address : UInt32) (op : Opcode) {x y : UInt32} : float x = float y →
    Alike ⟨address, op, .float x⟩ ⟨address, op, .float y⟩

/-- Immediates of one kind with the same words are the same, but for floats with one text. -/
theorem operand_of_words {op : Opcode} {x y : Operand} (hkind : x.kind = y.kind)
    (h : operandWords op x = operandWords op y) :
    x = y ∨ ∃ u v, x = .float u ∧ y = .float v ∧ float u = float v := by
  cases x with
  | none =>
    cases y with
    | none => exact .inl rfl
    | _ => cases hkind
  | int v =>
    cases y with
    | int w =>
      left
      rw [operandWords, operandWords] at h
      split at h
      · -- the two slots of the packed word, each behind its mark
        simp only [List.cons.injEq, String.append_right_inj, and_true] at h
        obtain ⟨hkey, hvalue⟩ := h
        have hslots : SlotPair.unpack v.toUInt32 = SlotPair.unpack w.toUInt32 := by
          have hkey' := UInt16.toNat_inj.mp (decimal_injective hkey)
          have hvalue' := UInt16.toNat_inj.mp (decimal_injective hvalue)
          exact SlotPair.mk.injEq .. ▸ ⟨hkey', hvalue'⟩
        have hword := congrArg SlotPair.pack hslots
        rw [SlotPair.pack_unpack, SlotPair.pack_unpack] at hword
        rw [← Int32.toInt32_toUInt32 v, hword, Int32.toInt32_toUInt32]
      · have htext : toString v.toInt = toString w.toInt := (List.cons.inj h).1
        rw [Int32.toInt_inj.mp (integer_injective htext)]
    | _ => cases hkind
  | float u =>
    cases y with
    | float v => exact .inr ⟨u, v, rfl, rfl, (List.cons.inj h).1⟩
    | _ => cases hkind
  | word v =>
    cases y with
    | word w =>
      left
      have htext := (List.cons.inj h).1
      have hword : v.toNat = w.toNat := by
        split at htext
        · exact zeroPadded_injective (String.append_right_inj "@" |>.mp htext)
        · exact decimal_injective (String.append_right_inj "#" |>.mp htext)
      rw [UInt64.toNat_inj.mp hword]
    | _ => cases hkind

theorem alike_of_words {i j : Instruction} (hi : i.Fits) (hj : j.Fits) (h : words i = words j) :
    Alike i j := by
  obtain ⟨address, op, x⟩ := i
  obtain ⟨address', op', y⟩ := j
  rw [words, words, List.cons.injEq, List.cons.injEq] at h
  obtain ⟨haddress, hop, hoperand⟩ := h
  cases UInt32.toNat_inj.mp (zeroPadded_injective haddress)
  cases Opcode.mnemonic_injective hop
  have hkind : x.kind = y.kind := hi.trans hj.symm
  rcases operand_of_words hkind hoperand with rfl | ⟨u, v, rfl, rfl, hfloat⟩
  · exact .same _
  · exact .float address op hfloat

/-- Two lines are the same if and only if their instructions are, but for floats with one text. -/
theorem instruction_eq_iff_alike {i j : Instruction} (hi : i.Fits) (hj : j.Fits) :
    instruction i = instruction j ↔ Alike i j := by
  constructor
  · intro h
    have hwords := congrArg (fun s => s.toList.splitOn ' ') h
    simp only [words_of_line] at hwords
    exact alike_of_words hi hj
      (List.map_injective_iff.mpr (fun _ _ => String.toList_injective) hwords)
  · intro h
    cases h with
    | same => rfl
    | float address op hfloat =>
      have hoperand : operand ⟨address, op, .float _⟩ = operand ⟨address, op, .float _⟩ :=
        congrArg (" " ++ ·) hfloat
      exact congrArg (s!"{zeroPadded 4 address.toNat} {op.mnemonic}" ++ ·) hoperand

theorem lines_eq_iff_alike {is js : List Instruction} (his : ∀ i ∈ is, i.Fits)
    (hjs : ∀ j ∈ js, j.Fits) :
    is.map instruction = js.map instruction ↔ List.Forall₂ Alike is js := by
  induction is generalizing js with
  | nil => cases js <;> simp
  | cons i is ih =>
    cases js with
    | nil => simp
    | cons j js =>
      obtain ⟨hi, his⟩ := List.forall_mem_cons.mp his
      obtain ⟨hj, hjs⟩ := List.forall_mem_cons.mp hjs
      rw [List.map_cons, List.map_cons, List.cons.injEq, List.forall₂_cons,
        instruction_eq_iff_alike hi hj, ih his hjs]

theorem ofLines_injective {lines lines' : List String} (h : ∀ s ∈ lines, '\n' ∉ s.toList)
    (h' : ∀ s ∈ lines', '\n' ∉ s.toList) (heq : ofLines lines = ofLines lines') :
    lines = lines' := by
  have hsplit := congrArg (fun s => s.toList.splitOn '\n') heq
  simp only [lines_of_text h, lines_of_text h'] at hsplit
  exact List.map_injective_iff.mpr (fun _ _ => String.toList_injective)
    (List.append_cancel_right hsplit)

theorem code_of_decode {code : Bytes} {is : List Instruction} (h : Code.decode code = .ok is) :
    Listing.code code = .ok (ofLines (is.map instruction)) := by
  unfold Listing.code
  rw [h]
  rfl

theorem decodes_of_code {code : Bytes} {text : String} (h : Listing.code code = .ok text) :
    ∃ is, Code.decode code = .ok is := by
  unfold Listing.code at h
  cases hdecode : Code.decode code with
  | ok is => exact ⟨is, rfl⟩
  | error e =>
    rw [hdecode] at h
    cases h

/--
Two code buffers that can be decoded have the same listing if and only if they have the same
instructions, but for floats with one text.
-/
theorem code_eq_iff_alike {a b : Bytes} {is js : List Instruction} (ha : Code.decode a = .ok is)
    (hb : Code.decode b = .ok js) :
    Listing.code a = Listing.code b ↔ List.Forall₂ Alike is js := by
  have hline : ∀ is : List Instruction, ∀ s ∈ is.map instruction, '\n' ∉ s.toList := by
    intro is s hs
    obtain ⟨i, -, rfl⟩ := List.mem_map.mp hs
    exact lineEnd_notMem_instruction i
  have hfits : ∀ {code : Bytes} {is : List Instruction}, Code.decode code = .ok is →
      ∀ i ∈ is, i.Fits := fun h => (Code.decode_eq_ok_iff.mp h).1.fits
  rw [code_of_decode ha, code_of_decode hb, ← lines_eq_iff_alike (hfits ha) (hfits hb)]
  constructor
  · intro h
    exact ofLines_injective (hline is) (hline js) (Except.ok.inj h)
  · intro h
    rw [h]

/-- Without floats only instructions that are the same are alike. -/
theorem eq_of_alike {is js : List Instruction} (h : List.Forall₂ Alike is js)
    (hfits : ∀ i ∈ is, i.Fits) (hfloat : ∀ i ∈ is, i.opcode ≠ .pushFloat) : is = js := by
  induction h with
  | nil => rfl
  | cons halike _ ih =>
    obtain ⟨hi, hfits⟩ := List.forall_mem_cons.mp hfits
    obtain ⟨hop, hfloat⟩ := List.forall_mem_cons.mp hfloat
    rw [ih hfits hfloat]
    cases halike with
    | same => rfl
    | float address op =>
      -- no other operation has a float behind it
      have hkind : op.operand = .float32 := hi.symm
      cases op <;> first | exact absurd rfl hop | cases hkind

end Listing

/-- The code can be decoded, and nothing in it pushes a float. -/
def Code.FloatFree (code : Bytes) : Prop :=
  ∃ is, decode code = .ok is ∧ ∀ i ∈ is, i.opcode ≠ .pushFloat

open Listing in
/--
Code that pushes no float has a listing, and no other code has the same one: whatever is listed with
this text has the same bytes.
-/
theorem listing_tells_code {a : Bytes} (ha : Code.FloatFree a) :
    ∃ text, Listing.code a = .ok text ∧ ∀ b, Listing.code b = .ok text ↔ b = a := by
  obtain ⟨is, hdecode, hfloat⟩ := ha
  obtain ⟨hplaced, hbytes, -⟩ := Code.decode_eq_ok_iff.mp hdecode
  have hlisting := code_of_decode hdecode
  refine ⟨_, hlisting, ?_⟩
  intro b
  constructor
  · intro h
    obtain ⟨js, hdecode'⟩ := decodes_of_code h
    have halike : List.Forall₂ Alike is js :=
      (code_eq_iff_alike hdecode hdecode').mp (hlisting.trans h.symm)
    have hsame := eq_of_alike halike hplaced.fits hfloat
    rw [hbytes, hsame, ← (Code.decode_eq_ok_iff.mp hdecode').2.1]
  · rintro rfl
    exact hlisting

namespace Listing.Example

/-- A pair of slots, an address and an id of the same number, and a negative constant. -/
def listed : List (Opcode × Operand) := [
  (.foreach, .int 0x00010002),
  (.branch, .word 10000),
  (.pushString, .word 10000),
  (.pushInt, .int (-5)),
  (.ret, .none)]

/-- The same with the slots exchanged. -/
def exchanged : List (Opcode × Operand) :=
  (.foreach, .int 0x00020001) :: listed.tail

/-- The bytes of operations from the start of a buffer. -/
def codeOf (ops : List (Opcode × Operand)) : Bytes :=
  Code.assemble (Code.place 0 ops)

end Listing.Example

open Listing.Example in
/-- No other code has this listing, such as that with the slots exchanged. -/
theorem listing_tells_code_exchanged :
    Code.FloatFree (codeOf listed) ∧
      Listing.code (codeOf listed) = .ok ("0000 foreach k1 v2\n0008 bra @10000\n" ++
        "0020 push-str #10000\n0032 push-int -5\n0040 ret\n") ∧
      Listing.code (codeOf exchanged) ≠ Listing.code (codeOf listed) := by
  have hplaced : Code.Placed 0 (Code.place 0 listed) := Code.placed_place (by decide)
  have hfree : Code.FloatFree (codeOf listed) :=
    ⟨Code.place 0 listed, Code.decode_eq_ok_iff.mpr ⟨hplaced, rfl, by decide +kernel⟩, by decide⟩
  obtain ⟨text, hlisting, honly⟩ := listing_tells_code hfree
  refine ⟨hfree, by decide +kernel, ?_⟩
  rw [hlisting]
  intro hsame
  exact absurd ((honly _).mp hsame) (by decide +kernel)

open Listing.Example in
/-- Two floats that are no numbers have one text, so a listing does not tell them apart. -/
example : Listing.code (codeOf [(.pushFloat, .float 0x7FC00000)]) =
    Listing.code (codeOf [(.pushFloat, .float 0x7FC00001)]) := by
  decide +kernel

end ScriptToolchain
