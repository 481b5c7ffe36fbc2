import Mathlib.Data.List.TakeWhile
import Mathlib.Tactic
import ScriptToolchain.Bytes.Field
import ScriptToolchain.Proofs.Reading

/-!
# Fields on the wire

A text is written up to its first zero character, with a zero byte behind it.
In UTF-8 the zero character is the only one with a zero byte, so the bytes
before the first zero byte are those of the text before its first zero
character (`Bytes.ofText_cut`), and the reader gets just this text back
(`Reader.reads_terminatedText`).
-/

namespace ScriptToolchain

/-- The text before its first zero character, all of it when there is none. -/
def Text.cut (s : String) : String :=
  String.ofList (s.toList.takeWhile (· ≠ '\x00'))

namespace Bytes

/-! ## Zero bytes and zero characters -/

theorem toList_ofText (s : String) :
    (ofText s).toList = s.toList.flatMap String.utf8EncodeChar := by
  rw [ofText, String.toUTF8, ← String.utf8Encode_toList, List.utf8Encode, List.data_toByteArray]

theorem ofText_injective : Function.Injective ofText := by
  intro s t h
  have hs : (ofText s).toText? = some s := toText?_eq_some_iff.mpr rfl
  have ht : (ofText s).toText? = some t := toText?_eq_some_iff.mpr h
  rw [hs] at ht
  exact Option.some_inj.mp ht

/-- No byte of any other character is zero. -/
theorem zero_notMem_utf8EncodeChar {c : Char} (h : c ≠ '\x00') :
    0 ∉ String.utf8EncodeChar c := by
  have hne : c.val.toNat ≠ 0 := by
    intro hzero
    exact h (Char.ext (UInt32.toNat_inj.mp hzero))
  have hbyte : ∀ n : Nat, n % 256 ≠ 0 → (0 : UInt8) ≠ UInt8.ofNat n := by
    intro n hn heq
    have hmod := congrArg UInt8.toNat heq
    simp at hmod
    omega
  unfold String.utf8EncodeChar
  -- the leading byte of a longer form and all bytes behind it are at least 128
  dsimp only
  split_ifs <;> simp only [List.mem_cons, List.not_mem_nil, or_false, not_or]
  · exact hbyte _ (by omega)
  · exact ⟨hbyte _ (by omega), hbyte _ (by omega)⟩
  · exact ⟨hbyte _ (by omega), hbyte _ (by omega), hbyte _ (by omega)⟩
  · exact ⟨hbyte _ (by omega), hbyte _ (by omega), hbyte _ (by omega), hbyte _ (by omega)⟩

theorem takeWhile_utf8 (l : List Char) :
    (l.flatMap String.utf8EncodeChar).takeWhile (· != 0) =
      (l.takeWhile (· ≠ '\x00')).flatMap String.utf8EncodeChar := by
  induction l with
  | nil => rfl
  | cons c rest ih =>
    by_cases hc : c = '\x00'
    · rw [hc]
      rfl
    · have hbytes : ∀ b ∈ String.utf8EncodeChar c, (b != 0) = true := by
        intro b hb
        rw [bne_iff_ne]
        intro hzero
        exact zero_notMem_utf8EncodeChar hc (hzero ▸ hb)
      rw [List.flatMap_cons, List.takeWhile_append_of_pos hbytes, ih,
        List.takeWhile_cons_of_pos (by simpa using hc), List.flatMap_cons]

/-- A text is cut where its bytes are. -/
theorem ofText_cut (s : String) : ofText (Text.cut s) = (ofText s).untilZero := by
  apply Array.toList_inj.mp
  rw [toList_ofText, Text.cut, String.toList_ofList, untilZero, Array.toList_takeWhile,
    toList_ofText, takeWhile_utf8]

theorem untilZero_untilZero (b : Bytes) : b.untilZero.untilZero = b.untilZero := by
  apply Array.toList_inj.mp
  rw [untilZero, untilZero, Array.toList_takeWhile, Array.toList_takeWhile, List.takeWhile_idem]

/-- Bytes that do not end before their first zero go on with it. -/
theorem exists_of_untilZero_lt {b : Bytes} (h : b.untilZero.size < b.size) :
    ∃ after, b = b.untilZero ++ #[0] ++ after := by
  have hsplit := List.takeWhile_append_dropWhile (p := (· != 0)) (l := b.toList)
  have htake : b.untilZero.toList = b.toList.takeWhile (· != 0) := Array.toList_takeWhile
  cases hdrop : b.toList.dropWhile (· != 0) with
  | nil =>
    rw [hdrop, List.append_nil, ← htake] at hsplit
    rw [Array.toList_inj.mp hsplit] at h
    exact absurd h (Nat.lt_irrefl _)
  | cons x rest =>
    have hx : x = 0 := by
      have hhead := List.head_dropWhile_not (· != (0 : UInt8)) (by rw [hdrop]; simp)
      simpa [hdrop] using hhead
    rw [hdrop, hx] at hsplit
    refine ⟨rest.toArray, Array.toList_inj.mp ?_⟩
    rw [Array.toList_append, Array.toList_append, htake, List.append_assoc]
    exact hsplit.symm

theorem untilZero_append_zero {b after : Bytes} (h : b.untilZero = b) :
    (b ++ #[0] ++ after).untilZero = b := by
  have htake : b.toList.takeWhile (· != 0) = b.toList := by
    rw [← Array.toList_takeWhile]
    exact congrArg Array.toList h
  apply Array.toList_inj.mp
  rw [untilZero, Array.toList_takeWhile, Array.toList_append, Array.toList_append,
    List.append_assoc, List.takeWhile_append, htake]
  simp

end Bytes

theorem Text.cut_cut (s : String) : Text.cut (Text.cut s) = Text.cut s := by
  apply Bytes.ofText_injective
  rw [Bytes.ofText_cut, Bytes.ofText_cut, Bytes.untilZero_untilZero]

namespace Field

/-! ## The bytes of fields -/

@[simp]
theorem bytes_word (v : UInt32) : (word v).bytes = Bytes.ofWord32 v := by
  simp [bytes, puts]

@[simp]
theorem bytes_raw (b : Bytes) : (raw b).bytes = b := by
  simp [bytes, puts]

theorem bytes_text (s : String) : (text s).bytes = Bytes.ofText (Text.cut s) ++ #[0] := by
  simp [bytes, puts, Bytes.ofText_cut]

theorem bytes_text_of_cut {s : String} (h : Text.cut s = s) :
    (text s).bytes = Bytes.ofText s ++ #[0] := by
  rw [bytes_text, h]

/-- What stands behind the first zero character does not show. -/
@[simp]
theorem bytes_text_cut (s : String) : (text (Text.cut s)).bytes = (text s).bytes := by
  rw [bytes_text, bytes_text, Text.cut_cut]

@[simp]
theorem bytesOf_nil : bytesOf [] = #[] :=
  rfl

@[simp]
theorem bytesOf_cons (f : Field) (fields : List Field) :
    bytesOf (f :: fields) = f.bytes ++ bytesOf fields :=
  Bytes.concat_cons bytes f fields

end Field

namespace Reader

/-! ## Reading texts -/

/-- Bytes stand at the offset when the rest of the data starts with them. -/
theorem holds_iff_rest {r : Reader} (hr : r.Within) {b : Bytes} :
    r.Holds b ↔ ∃ after, r.rest = b ++ after := by
  unfold Within at hr
  constructor
  · rintro ⟨before, after, hdata, hoffset⟩
    refine ⟨after, ?_⟩
    have hsize : r.data.size = before.size + (b ++ after).size := by
      rw [hdata, Array.append_assoc, Array.size_append]
    rw [rest, hsize, hdata, hoffset, Array.append_assoc]
    exact Bytes.extract_behind before (b ++ after)
  · rintro ⟨after, hrest⟩
    refine ⟨r.data.extract 0 r.offset, after, ?_, ?_⟩
    · rw [Array.append_assoc, ← hrest, rest]
      simp [Nat.max_eq_right hr]
    · rw [Array.size_extract]
      omega

/-- A text is read that has no zero character, up to the zero byte behind it. -/
theorem reads_terminatedText :
    Reads text (Encoded (fun s => Text.cut s = s) fun s => (Field.text s).bytes) := by
  intro r hr s r'
  unfold text
  dsimp only
  constructor
  · intro h
    split at h
    swap
    · cases h
    rename_i hlt
    obtain ⟨after, hrest⟩ := Bytes.exists_of_untilZero_lt hlt
    split at h
    swap
    · cases h
    rename_i t htext
    cases h
    have hfound : r.rest.untilZero = Bytes.ofText s := Bytes.toText?_eq_some_iff.mp htext
    have hcut : Text.cut s = s := by
      apply Bytes.ofText_injective
      rw [Bytes.ofText_cut, ← hfound, Bytes.untilZero_untilZero]
    refine ⟨Bytes.ofText s ++ #[0], ⟨hcut, (Field.bytes_text_of_cut hcut).symm⟩, ?_, ?_⟩
    · rw [holds_iff_rest hr, ← hfound]
      exact ⟨after, hrest⟩
    · rw [hfound, advance, Array.size_append]
      rfl
  · rintro ⟨b, ⟨hcut, hb⟩, hholds, rfl⟩
    have hb : b = Bytes.ofText s ++ #[0] := hb.trans (Field.bytes_text_of_cut hcut)
    obtain ⟨after, hrest⟩ := (holds_iff_rest hr).mp hholds
    rw [hb] at hrest
    have hfound : r.rest.untilZero = Bytes.ofText s := by
      rw [hrest]
      apply Bytes.untilZero_append_zero
      rw [← Bytes.ofText_cut, hcut]
    have hlt : (Bytes.ofText s).size < r.rest.size := by
      rw [hrest]
      simp
      omega
    have htext : (Bytes.ofText s).toText? = some s := Bytes.toText?_eq_some_iff.mpr rfl
    rw [hfound, if_pos hlt, htext, hb, advance, Array.size_append]
    rfl

end Reader

end ScriptToolchain
