import Mathlib.Tactic
import ScriptToolchain.Bytes.Buffer
import ScriptToolchain.Bytes.Reader

/-!
# Stored words and stored bytes

A word read back from its bytes is the word that was written. A store inside a
byte string replaces what stands there, a store at its end extends it, and a
store behind its end first fills the gap with zeros; nothing else moves
(`byteAt_store`, `size_store`).
-/

namespace ScriptToolchain

namespace Bytes

/-! ## Words -/

/-- One byte put below a word that has room for it. -/
theorem toNat_shiftIn32 (x : UInt32) (b : UInt8) (h : x.toNat < 2 ^ 24) :
    (x <<< 8 ||| b.toUInt32).toNat = x.toNat * 256 + b.toNat := by
  have hb : b.toNat < 2 ^ 8 := b.toNat_lt
  have hx : x.toNat <<< 8 < 2 ^ 32 := by
    rw [Nat.shiftLeft_eq]
    omega
  rw [UInt32.toNat_or, UInt32.toNat_shiftLeft, UInt8.toNat_toUInt32]
  rw [show (8 : UInt32).toNat % 32 = 8 from rfl, Nat.mod_eq_of_lt hx,
    ← Nat.shiftLeft_add_eq_or_of_lt hb, Nat.shiftLeft_eq]

/-- One byte put below a word that has room for it. -/
theorem toNat_shiftIn64 (x : UInt64) (b : UInt8) (h : x.toNat < 2 ^ 56) :
    (x <<< 8 ||| b.toUInt64).toNat = x.toNat * 256 + b.toNat := by
  have hb : b.toNat < 2 ^ 8 := b.toNat_lt
  have hx : x.toNat <<< 8 < 2 ^ 64 := by
    rw [Nat.shiftLeft_eq]
    omega
  rw [UInt64.toNat_or, UInt64.toNat_shiftLeft, UInt8.toNat_toUInt64]
  rw [show (8 : UInt64).toNat % 64 = 8 from rfl, Nat.mod_eq_of_lt hx,
    ← Nat.shiftLeft_add_eq_or_of_lt hb, Nat.shiftLeft_eq]

/-- The number that bytes stand for, low byte first. -/
def value : List UInt8 → Nat
  | [] => 0
  | b :: rest => value rest * 256 + b.toNat

theorem value_lt (l : List UInt8) : value l < 256 ^ l.length := by
  induction l with
  | nil => simp [value]
  | cons b rest ih =>
    have hb : b.toNat < 256 := b.toNat_lt
    rw [value, List.length_cons, pow_succ]
    omega

theorem toNat_toWord32 (b : Bytes) (h : b.size ≤ 4) : b.toWord32.toNat = value b.toList := by
  rw [toWord32, ← Array.foldr_toList]
  rw [← Array.length_toList] at h
  generalize b.toList = l at h
  induction l with
  | nil => rfl
  | cons x rest ih =>
    rw [List.length_cons] at h
    have hlt : value rest < 2 ^ 24 :=
      Nat.lt_of_lt_of_le (value_lt rest)
        (Nat.pow_le_pow_right (n := 256) (by omega) (by omega : rest.length ≤ 3))
    have hr := ih (by omega)
    rw [List.foldr_cons, toNat_shiftIn32 _ _ (hr ▸ hlt), hr, value]

theorem toNat_toWord64 (b : Bytes) (h : b.size ≤ 8) : b.toWord64.toNat = value b.toList := by
  rw [toWord64, ← Array.foldr_toList]
  rw [← Array.length_toList] at h
  generalize b.toList = l at h
  induction l with
  | nil => rfl
  | cons x rest ih =>
    rw [List.length_cons] at h
    have hlt : value rest < 2 ^ 56 :=
      Nat.lt_of_lt_of_le (value_lt rest)
        (Nat.pow_le_pow_right (n := 256) (by omega) (by omega : rest.length ≤ 7))
    have hr := ih (by omega)
    rw [List.foldr_cons, toNat_shiftIn64 _ _ (hr ▸ hlt), hr, value]

@[simp]
theorem size_ofWord32 (v : UInt32) : (ofWord32 v).size = 4 :=
  rfl

@[simp]
theorem size_ofWord64 (v : UInt64) : (ofWord64 v).size = 8 :=
  rfl

/-- A 32-bit word comes back from its bytes. -/
@[simp]
theorem toWord32_ofWord32 (v : UInt32) : (ofWord32 v).toWord32 = v := by
  rw [← UInt32.toNat_inj, toNat_toWord32 _ (by simp)]
  have hv := v.toNat_lt
  simp only [ofWord32, value, UInt32.toNat_toUInt8, UInt32.toNat_shiftRight,
    Nat.shiftRight_eq_div_pow, UInt32.reduceToNat, Nat.reduceMod, Nat.reducePow]
  omega

/-- A 64-bit word comes back from its bytes. -/
@[simp]
theorem toWord64_ofWord64 (v : UInt64) : (ofWord64 v).toWord64 = v := by
  rw [← UInt64.toNat_inj, toNat_toWord64 _ (by simp)]
  have hv := v.toNat_lt
  simp only [ofWord64, value, UInt64.toNat_toUInt8, UInt64.toNat_shiftRight,
    Nat.shiftRight_eq_div_pow, UInt64.reduceToNat, Nat.reduceMod, Nat.reducePow]
  omega

/-! ## Stores -/

/-- A store from a position inside the bytes: what stood there is replaced, the end moves on. -/
theorem toList_storeList (b : Bytes) (i : Nat) (new : List UInt8) (h : i ≤ b.size) :
    (b.storeList i new).toList = b.toList.take i ++ new ++ b.toList.drop (i + new.length) := by
  induction new generalizing b i with
  | nil => simp [storeList]
  | cons x rest ih =>
    rw [storeList]
    split
    case isTrue hi =>
      have hl : i < b.toList.length := by simpa using hi
      have hset : (b.toList.take i ++ [b.toList[i]]).set i x = b.toList.take i ++ [x] := by
        rw [List.set_append_right _ _ (by simp)]
        simp [Nat.min_eq_left h]
      rw [ih _ _ (by simpa using hi), Array.toList_setIfInBounds, List.take_set,
        List.take_succ_eq_append_getElem hl, hset, List.drop_set_of_lt (by omega)]
      rw [List.length_cons, Nat.add_right_comm, Nat.add_assoc]
      simp
    case isFalse hi =>
      have he : i = b.size := by omega
      subst he
      rw [ih _ _ (by simp), Array.toList_push]
      rw [List.take_of_length_le (by simp), List.drop_of_length_le (by simp),
        List.take_of_length_le (by simp), List.drop_of_length_le (by simp)]
      simp

theorem toList_store (b : Bytes) (i : Nat) (new : Bytes) (h : i ≤ b.size) :
    (b.store i new).toList =
      b.toList.take i ++ new.toList ++ b.toList.drop (i + new.size) := by
  rw [store, padTo, if_neg (by omega), toList_storeList b i new.toList h, Array.length_toList]

/-- A store at the end extends the bytes. -/
theorem store_end (b new : Bytes) : b.store b.size new = b ++ new := by
  apply Array.toList_inj.mp
  rw [toList_store b b.size new (Nat.le_refl _)]
  rw [List.take_of_length_le (by simp), List.drop_of_length_le (by simp)]
  simp

/-- A store of as many bytes as stand there replaces just these. -/
theorem store_middle (first old last new : Bytes) (h : old.size = new.size) :
    (first ++ old ++ last).store first.size new = first ++ new ++ last := by
  apply Array.toList_inj.mp
  rw [toList_store _ _ _ (by rw [Array.append_assoc, Array.size_append]; omega)]
  simp only [Array.toList_append]
  rw [List.append_assoc first.toList, List.take_left' (by simp), ← List.append_assoc,
    List.drop_left' (by simp [h])]

/-! ## Bytes by their addresses -/

/-- The byte at an address, zero where there is none. -/
def byteAt (b : Bytes) (i : Nat) : UInt8 :=
  b[i]?.getD 0

theorem byteAt_eq_zero {b : Bytes} {i : Nat} (h : b.size ≤ i) : b.byteAt i = 0 := by
  rw [byteAt, Array.getElem?_eq_none h]
  rfl

/-- Bytes are known by their number and by what stands at each address. -/
theorem ext_byteAt {a b : Bytes} (hsize : a.size = b.size) (h : ∀ i, a.byteAt i = b.byteAt i) :
    a = b := by
  refine Array.ext hsize fun i ha hb => ?_
  have hi := h i
  rwa [byteAt, byteAt, Array.getElem?_eq_getElem ha, Array.getElem?_eq_getElem hb] at hi

theorem byteAt_append (a b : Bytes) (i : Nat) :
    (a ++ b).byteAt i = if i < a.size then a.byteAt i else b.byteAt (i - a.size) := by
  rw [byteAt, Array.getElem?_append]
  split <;> rfl

theorem byteAt_replicate (n : Nat) (fill : UInt8) (i : Nat) :
    byteAt (Array.replicate n fill) i = if i < n then fill else 0 := by
  rw [byteAt, Array.getElem?_replicate]
  split <;> rfl

theorem size_padTo (b : Bytes) (n : Nat) : (b.padTo n).size = max b.size n := by
  rw [padTo]
  split
  · rw [Array.size_append, Array.size_replicate]
    omega
  · omega

/-- What is added is zero, as all that lies past the end. -/
theorem byteAt_padTo (b : Bytes) (n i : Nat) : (b.padTo n).byteAt i = b.byteAt i := by
  rw [padTo]
  split
  case isFalse => rfl
  case isTrue =>
    rw [byteAt_append, byteAt_replicate]
    split
    · rfl
    · rw [byteAt_eq_zero (by omega : b.size ≤ i), ite_self]

/-- A store behind the end is a store at the end of the padded bytes. -/
theorem toList_store_padTo (b : Bytes) (i : Nat) (new : Bytes) :
    (b.store i new).toList =
      (b.padTo i).toList.take i ++ new.toList ++ (b.padTo i).toList.drop (i + new.size) := by
  have hi : i ≤ (b.padTo i).size := by
    rw [size_padTo]
    exact Nat.le_max_right ..
  rw [store, toList_storeList _ i _ hi, Array.length_toList]

theorem size_store (b : Bytes) (i : Nat) (new : Bytes) :
    (b.store i new).size = max b.size (i + new.size) := by
  have hlength := congrArg List.length (toList_store_padTo b i new)
  simp only [List.length_append, List.length_take, List.length_drop, Array.length_toList,
    size_padTo] at hlength
  omega

/-- A store takes no byte away. -/
theorem size_le_store (b : Bytes) (i : Nat) (new : Bytes) : b.size ≤ (b.store i new).size := by
  rw [size_store]
  exact Nat.le_max_left ..

/-- A store changes the bytes that it covers and no other. -/
theorem byteAt_store (b : Bytes) (i : Nat) (new : Bytes) (j : Nat) :
    (b.store i new).byteAt j =
      if i ≤ j ∧ j < i + new.size then new.byteAt (j - i) else b.byteAt j := by
  have hpad := size_padTo b i
  rw [← byteAt_padTo b i j, byteAt, byteAt, byteAt, ← Array.getElem?_toList, toList_store_padTo,
    ← Array.getElem?_toList, ← Array.getElem?_toList, List.append_assoc]
  by_cases hbefore : j < i
  · rw [if_neg (by omega), List.getElem?_append_left (by simp; omega),
      List.getElem?_take_of_lt hbefore]
  · have htake : ((b.padTo i).toList.take i).length = i := by
      simp
      omega
    rw [List.getElem?_append_right (by omega), htake]
    by_cases hin : j < i + new.size
    · rw [if_pos (by omega), List.getElem?_append_left (by simp; omega)]
    · rw [if_neg (by omega), List.getElem?_append_right (by simp; omega), List.getElem?_drop,
        Array.length_toList, show i + new.size + (j - i - new.size) = j by omega]

/-- A store behind a store is one store. -/
theorem store_store (b : Bytes) (i : Nat) (x y : Bytes) :
    (b.store i x).store (i + x.size) y = b.store i (x ++ y) := by
  apply ext_byteAt
  · simp only [size_store, Array.size_append]
    omega
  · intro j
    simp only [byteAt_store, byteAt_append, Array.size_append]
    by_cases hx : i ≤ j ∧ j < i + x.size
    · rw [if_neg (by omega), if_pos hx, if_pos (by omega), if_pos (by omega)]
    · by_cases hy : i + x.size ≤ j ∧ j < i + x.size + y.size
      · rw [if_pos hy, if_pos (by omega), if_neg (by omega), Nat.sub_sub]
      · rw [if_neg hy, if_neg hx, if_neg (by omega)]

end Bytes

/-- A count that fits is kept as it is. -/
theorem toNat_saturate32 {n : Nat} (h : n < 2 ^ 32) : (saturate32 n).toNat = n := by
  rw [saturate32, if_pos (show n < UInt32.size from h)]
  exact UInt32.toNat_ofNat_of_lt' h

end ScriptToolchain
