import Mathlib.Tactic
import ScriptToolchain.Code.Opcode
import ScriptToolchain.Container.FunctionImage
import ScriptToolchain.Proofs.Bytes

/-!
# What the checksum tells apart

A shift of the remainder is linear in exclusive or and loses nothing. Up to
four bytes are therefore taken in as one word (`foldl_step`), and a change
inside four bytes in a row always shows in the CRC-32
(`crc32_ne_of_differLocally`).

The same equation gives the residue: a byte string that ends in its own CRC-32
has a CRC-32 that does not depend on it (`crc32_append_crc32`). The hash of a
function is the CRC-32 of an image that ends in its own CRC-32, so the length
of the image is all it depends on (`CompiledFunction.hash_eq`).
-/

namespace ScriptToolchain

namespace Bytes

/-- Bytes of one length are determined by the number they stand for. -/
theorem value_inj {a b : List UInt8} (hlen : a.length = b.length) (h : value a = value b) :
    a = b := by
  induction a generalizing b with
  | nil => exact (List.eq_nil_of_length_eq_zero hlen.symm).symm
  | cons x a ih =>
    obtain _ | ⟨y, b⟩ := b
    · simp at hlen
    · have hx : x.toNat < 256 := x.toNat_lt
      have hy : y.toNat < 256 := y.toNat_lt
      rw [value, value] at h
      have hrest : a = b := ih (by simpa using hlen) (by omega)
      have hlow : x = y := UInt8.toNat_inj.mp (by omega)
      rw [hrest, hlow]

/-- The low byte and those above it share no bit. -/
theorem value_cons (b : UInt8) (rest : List UInt8) :
    value (b :: rest) = b.toNat ^^^ value rest * 2 ^ 8 := by
  have hb : b.toNat < 2 ^ 8 := b.toNat_lt
  have hlow : (b.toNat ^^^ value rest * 2 ^ 8) % 2 ^ 8 = b.toNat := by
    rw [Nat.xor_mod_two_pow, Nat.mod_eq_of_lt hb, Nat.mul_mod_left, Nat.xor_zero]
  have hhigh : (b.toNat ^^^ value rest * 2 ^ 8) / 2 ^ 8 = value rest := by
    rw [Nat.xor_div_two_pow, Nat.div_eq_of_lt hb, Nat.mul_div_cancel _ (by omega), Nat.zero_xor]
  rw [value, ← Nat.div_add_mod (b.toNat ^^^ value rest * 2 ^ 8) (2 ^ 8), hlow, hhigh]
  omega

/-- The two byte strings differ, but only inside at most four bytes in a row. -/
def DifferLocally (a b : Bytes) : Prop :=
  ∃ first x y last : Bytes, a = first ++ x ++ last ∧ b = first ++ y ++ last ∧
    x.size = y.size ∧ x.size ≤ 4 ∧ x ≠ y

end Bytes

namespace Checksum

/-! ## Shifts of the remainder -/

/-- A shift moves all bits down and takes the polynomial out when a one falls off. -/
theorem shift_eq (c : UInt32) :
    shift c = (c >>> 1) ^^^ (if c.toNat % 2 = 1 then polynomial else 0) := by
  have hlow : (c &&& 1) = 1 ↔ c.toNat % 2 = 1 := by
    rw [← UInt32.toNat_inj, UInt32.toNat_and]
    simp [Nat.and_one_is_mod]
  simp only [shift, beq_iff_eq, hlow]
  split <;> simp

theorem shift_xor (a b : UInt32) : shift (a ^^^ b) = shift a ^^^ shift b := by
  have hlow : (a ^^^ b).toNat % 2 = 1 ↔ ¬ (a.toNat % 2 = 1 ↔ b.toNat % 2 = 1) := by
    rw [UInt32.toNat_xor, Nat.xor_mod_two_eq_one]
  rw [shift_eq, shift_eq a, shift_eq b, UInt32.shiftRight_xor]
  by_cases ha : a.toNat % 2 = 1 <;> by_cases hb : b.toNat % 2 = 1 <;>
    simp only [hlow, ha, hb, not_true_eq_false, not_false_eq_true, if_true, if_false,
      iff_true, iff_false, UInt32.xor_zero] <;>
    grind [UInt32.xor_assoc, UInt32.xor_comm, UInt32.xor_self, UInt32.xor_zero]

/-- Only the zero remainder shifts to zero: the polynomial keeps its top bit. -/
theorem shift_eq_zero {c : UInt32} (h : shift c = 0) : c = 0 := by
  have hc : c.toNat < 2 ^ 32 := c.toNat_lt
  have hhalf : (c >>> 1).toNat = c.toNat / 2 := by
    simp [UInt32.toNat_shiftRight, Nat.shiftRight_eq_div_pow]
  rw [shift_eq, UInt32.xor_eq_zero_iff, ← UInt32.toNat_inj, hhalf] at h
  split at h
  · have htop : polynomial.toNat = 0xEDB88320 := rfl
    omega
  · have hz : (0 : UInt32).toNat = 0 := rfl
    exact UInt32.toNat_inj.mp (by omega)

theorem shift_injective : Function.Injective shift := by
  intro a b h
  rw [← UInt32.xor_eq_zero_iff, ← shift_xor] at h
  exact UInt32.xor_eq_zero_iff.mp (shift_eq_zero h)

theorem iterate_shift_xor (n : Nat) (a b : UInt32) :
    shift^[n] (a ^^^ b) = shift^[n] a ^^^ shift^[n] b := by
  induction n generalizing a b with
  | zero => rfl
  | succ n ih => rw [Function.iterate_succ_apply, shift_xor, ih]; rfl

/-- Bits above the lowest `n` only move down through `n` shifts. -/
theorem iterate_shift_high (n m : Nat) (h : m * 2 ^ n < 2 ^ 32) :
    shift^[n] (m * 2 ^ n).toUInt32 = m.toUInt32 := by
  induction n with
  | zero => simp
  | succ n ih =>
    have hdouble : m * 2 ^ (n + 1) = 2 * (m * 2 ^ n) := by ring
    rw [hdouble] at h ⊢
    have hnat : (2 * (m * 2 ^ n)).toUInt32.toNat = 2 * (m * 2 ^ n) := UInt32.toNat_ofNat_of_lt' h
    have hshift : shift (2 * (m * 2 ^ n)).toUInt32 = (m * 2 ^ n).toUInt32 := by
      rw [shift_eq, if_neg (by omega), UInt32.xor_zero, ← UInt32.toNat_inj,
        UInt32.toNat_shiftRight, hnat]
      rw [UInt32.toNat_ofNat_of_lt' (show m * 2 ^ n < 2 ^ 32 by omega)]
      simp [Nat.shiftRight_eq_div_pow]
    rw [Function.iterate_succ_apply, hshift, ih (by omega)]

/-! ## Bytes taken in at once -/

/-- Up to four bytes are taken in as the word they stand for. -/
theorem foldl_step (l : List UInt8) (c : UInt32) (h : l.length ≤ 4) :
    l.foldl step c = shift^[8 * l.length] (c ^^^ (Bytes.value l).toUInt32) := by
  induction l generalizing c with
  | nil => simp [Bytes.value]
  | cons b rest ih =>
    rw [List.length_cons] at h
    have hb : b.toNat < 2 ^ 8 := b.toNat_lt
    have hrest : Bytes.value rest * 2 ^ 8 < 2 ^ 32 := by
      have hpow : 256 ^ rest.length ≤ 256 ^ 3 := Nat.pow_le_pow_right (by omega) (by omega)
      have hlt := Bytes.value_lt rest
      omega
    have hvalue : (Bytes.value (b :: rest)).toUInt32 =
        b.toUInt32 ^^^ (Bytes.value rest * 2 ^ 8).toUInt32 := by
      rw [Bytes.value_cons, Nat.toUInt32, UInt32.ofNat_xor]
      rw [UInt32.ofNat_uInt8ToNat]
    have hstep : step c b = shift^[8] (c ^^^ b.toUInt32) := rfl
    calc (b :: rest).foldl step c
        = shift^[8 * rest.length] (step c b ^^^ (Bytes.value rest).toUInt32) := ih _ (by omega)
      _ = shift^[8 * rest.length] (shift^[8] (c ^^^ b.toUInt32) ^^^
            shift^[8] (Bytes.value rest * 2 ^ 8).toUInt32) := by
          rw [iterate_shift_high 8 _ hrest, hstep]
      _ = shift^[8 * (b :: rest).length] (c ^^^ (Bytes.value (b :: rest)).toUInt32) := by
          rw [← iterate_shift_xor, ← Function.iterate_add_apply, UInt32.xor_assoc, ← hvalue]
          rfl

theorem step_injective (b : UInt8) : Function.Injective (step · b) := by
  intro c d h
  have hshift : shift^[8] (c ^^^ b.toUInt32) = shift^[8] (d ^^^ b.toUInt32) := h
  exact (UInt32.xor_left_inj _).mp (shift_injective.iterate 8 hshift)

theorem foldl_step_injective (l : List UInt8) : Function.Injective (l.foldl step ·) := by
  induction l with
  | nil => exact fun _ _ h => h
  | cons b rest ih => exact ih.comp (step_injective b)

/-! ## The two sides of the check -/

/-- A change inside four bytes in a row shows in the CRC-32. -/
theorem crc32_ne_of_differLocally {a b : Bytes} (h : a.DifferLocally b) : crc32 a ≠ crc32 b := by
  obtain ⟨first, x, y, last, rfl, rfl, hsize, hx, hne⟩ := h
  have hy : y.size ≤ 4 := hsize ▸ hx
  rw [← Array.length_toList] at hx hy
  rw [← Array.length_toList, ← Array.length_toList] at hsize
  intro heq
  rw [crc32, crc32, UInt32.not_inj, Array.foldl_append, Array.foldl_append, Array.foldl_append,
    Array.foldl_append] at heq
  simp only [← Array.foldl_toList] at heq
  have hmid := foldl_step_injective last.toList heq
  rw [foldl_step x.toList _ hx, foldl_step y.toList _ hy, hsize] at hmid
  have hword := (UInt32.xor_right_inj _).mp (shift_injective.iterate _ hmid)
  have hlt : ∀ l : List UInt8, l.length ≤ 4 → Bytes.value l < 2 ^ 32 := fun l hl =>
    Nat.lt_of_lt_of_le (Bytes.value_lt l) (Nat.pow_le_pow_right (n := 256) (by omega) hl)
  rw [← UInt32.toNat_inj, UInt32.toNat_ofNat_of_lt' (hlt _ hx),
    UInt32.toNat_ofNat_of_lt' (hlt _ hy)] at hword
  exact hne (Array.toList_inj.mp (Bytes.value_inj hsize hword))

/-- The CRC-32 of every byte string that ends in its own CRC-32. -/
def residue : UInt32 := 0x2144DF1C

theorem crc32_append_crc32 (b : Bytes) : crc32 (b ++ Bytes.ofWord32 (crc32 b)) = residue := by
  have hword : (Bytes.value (Bytes.ofWord32 (crc32 b)).toList).toUInt32 = crc32 b := by
    rw [← Bytes.toNat_toWord32 _ (by simp), Bytes.toWord32_ofWord32]
    simp
  rw [crc32, Array.foldl_append]
  simp only [← Array.foldl_toList]
  rw [foldl_step _ _ (by simp), hword, crc32, ← Array.foldl_toList, UInt32.xor_not,
    UInt32.xor_self]
  show ~~~shift^[32] (~~~0) = residue
  decide +kernel

end Checksum

namespace CompiledFunction

/-- The hash holds the residue and the length of the image. -/
theorem hash_eq (f : CompiledFunction) :
    f.hash = (Checksum.residue.toUInt64 <<< 32) ||| (f.toBytes.size.toUInt64 &&& 0xFFFFFFFF) := by
  rw [hash, toBytes, Checksum.crc32_append_crc32]

theorem hash_congr {f g : CompiledFunction} (h : f.toBytes.size = g.toBytes.size) :
    f.hash = g.hash := by
  rw [hash_eq, hash_eq, h]

/--
A change inside four bytes in a row of the image shows in the checksum that the image stores,
and never in the hash.
-/
theorem hash_misses_local_change {f g : CompiledFunction}
    (hsize : f.toBytes.size = g.toBytes.size)
    (h : (FunctionImage.body f).DifferLocally (FunctionImage.body g)) :
    Checksum.crc32 (FunctionImage.body f) ≠ Checksum.crc32 (FunctionImage.body g) ∧
      f.hash = g.hash :=
  ⟨Checksum.crc32_ne_of_differLocally h, hash_congr hsize⟩

/-- The function that returns at once. -/
def idle (id : UInt64) : CompiledFunction :=
  { id, code := Bytes.ofWord32 Opcode.ret.tag }

theorem differLocally_idle :
    (FunctionImage.body (idle 1)).DifferLocally (FunctionImage.body (idle 2)) :=
  let body := FunctionImage.body (idle 1)
  ⟨body.extract 0 8, #[1], #[2], body.extract 9 body.size, by decide +kernel⟩

theorem hash_misses_local_change_idle :
    Checksum.crc32 (FunctionImage.body (idle 1)) ≠ Checksum.crc32 (FunctionImage.body (idle 2)) ∧
      (idle 1).hash = (idle 2).hash :=
  hash_misses_local_change (by decide +kernel) differLocally_idle

/-- Hashes of equally long images that differ in four bytes at most need not differ. -/
theorem hash_no_content_key :
    ¬ ∀ f g : CompiledFunction, f.toBytes.size = g.toBytes.size →
      (FunctionImage.body f).DifferLocally (FunctionImage.body g) → f.hash ≠ g.hash := by
  intro differs
  exact differs (idle 1) (idle 2) (by decide +kernel) differLocally_idle
    (hash_congr (by decide +kernel))

end CompiledFunction

end ScriptToolchain
