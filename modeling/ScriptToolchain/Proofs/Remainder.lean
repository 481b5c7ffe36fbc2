import Mathlib.Algebra.CharP.Two
import Mathlib.RingTheory.AdjoinRoot
import Mathlib.Tactic
import ScriptToolchain.Proofs.Checksum

/-!
# The checksum as a remainder

CRC-32 is the remainder of a division of polynomials over the field of two
elements. The bits of a message, each byte low bit first, are the coefficients
of its polynomial from the highest power down, and so are the bits of the
remainder. The message is followed by 32 zeros, its first 32 bits are
complemented, and so is the remainder (`eq_crc32_iff`).

A shift multiplies by `X` up to a multiple of the generator (`register_shift`),
which carries over to whole messages in the ring of residues.
-/

namespace ScriptToolchain.Checksum

open Polynomial

/-! ## Bits as coefficients -/

/-- The lowest bits of a number as coefficients, the lowest bit at the highest power. -/
noncomputable def reversed (width n : Nat) : (ZMod 2)[X] :=
  ∑ i ∈ Finset.range width, ((n.testBit i).toNat : (ZMod 2)[X]) * X ^ (width - 1 - i)

/-- The polynomial of a remainder. -/
noncomputable def register (c : UInt32) : (ZMod 2)[X] :=
  reversed 32 c.toNat

/-- The polynomial of a message. -/
noncomputable def message : List UInt8 → (ZMod 2)[X]
  | [] => 0
  | b :: rest => reversed 8 b.toNat * X ^ (8 * rest.length) + message rest

/-- The generator of CRC-32. -/
noncomputable def generator : (ZMod 2)[X] :=
  X ^ 32 + X ^ 26 + X ^ 23 + X ^ 22 + X ^ 16 + X ^ 12 + X ^ 11 + X ^ 10 + X ^ 8 + X ^ 7 +
    X ^ 5 + X ^ 4 + X ^ 2 + X + 1

theorem generator_monic : generator.Monic := by
  unfold generator
  monicity!

theorem generator_degree : generator.degree = 32 := by
  unfold generator
  compute_degree!

theorem reversed_xor (width a b : Nat) :
    reversed width (a ^^^ b) = reversed width a + reversed width b := by
  have hbit : ∀ x y : Bool, ((x ^^ y).toNat : (ZMod 2)[X]) = x.toNat + y.toNat := by
    rintro (_ | _) (_ | _) <;> simp [CharTwo.add_self_eq_zero]
  simp only [reversed, Nat.testBit_xor, hbit, add_mul, Finset.sum_add_distrib]

/-- Halving takes the lowest bit away and all others down, to the next higher power. -/
theorem X_mul_reversed {width n : Nat} (h : n < 2 ^ width) :
    X * reversed width n =
      reversed width (n / 2) + ((n.testBit 0).toNat : (ZMod 2)[X]) * X ^ width := by
  -- the term of a bit above all others is zero, and makes room for the lowest bit at the top
  have htop : n.testBit width = false := Nat.testBit_lt_two_pow h
  calc X * reversed width n
      = ∑ i ∈ Finset.range width, ((n.testBit i).toNat : (ZMod 2)[X]) * X ^ (width - i) := by
        rw [reversed, Finset.mul_sum]
        refine Finset.sum_congr rfl fun i hi => ?_
        have hpower : width - i = width - 1 - i + 1 := by
          have := Finset.mem_range.mp hi
          omega
        rw [hpower, pow_succ]
        ring
    _ = ∑ i ∈ Finset.range (width + 1), ((n.testBit i).toNat : (ZMod 2)[X]) * X ^ (width - i) := by
        rw [Finset.sum_range_succ, htop, Bool.toNat_false, Nat.cast_zero, zero_mul, add_zero]
    _ = reversed width (n / 2) + ((n.testBit 0).toNat : (ZMod 2)[X]) * X ^ width := by
        rw [Finset.sum_range_succ', Nat.sub_zero, reversed]
        congr 1
        refine Finset.sum_congr rfl fun i _ => ?_
        rw [Nat.testBit_succ, Nat.sub_sub, Nat.add_comm 1 i]

/-- Zeros above the bits of a number are zeros after its coefficients. -/
theorem reversed_add {width n : Nat} (h : n < 2 ^ width) (k : Nat) :
    reversed (width + k) n = reversed width n * X ^ k := by
  have hhigh : ∀ i, n.testBit (width + i) = false := fun i =>
    Nat.testBit_lt_two_pow (h.trans_le (Nat.pow_le_pow_right (by omega) (by omega)))
  rw [reversed, Finset.sum_range_add, reversed, Finset.sum_mul]
  simp only [hhigh, Bool.toNat_false, Nat.cast_zero, zero_mul, Finset.sum_const_zero, add_zero]
  refine Finset.sum_congr rfl fun i hi => ?_
  have hpower : width + k - 1 - i = width - 1 - i + k := by
    have := Finset.mem_range.mp hi
    omega
  rw [hpower, pow_add, mul_assoc]

theorem reversed_degree_lt (width n : Nat) : (reversed width n).degree < width := by
  refine mem_degreeLT.mp (Submodule.sum_mem _ fun i hi => mem_degreeLT.mpr ?_)
  have hi := Finset.mem_range.mp hi
  rw [← C_eq_natCast]
  refine (degree_C_mul_X_pow_le _ _).trans_lt ?_
  exact_mod_cast (by omega : width - 1 - i < width)

theorem coeff_reversed {width i : Nat} (n : Nat) (hi : i < width) :
    (reversed width n).coeff (width - 1 - i) = (n.testBit i).toNat := by
  rw [reversed, finsetSum_coeff, Finset.sum_eq_single i]
  · rw [← C_eq_natCast, coeff_C_mul_X_pow, if_pos rfl]
  · intro j hj hne
    have hj := Finset.mem_range.mp hj
    rw [← C_eq_natCast, coeff_C_mul_X_pow, if_neg (by omega)]
  · exact fun h => absurd (Finset.mem_range.mpr hi) h

theorem register_injective : Function.Injective register := by
  intro a b h
  refine UInt32.toNat_inj.mp (Nat.eq_of_testBit_eq fun i => ?_)
  by_cases hi : i < 32
  · have hbit : ∀ x y : Bool, ((x.toNat : ZMod 2)) = y.toNat → x = y := by decide
    refine hbit _ _ ?_
    rw [← coeff_reversed a.toNat hi, ← coeff_reversed b.toNat hi]
    exact congrArg (·.coeff (32 - 1 - i)) h
  · have hhigh : ∀ c : UInt32, c.toNat.testBit i = false := fun c =>
      Nat.testBit_lt_two_pow
        (c.toNat_lt.trans_le (Nat.pow_le_pow_right (by omega) (Nat.le_of_not_lt hi)))
    rw [hhigh, hhigh]

/-! ## Steps in the ring of residues -/

/-- The bits of the reversed polynomial are the generator below its leading term. -/
theorem register_polynomial : register polynomial + X ^ 32 = generator := by
  have hbits : polynomial.toNat = 0xEDB88320 := rfl
  rw [register, reversed, hbits, generator]
  simp only [Finset.sum_range_succ, Finset.sum_range_zero, Nat.testBit_eq_decide_div_mod_eq]
  norm_num
  ring

/-- A shift multiplies by `X` and takes the generator out when a one falls off. -/
theorem register_shift (c : UInt32) : register (shift c) =
    X * register c + ((c.toNat.testBit 0).toNat : (ZMod 2)[X]) * generator := by
  have hhalf : (c >>> 1).toNat = c.toNat / 2 := by
    simp [UInt32.toNat_shiftRight, Nat.shiftRight_eq_div_pow]
  have htwo : (2 : (ZMod 2)[X]) = 0 := CharTwo.two_eq_zero
  rw [register, register, X_mul_reversed c.toNat_lt, shift_eq, UInt32.toNat_xor, hhalf,
    reversed_xor, Nat.testBit_zero, ← register_polynomial]
  by_cases hone : c.toNat % 2 = 1
  · -- the one that falls off and the leading term of the generator cancel out
    rw [if_pos hone, hone]
    simp only [register, decide_true, Bool.toNat_true, Nat.cast_one, one_mul]
    linear_combination -X ^ 32 * htwo
  · rw [if_neg hone, decide_eq_false hone]
    simp [reversed]

/-- Shifts are products with powers of `X` up to multiples of the generator. -/
theorem mk_register_iterate_shift (n : Nat) (c : UInt32) :
    AdjoinRoot.mk generator (register (shift^[n] c)) =
      AdjoinRoot.mk generator (register c * X ^ n) := by
  induction n generalizing c with
  | zero => simp
  | succ n ih =>
    rw [Function.iterate_succ_apply, ih, register_shift, pow_succ]
    simp only [map_mul, map_add, AdjoinRoot.mk_self]
    ring

theorem mk_register_step (c : UInt32) (b : UInt8) :
    AdjoinRoot.mk generator (register (step c b)) =
      AdjoinRoot.mk generator (reversed 8 b.toNat * X ^ 32 + register c * X ^ 8) := by
  have hstep : step c b = shift^[8] (c ^^^ b.toUInt32) := rfl
  have hbyte : reversed 32 b.toNat = reversed 8 b.toNat * X ^ 24 := reversed_add b.toNat_lt 24
  have hsum : register (c ^^^ b.toUInt32) = register c + reversed 8 b.toNat * X ^ 24 := by
    rw [register, UInt32.toNat_xor, reversed_xor, UInt8.toNat_toUInt32, hbyte, register]
  rw [hstep, mk_register_iterate_shift, hsum]
  refine congrArg _ ?_
  ring

/-- What the bytes of a message make of a remainder. -/
theorem mk_register_foldl (l : List UInt8) (c : UInt32) :
    AdjoinRoot.mk generator (register (l.foldl step c)) =
      AdjoinRoot.mk generator (message l * X ^ 32 + register c * X ^ (8 * l.length)) := by
  induction l generalizing c with
  | nil => simp [message]
  | cons b rest ih =>
    -- the bytes behind the first one multiply all that it left by a power of `X`
    calc AdjoinRoot.mk generator (register ((b :: rest).foldl step c))
        = AdjoinRoot.mk generator (message rest * X ^ 32) +
            AdjoinRoot.mk generator (register (step c b)) *
              AdjoinRoot.mk generator (X ^ (8 * rest.length)) := by
          rw [List.foldl_cons, ih, map_add, map_mul _ (register _)]
      _ = AdjoinRoot.mk generator
            (message (b :: rest) * X ^ 32 + register c * X ^ (8 * (b :: rest).length)) := by
          rw [mk_register_step, ← map_mul, ← map_add, message, List.length_cons]
          refine congrArg _ ?_
          ring

/-! ## The remainder -/

/-- A remainder has no multiple of the generator left in it. -/
theorem register_eq_modByMonic {c : UInt32} {p : (ZMod 2)[X]}
    (h : AdjoinRoot.mk generator (register c) = AdjoinRoot.mk generator p) :
    register c = p %ₘ generator := by
  have hdegree : (register c).degree < generator.degree := by
    rw [generator_degree]
    exact reversed_degree_lt 32 c.toNat
  calc register c = register c %ₘ generator :=
        ((modByMonic_eq_self_iff generator_monic).mpr hdegree).symm
    _ = p %ₘ generator := modByMonic_eq_of_dvd_sub generator_monic (AdjoinRoot.mk_eq_mk.mp h)

/--
The CRC-32 of a byte string is the complement of the remainder that the generator leaves of the
message, with its first 32 bits complemented and 32 zeros behind it.
-/
theorem eq_crc32_iff (bytes : Bytes) (c : UInt32) :
    c = crc32 bytes ↔ register (~~~c) =
      (message bytes.toList * X ^ 32 + register 0xFFFFFFFF * X ^ (8 * bytes.size)) %ₘ
        generator := by
  have hcrc : register (~~~crc32 bytes) =
      (message bytes.toList * X ^ 32 + register 0xFFFFFFFF * X ^ (8 * bytes.size)) %ₘ
        generator := by
    rw [crc32, UInt32.not_not, ← Array.foldl_toList, ← Array.length_toList]
    exact register_eq_modByMonic (mk_register_foldl _ _)
  rw [← hcrc, register_injective.eq_iff, UInt32.not_inj]

example : crc32 (Bytes.ofText "123456789") = 0xCBF43926 := by
  decide +kernel

end ScriptToolchain.Checksum
