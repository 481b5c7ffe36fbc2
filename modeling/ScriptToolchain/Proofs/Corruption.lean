import Mathlib.Tactic
import ScriptToolchain.Proofs.Checksum
import ScriptToolchain.Proofs.ProgramRoundTrip

/-!
# Damaged images

Every image that is made ends in its own CRC-32, and so does every image that
gets past the checksum. All of these have the same CRC-32, and two byte strings
that differ inside four bytes in a row only have different ones, so a change
that small never leads from one to the other: not in the body, not in the
trailer, and not across the boundary between them.
-/

namespace ScriptToolchain

namespace Bytes

theorem DifferLocally.size_eq {a b : Bytes} (h : a.DifferLocally b) : b.size = a.size := by
  obtain ⟨first, x, y, last, rfl, rfl, hsize, -, -⟩ := h
  simp [hsize]

/-- To differ locally is to be made by a store of at most four bytes that changes something. -/
theorem differLocally_iff_store {a b : Bytes} :
    a.DifferLocally b ↔
      ∃ i new, i + new.size ≤ a.size ∧ new.size ≤ 4 ∧ b = a.store i new ∧ b ≠ a := by
  constructor
  · rintro ⟨first, x, y, last, rfl, rfl, hsize, hx, hne⟩
    refine ⟨first.size, y, ?_, hsize ▸ hx, (store_middle first x last y hsize).symm, ?_⟩
    · rw [Array.size_append, Array.size_append, hsize]
      omega
    · intro heq
      have hmiddle : first ++ y = first ++ x := (Array.append_left_inj last).mp heq
      exact hne ((Array.append_right_inj first).mp hmiddle).symm
  · rintro ⟨i, new, hfit, hnew, rfl, hne⟩
    have hparts : a = a.extract 0 i ++ a.extract i (i + new.size) ++
        a.extract (i + new.size) a.size := by
      simp [hfit]
    have hfirst : (a.extract 0 i).size = i := by
      rw [Array.size_extract]
      omega
    have hold : (a.extract i (i + new.size)).size = new.size := by
      rw [Array.size_extract]
      omega
    have hstore : a.store i new =
        a.extract 0 i ++ new ++ a.extract (i + new.size) a.size := by
      have h := store_middle (a.extract 0 i) (a.extract i (i + new.size))
        (a.extract (i + new.size) a.size) new hold
      rwa [← hparts, hfirst] at h
    refine ⟨_, _, _, _, hparts, hstore, hold, hold.trans_le hnew, ?_⟩
    intro heq
    apply hne
    rw [hstore]
    exact (congrArg (fun x => a.extract 0 i ++ x ++ _) heq).symm.trans hparts.symm

/-- The checksum behind the bytes. -/
def trailer (data : Bytes) : UInt32 :=
  toWord32 (data.extract (data.size - 4) data.size)

/-- The checksum of what stands before the trailer. -/
def bodyChecksum (data : Bytes) : UInt32 :=
  Checksum.crc32 (data.extract 0 (data.size - 4))

/-- A small change to bytes that end in their checksum leaves a checksum that does not fit. -/
theorem DifferLocally.checksum_ne {body data : Bytes} (h : body.withChecksum.DifferLocally data) :
    data.trailer ≠ data.bodyChecksum := by
  intro hfits
  have hsize : 4 ≤ data.size := by
    rw [h.size_eq, size_withChecksum]
    omega
  have hdata : data = withChecksum (data.extract 0 (data.size - 4)) := eq_withChecksum hsize hfits
  -- both sides end in their own checksum, so both have the residue for theirs
  have hresidue : Checksum.crc32 body.withChecksum = Checksum.crc32 data := by
    rw [hdata, withChecksum, withChecksum, Checksum.crc32_append_crc32,
      Checksum.crc32_append_crc32]
  exact Checksum.crc32_ne_of_differLocally h hresidue

end Bytes

namespace CompiledFunction

/-- Bytes that are long enough are refused for their checksum before anything else. -/
theorem ofBytes_of_checksum_ne {data : Bytes} (hsize : FunctionImage.minSize ≤ data.size)
    (h : data.trailer ≠ data.bodyChecksum) :
    ofBytes data = .error (.hashMismatch data.bodyChecksum data.trailer) := by
  unfold ofBytes
  rw [if_neg (Nat.not_lt.mpr hsize)]
  exact if_pos h.symm

theorem minSize_le_toBytes (f : CompiledFunction) : FunctionImage.minSize ≤ f.toBytes.size := by
  rw [toBytes_eq, FunctionImage.size_imageWith]
  simp [FunctionImage.fields, FunctionImage.minSize, Bytes.counted]
  omega

theorem ofBytes_of_differLocally {f : CompiledFunction} {data : Bytes}
    (h : f.toBytes.DifferLocally data) :
    ofBytes data = .error (.hashMismatch data.bodyChecksum data.trailer) := by
  apply ofBytes_of_checksum_ne
  · rw [h.size_eq]
    exact minSize_le_toBytes f
  · exact Bytes.DifferLocally.checksum_ne h

end CompiledFunction

namespace ProgramImage

/-- Bytes that are long enough are refused for their magic, then for their checksum. -/
theorem ofBytes_of_checksum_ne {data : Bytes} (hsize : minSize ≤ data.size)
    (h : data.trailer ≠ data.bodyChecksum) :
    ofBytes data = .error (if data.extract 0 4 = magic then
      .checksum data.trailer data.bodyChecksum else .badMagic) := by
  unfold ofBytes
  rw [if_neg (Nat.not_lt.mpr hsize)]
  by_cases hmagic : data.extract 0 4 = magic
  · rw [if_neg (not_not.mpr hmagic), if_pos hmagic]
    exact if_pos h
  · rw [if_pos hmagic, if_neg hmagic]

theorem minSize_le_toBytes (p : ProgramImage) : minSize ≤ p.toBytes.size := by
  rw [toBytes_eq]
  exact Nat.le_trans (by decide) (size_storedWith ..)

theorem ofBytes_of_differLocally {p : ProgramImage} {data : Bytes}
    (h : p.toBytes.DifferLocally data) :
    ofBytes data = .error (if data.extract 0 4 = magic then
      .checksum data.trailer data.bodyChecksum else .badMagic) := by
  apply ofBytes_of_checksum_ne
  · rw [h.size_eq]
    exact minSize_le_toBytes p
  · exact Bytes.DifferLocally.checksum_ne h

end ProgramImage

/--
An image of a function or of a program in which at most four bytes in a row are changed is refused,
wherever they stand. A function is refused for its checksum; a program is refused for its checksum
too, or for its magic if that was changed. The error tells the two checksums that do not agree.
-/
theorem local_corruption_refused :
    (∀ (f : CompiledFunction) (data : Bytes), f.toBytes.DifferLocally data →
      data.trailer ≠ data.bodyChecksum ∧
      CompiledFunction.ofBytes data =
        .error (.hashMismatch data.bodyChecksum data.trailer)) ∧
    ∀ (p : ProgramImage) (data : Bytes), p.toBytes.DifferLocally data →
      data.trailer ≠ data.bodyChecksum ∧
      ProgramImage.ofBytes data =
        .error (if data.extract 0 4 = ProgramImage.magic then
          .checksum data.trailer data.bodyChecksum else .badMagic) := by
  constructor
  · intro f data h
    exact ⟨Bytes.DifferLocally.checksum_ne h, CompiledFunction.ofBytes_of_differLocally h⟩
  · intro p data h
    exact ⟨Bytes.DifferLocally.checksum_ne h, ProgramImage.ofBytes_of_differLocally h⟩

/-- A byte that is changed shows that the store changed something. -/
theorem differLocally_store {image new : Bytes} {i : Nat} (k : Nat)
    (hfit : i + new.size ≤ image.size) (hnew : new.size ≤ 4)
    (hne : (image.store i new)[k]? ≠ image[k]?) : image.DifferLocally (image.store i new) := by
  apply Bytes.differLocally_iff_store.mpr
  refine ⟨i, new, hfit, hnew, rfl, ?_⟩
  intro heq
  rw [heq] at hne
  exact hne rfl

/-- The image with ones in the last two bytes of the body and in the first two of the trailer. -/
def Bytes.blotted (image : Bytes) : Bytes :=
  image.store (image.size - 6) #[1, 1, 1, 1]

/--
A change across the boundary to the trailer, one of the version, which is not looked at yet, and
one of the magic.
-/
theorem local_corruption_refused_game :
    CompiledFunction.ofBytes CompiledFunction.update.toBytes.blotted =
        .error (.hashMismatch CompiledFunction.update.toBytes.blotted.bodyChecksum
          CompiledFunction.update.toBytes.blotted.trailer) ∧
      ProgramImage.ofBytes (ProgramImage.game.toBytes.store 4 #[9]) =
        .error (.checksum (ProgramImage.game.toBytes.store 4 #[9]).trailer
          (ProgramImage.game.toBytes.store 4 #[9]).bodyChecksum) ∧
      ProgramImage.ofBytes (ProgramImage.game.toBytes.store 0 #[9]) = .error .badMagic := by
  have hsize := CompiledFunction.minSize_le_toBytes CompiledFunction.update
  have hupdate : CompiledFunction.update.toBytes.DifferLocally
      CompiledFunction.update.toBytes.blotted := by
    refine differLocally_store (CompiledFunction.update.toBytes.size - 5) ?_ (by decide)
      (by decide +kernel)
    show _ - 6 + 4 ≤ _
    unfold FunctionImage.minSize at hsize
    omega
  have hsize' : 20 ≤ ProgramImage.game.toBytes.size := ProgramImage.minSize_le_toBytes _
  have hversion : (ProgramImage.game.toBytes.store 4 #[9])[4]? ≠ ProgramImage.game.toBytes[4]? ∧
      (ProgramImage.game.toBytes.store 4 #[9]).extract 0 4 = ProgramImage.magic := by
    decide +kernel
  have hmagic : (ProgramImage.game.toBytes.store 0 #[9])[0]? ≠ ProgramImage.game.toBytes[0]? ∧
      (ProgramImage.game.toBytes.store 0 #[9]).extract 0 4 ≠ ProgramImage.magic := by
    decide +kernel
  refine ⟨(local_corruption_refused.1 _ _ hupdate).2, ?_, ?_⟩
  · have hread := (local_corruption_refused.2 _ _ <|
      differLocally_store 4 (Nat.le_trans (by decide) hsize') (by decide) hversion.1).2
    rwa [if_pos hversion.2] at hread
  · have hread := (local_corruption_refused.2 _ _ <|
      differLocally_store 0 (Nat.le_trans (by decide) hsize') (by decide) hmagic.1).2
    rwa [if_neg hmagic.2] at hread

end ScriptToolchain
