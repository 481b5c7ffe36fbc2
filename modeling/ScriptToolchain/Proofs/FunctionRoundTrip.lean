import Mathlib.Tactic
import ScriptToolchain.Code.Opcode
import ScriptToolchain.Container.FunctionImage
import ScriptToolchain.Proofs.Reading

/-!
# Function images there and back

`ofBytes_eq_ok_iff` says what the images of a function are: its parts behind
the magic, the flags that announce them with any upper half, any reserved
byte, and the checksum of all that. So a function whose counts fit comes back
from its image (`ofBytes_toBytes`), and an image that is accepted differs from
the one that is made of its function in the bits that no reader looks at and
in the checksum only.
-/

namespace ScriptToolchain

/-! ## Bytes with their checksum -/

namespace Bytes

/-- Bytes with their CRC-32 behind them. -/
def withChecksum (body : Bytes) : Bytes :=
  body ++ ofWord32 (Checksum.crc32 body)

@[simp]
theorem size_withChecksum (body : Bytes) : body.withChecksum.size = body.size + 4 := by
  simp [withChecksum]

theorem body_withChecksum (body : Bytes) :
    body.withChecksum.extract 0 (body.withChecksum.size - 4) = body := by
  rw [size_withChecksum, Nat.add_sub_cancel]
  exact extract_append_size body _

theorem trailer_withChecksum (body : Bytes) :
    body.withChecksum.extract (body.withChecksum.size - 4) body.withChecksum.size =
      ofWord32 (Checksum.crc32 body) := by
  rw [size_withChecksum, Nat.add_sub_cancel]
  exact extract_behind body _

/-- Bytes that end in the checksum of what stands before it. -/
theorem eq_withChecksum {data : Bytes} (hsize : 4 ≤ data.size)
    (h : toWord32 (data.extract (data.size - 4) data.size) =
      Checksum.crc32 (data.extract 0 (data.size - 4))) :
    data = withChecksum (data.extract 0 (data.size - 4)) := by
  have htrailer : (data.extract (data.size - 4) data.size).size = 4 := by
    simp
    omega
  rw [withChecksum, ← h, ofWord32_toWord32 htrailer]
  simp

theorem eq_append_of_extract (data first : Bytes) (hsize : first.size ≤ data.size)
    (h : data.extract 0 first.size = first) :
    data = first ++ data.extract first.size data.size := by
  rw [← h]
  simp [hsize]

/-- Bytes that end in the checksum of a body that starts with `first`. -/
theorem exists_checked {data : Bytes} (first : Bytes) (hsize : first.size + 4 ≤ data.size)
    (hsum : toWord32 (data.extract (data.size - 4) data.size) =
      Checksum.crc32 (data.extract 0 (data.size - 4)))
    (hfirst : (data.extract 0 (data.size - 4)).extract 0 first.size = first) :
    ∃ rest, data.extract 0 (data.size - 4) = first ++ rest ∧
      data = withChecksum (first ++ rest) := by
  have hbody := eq_append_of_extract (data.extract 0 (data.size - 4)) first
    (by rw [Array.size_extract]; omega) hfirst
  refine ⟨_, hbody, ?_⟩
  rw [← hbody]
  exact eq_withChecksum (by omega) hsum

end Bytes

/-- The code, the texts and the counts of a function fit in 32 bits. -/
structure CompiledFunction.Fits (f : CompiledFunction) : Prop where
  code : f.code.size < 2 ^ 32
  name : ∀ s ∈ f.name, Bytes.TextFits s
  symbols : ∀ names ∈ f.symbols, Bytes.ListFits Bytes.TextFits names
  lines : ∀ entries ∈ f.lines, entries.length < 2 ^ 32

namespace FunctionImage

/-! ## What stands behind the magic -/

/-- The parts of an image behind the reserved byte. -/
def fields (f : CompiledFunction) : Bytes :=
  Bytes.ofWord64 f.id ++ (Bytes.ofWord32 f.params ++ (Bytes.ofWord32 f.locals ++
    (Bytes.ofWord32 f.maxStack ++ (part Bytes.countedText f.name ++ (Bytes.counted f.code ++
      (part (Bytes.countedList Bytes.countedText) f.symbols ++
        part (Bytes.countedList lineEntry) f.lines))))))

/-- What stands behind the magic, with any flags and any reserved byte. -/
def parts (flags reserved : UInt8) (f : CompiledFunction) : Bytes :=
  Bytes.ofWord16 version ++ (#[flags] ++ (#[reserved] ++ fields f))

/-- An image with any flags and any reserved byte. -/
def imageWith (flags reserved : UInt8) (f : CompiledFunction) : Bytes :=
  Bytes.withChecksum (magic ++ parts flags reserved f)

/-- The flags tell whether the function is a root and which of its parts are there. -/
structure Announces (flags : UInt8) (f : CompiledFunction) : Prop where
  root : f.root = (flags &&& rootFlag != 0)
  name : f.name.isSome = (flags &&& nameFlag != 0)
  symbols : f.symbols.isSome = (flags &&& symbolsFlag != 0)
  lines : f.lines.isSome = (flags &&& linesFlag != 0)

theorem body_eq (f : CompiledFunction) : body f = magic ++ parts (flags f) 0 f := by
  have hbytes : #[flags f, 0] = #[flags f] ++ #[0] := rfl
  unfold body parts fields
  rw [hbytes]
  simp only [Array.append_assoc]

open Reader

theorem reads_code : Reads counted (Encoded (fun b => b.size < 2 ^ 32) Bytes.counted) :=
  reads_counted

theorem reads_text :
    Reads countedText (Encoded Bytes.TextFits Bytes.countedText) :=
  reads_countedText reads_code

theorem reads_lineEntry : Reads readLineEntry (Encoded (fun _ => True) lineEntry) := by
  refine (reads_word32.orFail.next fun address => reads_word32.orFail.next fun line =>
    reads_pure _).of_iff fun l b => ?_
  constructor
  · rintro ⟨address, _, -, ⟨line, _, -, ⟨rfl, rfl⟩, rfl⟩, rfl⟩
    exact ⟨trivial, by simp [lineEntry]⟩
  · rintro ⟨-, rfl⟩
    exact ⟨l.address, _, trivial, ⟨l.line, #[], trivial, ⟨rfl, rfl⟩, rfl⟩, by simp [lineEntry]⟩

/-- A part is there if and only if its flag is set. -/
theorem reads_partIf {α : Type} {flags flag : UInt8} {read : Decode α} {fits : α → Prop}
    {encode : α → Bytes} (h : Reads read (Encoded fits encode)) :
    Reads (partIf flags flag read)
      (Encoded (fun o => o.isSome = (flags &&& flag != 0) ∧ ∀ a ∈ o, fits a) (part encode)) := by
  unfold partIf
  split
  · rename_i hflag
    rw [map_eq_pure_bind]
    refine (h.next fun a => reads_pure (some a)).of_iff fun o b => ?_
    rw [hflag]
    constructor
    · rintro ⟨a, _, hfits, ⟨rfl, rfl⟩, rfl⟩
      exact ⟨by simpa using hfits, by simp [part]⟩
    · rintro ⟨⟨hsome, hfits⟩, rfl⟩
      obtain ⟨a, rfl⟩ := Option.isSome_iff_exists.mp hsome
      exact ⟨a, #[], hfits a rfl, ⟨rfl, rfl⟩, by simp [part]⟩
  · rename_i hflag
    refine (reads_pure none).of_iff fun o b => ?_
    rw [Bool.not_eq_true] at hflag
    rw [hflag]
    constructor
    · rintro ⟨rfl, rfl⟩
      exact ⟨⟨rfl, by simp⟩, rfl⟩
    · rintro ⟨⟨hnone, -⟩, rfl⟩
      cases o with
      | none => exact ⟨rfl, rfl⟩
      | some a => cases hnone

/-- The parts of a function are read when they fit and the flags announce them. -/
theorem reads_parts :
    Reads readParts fun f b =>
      f.Fits ∧ ∃ flags reserved, Announces flags f ∧ b = parts flags reserved f := by
  unfold readParts
  refine Reads.of_iff (reads_word16.orFail.next fun v => Reads.guard <|
    reads_byte.orFail.next fun flags => reads_byte.orFail.next fun reserved =>
    reads_word64.orFail.next fun id => reads_word32.orFail.next fun params =>
    reads_word32.orFail.next fun locals => reads_word32.orFail.next fun maxStack =>
    (reads_partIf reads_text).next fun name => reads_code.next fun code =>
    (reads_partIf (reads_countedList fun _ => reads_text)).next fun symbols =>
    (reads_partIf (reads_countedList fun _ => reads_lineEntry)).next fun lines =>
    reads_pure _) fun f b => ?_
  constructor
  · intro h
    obtain ⟨v, b₁, -, ⟨hversion, h⟩, rfl⟩ := h
    obtain ⟨flags, b₂, -, ⟨reserved, b₃, -, h, rfl⟩, rfl⟩ := h
    obtain ⟨id, b₄, -, ⟨params, b₅, -, h, rfl⟩, rfl⟩ := h
    obtain ⟨locals, b₆, -, ⟨maxStack, b₇, -, h, rfl⟩, rfl⟩ := h
    obtain ⟨name, b₈, ⟨hname, hnameFits⟩, ⟨code, b₉, hcode, h, rfl⟩, rfl⟩ := h
    obtain ⟨symbols, b₁₀, ⟨hsymbols, hsymbolsFit⟩, h, rfl⟩ := h
    obtain ⟨lines, b₁₁, ⟨hlines, hlinesFit⟩, ⟨rfl, rfl⟩, rfl⟩ := h
    have hv : v = version := Decidable.not_not.mp hversion
    refine ⟨⟨hcode, hnameFits, hsymbolsFit, fun entries he => (hlinesFit entries he).1⟩, flags,
      reserved, ⟨rfl, hname, hsymbols, hlines⟩, ?_⟩
    simp only [hv, parts, fields, Array.append_empty]
  · rintro ⟨hfits, flags, reserved, hflags, hb⟩
    have hlines : ∀ entries ∈ f.lines, Bytes.ListFits (fun _ => True) entries :=
      fun entries he => ⟨hfits.lines entries he, fun _ _ => trivial⟩
    rw [hb, parts, fields]
    refine ⟨version, _, trivial, ⟨not_not.mpr rfl, ?_⟩, rfl⟩
    refine ⟨flags, _, trivial, ⟨reserved, _, trivial, ?_, rfl⟩, rfl⟩
    refine ⟨f.id, _, trivial, ⟨f.params, _, trivial, ?_, rfl⟩, rfl⟩
    refine ⟨f.locals, _, trivial, ⟨f.maxStack, _, trivial, ?_, rfl⟩, rfl⟩
    refine ⟨f.name, _, ⟨hflags.name, hfits.name⟩, ⟨f.code, _, hfits.code, ?_, rfl⟩, rfl⟩
    refine ⟨f.symbols, _, ⟨hflags.symbols, hfits.symbols⟩, ?_, rfl⟩
    refine ⟨f.lines, #[], ⟨hflags.lines, hlines⟩, ⟨?_, rfl⟩, Array.append_empty.symm⟩
    rw [← hflags.root]

/-! ## Flags -/

theorem announces_flags (f : CompiledFunction) : Announces (flags f) f := by
  unfold flags
  constructor <;> cases f.root <;> cases f.symbols.isSome <;> cases f.lines.isSome <;>
    cases f.name.isSome <;> rfl

/-- The lower half of a byte is made of its flags. -/
theorem lowerHalf_eq (b : UInt8) :
    b &&& 0x0F = flagIf (b &&& rootFlag != 0) rootFlag |||
      flagIf (b &&& symbolsFlag != 0) symbolsFlag ||| flagIf (b &&& linesFlag != 0) linesFlag |||
      flagIf (b &&& nameFlag != 0) nameFlag := by
  -- a byte has 256 values, so all of them are tried
  have hall : ∀ v : BitVec 8, UInt8.ofBitVec v &&& 0x0F =
      flagIf (UInt8.ofBitVec v &&& rootFlag != 0) rootFlag |||
        flagIf (UInt8.ofBitVec v &&& symbolsFlag != 0) symbolsFlag |||
        flagIf (UInt8.ofBitVec v &&& linesFlag != 0) linesFlag |||
        flagIf (UInt8.ofBitVec v &&& nameFlag != 0) nameFlag := by
    decide +kernel
  exact hall b.toBitVec

theorem Announces.flags_eq {b : UInt8} {f : CompiledFunction} (h : Announces b f) :
    flags f = b &&& 0x0F := by
  rw [lowerHalf_eq, flags, h.root, h.name, h.symbols, h.lines]

/-- The bits that no reader looks at are zero: the upper half of the flags and the reserved byte. -/
def Plain (image : Bytes) : Prop :=
  image.getD 6 0 &&& 0xF0 = 0 ∧ image.getD 7 0 = 0

/-! ## Single bytes -/

/-- Magic and version. -/
def lead : Bytes :=
  magic ++ Bytes.ofWord16 version

@[simp]
theorem size_lead : lead.size = 6 :=
  rfl

theorem imageWith_eq (flags reserved : UInt8) (f : CompiledFunction) :
    imageWith flags reserved f = lead ++ (#[flags, reserved] ++ (fields f ++
      Bytes.ofWord32 (Checksum.crc32 (magic ++ parts flags reserved f)))) := by
  have hbytes : #[flags, reserved] = #[flags] ++ #[reserved] := rfl
  rw [hbytes]
  simp only [imageWith, Bytes.withChecksum, parts, lead, Array.append_assoc]

theorem size_imageWith (flags reserved : UInt8) (f : CompiledFunction) :
    (imageWith flags reserved f).size = 12 + (fields f).size := by
  simp [imageWith_eq]
  omega

@[simp]
theorem getElem?_six (flags reserved : UInt8) (f : CompiledFunction) :
    (imageWith flags reserved f)[6]? = some flags := by
  rw [imageWith_eq, Array.getElem?_append_right (by simp), Array.getElem?_append_left (by simp)]
  simp

@[simp]
theorem getElem?_seven (flags reserved : UInt8) (f : CompiledFunction) :
    (imageWith flags reserved f)[7]? = some reserved := by
  rw [imageWith_eq, Array.getElem?_append_right (by simp), Array.getElem?_append_left (by simp)]
  simp

/-- Flags and reserved byte show nowhere else but in the checksum. -/
theorem getElem?_imageWith (flags reserved flags' reserved' : UInt8) (f : CompiledFunction)
    {i : Nat} (hi : i + 4 < (imageWith flags reserved f).size) (h6 : i ≠ 6) (h7 : i ≠ 7) :
    (imageWith flags reserved f)[i]? = (imageWith flags' reserved' f)[i]? := by
  rw [size_imageWith] at hi
  rw [imageWith_eq, imageWith_eq]
  -- a byte stands in the lead or among the fields, which both images share
  by_cases hfirst : i < lead.size
  · rw [Array.getElem?_append_left hfirst, Array.getElem?_append_left hfirst]
  · rw [size_lead] at hfirst
    have hbehind : ∀ a b : UInt8, (#[a, b] : Bytes).size ≤ i - lead.size := by
      intro a b
      show 2 ≤ i - 6
      omega
    have hfields : ∀ a b : UInt8, i - lead.size - (#[a, b] : Bytes).size < (fields f).size := by
      intro a b
      show i - 6 - 2 < _
      omega
    have hlead : lead.size ≤ i := Nat.le_of_not_lt hfirst
    rw [Array.getElem?_append_right hlead, Array.getElem?_append_right (hbehind _ _),
      Array.getElem?_append_left (hfields _ _)]
    rw [Array.getElem?_append_right hlead, Array.getElem?_append_right (hbehind _ _),
      Array.getElem?_append_left (hfields _ _)]
    rfl

/-- Where no unused bit is set, the flags are those of the function; the reserved byte is zero. -/
theorem Plain.imageWith_eq {flags reserved : UInt8} {f : CompiledFunction}
    (h : Plain (imageWith flags reserved f)) (hflags : Announces flags f) :
    imageWith flags reserved f = imageWith (FunctionImage.flags f) 0 f := by
  obtain ⟨hupper, hreserved⟩ := h
  have hall : ∀ v : BitVec 8, UInt8.ofBitVec v &&& 0xF0 = 0 →
      UInt8.ofBitVec v &&& 0x0F = UInt8.ofBitVec v := by
    decide +kernel
  rw [Array.getD_eq_getD_getElem?, getElem?_six] at hupper
  rw [Array.getD_eq_getD_getElem?, getElem?_seven] at hreserved
  rw [hflags.flags_eq, hall flags.toBitVec hupper, show reserved = 0 from hreserved]

end FunctionImage

namespace CompiledFunction

open FunctionImage

theorem toBytes_eq (f : CompiledFunction) : f.toBytes = imageWith (flags f) 0 f := by
  rw [toBytes, body_eq]
  rfl

/-- The images of a function: any flags that announce its parts, and any reserved byte. -/
theorem ofBytes_eq_ok_iff {data : Bytes} {f : CompiledFunction} :
    ofBytes data = .ok f ↔
      f.Fits ∧ ∃ flags reserved, Announces flags f ∧ data = imageWith flags reserved f := by
  have hbody : ∀ rest : Bytes, (∃ r, readBody { data := magic ++ rest, offset := 4 } = .ok f r) ↔
      f.Fits ∧ ∃ flags reserved, Announces flags f ∧ rest = parts flags reserved f :=
    fun rest => Reader.toEnd_eq_ok_iff reads_parts magic rest f
  constructor
  · intro h
    unfold ofBytes at h
    split at h
    · cases h
    rename_i hsize
    unfold minSize at hsize
    dsimp only at h
    split at h
    · cases h
    -- the checksum comes before the magic here, and behind it in a program
    rename_i hsum
    split at h
    · cases h
    rename_i hmagic
    obtain ⟨rest, hfirst, hdata⟩ := Bytes.exists_checked magic (by simp [magic]; omega)
      (Decidable.not_not.mp hsum).symm (Decidable.not_not.mp hmagic)
    rw [hfirst] at h
    split at h
    · rename_i f' r hread
      cases h
      obtain ⟨hfits, flags, reserved, hflags, hrest⟩ := (hbody _).mp ⟨r, hread⟩
      refine ⟨hfits, flags, reserved, hflags, ?_⟩
      rw [hdata, hrest]
      rfl
    · cases h
  · rintro ⟨hfits, flags, reserved, hflags, hdata⟩
    obtain ⟨r, hread⟩ := (hbody _).mpr ⟨hfits, flags, reserved, hflags, rfl⟩
    have hsize : data.size = 12 + (fields f).size := by
      rw [hdata, size_imageWith]
    have hfields : 24 ≤ (fields f).size := by
      simp [fields, Bytes.counted]
      omega
    have hmagic : (magic ++ parts flags reserved f).extract 0 4 = magic :=
      Bytes.extract_append_size magic _
    unfold ofBytes
    rw [if_neg (by unfold minSize; omega)]
    rw [imageWith] at hdata
    rw [hdata]
    simp only [Bytes.body_withChecksum, Bytes.trailer_withChecksum, Bytes.toWord32_ofWord32, ne_eq,
      not_true_eq_false, if_false, hmagic, hread]

/-- A function that fits comes back from its image. -/
theorem ofBytes_toBytes {f : CompiledFunction} (h : f.Fits) : ofBytes f.toBytes = .ok f :=
  ofBytes_eq_ok_iff.mpr ⟨h, flags f, 0, announces_flags f, toBytes_eq f⟩

theorem size_toBytes_of_ofBytes {data : Bytes} {f : CompiledFunction} (h : ofBytes data = .ok f) :
    f.toBytes.size = data.size := by
  obtain ⟨-, flags, reserved, -, rfl⟩ := ofBytes_eq_ok_iff.mp h
  rw [toBytes_eq, size_imageWith, size_imageWith]

theorem toBytes_of_plain {data : Bytes} {f : CompiledFunction} (h : ofBytes data = .ok f)
    (hplain : Plain data) : f.toBytes = data := by
  obtain ⟨-, flags, reserved, hflags, rfl⟩ := ofBytes_eq_ok_iff.mp h
  rw [toBytes_eq, hplain.imageWith_eq hflags]

/--
A function whose counts fit comes back from its image. The image that is made of a function that
was read is as long as the one it was read from, and differs from it in the upper half of the
flags, in the reserved byte and in the checksum at most; where these bits are zero it is the same.
-/
theorem images_round_trip :
    (∀ f : CompiledFunction, f.Fits → ofBytes f.toBytes = .ok f) ∧
    ∀ (data : Bytes) (f : CompiledFunction), ofBytes data = .ok f →
      f.toBytes.size = data.size ∧
      (∀ i, i + 4 < data.size → i ≠ 6 → i ≠ 7 → f.toBytes[i]? = data[i]?) ∧
      f.toBytes[6]? = data[6]?.map (· &&& 0x0F) ∧
      (Plain data → f.toBytes = data) := by
  refine ⟨fun f hfits => ofBytes_toBytes hfits, ?_⟩
  intro data f h
  refine ⟨size_toBytes_of_ofBytes h, ?_, ?_, toBytes_of_plain h⟩
  · intro i hi h6 h7
    obtain ⟨-, flags, reserved, -, rfl⟩ := ofBytes_eq_ok_iff.mp h
    rw [toBytes_eq]
    exact (getElem?_imageWith _ _ _ _ f hi h6 h7).symm
  · obtain ⟨-, flags, reserved, hflags, rfl⟩ := ofBytes_eq_ok_iff.mp h
    rw [toBytes_eq, getElem?_six, getElem?_six, hflags.flags_eq]
    rfl

/-- A method with names and lines. -/
def update : CompiledFunction where
  id := 7
  code := Bytes.ofWord32 Opcode.ret.tag
  params := 1
  locals := 1
  name := some "update"
  symbols := some ["self", "a"]
  lines := some [{ address := 0, line := 3 }]

theorem fits_update : update.Fits where
  code := by decide
  name := by simp [update, Bytes.TextFits]; decide
  symbols := by simp [update, Bytes.ListFits, Bytes.TextFits]; decide
  lines := by simp [update]

theorem plain_update : Plain (imageWith 0x0E 0 update) := by
  unfold Plain
  simp [Array.getD_eq_getD_getElem?]
  decide

/--
The image with all unused flags set is read as the function, and is not made again; the one with
none of them set is.
-/
theorem images_round_trip_update :
    ofBytes update.toBytes = .ok update ∧ ofBytes (imageWith 0xFE 9 update) = .ok update ∧
      update.toBytes.size = (imageWith 0xFE 9 update).size ∧
      update.toBytes[8]? = (imageWith 0xFE 9 update)[8]? ∧
      update.toBytes[6]? = (imageWith 0xFE 9 update)[6]?.map (· &&& 0x0F) ∧
      update.toBytes ≠ imageWith 0xFE 9 update ∧ update.toBytes = imageWith 0x0E 0 update := by
  have hread : ofBytes (imageWith 0xFE 9 update) = .ok update :=
    ofBytes_eq_ok_iff.mpr ⟨fits_update, 0xFE, 9, ⟨rfl, rfl, rfl, rfl⟩, rfl⟩
  have hread' : ofBytes (imageWith 0x0E 0 update) = .ok update :=
    ofBytes_eq_ok_iff.mpr ⟨fits_update, 0x0E, 0, ⟨rfl, rfl, rfl, rfl⟩, rfl⟩
  have hlong : 8 + 4 < (imageWith 0xFE 9 update).size := by
    simp [size_imageWith, fields]
  obtain ⟨hsize, hrest, hflags, -⟩ := images_round_trip.2 _ _ hread
  obtain ⟨-, -, -, hplain⟩ := images_round_trip.2 _ _ hread'
  refine ⟨images_round_trip.1 update fits_update, hread, hsize,
    hrest 8 hlong (by decide) (by decide), hflags, ?_, hplain plain_update⟩
  intro h
  -- the upper half of the flags is gone
  rw [h] at hflags
  simp at hflags
  cases hflags

end CompiledFunction

end ScriptToolchain
