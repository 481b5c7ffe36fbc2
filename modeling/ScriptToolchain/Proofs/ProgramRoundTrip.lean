import Mathlib.Tactic
import ScriptToolchain.Container.ProgramImage
import ScriptToolchain.Proofs.FunctionRoundTrip

/-!
# Program images there and back

`ofBytes_eq_ok_iff` says what the stored forms of a program are: a word of
flags, a root that counts only if its flag is set, the tables, and for each
function an image that is read as this function. So a program whose counts fit
comes back from its stored form (`ofBytes_toBytes`), whatever is read can be
stored and read again, and a stored form that sets nothing that no reader looks
at is the one that is made of its program (`toBytes_of_canonical`).
-/

namespace ScriptToolchain

/-! ## Sizes -/

namespace Bytes

theorem concat_map {α β : Type} (item : β → Bytes) (g : α → β) (as : List α) :
    concat item (as.map g) = concat (fun a => item (g a)) as := by
  induction as with
  | nil => rfl
  | cons a rest ih => rw [List.map_cons, concat_cons, concat_cons, ih]

/-- An item is no longer than all items together. -/
theorem size_le_concat {α : Type} (item : α → Bytes) {a : α} {as : List α} (h : a ∈ as) :
    (item a).size ≤ (concat item as).size := by
  induction as with
  | nil => cases h
  | cons x rest ih =>
    rw [concat_cons, Array.size_append]
    cases h with
    | head => omega
    | tail _ hrest =>
      have := ih hrest
      omega

/-- There are no more items than bytes when each item has a byte. -/
theorem length_le_concat {α : Type} (item : α → Bytes) (as : List α)
    (h : ∀ a, 1 ≤ (item a).size) : as.length ≤ (concat item as).size := by
  induction as with
  | nil => exact Nat.zero_le _
  | cons x rest ih =>
    rw [concat_cons, Array.size_append, List.length_cons]
    have := h x
    omega

theorem size_countedText (s : String) : (countedText s).size = 4 + (ofText s).size := by
  simp [countedText, counted]

theorem size_countedList {α : Type} (item : α → Bytes) (as : List α) :
    (countedList item as).size = 4 + (concat item as).size := by
  simp [countedList]

/-- A list whose stored form is short enough fits. -/
theorem listFits_of_size {α : Type} (item : α → Bytes) {fits : α → Prop} {as : List α}
    (hsize : (countedList item as).size < 2 ^ 32) (hitem : ∀ a, 1 ≤ (item a).size)
    (hfits : ∀ a, (item a).size < 2 ^ 32 → fits a) : ListFits fits as := by
  rw [size_countedList] at hsize
  refine ⟨?_, ?_⟩
  · have := length_le_concat item as hitem
    omega
  · intro a ha
    have := size_le_concat item ha
    exact hfits a (by omega)

end Bytes

/-- A function whose image fits in 32 bits fits. -/
theorem CompiledFunction.fits_of_size {f : CompiledFunction} (h : f.toBytes.size < 2 ^ 32) :
    f.Fits := by
  rw [toBytes_eq, FunctionImage.size_imageWith] at h
  simp only [FunctionImage.fields, Array.size_append, Bytes.counted, Bytes.size_ofCount] at h
  constructor
  · omega
  · intro s hs
    rw [Option.mem_def] at hs
    rw [hs, FunctionImage.part, Bytes.size_countedText] at h
    unfold Bytes.TextFits
    omega
  · intro names hnames
    rw [Option.mem_def] at hnames
    rw [hnames] at h
    simp only [FunctionImage.part] at h
    refine Bytes.listFits_of_size Bytes.countedText (by omega) ?_ ?_
    · intro s
      rw [Bytes.size_countedText]
      omega
    · intro s hs
      rw [Bytes.size_countedText] at hs
      unfold Bytes.TextFits
      omega
  · intro entries hentries
    rw [Option.mem_def] at hentries
    rw [hentries] at h
    simp only [FunctionImage.part] at h
    have hfits : Bytes.ListFits (fun _ => True) entries :=
      Bytes.listFits_of_size FunctionImage.lineEntry (by omega)
        (fun l => by simp [FunctionImage.lineEntry]) (fun _ _ => trivial)
    exact hfits.1

namespace ProgramImage

open Reader

/-- The counts, the texts and the function images of a program fit in 32 bits. -/
structure Fits (p : ProgramImage) : Prop where
  symbols : Bytes.ListFits Bytes.TextFits p.symbols
  strings : Bytes.ListFits Bytes.TextFits p.strings
  sources : Bytes.ListFits (fun s => Bytes.TextFits s.name ∧ Bytes.TextFits s.text) p.sources
  functions : Bytes.ListFits (fun f => f.toBytes.size < 2 ^ 32) p.functions

/-! ## What stands behind the magic -/

/-- The parts behind the magic, with any flags, any root and any images for the functions. -/
def parts (flags : UInt16) (root : UInt64) (images : List Bytes) (p : ProgramImage) : Bytes :=
  Bytes.ofWord16 version ++ (Bytes.ofWord16 flags ++ (Bytes.ofWord64 root ++
    (Bytes.countedList Bytes.countedText p.symbols ++
      (Bytes.countedList Bytes.countedText p.strings ++
        (Bytes.countedList sourceBytes p.sources ++ Bytes.countedList Bytes.counted images)))))

/-- Flags, root and images are read as those of the program, and all that is counted fits. -/
structure Stores (flags : UInt16) (root : UInt64) (images : List Bytes) (p : ProgramImage) :
    Prop where
  root_eq : p.root = if flags &&& rootFlag != 0 then some root else none
  symbolsFit : Bytes.ListFits Bytes.TextFits p.symbols
  stringsFit : Bytes.ListFits Bytes.TextFits p.strings
  sourcesFit : Bytes.ListFits (fun s => Bytes.TextFits s.name ∧ Bytes.TextFits s.text) p.sources
  imagesFit : Bytes.ListFits (fun image => image.size < 2 ^ 32) images
  images_eq : images.map CompiledFunction.ofBytes = p.functions.map Except.ok

/-- The flags that are written. -/
def flags (p : ProgramImage) : UInt16 :=
  if p.root.isSome then rootFlag else 0

theorem body_eq (p : ProgramImage) :
    p.body =
      magic ++ parts p.flags (p.root.getD 0) (p.functions.map CompiledFunction.toBytes) p := by
  have himages : Bytes.countedList Bytes.counted (p.functions.map CompiledFunction.toBytes) =
      Bytes.countedList (fun f => Bytes.counted f.toBytes) p.functions := by
    rw [Bytes.countedList, Bytes.countedList, List.length_map, Bytes.concat_map]
  unfold body parts
  rw [himages]
  simp only [Array.append_assoc]
  rfl

theorem reads_bytes : Reads counted (Encoded (fun b => b.size < 2 ^ 32) Bytes.counted) :=
  reads_counted

theorem reads_text : Reads countedText (Encoded Bytes.TextFits Bytes.countedText) :=
  reads_countedText reads_bytes

theorem reads_texts : Reads (countedList fun _ => countedText)
    (Encoded (Bytes.ListFits Bytes.TextFits) (Bytes.countedList Bytes.countedText)) :=
  reads_countedList fun _ => reads_text

theorem reads_source : Reads readSource
    (Encoded (fun s => Bytes.TextFits s.name ∧ Bytes.TextFits s.text) sourceBytes) := by
  refine (reads_word32.orFail.next fun id => reads_text.next fun name => reads_text.next fun text =>
    reads_pure _).of_iff fun s b => ?_
  constructor
  · intro h
    obtain ⟨id, b₁, -, ⟨name, b₂, hname, ⟨text, b₃, htext, ⟨rfl, rfl⟩, rfl⟩, rfl⟩, rfl⟩ := h
    exact ⟨⟨hname, htext⟩, by simp [sourceBytes]⟩
  · rintro ⟨⟨hname, htext⟩, hb⟩
    rw [hb]
    refine ⟨s.id, _, trivial, ⟨s.name, _, hname, ⟨s.text, #[], htext, ⟨rfl, rfl⟩, rfl⟩, rfl⟩, ?_⟩
    simp [sourceBytes]

theorem reads_sources : Reads (countedList fun _ => readSource)
    (Encoded (Bytes.ListFits fun s => Bytes.TextFits s.name ∧ Bytes.TextFits s.text)
      (Bytes.countedList sourceBytes)) :=
  reads_countedList fun _ => reads_source

/-- A function stands behind the count of its image. -/
theorem reads_function (index : Nat) : Reads (readFunction index) fun f b =>
    ∃ image, (image.size < 2 ^ 32 ∧ CompiledFunction.ofBytes image = .ok f) ∧
      b = Bytes.counted image := by
  refine (reads_bytes.next fun image => (?_ : Reads _ fun f b =>
    CompiledFunction.ofBytes image = .ok f ∧ b = #[])).of_iff fun f b => ?_
  · cases CompiledFunction.ofBytes image with
    | ok f => exact (reads_pure f).of_iff fun f' b => by rw [Except.ok.injEq, eq_comm]
    | error cause => exact (reads_throw _).of_iff fun f' b => by simp
  · constructor
    · rintro ⟨image, b', hsize, ⟨hread, rfl⟩, rfl⟩
      exact ⟨image, ⟨hsize, hread⟩, Array.append_empty⟩
    · rintro ⟨image, ⟨hsize, hread⟩, rfl⟩
      exact ⟨image, #[], hsize, ⟨hread, rfl⟩, Array.append_empty.symm⟩

theorem reads_functions : Reads (countedList readFunction) fun fs b =>
    ∃ images, Bytes.ListFits (fun image => image.size < 2 ^ 32) images ∧
      images.map CompiledFunction.ofBytes = fs.map Except.ok ∧
      b = Bytes.countedList Bytes.counted images := by
  refine (reads_countedItems reads_function).of_iff fun fs b => ?_
  -- the functions are read from the images one by one, so the two counts agree
  simp only [listed_iff_forall₂, List.forall₂_and_left, Bytes.ListFits, Bytes.countedList]
  have hmap : ∀ images : List Bytes,
      List.Forall₂ (fun image f => CompiledFunction.ofBytes image = .ok f) images fs ↔
        images.map CompiledFunction.ofBytes = fs.map Except.ok := by
    intro images
    rw [← List.forall₂_eq_eq_eq, List.forall₂_map_left_iff, List.forall₂_map_right_iff]
  constructor
  · rintro ⟨hlen, c, ⟨images, ⟨hsizes, himages⟩, rfl⟩, rfl⟩
    rw [← himages.length_eq] at hlen ⊢
    exact ⟨images, ⟨hlen, hsizes⟩, (hmap images).mp himages, rfl⟩
  · rintro ⟨images, ⟨hlen, hsizes⟩, hmapped, rfl⟩
    have himages := (hmap images).mpr hmapped
    rw [himages.length_eq] at hlen ⊢
    exact ⟨hlen, _, ⟨images, ⟨hsizes, himages⟩, rfl⟩, rfl⟩

/-- A program is stored with any flags, root and images that are read as its own. -/
theorem reads_parts : Reads readParts fun p b =>
    ∃ flags root images, Stores flags root images p ∧ b = parts flags root images p := by
  unfold readParts
  refine Reads.of_iff (reads_word16.orFail.next fun v => Reads.guard <|
    reads_word16.orFail.next fun flags => reads_word64.orFail.next fun root =>
    reads_texts.next fun symbols => reads_texts.next fun strings =>
    reads_sources.next fun sources => reads_functions.bind fun functions =>
    reads_pure _) fun p b => ?_
  constructor
  · intro h
    obtain ⟨v, b₁, -, ⟨hversion, h⟩, rfl⟩ := h
    obtain ⟨flags, b₂, -, ⟨root, b₃, -, h, rfl⟩, rfl⟩ := h
    obtain ⟨symbols, b₄, hsymbols, ⟨strings, b₅, hstrings, h, rfl⟩, rfl⟩ := h
    obtain ⟨sources, b₆, hsources, h, rfl⟩ := h
    obtain ⟨functions, b₇, b₈, ⟨images, himages, hfunctions, rfl⟩, ⟨rfl, rfl⟩, rfl⟩ := h
    have hv : v = version := Decidable.not_not.mp hversion
    refine ⟨flags, root, images, ⟨rfl, hsymbols, hstrings, hsources, himages, hfunctions⟩, ?_⟩
    simp only [hv, parts, Array.append_empty]
  · rintro ⟨flags, root, images, hstores, hb⟩
    rw [hb, parts]
    refine ⟨version, _, trivial, ⟨not_not.mpr rfl, ?_⟩, rfl⟩
    refine ⟨flags, _, trivial, ⟨root, _, trivial, ?_, rfl⟩, rfl⟩
    refine ⟨p.symbols, _, hstores.symbolsFit, ⟨p.strings, _, hstores.stringsFit, ?_, rfl⟩, rfl⟩
    refine ⟨p.sources, _, hstores.sourcesFit, ?_, rfl⟩
    refine ⟨p.functions, _, #[], ⟨images, hstores.imagesFit, hstores.images_eq, rfl⟩, ⟨?_, rfl⟩,
      Array.append_empty.symm⟩
    rw [← hstores.root_eq]

/-! ## Stored forms -/

/-- A stored form with any flags, any root and any images for the functions. -/
def storedWith (flags : UInt16) (root : UInt64) (images : List Bytes) (p : ProgramImage) : Bytes :=
  Bytes.withChecksum (magic ++ parts flags root images p)

theorem toBytes_eq (p : ProgramImage) :
    p.toBytes =
      storedWith p.flags (p.root.getD 0) (p.functions.map CompiledFunction.toBytes) p := by
  rw [toBytes, body_eq]
  rfl

theorem size_storedWith (flags : UInt16) (root : UInt64) (images : List Bytes) (p : ProgramImage) :
    36 ≤ (storedWith flags root images p).size := by
  simp [storedWith, parts, magic, Bytes.size_countedList]
  omega

theorem extract_storedWith (flags : UInt16) (root : UInt64) (images : List Bytes)
    (p : ProgramImage) : (storedWith flags root images p).extract 0 4 = magic := by
  rw [storedWith, Bytes.withChecksum, Array.append_assoc]
  exact Bytes.extract_append_size magic _

/-- The stored forms of a program. -/
theorem ofBytes_eq_ok_iff {data : Bytes} {p : ProgramImage} :
    ofBytes data = .ok p ↔
      ∃ flags root images, Stores flags root images p ∧ data = storedWith flags root images p := by
  have hbody : ∀ rest : Bytes, (∃ r, readBody { data := magic ++ rest, offset := 4 } = .ok p r) ↔
      ∃ flags root images, Stores flags root images p ∧ rest = parts flags root images p :=
    fun rest => toEnd_eq_ok_iff reads_parts magic rest p
  constructor
  · intro h
    unfold ofBytes at h
    split at h
    · cases h
    rename_i hsize
    unfold minSize at hsize
    split at h
    · cases h
    rename_i hmagic
    dsimp only at h
    split at h
    · cases h
    rename_i hsum
    have hlead : (data.extract 0 (data.size - 4)).extract 0 4 = magic := by
      rw [Array.extract_extract, Nat.zero_add, Nat.min_eq_left (by omega)]
      exact Decidable.not_not.mp hmagic
    obtain ⟨rest, hfirst, hdata⟩ := Bytes.exists_checked magic (by simp [magic]; omega)
      (Decidable.not_not.mp hsum) hlead
    rw [hfirst] at h
    split at h
    · rename_i p' r hread
      cases h
      obtain ⟨flags, root, images, hstores, hrest⟩ := (hbody _).mp ⟨r, hread⟩
      refine ⟨flags, root, images, hstores, ?_⟩
      rw [hdata, hrest]
      rfl
    · cases h
  · rintro ⟨flags, root, images, hstores, hdata⟩
    obtain ⟨r, hread⟩ := (hbody _).mpr ⟨flags, root, images, hstores, rfl⟩
    have hsize := size_storedWith flags root images p
    have hmagic := extract_storedWith flags root images p
    rw [hdata, ofBytes, if_neg (by unfold minSize; omega), if_neg (not_not.mpr hmagic)]
    rw [storedWith]
    simp only [Bytes.body_withChecksum, Bytes.trailer_withChecksum, Bytes.toWord32_ofWord32, ne_eq,
      not_true_eq_false, if_false, hread]

theorem Fits.stores {p : ProgramImage} (h : p.Fits) :
    Stores p.flags (p.root.getD 0) (p.functions.map CompiledFunction.toBytes) p where
  root_eq := by
    unfold flags
    cases p.root with
    | none => rfl
    | some id => simp [rootFlag]
  symbolsFit := h.symbols
  stringsFit := h.strings
  sourcesFit := h.sources
  imagesFit := by
    refine ⟨?_, ?_⟩
    · rw [List.length_map]
      exact h.functions.1
    · intro image himage
      obtain ⟨f, hf, rfl⟩ := List.mem_map.mp himage
      exact h.functions.2 f hf
  images_eq := by
    rw [List.map_map]
    apply List.map_congr_left
    intro f hf
    exact CompiledFunction.ofBytes_toBytes (CompiledFunction.fits_of_size (h.functions.2 f hf))

/-- A program that fits comes back from its stored form. -/
theorem ofBytes_toBytes {p : ProgramImage} (h : p.Fits) : ofBytes p.toBytes = .ok p :=
  ofBytes_eq_ok_iff.mpr ⟨_, _, _, h.stores, toBytes_eq p⟩

/-- Every function of a stored program is read from one of the images. -/
theorem Stores.exists_image {flags : UInt16} {root : UInt64} {images : List Bytes}
    {p : ProgramImage} (h : Stores flags root images p) {f : CompiledFunction}
    (hf : f ∈ p.functions) :
    ∃ image ∈ images, CompiledFunction.ofBytes image = .ok f := by
  have hmem : Except.ok f ∈ images.map CompiledFunction.ofBytes := by
    rw [h.images_eq]
    exact List.mem_map_of_mem hf
  exact List.mem_map.mp hmem

theorem Stores.fits {flags : UInt16} {root : UInt64} {images : List Bytes} {p : ProgramImage}
    (h : Stores flags root images p) : p.Fits where
  symbols := h.symbolsFit
  strings := h.stringsFit
  sources := h.sourcesFit
  functions := by
    have hlen := congrArg List.length h.images_eq
    rw [List.length_map, List.length_map] at hlen
    refine ⟨hlen ▸ h.imagesFit.1, ?_⟩
    intro f hf
    obtain ⟨image, himage, hread⟩ := h.exists_image hf
    rw [CompiledFunction.size_toBytes_of_ofBytes hread]
    exact h.imagesFit.2 image himage

/-! ## What no reader looks at -/

/-- The flags of a stored form. -/
def flagsField (data : Bytes) : UInt16 :=
  Bytes.toWord16 (data.extract 6 8)

/-- The root of a stored form, which counts only if its flag is set. -/
def rootField (data : Bytes) : UInt64 :=
  Bytes.toWord64 (data.extract 8 16)

/-- Reads the images of the functions as they stand, behind all other parts. -/
def readImages : Decode (List Bytes) := do
  let _ ← need Reader.word16
  let _ ← need Reader.word16
  let _ ← need Reader.word64
  let _ ← countedList fun _ => countedText
  let _ ← countedList fun _ => countedText
  let _ ← countedList fun _ => readSource
  countedList fun _ => counted

/-- The images of the functions as they stand in a stored form. -/
def embeddedImages (data : Bytes) : List Bytes :=
  match readImages { data := data.extract 0 (data.size - 4), offset := 4 } with
  | .ok images _ => images
  | .error _ _ => []

/--
A stored form that sets nothing that no reader looks at: no flag but that of the root, no root
without its flag, no unused bit in the images of the functions.
-/
structure Canonical (data : Bytes) : Prop where
  flags : flagsField data = 0 ∨ flagsField data = 1
  root : flagsField data &&& rootFlag = 0 → rootField data = 0
  images : ∀ image ∈ embeddedImages data, FunctionImage.Plain image

theorem storedWith_eq_append (flags : UInt16) (root : UInt64) (images : List Bytes)
    (p : ProgramImage) : ∃ rest, storedWith flags root images p =
      magic ++ Bytes.ofWord16 version ++
        (Bytes.ofWord16 flags ++ (Bytes.ofWord64 root ++ rest)) := by
  unfold storedWith Bytes.withChecksum parts
  simp only [Array.append_assoc]
  exact ⟨_, rfl⟩

theorem flagsField_storedWith (flags : UInt16) (root : UInt64) (images : List Bytes)
    (p : ProgramImage) : flagsField (storedWith flags root images p) = flags := by
  obtain ⟨rest, hdata⟩ := storedWith_eq_append flags root images p
  unfold flagsField
  rw [Bytes.extract_of_eq_append hdata (by simp [magic]) (by simp [magic]), Bytes.toWord16_ofWord16]

theorem rootField_storedWith (flags : UInt16) (root : UInt64) (images : List Bytes)
    (p : ProgramImage) : rootField (storedWith flags root images p) = root := by
  obtain ⟨rest, hdata⟩ := storedWith_eq_append flags root images p
  rw [← Array.append_assoc] at hdata
  unfold rootField
  rw [Bytes.extract_of_eq_append hdata (by simp [magic]) (by simp [magic]), Bytes.toWord64_ofWord64]

theorem reads_imageList : Reads (countedList fun _ => counted)
    (Encoded (Bytes.ListFits fun image => image.size < 2 ^ 32) (Bytes.countedList Bytes.counted)) :=
  reads_countedList fun _ => reads_bytes

/-- The images stand there, with nothing said about what is in them. -/
theorem reads_images : Reads readImages fun images b => ∃ v flags root symbols strings sources,
    Bytes.ListFits Bytes.TextFits symbols ∧ Bytes.ListFits Bytes.TextFits strings ∧
      Bytes.ListFits (fun s => Bytes.TextFits s.name ∧ Bytes.TextFits s.text) sources ∧
      Bytes.ListFits (fun image => image.size < 2 ^ 32) images ∧
      b = Bytes.ofWord16 v ++ (Bytes.ofWord16 flags ++ (Bytes.ofWord64 root ++
        (Bytes.countedList Bytes.countedText symbols ++
          (Bytes.countedList Bytes.countedText strings ++
            (Bytes.countedList sourceBytes sources ++
              Bytes.countedList Bytes.counted images))))) := by
  unfold readImages
  refine Reads.of_iff (reads_word16.orFail.next fun _ => reads_word16.orFail.next fun _ =>
    reads_word64.orFail.next fun _ => reads_texts.next fun _ => reads_texts.next fun _ =>
    reads_sources.next fun _ => reads_imageList) fun images b => ?_
  constructor
  · intro h
    obtain ⟨v, b₁, -, ⟨flags, b₂, -, ⟨root, b₃, -, h, rfl⟩, rfl⟩, rfl⟩ := h
    obtain ⟨symbols, b₄, hsymbols, ⟨strings, b₅, hstrings, h, rfl⟩, rfl⟩ := h
    obtain ⟨sources, b₆, hsources, ⟨himages, rfl⟩, rfl⟩ := h
    exact ⟨v, flags, root, symbols, strings, sources, hsymbols, hstrings, hsources, himages, rfl⟩
  · intro h
    obtain ⟨v, flags, root, symbols, strings, sources, h⟩ := h
    obtain ⟨hsymbols, hstrings, hsources, himages, hb⟩ := h
    rw [hb]
    refine ⟨v, _, trivial, ⟨flags, _, trivial, ⟨root, _, trivial, ?_, rfl⟩, rfl⟩, rfl⟩
    refine ⟨symbols, _, hsymbols, ⟨strings, _, hstrings, ?_, rfl⟩, rfl⟩
    exact ⟨sources, _, hsources, ⟨himages, rfl⟩, rfl⟩

theorem embeddedImages_storedWith {flags : UInt16} {root : UInt64} {images : List Bytes}
    {p : ProgramImage} (h : Stores flags root images p) :
    embeddedImages (storedWith flags root images p) = images := by
  have hwithin : ({ data := magic ++ parts flags root images p, offset := 4 } : Reader).Within := by
    unfold Within
    simp [magic]
  have hholds : ({ data := magic ++ parts flags root images p, offset := 4 } : Reader).Holds
      (parts flags root images p) := ⟨magic, #[], by simp, rfl⟩
  have hread := (reads_images hwithin images _).mpr ⟨_, ⟨version, flags, root, p.symbols, p.strings,
    p.sources, h.symbolsFit, h.stringsFit, h.sourcesFit, h.imagesFit, rfl⟩, hholds, rfl⟩
  unfold embeddedImages storedWith
  rw [Bytes.body_withChecksum, hread]

/-- A canonical stored form is the one that is made of its program. -/
theorem toBytes_of_canonical {data : Bytes} {p : ProgramImage} (h : ofBytes data = .ok p)
    (hcanonical : Canonical data) : p.toBytes = data := by
  obtain ⟨flags, root, images, hstores, rfl⟩ := ofBytes_eq_ok_iff.mp h
  obtain ⟨hflags, hroot, hplain⟩ := hcanonical
  rw [flagsField_storedWith] at hflags hroot
  rw [rootField_storedWith] at hroot
  rw [embeddedImages_storedWith hstores] at hplain
  have himages : p.functions.map CompiledFunction.toBytes = images := by
    have hlen := congrArg List.length hstores.images_eq
    rw [List.length_map, List.length_map] at hlen
    -- each image is plain, so it is the one that is made of its function
    apply List.ext_getElem
    · rw [List.length_map, hlen]
    intro i hi hi'
    have hread := List.getElem_of_eq hstores.images_eq (i := i) (by simpa using hi')
    rw [List.getElem_map, List.getElem_map] at hread
    rw [List.getElem_map]
    exact CompiledFunction.toBytes_of_plain hread (hplain _ (List.getElem_mem hi'))
  have hsame : p.flags = flags ∧ p.root.getD 0 = root := by
    unfold ProgramImage.flags
    rw [hstores.root_eq]
    obtain rfl | rfl := hflags
    -- without its flag the root is written as zero, whatever stood there
    · exact ⟨rfl, (hroot rfl).symm⟩
    · exact ⟨rfl, rfl⟩
  rw [toBytes_eq, himages, hsame.1, hsame.2]

/--
A program whose counts, texts and function images fit comes back from its stored form, also with a
root whose id is zero. Whatever is read can be stored and read again, each of its functions is the
one that its embedded image is read as, and a stored form that sets nothing that no reader looks at
is made again byte for byte.
-/
theorem stored_forms_round_trip :
    (∀ p : ProgramImage, p.Fits → ofBytes p.toBytes = .ok p) ∧
    ∀ (data : Bytes) (p : ProgramImage), ofBytes data = .ok p →
      ofBytes p.toBytes = .ok p ∧
      (embeddedImages data).map CompiledFunction.ofBytes = p.functions.map Except.ok ∧
      (Canonical data → p.toBytes = data) := by
  refine ⟨fun p hfits => ofBytes_toBytes hfits, ?_⟩
  intro data p h
  refine ⟨?_, ?_, toBytes_of_canonical h⟩
  · obtain ⟨flags, root, images, hstores, -⟩ := ofBytes_eq_ok_iff.mp h
    exact ofBytes_toBytes hstores.fits
  · obtain ⟨flags, root, images, hstores, rfl⟩ := ofBytes_eq_ok_iff.mp h
    rw [embeddedImages_storedWith hstores]
    exact hstores.images_eq

/-- A program whose root has the id zero. -/
def game : ProgramImage where
  root := some 0
  symbols := ["score", "update"]
  strings := ["hi"]
  sources := [{ id := 1, name := "main", text := "score = 1" }]
  functions := [CompiledFunction.update]

theorem size_update_lt : CompiledFunction.update.toBytes.size < 2 ^ 32 := by
  decide +kernel

theorem fits_game (root : Option UInt64) : Fits { game with root := root } where
  symbols := by simp [game, Bytes.ListFits, Bytes.TextFits]; decide
  strings := by simp [game, Bytes.ListFits, Bytes.TextFits]; decide
  sources := by simp [game, Bytes.ListFits, Bytes.TextFits]; decide
  functions := by simpa [game, Bytes.ListFits] using size_update_lt

/-- A stored form of `game` with any flags, and any reserved byte in the image of its function. -/
def gameWith (flags : UInt16) (reserved : UInt8) : Bytes :=
  storedWith flags 0 [FunctionImage.imageWith 0x0E reserved CompiledFunction.update] game

theorem stores_game {flags : UInt16} {reserved : UInt8} (h : (flags &&& rootFlag != 0) = true) :
    Stores flags 0 [FunctionImage.imageWith 0x0E reserved CompiledFunction.update] game where
  root_eq := by
    rw [if_pos h]
    rfl
  symbolsFit := (fits_game _).symbols
  stringsFit := (fits_game _).strings
  sourcesFit := (fits_game _).sources
  imagesFit := by
    have hsize := size_update_lt
    rw [CompiledFunction.toBytes_eq, FunctionImage.size_imageWith] at hsize
    refine ⟨by simp, ?_⟩
    intro image himage
    rw [List.mem_singleton.mp himage, FunctionImage.size_imageWith]
    exact hsize
  images_eq := by
    have hread : CompiledFunction.ofBytes
        (FunctionImage.imageWith 0x0E reserved CompiledFunction.update) =
          .ok CompiledFunction.update :=
      CompiledFunction.ofBytes_eq_ok_iff.mpr
        ⟨CompiledFunction.fits_update, 0x0E, reserved, ⟨rfl, rfl, rfl, rfl⟩, rfl⟩
    rw [List.map_singleton, hread]
    rfl

theorem canonical_game : Canonical (gameWith 1 0) := by
  have hstores : Stores 1 0 [FunctionImage.imageWith 0x0E 0 CompiledFunction.update] game :=
    stores_game (by decide)
  constructor
  · right
    exact flagsField_storedWith ..
  · intro _
    exact rootField_storedWith ..
  · intro image himage
    rw [gameWith, embeddedImages_storedWith hstores] at himage
    rw [List.mem_singleton.mp himage]
    exact CompiledFunction.plain_update

/--
With the root zero and without a root the program comes back as it is. A stored form with unused
bits set is read as the program too, and the one without them is made again.
-/
theorem stored_forms_round_trip_game :
    ofBytes game.toBytes = .ok game ∧
      ofBytes (toBytes { game with root := none }) = .ok { game with root := none } ∧
      ofBytes (gameWith 0xFFFF 9) = .ok game ∧
      (embeddedImages (gameWith 0xFFFF 9)).map CompiledFunction.ofBytes =
        [.ok CompiledFunction.update] ∧
      game.toBytes = gameWith 1 0 := by
  have hloose : ofBytes (gameWith 0xFFFF 9) = .ok game :=
    ofBytes_eq_ok_iff.mpr ⟨0xFFFF, 0, _, stores_game (by decide), rfl⟩
  have hstrict : ofBytes (gameWith 1 0) = .ok game :=
    ofBytes_eq_ok_iff.mpr ⟨1, 0, _, stores_game (by decide), rfl⟩
  refine ⟨stored_forms_round_trip.1 game (fits_game _),
    stored_forms_round_trip.1 _ (fits_game none), hloose,
    (stored_forms_round_trip.2 _ _ hloose).2.1, ?_⟩
  exact (stored_forms_round_trip.2 _ _ hstrict).2.2 canonical_game

end ProgramImage

end ScriptToolchain
