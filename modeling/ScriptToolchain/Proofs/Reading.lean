import Mathlib.Tactic
import ScriptToolchain.Container.Encoding
import ScriptToolchain.Proofs.Checksum

/-!
# What a read accepts

A form relates values to byte strings. `Reads read form` says that a read
inside the data answers `a` exactly when a byte string with the form of `a`
stands at the offset, and that it moves past this byte string and no further.
So it says both ways of a round trip at once: from left to right what is
accepted, from right to left that it is accepted.

There is one rule for each way in which reads are put together. The rule for
a sequence joins the forms of its parts (`Reads.bind`); counted texts and
lists have one stored form for each value (`reads_countedText`,
`reads_countedList`).
-/

namespace ScriptToolchain

/-! ## Words and their bytes -/

namespace Bytes

/-- What stands between two parts. -/
theorem extract_of_eq_append {data first middle last : Bytes} {i j : Nat}
    (h : data = first ++ (middle ++ last)) (hi : i = first.size)
    (hj : j = first.size + middle.size) : data.extract i j = middle := by
  rw [h, hi, hj, Array.extract_append, Array.extract_append]
  simp

/-- What stands behind a first part. -/
theorem extract_behind (first last : Bytes) :
    (first ++ last).extract first.size (first.size + last.size) = last :=
  extract_of_eq_append (by rw [Array.append_empty]) rfl rfl

theorem extract_append_size (first last : Bytes) :
    (first ++ last).extract 0 first.size = first :=
  extract_of_eq_append (Array.empty_append ..).symm rfl (Nat.zero_add _).symm

/-- One byte put below a word that has room for it. -/
theorem toNat_shiftIn16 (x : UInt16) (b : UInt8) (h : x.toNat < 2 ^ 8) :
    (x <<< 8 ||| b.toUInt16).toNat = x.toNat * 256 + b.toNat := by
  have hb : b.toNat < 2 ^ 8 := b.toNat_lt
  have hx : x.toNat <<< 8 < 2 ^ 16 := by
    rw [Nat.shiftLeft_eq]
    omega
  rw [UInt16.toNat_or, UInt16.toNat_shiftLeft, UInt8.toNat_toUInt16]
  rw [show (8 : UInt16).toNat % 16 = 8 from rfl, Nat.mod_eq_of_lt hx,
    ← Nat.shiftLeft_add_eq_or_of_lt hb, Nat.shiftLeft_eq]

theorem toNat_toWord16 (b : Bytes) (h : b.size ≤ 2) : b.toWord16.toNat = value b.toList := by
  rw [toWord16, ← Array.foldr_toList]
  rw [← Array.length_toList] at h
  generalize b.toList = l at h
  -- the fold starts at the last byte; what is behind a byte has room above it
  induction l with
  | nil => rfl
  | cons x rest ih =>
    rw [List.length_cons] at h
    have hlt : value rest < 2 ^ 8 :=
      Nat.lt_of_lt_of_le (value_lt rest)
        (Nat.pow_le_pow_right (n := 256) (by omega) (by omega : rest.length ≤ 1))
    have hr := ih (by omega)
    rw [List.foldr_cons, toNat_shiftIn16 _ _ (hr ▸ hlt), hr, value]

@[simp]
theorem size_ofWord16 (v : UInt16) : (ofWord16 v).size = 2 :=
  rfl

/-- A 16-bit word comes back from its bytes. -/
@[simp]
theorem toWord16_ofWord16 (v : UInt16) : (ofWord16 v).toWord16 = v := by
  rw [← UInt16.toNat_inj, toNat_toWord16 _ (by simp)]
  have hv := v.toNat_lt
  simp only [ofWord16, value, UInt16.toNat_toUInt8, UInt16.toNat_shiftRight,
    Nat.shiftRight_eq_div_pow, UInt16.reduceToNat, Nat.reduceMod, Nat.reducePow]
  omega

theorem ofWord16_toWord16 {b : Bytes} (h : b.size = 2) : ofWord16 b.toWord16 = b := by
  apply Array.toList_inj.mp
  apply value_inj (by simp [h])
  rw [← toNat_toWord16 _ (by simp), toWord16_ofWord16, toNat_toWord16 b (by omega)]

/-- Four bytes come back from the word they stand for. -/
theorem ofWord32_toWord32 {b : Bytes} (h : b.size = 4) : ofWord32 b.toWord32 = b := by
  apply Array.toList_inj.mp
  apply value_inj (by simp [h])
  rw [← toNat_toWord32 _ (by simp), toWord32_ofWord32, toNat_toWord32 b (by omega)]

theorem ofWord64_toWord64 {b : Bytes} (h : b.size = 8) : ofWord64 b.toWord64 = b := by
  apply Array.toList_inj.mp
  apply value_inj (by simp [h])
  rw [← toNat_toWord64 _ (by simp), toWord64_ofWord64, toNat_toWord64 b (by omega)]

/-- Bytes are the UTF-8 form of the text that is read from them, and of no other. -/
theorem toText?_eq_some_iff {b : Bytes} {s : String} : b.toText? = some s ↔ b = ofText s := by
  unfold toText? ofText String.fromUTF8?
  constructor
  · intro h
    split at h
    · cases h
      rfl
    · cases h
  · rintro rfl
    split
    · rfl
    · rename_i hinvalid
      exact absurd s.isValidUTF8 hinvalid

/-! ## Counted items -/

theorem concat_append_fold {α : Type} (item : α → Bytes) (items : List α) (first : Bytes) :
    items.foldl (fun acc a => acc ++ item a) first = first ++ concat item items := by
  unfold concat
  induction items generalizing first with
  | nil => simp
  | cons a rest ih =>
    rw [List.foldl_cons, ih, List.foldl_cons, ih (#[] ++ item a)]
    simp

@[simp]
theorem concat_nil {α : Type} (item : α → Bytes) : concat item [] = #[] :=
  rfl

@[simp]
theorem concat_cons {α : Type} (item : α → Bytes) (a : α) (rest : List α) :
    concat item (a :: rest) = item a ++ concat item rest := by
  show rest.foldl (fun acc a => acc ++ item a) (#[] ++ item a) = _
  rw [concat_append_fold]
  simp

@[simp]
theorem size_ofCount (n : Nat) : (ofCount n).size = 4 :=
  rfl

/-- The count of the bytes of a text fits in 32 bits. -/
def TextFits (s : String) : Prop :=
  (ofText s).size < 2 ^ 32

/-- The count of a list fits in 32 bits, and all items fit. -/
def ListFits {α : Type} (fits : α → Prop) (as : List α) : Prop :=
  as.length < 2 ^ 32 ∧ ∀ a ∈ as, fits a

theorem ofCount_of_toNat {n : Nat} {w : UInt32} (h : n = w.toNat) : ofCount n = ofWord32 w := by
  have hn : n < 2 ^ 32 := h ▸ w.toNat_lt
  rw [ofCount, UInt32.toNat_inj.mp ((toNat_saturate32 hn).trans h)]

end Bytes

namespace Reader

/-! ## Forms and reads -/

variable {ε α β : Type}

/-- The bytes stand at the offset. -/
def Holds (r : Reader) (b : Bytes) : Prop :=
  ∃ before after, r.data = before ++ b ++ after ∧ r.offset = before.size

/-- The offset lies inside the data or at its end. -/
def Within (r : Reader) : Prop :=
  r.offset ≤ r.data.size

/-- Moved on by `n` bytes. -/
def advance (r : Reader) (n : Nat) : Reader :=
  { r with offset := r.offset + n }

/--
A read inside the data answers `a` exactly when bytes with the form of `a` stand at the offset,
and moves past them.
-/
def Reads (read : EStateM ε Reader α) (form : α → Bytes → Prop) : Prop :=
  ∀ ⦃r : Reader⦄, r.Within → ∀ a r',
    read r = .ok a r' ↔ ∃ b, form a b ∧ r.Holds b ∧ r' = r.advance b.size

/-- The only form of a value is how it is written, and only values that fit have one. -/
def Encoded (fits : α → Prop) (encode : α → Bytes) (a : α) (b : Bytes) : Prop :=
  fits a ∧ b = encode a

theorem holds_empty {r : Reader} : r.Holds #[] ↔ r.Within := by
  constructor
  · rintro ⟨before, after, hdata, hoffset⟩
    unfold Within
    rw [hdata, hoffset]
    simp
  · intro h
    unfold Within at h
    refine ⟨r.data.extract 0 r.offset, r.data.extract r.offset r.data.size, ?_, ?_⟩
    · simp [Nat.max_eq_right h]
    · simp [Nat.min_eq_left h]

theorem Holds.within_advance {r : Reader} {b : Bytes} (h : r.Holds b) :
    (r.advance b.size).Within := by
  obtain ⟨before, after, hdata, hoffset⟩ := h
  unfold Within advance
  rw [hdata, hoffset]
  simp

/-- Bytes that stand at the offset are what is cut out there. -/
theorem Holds.extract_eq {r : Reader} {b : Bytes} (h : r.Holds b) :
    r.data.extract r.offset (r.offset + b.size) = b := by
  obtain ⟨before, after, hdata, hoffset⟩ := h
  rw [hdata, hoffset, Array.append_assoc, Array.extract_append]
  simp

theorem Holds.size_le {r : Reader} {b : Bytes} (h : r.Holds b) :
    r.offset + b.size ≤ r.data.size :=
  h.within_advance

theorem holds_append {r : Reader} {b c : Bytes} :
    r.Holds (b ++ c) ↔ r.Holds b ∧ (r.advance b.size).Holds c := by
  constructor
  · rintro ⟨before, after, hdata, hoffset⟩
    refine ⟨⟨before, c ++ after, ?_, hoffset⟩, ⟨before ++ b, after, ?_, ?_⟩⟩
    · rw [hdata]
      simp
    · rw [advance, hdata]
      simp
    · rw [advance, hoffset]
      simp
  · rintro ⟨⟨before, after, hdata, hoffset⟩, ⟨before', after', hdata', hoffset'⟩⟩
    -- what stands before the second part is what stands before the first, and the first
    have hsize : (before ++ b).size = before'.size := by
      rw [← hoffset', advance, hoffset, Array.size_append]
    have hsplit : before ++ b ++ after = before' ++ (c ++ after') := by
      rw [← hdata, ← Array.append_assoc]
      exact hdata'
    obtain ⟨hbefore, hafter⟩ := Array.append_inj hsplit hsize
    refine ⟨before, after', ?_, hoffset⟩
    rw [hdata, hafter]
    simp

theorem advance_advance (r : Reader) (m n : Nat) :
    (r.advance m).advance n = r.advance (m + n) := by
  simp [advance, Nat.add_assoc]

theorem Reads.of_iff {read : EStateM ε Reader α} {form form' : α → Bytes → Prop}
    (h : Reads read form) (hform : ∀ a b, form a b ↔ form' a b) : Reads read form' := by
  intro r hr a r'
  rw [h hr]
  simp only [hform]

/-! ## Putting reads together -/

theorem reads_pure (a : α) :
    Reads (pure a : EStateM ε Reader α) (fun a' b => a' = a ∧ b = #[]) := by
  intro r hr a' r'
  constructor
  · intro h
    cases h
    exact ⟨#[], ⟨rfl, rfl⟩, holds_empty.mpr hr, rfl⟩
  · rintro ⟨b, ⟨rfl, rfl⟩, -, rfl⟩
    rfl

theorem reads_throw (error : ε) :
    Reads (throw error : EStateM ε Reader α) (fun _ _ => False) := by
  intro r _ a r'
  constructor
  · intro h
    cases h
  · rintro ⟨b, hfalse, -⟩
    exact hfalse.elim

/-- A form behind a form. -/
theorem Reads.bind {read : EStateM ε Reader α} {next : α → EStateM ε Reader β}
    {form : α → Bytes → Prop} {form' : α → β → Bytes → Prop} (h : Reads read form)
    (h' : ∀ a, Reads (next a) (form' a)) :
    Reads (read >>= next) (fun c b => ∃ a b₁ b₂, form a b₁ ∧ form' a c b₂ ∧ b = b₁ ++ b₂) := by
  intro r hr c r'
  simp only [Bind.bind, EStateM.bind]
  constructor
  · intro hrun
    cases hread : read r with
    | error e s => simp [hread] at hrun
    | ok a s =>
      obtain ⟨b₁, hform, hholds, rfl⟩ := (h hr a s).mp hread
      simp only [hread] at hrun
      obtain ⟨b₂, hform', hholds', rfl⟩ := (h' a hholds.within_advance c r').mp hrun
      refine ⟨b₁ ++ b₂, ⟨a, b₁, b₂, hform, hform', rfl⟩, holds_append.mpr ⟨hholds, hholds'⟩, ?_⟩
      rw [advance_advance, Array.size_append]
  · rintro ⟨b, ⟨a, b₁, b₂, hform, hform', rfl⟩, hholds, rfl⟩
    obtain ⟨hholds₁, hholds₂⟩ := holds_append.mp hholds
    rw [(h hr a _).mpr ⟨b₁, hform, hholds₁, rfl⟩]
    simp only
    rw [(h' a hholds₁.within_advance c _).mpr ⟨b₂, hform', hholds₂, rfl⟩, advance_advance,
      Array.size_append]

/-- A form behind a written value. -/
theorem Reads.next {read : EStateM ε Reader α} {next : α → EStateM ε Reader β}
    {fits : α → Prop} {encode : α → Bytes} {form : α → β → Bytes → Prop}
    (h : Reads read (Encoded fits encode)) (h' : ∀ a, Reads (next a) (form a)) :
    Reads (read >>= next) (fun c b => ∃ a b', fits a ∧ form a c b' ∧ b = encode a ++ b') := by
  refine (h.bind h').of_iff fun c b => ?_
  constructor
  · rintro ⟨a, b₁, b₂, ⟨hfits, rfl⟩, hform, rfl⟩
    exact ⟨a, b₂, hfits, hform, rfl⟩
  · rintro ⟨a, b', hfits, hform, rfl⟩
    exact ⟨a, encode a, b', ⟨hfits, rfl⟩, hform, rfl⟩

/-- A read that goes on only if nothing stands against it. -/
theorem Reads.guard {p : Prop} [Decidable p] {error : ε} {next : PUnit → EStateM ε Reader α}
    {form : α → Bytes → Prop} (h : Reads (next ⟨⟩) form) :
    Reads (if p then throw error >>= next else next ⟨⟩) (fun a b => ¬ p ∧ form a b) := by
  intro r hr a r'
  split
  · rename_i hp
    constructor
    · intro hrun
      cases hrun
    · rintro ⟨b, ⟨hnot, -⟩, -⟩
      exact absurd hp hnot
  · rename_i hp
    rw [h hr]
    simp only [hp, not_false_eq_true, true_and]

theorem Reads.orFail {error : ε} {read : Read α} {form : α → Bytes → Prop} (h : Reads read form) :
    Reads (Reader.orFail error read) form := by
  intro r hr a r'
  rw [← h hr]
  unfold Reader.orFail
  cases read r <;> simp

/-! ## Words and bytes -/

/-- As many bytes as are asked for. -/
theorem reads_take (n : Nat) : Reads (take n) (fun a b => b.size = n ∧ a = b) := by
  intro r hr a r'
  unfold Within at hr
  unfold take remaining
  constructor
  · intro h
    split at h
    · cases h
    · rename_i hleft
      rw [if_neg (by omega)] at h
      cases h
      have hsize : (r.data.extract r.offset (r.offset + n)).size = n := by
        simp
        omega
      have hend : r.offset + n ≤ r.data.size := by omega
      refine ⟨_, ⟨hsize, rfl⟩, ⟨r.data.extract 0 r.offset,
        r.data.extract (r.offset + n) r.data.size, ?_, ?_⟩, ?_⟩
      · simp [Nat.max_eq_right hend]
      · simp [Nat.min_eq_left hr]
      · rw [hsize]
        rfl
  · rintro ⟨b, ⟨rfl, rfl⟩, hholds, rfl⟩
    have hsize := hholds.size_le
    rw [if_neg (by omega), if_neg (by omega), hholds.extract_eq]
    rfl

/-- A read of `n` bytes that are the form of a value. -/
theorem reads_take_map {n : Nat} {encode : α → Bytes} {decode : Bytes → α}
    (hsize : ∀ a, (encode a).size = n) (hdecode : ∀ a, decode (encode a) = a)
    (hencode : ∀ b : Bytes, b.size = n → encode (decode b) = b) :
    Reads (do return decode (← take n)) (Encoded (fun _ => True) encode) := by
  refine (Reads.bind (reads_take n) fun b => reads_pure (decode b)).of_iff fun a b => ?_
  constructor
  · rintro ⟨c, b₁, b₂, ⟨hsize₁, hc⟩, ⟨ha, hempty⟩, hb⟩
    refine ⟨trivial, ?_⟩
    rw [hb, hempty, ha, hc, hencode b₁ hsize₁]
    simp
  · rintro ⟨-, rfl⟩
    exact ⟨encode a, encode a, #[], ⟨hsize a, rfl⟩, ⟨(hdecode a).symm, rfl⟩, by simp⟩

theorem reads_byte : Reads byte (Encoded (fun _ => True) fun a => #[a]) := by
  refine reads_take_map (fun _ => rfl) (fun _ => rfl) fun b hb => ?_
  obtain ⟨l⟩ := b
  obtain ⟨x, rfl⟩ := List.length_eq_one_iff.mp hb
  rfl

theorem reads_word16 : Reads word16 (Encoded (fun _ => True) Bytes.ofWord16) :=
  reads_take_map Bytes.size_ofWord16 Bytes.toWord16_ofWord16 fun _ => Bytes.ofWord16_toWord16

theorem reads_word32 : Reads word32 (Encoded (fun _ => True) Bytes.ofWord32) :=
  reads_take_map Bytes.size_ofWord32 Bytes.toWord32_ofWord32 fun _ => Bytes.ofWord32_toWord32

theorem reads_word64 : Reads word64 (Encoded (fun _ => True) Bytes.ofWord64) :=
  reads_take_map Bytes.size_ofWord64 Bytes.toWord64_ofWord64 fun _ => Bytes.ofWord64_toWord64

/-! ## Counted items -/

/-- Bytes behind their count. -/
theorem reads_counted {error error' : ε} :
    Reads (do let n ← Reader.orFail error word32; Reader.orFail error' (take n.toNat))
      (Encoded (fun a => a.size < 2 ^ 32) Bytes.counted) := by
  refine (reads_word32.orFail.next fun n => (reads_take n.toNat).orFail).of_iff fun a b => ?_
  constructor
  · rintro ⟨n, b', -, ⟨hsize, rfl⟩, rfl⟩
    -- the count was read from 32 bits, so it is not cut off when it is written
    constructor
    · show a.size < 2 ^ 32
      rw [hsize]
      exact n.toNat_lt
    · rw [Bytes.counted, Bytes.ofCount_of_toNat hsize]
  · rintro ⟨hsize, rfl⟩
    exact ⟨saturate32 a.size, a, trivial, ⟨(toNat_saturate32 hsize).symm, rfl⟩, rfl⟩

/-- A text behind its count of bytes. -/
theorem reads_countedText {error : ε} {counted : EStateM ε Reader Bytes}
    (h : Reads counted (Encoded (fun a => a.size < 2 ^ 32) Bytes.counted)) :
    Reads
      (do
        match (← counted).toText? with
        | some s => return s
        | none => throw error)
      (Encoded Bytes.TextFits Bytes.countedText) := by
  have hnext : ∀ a : Bytes, Reads
      (match a.toText? with
        | some s => (pure s : EStateM ε Reader String)
        | none => throw error)
      (fun s b => a = Bytes.ofText s ∧ b = #[]) := by
    intro a
    cases htext : a.toText? with
    | some s =>
      refine (reads_pure s).of_iff fun s' b => ?_
      rw [← Bytes.toText?_eq_some_iff, htext, Option.some_inj, eq_comm]
    | none =>
      refine (reads_throw error).of_iff fun s' b => ?_
      simp only [false_iff, not_and]
      intro ha
      rw [← Bytes.toText?_eq_some_iff, htext] at ha
      cases ha
  refine (h.next hnext).of_iff fun s b => ?_
  constructor
  · rintro ⟨a, b', hsize, ⟨rfl, rfl⟩, rfl⟩
    exact ⟨hsize, by simp [Bytes.countedText]⟩
  · rintro ⟨hsize, rfl⟩
    exact ⟨_, #[], hsize, ⟨rfl, rfl⟩, by simp [Bytes.countedText]⟩

/-- The forms of items one behind the other. -/
def Listed (form : α → Bytes → Prop) : List α → Bytes → Prop
  | [], b => b = #[]
  | a :: rest, b => ∃ b₁ b₂, form a b₁ ∧ Listed form rest b₂ ∧ b = b₁ ++ b₂

theorem reads_times {item : Nat → EStateM ε Reader α} {form : α → Bytes → Prop}
    (h : ∀ i, Reads (item i) form) (position n : Nat) :
    Reads (times item position n) (fun as b => as.length = n ∧ Listed form as b) := by
  induction n generalizing position with
  | zero =>
    refine (reads_pure []).of_iff fun as b => ?_
    rw [List.length_eq_zero_iff]
    constructor
    · rintro ⟨rfl, rfl⟩
      exact ⟨rfl, rfl⟩
    · rintro ⟨rfl, hb⟩
      exact ⟨rfl, hb⟩
  | succ n ih =>
    refine ((h position).bind fun a => (ih (position + 1)).bind fun rest =>
      reads_pure (a :: rest)).of_iff fun as b => ?_
    constructor
    · rintro ⟨a, b₁, b₂, hform, ⟨rest, b₃, b₄, ⟨hlen, hlisted⟩, ⟨has, hb₄⟩, hb₂⟩, hb⟩
      rw [has, hb, hb₂, hb₄]
      exact ⟨by simp [hlen], b₁, b₃, hform, hlisted, by simp⟩
    · rintro ⟨hlen, hlisted⟩
      obtain _ | ⟨a, rest⟩ := as
      · cases hlen
      · obtain ⟨b₁, b₂, hform, hrest, rfl⟩ := hlisted
        exact ⟨a, b₁, b₂, hform, ⟨rest, b₂, #[], ⟨by simpa using hlen, hrest⟩, ⟨rfl, rfl⟩,
          by simp⟩, rfl⟩

/-- Items whose forms come from related values are written as these values are. -/
theorem listed_iff_forall₂ {R : β → α → Prop} {encode : β → Bytes} {as : List α} {b : Bytes} :
    Listed (fun a b => ∃ x, R x a ∧ b = encode x) as b ↔
      ∃ xs, List.Forall₂ R xs as ∧ b = Bytes.concat encode xs := by
  induction as generalizing b with
  | nil => simp [Listed]
  | cons a rest ih =>
    simp only [Listed, ih, List.forall₂_cons_right_iff]
    constructor
    · rintro ⟨b₁, b₂, ⟨x, hx, rfl⟩, ⟨xs, hxs, rfl⟩, rfl⟩
      exact ⟨x :: xs, ⟨x, xs, hx, hxs, rfl⟩, by simp⟩
    · rintro ⟨_, ⟨x, xs, hx, hxs, rfl⟩, rfl⟩
      exact ⟨_, _, ⟨x, hx, rfl⟩, ⟨xs, hxs, rfl⟩, by simp⟩

theorem listed_iff {fits : α → Prop} {encode : α → Bytes} {as : List α} {b : Bytes} :
    Listed (Encoded fits encode) as b ↔ Encoded (∀ a ∈ ·, fits a) (Bytes.concat encode) as b := by
  induction as generalizing b with
  | nil => simp [Listed, Encoded]
  | cons a rest ih =>
    simp only [Listed, ih, Encoded, List.forall_mem_cons, Bytes.concat_cons]
    constructor
    · rintro ⟨b₁, b₂, ⟨hfit, rfl⟩, ⟨hrest, rfl⟩, rfl⟩
      exact ⟨⟨hfit, hrest⟩, rfl⟩
    · rintro ⟨⟨hfit, hrest⟩, rfl⟩
      exact ⟨_, _, ⟨hfit, rfl⟩, ⟨hrest, rfl⟩, rfl⟩

/-- Items behind their count. -/
theorem reads_countedItems {error : ε} {item : Nat → EStateM ε Reader α} {form : α → Bytes → Prop}
    (h : ∀ i, Reads (item i) form) :
    Reads (do let n ← Reader.orFail error word32; times item 0 n.toNat)
      (fun as b => as.length < 2 ^ 32 ∧
        ∃ c, Listed form as c ∧ b = Bytes.ofCount as.length ++ c) := by
  refine (reads_word32.orFail.next fun n => reads_times h 0 n.toNat).of_iff fun as b => ?_
  constructor
  · rintro ⟨n, b', -, ⟨hlen, hlisted⟩, rfl⟩
    rw [← Bytes.ofCount_of_toNat hlen]
    exact ⟨hlen ▸ n.toNat_lt, b', hlisted, rfl⟩
  · rintro ⟨hlen, c, hlisted, rfl⟩
    exact ⟨saturate32 as.length, c, trivial, ⟨(toNat_saturate32 hlen).symm, hlisted⟩, rfl⟩

theorem reads_countedList {error : ε} {item : Nat → EStateM ε Reader α} {fits : α → Prop}
    {encode : α → Bytes} (h : ∀ i, Reads (item i) (Encoded fits encode)) :
    Reads (do let n ← Reader.orFail error word32; times item 0 n.toNat)
      (Encoded (Bytes.ListFits fits) (Bytes.countedList encode)) := by
  refine (reads_countedItems h).of_iff fun as b => ?_
  simp only [listed_iff, Encoded, Bytes.countedList]
  constructor
  · rintro ⟨hlen, c, ⟨hfits, rfl⟩, rfl⟩
    exact ⟨⟨hlen, hfits⟩, rfl⟩
  · rintro ⟨⟨hlen, hfits⟩, rfl⟩
    exact ⟨hlen, _, ⟨hfits, rfl⟩, rfl⟩

/-! ## The end of the data -/

/-- What is read with nothing left behind it is the form of the value. -/
theorem Reads.ends_iff {read : EStateM ε Reader α} {form : α → Bytes → Prop} (h : Reads read form)
    (first input : Bytes) (a : α) :
    (∃ r, read { data := first ++ input, offset := first.size } = .ok a r ∧ r.remaining = 0) ↔
      form a input := by
  have hwithin : ({ data := first ++ input, offset := first.size } : Reader).Within := by
    unfold Within
    simp
  constructor
  · rintro ⟨r, hread, hleft⟩
    obtain ⟨b, hform, ⟨before, after, hdata, hoffset⟩, rfl⟩ := (h hwithin a r).mp hread
    -- nothing is left behind the form, so the form is the whole input
    have hdata' : first ++ input = before ++ (b ++ after) := by
      rw [← Array.append_assoc]
      exact hdata
    have hinput := (Array.append_inj hdata' hoffset).2
    have hempty : after = #[] := by
      apply Array.eq_empty_of_size_eq_zero
      simp only [remaining, advance, Array.size_append, hinput] at hleft
      omega
    rw [hinput, hempty, Array.append_empty]
    exact hform
  · intro hform
    have hholds : ({ data := first ++ input, offset := first.size } : Reader).Holds input :=
      ⟨first, #[], by simp, rfl⟩
    exact ⟨_, (h hwithin a _).mpr ⟨input, hform, hholds, rfl⟩, by simp [remaining, advance]⟩

/-- The data ends where the form does. -/
theorem toEnd_eq_ok_iff {error : ε} {read : EStateM ε Reader α} {form : α → Bytes → Prop}
    (h : Reads read form) (first input : Bytes) (a : α) :
    (∃ r, toEnd error read { data := first ++ input, offset := first.size } = .ok a r) ↔
      form a input := by
  rw [← h.ends_iff]
  have hget (r : Reader) : (get : EStateM ε Reader Reader) r = .ok r r := rfl
  simp only [toEnd, Bind.bind, EStateM.bind, hget]
  constructor
  · rintro ⟨r, hrun⟩
    cases hread : read { data := first ++ input, offset := first.size } with
    | error e s => simp [hread] at hrun
    | ok a' s =>
      simp only [hread] at hrun
      split at hrun
      · cases hrun
      · rename_i hleft
        cases hrun
        exact ⟨r, rfl, Decidable.not_not.mp hleft⟩
  · rintro ⟨r, hread, hleft⟩
    rw [hread]
    exact ⟨r, by simp [hleft]; rfl⟩

end Reader

end ScriptToolchain
