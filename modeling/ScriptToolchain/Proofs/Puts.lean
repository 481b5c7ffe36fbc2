import Mathlib.Tactic
import ScriptToolchain.Debug.Codec
import ScriptToolchain.Proofs.Fields
import ScriptToolchain.Proofs.Tape

/-!
# Puts into a slot

Puts into a slot leave what the same puts leave in a buffer, as long as they
fit; the first that does not fit is refused whole and ends the message there
(`Slot.putEach_of_fits`, `Slot.stops_of_not_fits`). So a message is in a slot
whole or as a proper beginning. A single put that is refused changes nothing,
but a text is two puts: its characters stay when only the zero byte behind them
has no room.
-/

namespace ScriptToolchain

namespace Bytes

theorem concat_append {α : Type} (item : α → Bytes) (xs ys : List α) :
    concat item (xs ++ ys) = concat item xs ++ concat item ys := by
  induction xs with
  | nil => simp
  | cons x rest ih => rw [List.cons_append, concat_cons, concat_cons, ih, Array.append_assoc]

theorem store_zero (b new : Bytes) : b.store 0 new = new ++ b.extract new.size b.size := by
  apply Array.toList_inj.mp
  rw [toList_store b 0 new (Nat.zero_le _)]
  simp [Array.toList_extract]

theorem store_empty {b : Bytes} {i : Nat} (h : i ≤ b.size) : b.store i #[] = b := by
  apply Array.toList_inj.mp
  rw [toList_store b i #[] h]
  simp

theorem size_concat_cons (first : Bytes) (rest : List Bytes) :
    (concat id (first :: rest)).size = first.size + (concat id rest).size := by
  rw [concat_cons, Array.size_append]
  rfl

end Bytes

theorem Field.bytes_eq_concat (f : Field) : f.bytes = Bytes.concat id f.puts :=
  rfl

theorem Field.bytesOf_eq_concat (fields : List Field) :
    bytesOf fields = Bytes.concat id (fields.flatMap puts) := by
  induction fields with
  | nil => rfl
  | cons f rest ih =>
    rw [bytesOf_cons, List.flatMap_cons, Bytes.concat_append, ih, bytes_eq_concat]

namespace Slot

/-! ## Puts in a row -/

/-- The slot with `bytes` written at the cursor. -/
def filled (s : Slot) (bytes : Bytes) : Slot :=
  { data := s.data.store s.cursor bytes, cursor := s.cursor + bytes.size }

/-- So many bytes have room behind the cursor. -/
def Fits (s : Slot) (n : Nat) : Prop :=
  s.cursor + n ≤ s.capacity

instance (s : Slot) (n : Nat) : Decidable (s.Fits n) :=
  inferInstanceAs (Decidable (_ ≤ _))

variable {s : Slot}

theorem filled_filled (s : Slot) (a b : Bytes) : (s.filled a).filled b = s.filled (a ++ b) := by
  simp only [filled, Bytes.store_store, Array.size_append, Nat.add_assoc]

theorem filled_empty (h : s.Fits 0) : s.filled #[] = s := by
  have hstore : s.data.store s.cursor #[] = s.data := Bytes.store_empty h
  rw [filled, hstore]
  rfl

theorem capacity_filled {bytes : Bytes} (h : s.Fits bytes.size) :
    (s.filled bytes).capacity = s.capacity := by
  unfold Fits capacity at h
  rw [capacity, filled, Bytes.size_store, capacity, Nat.max_eq_left h]

/-- What fits behind bytes that fit is what fits together with them. -/
theorem fits_filled {bytes : Bytes} {n : Nat} (h : s.Fits bytes.size) :
    (s.filled bytes).Fits n ↔ s.Fits (bytes.size + n) := by
  unfold Fits
  rw [capacity_filled h, ← Nat.add_assoc]
  rfl

theorem put_of_fits {bytes : Bytes} (h : s.Fits bytes.size) :
    put bytes s = .ok () (s.filled bytes) :=
  if_pos h

theorem put_of_not_fits {bytes : Bytes} (h : ¬ s.Fits bytes.size) :
    put bytes s =
      .error { requested := bytes.size, offset := s.cursor, capacity := s.capacity } s :=
  if_neg h

theorem putEach_cons_of_fits {bytes : Bytes} (h : s.Fits bytes.size) (rest : List Bytes) :
    putEach (bytes :: rest) s = putEach rest (s.filled bytes) := by
  show (put bytes >>= fun _ => putEach rest) s = _
  simp only [bind, EStateM.bind, put_of_fits h]

theorem putEach_cons_of_not_fits {bytes : Bytes} (h : ¬ s.Fits bytes.size) (rest : List Bytes) :
    putEach (bytes :: rest) s =
      .error { requested := bytes.size, offset := s.cursor, capacity := s.capacity } s := by
  show (put bytes >>= fun _ => putEach rest) s = _
  simp only [bind, EStateM.bind, put_of_not_fits h]

/-- Puts that fit together leave what one put of all their bytes leaves. -/
theorem putEach_of_fits {puts : List Bytes} (h : s.Fits (Bytes.concat id puts).size) :
    putEach puts s = .ok () (s.filled (Bytes.concat id puts)) := by
  induction puts generalizing s with
  | nil =>
    rw [Bytes.concat_nil, filled_empty h]
    rfl
  | cons first rest ih =>
    rw [Bytes.size_concat_cons] at h
    have hfirst : s.Fits first.size := Nat.le_trans (Nat.add_le_add_left (Nat.le_add_right ..) _) h
    rw [putEach_cons_of_fits hfirst, ih ((fits_filled hfirst).mpr h), filled_filled,
      Bytes.concat_cons]
    rfl

/-- The puts that are done fit, and the next one is refused. -/
structure StopsAt (s : Slot) (puts done : List Bytes) (refused : Bytes) : Prop where
  split : ∃ rest, puts = done ++ refused :: rest
  fits : s.Fits (Bytes.concat id done).size
  lacks : ¬ s.Fits ((Bytes.concat id done).size + refused.size)
  run : putEach puts s = .error
    { requested := refused.size
      offset := s.cursor + (Bytes.concat id done).size
      capacity := s.capacity }
    (s.filled (Bytes.concat id done))

/-- Of puts that do not fit together the first that finds no room is refused. -/
theorem stops_of_not_fits {puts : List Bytes} (hs : s.Fits 0)
    (h : ¬ s.Fits (Bytes.concat id puts).size) : ∃ done refused, s.StopsAt puts done refused := by
  induction puts generalizing s with
  | nil => exact absurd hs h
  | cons first rest ih =>
    by_cases hfirst : s.Fits first.size
    · -- the first put is done, the rest stops behind it
      rw [Bytes.size_concat_cons] at h
      have hnext : (s.filled first).Fits 0 := (fits_filled hfirst).mpr hfirst
      obtain ⟨done, refused, hstops⟩ := ih hnext fun hrest => h ((fits_filled hfirst).mp hrest)
      obtain ⟨behind, hsplit⟩ := hstops.split
      have hsize := Bytes.size_concat_cons first done
      refine ⟨first :: done, refused, ⟨behind, by rw [hsplit, List.cons_append]⟩, ?_, ?_, ?_⟩
      · rw [hsize]
        exact (fits_filled hfirst).mp hstops.fits
      · rw [hsize, Nat.add_assoc]
        exact fun hfits => hstops.lacks ((fits_filled hfirst).mpr hfits)
      · rw [putEach_cons_of_fits hfirst, hstops.run, filled_filled, capacity_filled hfirst, hsize,
          ← Nat.add_assoc, Bytes.concat_cons]
        rfl
    · refine ⟨[], first, ⟨rest, rfl⟩, hs, ?_, ?_⟩
      · rwa [Bytes.concat_nil, Array.size_empty, Nat.zero_add]
      · rw [Bytes.concat_nil, filled_empty hs, putEach_cons_of_not_fits hfirst]
        rfl

theorem putEach_append (xs ys : List Bytes) :
    putEach (xs ++ ys) = (do putEach xs; putEach ys) := by
  induction xs with
  | nil => rfl
  | cons x rest ih =>
    show (do put x; putEach (rest ++ ys)) = (do (do put x; putEach rest); putEach ys)
    rw [ih, bind_assoc]

/-- Fields are written put by put. -/
theorem putFields_eq (fields : List Field) :
    putFields fields = putEach (fields.flatMap Field.puts) := by
  induction fields with
  | nil => rfl
  | cons f rest ih =>
    rw [List.flatMap_cons, putEach_append, ← ih]
    rfl

/-! ## Whole messages -/

/-- A fresh slot with bytes written from its start. -/
theorem filled_fresh (data bytes : Bytes) :
    filled { data } bytes =
      { data := bytes ++ data.extract bytes.size data.size, cursor := bytes.size } := by
  rw [filled, Bytes.store_zero, Nat.zero_add]

theorem written_filled_fresh (data bytes : Bytes) : (filled { data } bytes).written = bytes := by
  rw [filled_fresh, written]
  exact Bytes.extract_append_size bytes _

variable {wire : List Field} {data : Bytes}

theorem fits_fresh {n : Nat} : Fits { data } n ↔ n ≤ data.size := by
  rw [Fits, Nat.zero_add]
  rfl

/-- A message that has room is written whole. -/
theorem putFields_of_le (h : (Field.bytesOf wire).size ≤ data.size) :
    putFields wire { data } = .ok () (filled { data } (Field.bytesOf wire)) := by
  rw [putFields_eq, Field.bytesOf_eq_concat] at *
  exact putEach_of_fits (fits_fresh.mpr h)

/-- A message that has no room is written up to a put that is refused. -/
theorem putFields_of_lt (h : data.size < (Field.bytesOf wire).size) :
    ∃ e first missing, putFields wire { data } = .error e (filled { data } first) ∧
      missing ≠ #[] ∧ Field.bytesOf wire = first ++ missing ∧
      e.offset = first.size ∧ e.capacity = data.size ∧ e.capacity < e.offset + e.requested := by
  have hlacks : ¬ Fits { data } (Bytes.concat id (wire.flatMap Field.puts)).size := by
    rw [← Field.bytesOf_eq_concat, fits_fresh]
    exact Nat.not_le_of_lt h
  obtain ⟨done, refused, hstops⟩ := stops_of_not_fits (Nat.zero_le _) hlacks
  obtain ⟨rest, hsplit⟩ := hstops.split
  have hdone : (Bytes.concat id done).size ≤ data.size := fits_fresh.mp hstops.fits
  have hrefuses : data.size < (Bytes.concat id done).size + refused.size :=
    Nat.lt_of_not_le (mt fits_fresh.mpr hstops.lacks)
  refine ⟨_, _, Bytes.concat id (refused :: rest), putFields_eq wire ▸ hstops.run, ?_, ?_, ?_⟩
  · -- a put of no bytes has room always, so the refused one has a byte
    intro hempty
    have hsize := Bytes.size_concat_cons refused rest
    rw [hempty, Array.size_empty] at hsize
    omega
  · rw [Field.bytesOf_eq_concat, hsplit, Bytes.concat_append]
  · refine ⟨Nat.zero_add _, rfl, ?_⟩
    rw [Nat.zero_add]
    exact hrefuses

/--
What becomes of a message in a slot of some bytes: it is there whole, as in a buffer, if it has
room; if not, a proper beginning of it is there.
-/
structure Agrees (wire : List Field) (message data : Bytes) : Prop where
  /-- In a buffer, which grows, the fields make up the message. -/
  grown : (wire.foldl Buffer.putField {}).data = message
  fits_iff : (∃ s, putFields wire { data } = .ok () s) ↔ message.size ≤ data.size
  /-- The whole message is written, and the bytes behind it are those from before. -/
  whole : ∀ s, putFields wire { data } = .ok () s →
    s.written = message ∧ s.data = message ++ data.extract message.size data.size
  /-- A part is written that something misses, and the put that was refused had no room. -/
  part : ∀ e s, putFields wire { data } = .error e s →
    (∃ missing, missing ≠ #[] ∧ message = s.written ++ missing) ∧
      s.data = s.written ++ data.extract s.written.size data.size ∧
      e.offset = s.cursor ∧ e.capacity = data.size ∧ e.capacity < e.offset + e.requested

end Slot

/-- Fields in a buffer are their bytes one behind the other. -/
theorem Buffer.data_putFields (fields : List Field) (b : Buffer) (h : b.cursor = b.data.size) :
    (fields.foldl putField b).data = b.data ++ Field.bytesOf fields := by
  induction fields generalizing b with
  | nil => simp
  | cons f rest ih =>
    have htape := tape_putField b f
    have hcursor : (b.putField f).cursor = b.cursor + f.bytes.size :=
      congrArg Tape.cursor htape
    have hdata : (b.putField f).data = b.data ++ f.bytes := by
      rw [← Bytes.store_end, ← h]
      apply Bytes.ext_byteAt
      · rw [Bytes.size_store]
        exact congrArg Tape.size htape
      · intro i
        rw [Bytes.byteAt_store]
        exact congrFun (congrArg Tape.byte htape) i
    rw [List.foldl_cons, ih _ (by rw [hcursor, hdata, h, Array.size_append]), hdata,
      Field.bytesOf_cons, Array.append_assoc]

namespace Slot

theorem agrees (wire : List Field) (data : Bytes) : Agrees wire (Field.bytesOf wire) data := by
  have hgrown : (wire.foldl Buffer.putField {}).data = Field.bytesOf wire := by
    rw [Buffer.data_putFields wire {} rfl]
    exact Array.empty_append ..
  rcases Nat.lt_or_ge data.size (Field.bytesOf wire).size with hlt | hle
  · obtain ⟨e, first, missing, hrun, hmissing, hbytes, herror⟩ := putFields_of_lt hlt
    have hrefused (s : Slot) : putFields wire { data } ≠ .ok () s := by
      intro hs
      rw [hrun] at hs
      cases hs
    refine ⟨hgrown, ⟨?_, fun hle => absurd hlt (Nat.not_lt_of_le hle)⟩, ?_, ?_⟩
    · exact fun ⟨s, hs⟩ => absurd hs (hrefused s)
    · exact fun s hs => absurd hs (hrefused s)
    · intro e' s hs
      rw [hrun] at hs
      cases hs
      rw [written_filled_fresh, filled_fresh]
      exact ⟨⟨missing, hmissing, hbytes⟩, rfl, herror⟩
  · have hrun := putFields_of_le hle
    refine ⟨hgrown, ⟨fun _ => hle, fun _ => ⟨_, hrun⟩⟩, ?_, ?_⟩
    · intro s hs
      rw [hrun] at hs
      cases hs
      rw [written_filled_fresh, filled_fresh]
      exact ⟨rfl, rfl⟩
    · intro e s hs
      rw [hrun] at hs
      cases hs

end Slot

namespace Debug

/--
A command or an event that is written into a slot comes out as its bytes exactly if the slot has
room for all of them. If not, the write is refused where a put does not fit, and a proper beginning
of the bytes is in the slot. In both cases the rest of the slot is as it was.
-/
theorem messages_agree_in_slots :
    (∀ (c : Command) (data : Bytes), Slot.Agrees c.wire c.toBytes data) ∧
      ∀ (e : Event) (data : Bytes), Slot.Agrees e.wire e.toBytes data :=
  ⟨fun c data => Slot.agrees c.wire data, fun e data => Slot.agrees e.wire data⟩

end Debug

namespace Slot

/-! ## Single puts -/

variable {s : Slot} {f : Field}

/-- The slot behind a field that was put or refused. -/
def after (s : Slot) (f : Field) : Slot :=
  match putField f s with
  | .ok _ s' => s'
  | .error _ s' => s'

/-- Some puts, done or refused, have led to the slot. -/
def Reachable (s : Slot) : Prop :=
  ∃ (data : Bytes) (earlier : List Field), s = earlier.foldl after { data }

/-- The characters of a text fill the slot to the last byte, so the zero byte has no room. -/
def Severs (s : Slot) (f : Field) : Prop :=
  ∃ text, f = .text text ∧ 0 < (Bytes.ofText text).untilZero.size ∧
    s.cursor + (Bytes.ofText text).untilZero.size = s.capacity

theorem putField_of_fits (h : s.Fits f.bytes.size) : putField f s = .ok () (s.filled f.bytes) :=
  putEach_of_fits h

theorem size_bytes_text (text : String) :
    (Field.text text).bytes.size = (Bytes.ofText text).untilZero.size + 1 := by
  simp [Field.bytes, Field.puts]

/-- The characters are put, the zero byte is refused. -/
theorem putField_of_severs {text : String} (h : s.Severs (.text text)) :
    ∃ e, putField (.text text) s = .error e (s.filled (Bytes.ofText text).untilZero) := by
  obtain ⟨_, heq, -, hfull⟩ := h
  cases heq
  have hchars : s.Fits (Bytes.ofText text).untilZero.size := Nat.le_of_eq hfull
  have hzero : ¬ (s.filled (Bytes.ofText text).untilZero).Fits 1 := by
    rw [fits_filled hchars, Fits, ← Nat.add_assoc, hfull]
    exact Nat.not_succ_le_self _
  exact ⟨_, (putEach_cons_of_fits hchars [#[0]]).trans (putEach_cons_of_not_fits hzero [])⟩

/-- In all other refusals it is the first put with a byte that is refused. -/
theorem putField_of_not_severs (hs : s.Fits 0) (hfits : ¬ s.Fits f.bytes.size)
    (h : ¬ s.Severs f) : ∃ e, putField f s = .error e s := by
  cases f with
  | word v =>
    rw [Field.bytes_word] at hfits
    exact ⟨_, putEach_cons_of_not_fits hfits []⟩
  | raw bytes =>
    rw [Field.bytes_raw] at hfits
    exact ⟨_, putEach_cons_of_not_fits hfits []⟩
  | text text =>
    rw [size_bytes_text] at hfits
    show ∃ e, putEach [(Bytes.ofText text).untilZero, #[0]] s = .error e s
    by_cases hchars : s.Fits (Bytes.ofText text).untilZero.size
    · -- characters that fit leave no byte of room, so there are none
      have hfull : s.cursor + (Bytes.ofText text).untilZero.size = s.capacity := by
        unfold Fits at hchars hfits
        omega
      have hnone : (Bytes.ofText text).untilZero = #[] := by
        by_contra hsome
        exact h ⟨text, rfl, Array.size_pos_iff.mpr hsome, hfull⟩
      rw [hnone] at hfits ⊢
      rw [putEach_cons_of_fits hs, filled_empty hs]
      exact ⟨_, putEach_cons_of_not_fits hfits []⟩
    · exact ⟨_, putEach_cons_of_not_fits hchars _⟩

/-- No put moves the cursor past the end. -/
theorem fits_after (hs : s.Fits 0) (f : Field) : (s.after f).Fits 0 := by
  unfold after
  by_cases hfits : s.Fits f.bytes.size
  · rw [putField_of_fits hfits]
    exact (fits_filled hfits).mpr hfits
  · by_cases h : s.Severs f
    · obtain ⟨text, rfl, -, hfull⟩ := id h
      obtain ⟨e, hrun⟩ := putField_of_severs h
      rw [hrun]
      exact (fits_filled (Nat.le_of_eq hfull)).mpr (Nat.le_of_eq hfull)
    · obtain ⟨e, hrun⟩ := putField_of_not_severs hs hfits h
      rw [hrun]
      exact hs

theorem Reachable.fits (h : s.Reachable) : s.Fits 0 := by
  obtain ⟨data, earlier, rfl⟩ := h
  have hrun (s : Slot) (hs : s.Fits 0) : (earlier.foldl after s).Fits 0 := by
    induction earlier generalizing s with
    | nil => exact hs
    | cons f rest ih => exact ih _ (fits_after hs f)
  exact hrun _ (Nat.zero_le _)

/-- Characters that were put have moved the cursor. -/
theorem Severs.filled_ne {text : String} (h : s.Severs (.text text)) :
    s.filled (Bytes.ofText text).untilZero ≠ s := by
  obtain ⟨_, heq, hsome, -⟩ := h
  cases heq
  intro hsame
  have hcursor : s.cursor + (Bytes.ofText text).untilZero.size = s.cursor :=
    congrArg cursor hsame
  omega

/--
A field is refused exactly if it has no room. A refusal leaves the slot as it was unless the field
is a text whose characters fill the slot to the last byte; then they stay, without a zero byte.
-/
theorem refused_put (h : s.Reachable) (f : Field) :
    ((∃ e s', putField f s = .error e s') ↔ ¬ s.Fits f.bytes.size) ∧
      ∀ e s', putField f s = .error e s' →
        (s' = s ↔ ¬ s.Severs f) ∧
          ∀ text, f = .text text → s.Severs f → s' = s.filled (Bytes.ofText text).untilZero := by
  have hfits : ∀ e s', putField f s = .error e s' → ¬ s.Fits f.bytes.size := by
    intro e s' hrun hfits
    rw [putField_of_fits hfits] at hrun
    cases hrun
  by_cases hsevers : s.Severs f
  · obtain ⟨text, rfl, -⟩ := id hsevers
    obtain ⟨e, hrun⟩ := putField_of_severs hsevers
    refine ⟨⟨fun _ => hfits _ _ hrun, fun _ => ⟨_, _, hrun⟩⟩, ?_⟩
    intro e' s' hrun'
    rw [hrun] at hrun'
    cases hrun'
    refine ⟨⟨fun hsame => absurd hsame hsevers.filled_ne, absurd hsevers⟩, ?_⟩
    rintro text' heq -
    cases heq
    rfl
  · constructor
    · refine ⟨fun ⟨_, _, hrun⟩ => hfits _ _ hrun, fun hlacks => ?_⟩
      obtain ⟨e, hrun⟩ := putField_of_not_severs h.fits hlacks hsevers
      exact ⟨e, s, hrun⟩
    · intro e s' hrun
      obtain ⟨e', hkept⟩ := putField_of_not_severs h.fits (hfits e s' hrun) hsevers
      rw [hkept] at hrun
      cases hrun
      exact ⟨⟨fun _ => hsevers, fun _ => rfl⟩, fun _ _ hnot => absurd hnot hsevers⟩

/-- A slot of six bytes behind a word: two bytes of room are left. -/
def narrow : Slot :=
  { data := #[9, 0, 0, 0, 0xEE, 0xEE], cursor := 4 }

theorem reachable_narrow : narrow.Reachable :=
  ⟨#[0, 0, 0, 0, 0xEE, 0xEE], [.word 9], by decide⟩

/-- A word is refused and changes nothing, a text of two characters leaves them behind. -/
theorem refused_put_narrow :
    narrow.Reachable ∧ (∃ e, putField (.word 10) narrow = .error e narrow) ∧
      ∃ e, putField (.text "ab") narrow =
        .error e { data := #[9, 0, 0, 0, 97, 98], cursor := 6 } := by
  have hword : ¬ narrow.Fits (Field.word 10).bytes.size := by decide
  have htext : ¬ narrow.Fits (Field.text "ab").bytes.size := by decide +kernel
  have hsevers : narrow.Severs (.text "ab") := ⟨"ab", rfl, by decide +kernel⟩
  refine ⟨reachable_narrow, ?_, ?_⟩
  · obtain ⟨hrefused, hleft⟩ := refused_put reachable_narrow (.word 10)
    obtain ⟨e, s', hrun⟩ := hrefused.mpr hword
    have hkept := (hleft e s' hrun).1.mpr fun ⟨_, heq, _⟩ => nomatch heq
    exact ⟨e, hkept ▸ hrun⟩
  · obtain ⟨hrefused, hleft⟩ := refused_put reachable_narrow (.text "ab")
    obtain ⟨e, s', hrun⟩ := hrefused.mpr htext
    have hfilled := (hleft e s' hrun).2 "ab" rfl hsevers
    have hslot : narrow.filled (Bytes.ofText "ab").untilZero =
        { data := #[9, 0, 0, 0, 97, 98], cursor := 6 } := by decide +kernel
    exact ⟨e, hslot ▸ hfilled ▸ hrun⟩

/-- A text that is refused for want of room for its zero byte leaves its characters in the slot. -/
theorem refused_text_stays :
    Reachable { data := #[0xEE, 0xEE] } ∧
      putField (.text "ab") { data := #[0xEE, 0xEE] } =
        .error { requested := 1, offset := 2, capacity := 2 } { data := #[97, 98], cursor := 2 } := by
  have hchars : (Bytes.ofText "ab").untilZero = #[97, 98] := by decide +kernel
  refine ⟨⟨_, [], rfl⟩, ?_⟩
  show putEach [(Bytes.ofText "ab").untilZero, #[0]] _ = _
  rw [hchars]
  rfl

end Slot

end ScriptToolchain
