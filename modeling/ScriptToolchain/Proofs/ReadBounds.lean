import Mathlib.Tactic
import ScriptToolchain.Proofs.Fields

/-!
# Reads stay inside the data

A reader may be moved anywhere. Whatever it is asked for there, it answers an
item whose bytes stand at its offset and moves past them, or it fails and stays
(`Reader.reads_inside`). Past the end nothing stands, not even nothing: a read
of no bytes there is the only one that has no place in the data.
-/

namespace ScriptToolchain.Reader

/-! ## Requests and items -/

/-- What a reader is asked for. Signed integers and floats are read as the words of their bits. -/
inductive Request where
  | word
  | wide
  | bytes (n : Nat)
  | text
deriving Repr, DecidableEq

/-- What a reader answers. -/
inductive Item where
  | word (v : UInt32)
  | wide (v : UInt64)
  | bytes (b : Bytes)
  | text (s : String)
deriving Repr, DecidableEq

/-- The bytes of an item; a text ends with a zero byte. -/
def Item.stored : Item → Bytes
  | .word v => Bytes.ofWord32 v
  | .wide v => Bytes.ofWord64 v
  | .bytes b => b
  | .text s => (Field.text s).bytes

namespace Request

/-- Asks the reader. -/
def read : Request → Read Item
  | .word => return .word (← word32)
  | .wide => return .wide (← word64)
  | .bytes n => return .bytes (← take n)
  | .text => return .text (← Reader.text)

/-- The item is of the kind and the length that is asked for, a text has no zero character. -/
def Asks : Request → Item → Prop
  | .word, .word _ => True
  | .wide, .wide _ => True
  | .bytes n, .bytes b => b.size = n
  | .text, .text s => Text.cut s = s
  | _, _ => False

end Request

/-- What is done with a reader. -/
inductive Move where
  | seek (offset : Nat)
  | read (q : Request)
deriving Repr, DecidableEq

/-- The reader behind the move, whether it was answered or not. -/
def Move.after : Move → Reader → Reader
  | .seek offset, r => { r with offset }
  | .read q, r =>
    match q.read r with
    | .ok _ r' => r'
    | .error _ r' => r'

/-- The reader behind moves. -/
def run (moves : List Move) (r : Reader) : Reader :=
  moves.foldl (fun r m => m.after r) r

/-! ## Single reads -/

variable {α β : Type} {r r' : Reader} {e : ReadError}

theorem map_eq_ok {read : Read α} {f : α → β} {b : β} :
    (do return f (← read) : Read β) r = .ok b r' ↔ ∃ a, read r = .ok a r' ∧ f a = b := by
  simp only [bind, EStateM.bind]
  cases read r with
  | ok a s =>
    show EStateM.Result.ok (f a) s = _ ↔ _
    simp [and_comm]
  | error e s => simp

theorem map_eq_error {read : Read α} {f : α → β} :
    (do return f (← read) : Read β) r = .error e r' ↔ read r = .error e r' := by
  simp only [bind, EStateM.bind]
  cases read r with
  | ok a s => exact ⟨nofun, nofun⟩
  | error e' s => simp

/-- Bytes are answered inside the data alone, also if there are none. -/
theorem within_of_take {n : Nat} {b : Bytes} (h : take n r = .ok b r') : r.Within := by
  unfold take at h
  split at h
  · cases h
  · split at h
    · cases h
    · exact Nat.le_of_not_lt ‹_›

theorem within_of_text {s : String} (h : Reader.text r = .ok s r') : r.Within := by
  unfold Reader.text at h
  dsimp only at h
  split at h
  · rename_i hzero
    have hrest : 0 < r.rest.size := Nat.lt_of_le_of_lt (Nat.zero_le _) hzero
    rw [rest, Array.size_extract] at hrest
    unfold Within
    omega
  · cases h

/-- A refused read of bytes stays, and it has no place in the data if no bytes are asked for. -/
theorem take_eq_error {n : Nat} (h : take n r = .error e r') :
    r' = r ∧ ((∃ offset, e = .outOfRange offset) ↔ n = 0 ∧ r.data.size < r.offset) := by
  unfold take remaining at h
  split at h
  · cases h
    exact ⟨rfl, by simp; omega⟩
  · split at h
    · cases h
      exact ⟨rfl, by simp; omega⟩
    · cases h

theorem text_eq_error (h : Reader.text r = .error e r') :
    r' = r ∧ ∀ offset, e ≠ .outOfRange offset := by
  unfold Reader.text at h
  dsimp only at h
  split at h
  · split at h
    · cases h
    · cases h
      exact ⟨rfl, nofun⟩
  · cases h
    exact ⟨rfl, nofun⟩

/-! ## Requests -/

theorem Holds.within {r : Reader} {b : Bytes} (h : r.Holds b) : r.Within :=
  Nat.le_trans (Nat.le_add_right ..) h.size_le

/-- Inside the data a request is answered by the item whose bytes stand at the offset. -/
theorem Request.reads_read (q : Request) :
    Reads q.read fun item b => q.Asks item ∧ b = item.stored := by
  cases q with
  | word =>
    refine (reads_word32.next fun v => reads_pure (Item.word v)).of_iff fun item b => ?_
    cases item <;> simp [Asks, Item.stored]
  | wide =>
    refine (reads_word64.next fun v => reads_pure (Item.wide v)).of_iff fun item b => ?_
    cases item <;> simp [Asks, Item.stored]
  | bytes n =>
    refine ((reads_take n).bind fun b => reads_pure (Item.bytes b)).of_iff fun item b => ?_
    constructor
    · rintro ⟨a, b₁, b₂, ⟨hsize, rfl⟩, ⟨rfl, rfl⟩, rfl⟩
      exact ⟨hsize, Array.append_empty⟩
    · rintro ⟨hasks, rfl⟩
      cases item with
      | bytes c => exact ⟨c, c, #[], ⟨hasks, rfl⟩, ⟨rfl, rfl⟩, Array.append_empty.symm⟩
      | _ => exact hasks.elim
  | text =>
    refine (reads_terminatedText.next fun s => reads_pure (Item.text s)).of_iff fun item b => ?_
    cases item <;> simp [Asks, Item.stored]

/-- Past the end nothing is answered. -/
theorem Request.within_of_ok {q : Request} {item : Item} (h : q.read r = .ok item r') :
    r.Within := by
  cases q with
  | word =>
    obtain ⟨v, hword, -⟩ := map_eq_ok.mp h
    obtain ⟨b, htake, -⟩ := map_eq_ok.mp hword
    exact within_of_take htake
  | wide =>
    obtain ⟨v, hword, -⟩ := map_eq_ok.mp h
    obtain ⟨b, htake, -⟩ := map_eq_ok.mp hword
    exact within_of_take htake
  | bytes n =>
    obtain ⟨b, htake, -⟩ := map_eq_ok.mp h
    exact within_of_take htake
  | text =>
    obtain ⟨s, htext, -⟩ := map_eq_ok.mp h
    exact within_of_text htext

/-- What is answered stands at the offset, and what stands there is answered. -/
theorem Request.read_eq_ok_iff {q : Request} {item : Item} :
    q.read r = .ok item r' ↔
      q.Asks item ∧ r.Holds item.stored ∧ r' = r.advance item.stored.size := by
  constructor
  · intro h
    obtain ⟨b, ⟨hasks, rfl⟩, hholds, hmoved⟩ := (q.reads_read (within_of_ok h) item r').mp h
    exact ⟨hasks, hholds, hmoved⟩
  · rintro ⟨hasks, hholds, hmoved⟩
    exact (q.reads_read hholds.within item r').mpr ⟨_, ⟨hasks, rfl⟩, hholds, hmoved⟩

/-- What is refused moves nothing. -/
theorem Request.read_eq_error {q : Request} (h : q.read r = .error e r') :
    r' = r ∧ ((∃ offset, e = .outOfRange offset) ↔ q = .bytes 0 ∧ r.data.size < r.offset) := by
  cases q with
  | word =>
    obtain ⟨hkept, hrange⟩ := take_eq_error (map_eq_error.mp (map_eq_error.mp h))
    exact ⟨hkept, by simp [hrange]⟩
  | wide =>
    obtain ⟨hkept, hrange⟩ := take_eq_error (map_eq_error.mp (map_eq_error.mp h))
    exact ⟨hkept, by simp [hrange]⟩
  | bytes n =>
    obtain ⟨hkept, hrange⟩ := take_eq_error (map_eq_error.mp h)
    exact ⟨hkept, by simp [hrange]⟩
  | text =>
    obtain ⟨hkept, hrange⟩ := text_eq_error (map_eq_error.mp h)
    exact ⟨hkept, by simp [hrange]⟩

/-! ## Whole runs -/

theorem Move.data_after (m : Move) (r : Reader) : (m.after r).data = r.data := by
  cases m with
  | seek offset => rfl
  | read q =>
    show (match q.read r with | .ok _ r' => r' | .error _ r' => r').data = r.data
    cases h : q.read r with
    | ok item r' =>
      obtain ⟨-, -, rfl⟩ := Request.read_eq_ok_iff.mp h
      rfl
    | error e r' =>
      obtain ⟨rfl, -⟩ := Request.read_eq_error h
      rfl

theorem data_run (moves : List Move) (r : Reader) : (r.run moves).data = r.data := by
  induction moves generalizing r with
  | nil => rfl
  | cons m rest ih => exact (ih (m.after r)).trans (m.data_after r)

/--
Wherever moves have led a reader, a request is answered by an item exactly if the bytes of the item
stand at the offset, all of them inside the data, and then the reader moves past these bytes. A
refusal leaves the reader where it is. Only a request of no bytes past the end has no place in the
data.
-/
theorem reads_inside (data : Bytes) (moves : List Move) (q : Request) :
    let r := run moves { data }
    r.data = data ∧
      (∀ item r', q.read r = .ok item r' ↔
        q.Asks item ∧ r.Holds item.stored ∧ r' = r.advance item.stored.size) ∧
      ∀ e r', q.read r = .error e r' → r' = r ∧
        ((∃ offset, e = .outOfRange offset) ↔ q = .bytes 0 ∧ data.size < r.offset) := by
  intro r
  have hdata : r.data = data := data_run moves _
  refine ⟨hdata, fun _ _ => Request.read_eq_ok_iff, fun e r' h => ?_⟩
  have herror := Request.read_eq_error h
  rwa [hdata] at herror

/-- No bytes are left and none are asked for, but the place to read them lies past the end. -/
theorem empty_read_past_end :
    let r := run [.seek 1] { data := #[] }
    ¬ r.remaining < 0 ∧ r.data.size < r.offset ∧
      Request.read (.bytes 0) r = .error (.outOfRange 1) r :=
  ⟨by decide, by decide, rfl⟩

end ScriptToolchain.Reader
