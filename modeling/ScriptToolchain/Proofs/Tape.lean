import Mathlib.Tactic
import ScriptToolchain.Bytes.Field
import ScriptToolchain.Proofs.Bytes

/-!
# A buffer as a tape of zeros

A tape has a byte at every address, zero before it is written, and a cursor. A
buffer is the part of a tape that is in use. Each edit of a buffer is the same
edit of its tape, if first the gap between the end and the cursor is filled: by
a write with zeros, which change nothing, by a skip with its own byte. So a
buffer is a tape of zeros until a skip of another byte starts behind the end
(`run_as_tape`).
-/

namespace ScriptToolchain

/-! ## Tapes -/

/-- A byte at every address, how many of them are in use, and the address of the next write. -/
@[ext]
structure Tape where
  byte : Nat → UInt8 := fun _ => 0
  size : Nat := 0
  cursor : Nat := 0

namespace Tape

/-- Writes `new` at the cursor and moves past it. -/
def write (t : Tape) (new : Bytes) : Tape where
  byte i := if t.cursor ≤ i ∧ i < t.cursor + new.size then new.byteAt (i - t.cursor) else t.byte i
  size := max t.size (t.cursor + new.size)
  cursor := t.cursor + new.size

/-- The addresses from the end to the cursor hold `fill`. -/
def fillGap (t : Tape) (fill : UInt8) : Tape :=
  { t with byte := fun i => if t.size ≤ i ∧ i < t.cursor then fill else t.byte i }

theorem byte_write_of_mem {t : Tape} {new : Bytes} {i : Nat} (h : t.cursor ≤ i)
    (h' : i < t.cursor + new.size) : (t.write new).byte i = new.byteAt (i - t.cursor) :=
  if_pos ⟨h, h'⟩

/-- All other addresses keep their byte. -/
theorem byte_write_of_notMem {t : Tape} {new : Bytes} {i : Nat}
    (h : i < t.cursor ∨ t.cursor + new.size ≤ i) : (t.write new).byte i = t.byte i :=
  if_neg (by omega)

theorem byte_fillGap_of_mem {t : Tape} {i : Nat} (h : t.size ≤ i) (h' : i < t.cursor)
    (fill : UInt8) : (t.fillGap fill).byte i = fill :=
  if_pos ⟨h, h'⟩

theorem byte_fillGap_of_notMem {t : Tape} {i : Nat} (h : i < t.size ∨ t.cursor ≤ i)
    (fill : UInt8) : (t.fillGap fill).byte i = t.byte i :=
  if_neg (by omega)

/-- Without a gap nothing is filled. -/
theorem fillGap_of_le {t : Tape} (h : t.cursor ≤ t.size) (fill : UInt8) : t.fillGap fill = t := by
  apply Tape.ext
  case byte =>
    funext i
    exact byte_fillGap_of_notMem (by omega) fill
  all_goals rfl

/-- A write behind a write is one write. -/
theorem write_write (t : Tape) (a b : Bytes) : (t.write a).write b = t.write (a ++ b) := by
  have hsize : (a ++ b).size = a.size + b.size := Array.size_append
  have hcursor : (t.write a).cursor = t.cursor + a.size := rfl
  apply Tape.ext
  case byte =>
    funext i
    by_cases hin : t.cursor ≤ i ∧ i < t.cursor + (a ++ b).size
    · rw [byte_write_of_mem hin.1 hin.2, Bytes.byteAt_append]
      by_cases hfirst : i < t.cursor + a.size
      · rw [byte_write_of_notMem (by omega), byte_write_of_mem hin.1 hfirst, if_pos (by omega)]
      · rw [byte_write_of_mem (by omega) (by omega), hcursor, if_neg (by omega), Nat.sub_sub]
    · rw [byte_write_of_notMem (by omega), byte_write_of_notMem (by omega),
        byte_write_of_notMem (by omega)]
  case size =>
    show max (max t.size (t.cursor + a.size)) (t.cursor + a.size + b.size) =
      max t.size (t.cursor + (a ++ b).size)
    omega
  case cursor =>
    show t.cursor + a.size + b.size = t.cursor + (a ++ b).size
    omega

end Tape

namespace Buffer

/-! ## Edits -/

/-- What is done to a buffer. Floats are written as the words of their bits. -/
inductive Edit where
  | bytes (new : Bytes)
  | word (v : UInt32)
  | wide (v : UInt64)
  | field (f : Field)
  | skip (n : Nat) (fill : UInt8)
  | seek (position : Nat)
  | clear
deriving Repr, DecidableEq

namespace Edit

/-- The buffer behind the edit. -/
def after : Edit → Buffer → Buffer
  | .bytes new, b => b.write new
  | .word v, b => b.writeWord32 v
  | .wide v, b => b.writeWord64 v
  | .field f, b => b.putField f
  | .skip n fill, b => b.skip n fill
  | .seek position, b => b.seek position
  | .clear, b => b.clear

/-- The tape behind the edit. -/
def onTape : Edit → Tape → Tape
  | .bytes new, t => t.write new
  | .word v, t => t.write (Bytes.ofWord32 v)
  | .wide v, t => t.write (Bytes.ofWord64 v)
  | .field f, t => t.write f.bytes
  | .skip n fill, t => t.write (Array.replicate n fill)
  | .seek position, t => { t with cursor := position }
  | .clear, _ => {}

/-- What a gap before the cursor is filled with. -/
def gapFill : Edit → UInt8
  | .skip _ fill => fill
  | _ => 0

end Edit

/-- The buffer behind edits. -/
def run (edits : List Edit) (b : Buffer) : Buffer :=
  edits.foldl (fun b e => e.after b) b

/-- The tape of which the buffer is the part in use. -/
def tape (b : Buffer) : Tape where
  byte := b.data.byteAt
  size := b.size
  cursor := b.cursor

/-- The edit fills no gap with anything but zeros. -/
def Edit.Grounded (e : Edit) (b : Buffer) : Prop :=
  e.gapFill = 0 ∨ b.cursor ≤ b.size

/-! ## One edit -/

/-- Behind its end a buffer is zero. -/
theorem byte_tape {b : Buffer} {i : Nat} (h : b.size ≤ i) : b.tape.byte i = 0 :=
  Bytes.byteAt_eq_zero h

/-- Zeros in the gap change nothing. -/
theorem fillGap_zero (b : Buffer) : b.tape.fillGap 0 = b.tape := by
  apply Tape.ext
  case byte =>
    funext i
    by_cases hgap : b.size ≤ i ∧ i < b.cursor
    · rw [Tape.byte_fillGap_of_mem hgap.1 hgap.2, byte_tape hgap.1]
    · exact Tape.byte_fillGap_of_notMem (by show i < b.size ∨ b.cursor ≤ i; omega) 0
  all_goals rfl

theorem tape_write (b : Buffer) (new : Bytes) : (b.write new).tape = b.tape.write new := by
  apply Tape.ext
  case byte =>
    funext i
    exact Bytes.byteAt_store b.data b.cursor new i
  case size => exact Bytes.size_store b.data b.cursor new
  case cursor => rfl

theorem tape_skip (b : Buffer) (n : Nat) (fill : UInt8) :
    (b.skip n fill).tape = (b.tape.fillGap fill).write (Array.replicate n fill) := by
  have hn : (Array.replicate n fill).size = n := Array.size_replicate
  apply Tape.ext
  case byte =>
    funext i
    show Bytes.byteAt (Bytes.store _ b.cursor (Array.replicate n fill)) i = _
    rw [Bytes.byteAt_store, hn]
    by_cases hin : b.cursor ≤ i ∧ i < b.cursor + n
    · rw [if_pos hin, Tape.byte_write_of_mem hin.1 (hn.symm ▸ hin.2)]
      rfl
    · have hout : i < b.cursor ∨ b.cursor + (Array.replicate n fill).size ≤ i := by omega
      rw [if_neg hin, Tape.byte_write_of_notMem hout, Bytes.byteAt_append, Bytes.byteAt_replicate]
      -- an address outside the skip is old, in the gap or behind all that is in use
      by_cases hold : i < b.data.size
      · rw [if_pos hold, Tape.byte_fillGap_of_notMem (.inl hold)]
        rfl
      · have hbehind : b.data.size ≤ i := Nat.le_of_not_lt hold
        rw [if_neg hold]
        by_cases hgap : i < b.cursor
        · rw [Tape.byte_fillGap_of_mem hbehind hgap, if_pos (by omega)]
        · rw [Tape.byte_fillGap_of_notMem (.inr (Nat.le_of_not_lt hgap)), byte_tape hbehind,
            if_neg (by omega)]
  case size =>
    show (Bytes.store _ b.cursor (Array.replicate n fill)).size =
      max b.size (b.cursor + (Array.replicate n fill).size)
    rw [Bytes.size_store, Array.size_append, Array.size_replicate, hn]
    show max (b.size + (b.cursor + n - b.size)) (b.cursor + n) = max b.size (b.cursor + n)
    omega
  case cursor =>
    show b.cursor + n = b.cursor + (Array.replicate n fill).size
    rw [hn]

theorem tape_putField (b : Buffer) (f : Field) : (b.putField f).tape = b.tape.write f.bytes := by
  cases f with
  | word v => simp [putField, Field.puts, Field.bytes, tape_write]
  | text s => simp [putField, Field.puts, Field.bytes, tape_write, Tape.write_write]
  | raw bytes => simp [putField, Field.puts, Field.bytes, tape_write]

/-- An edit of a buffer is an edit of its tape with the gap filled. -/
theorem Edit.tape_after (e : Edit) (b : Buffer) :
    (e.after b).tape = e.onTape (b.tape.fillGap e.gapFill) := by
  cases e with
  | skip n fill => exact tape_skip b n fill
  | bytes new =>
    show (b.write new).tape = (b.tape.fillGap 0).write new
    rw [fillGap_zero, tape_write]
  | word v =>
    show (b.write _).tape = (b.tape.fillGap 0).write _
    rw [fillGap_zero, tape_write]
  | wide v =>
    show (b.write _).tape = (b.tape.fillGap 0).write _
    rw [fillGap_zero, tape_write]
  | field f =>
    show (b.putField f).tape = (b.tape.fillGap 0).write f.bytes
    rw [fillGap_zero, tape_putField]
  | seek position =>
    show (b.seek position).tape = { b.tape.fillGap 0 with cursor := position }
    rw [fillGap_zero]
    rfl
  | clear =>
    apply Tape.ext
    case byte =>
      funext i
      exact byte_tape (b := {}) (Nat.zero_le i)
    all_goals rfl

/-- A gap that a skip fills with another byte than zero does not stay zero. -/
theorem tape_skip_ne {b : Buffer} {n : Nat} {fill : UInt8} (hfill : fill ≠ 0)
    (hgap : b.size < b.cursor) :
    (b.skip n fill).tape ≠ b.tape.write (Array.replicate n fill) := by
  intro h
  have hfilled : (b.tape.fillGap fill).byte b.size = fill :=
    Tape.byte_fillGap_of_mem (Nat.le_refl b.size) hgap fill
  have hbyte := congrFun (congrArg Tape.byte (tape_skip b n fill ▸ h)) b.size
  rw [Tape.byte_write_of_notMem (.inl hgap), Tape.byte_write_of_notMem (.inl hgap), hfilled,
    byte_tape (Nat.le_refl _)] at hbyte
  exact hfill hbyte

/-- An edit is that of a tape of zeros exactly if it fills no gap with another byte. -/
theorem Edit.tape_after_iff (e : Edit) (b : Buffer) :
    (e.after b).tape = e.onTape b.tape ↔ e.Grounded b := by
  constructor
  · intro h
    by_contra hground
    obtain ⟨hfill, hgap⟩ := not_or.mp hground
    cases e with
    | skip n fill => exact tape_skip_ne hfill (Nat.lt_of_not_le hgap) h
    | _ => exact hfill rfl
  · intro hground
    rw [tape_after]
    rcases hground with hfill | hle
    · rw [hfill, fillGap_zero]
    · rw [Tape.fillGap_of_le hle]

/-! ## Whole runs -/

theorem run_snoc (edits : List Edit) (e : Edit) (b : Buffer) :
    b.run (edits ++ [e]) = e.after (b.run edits) :=
  List.foldl_concat ..

theorem tape_run (edits : List Edit) (b : Buffer) :
    (b.run edits).tape = edits.foldl (fun t e => e.onTape (t.fillGap e.gapFill)) b.tape := by
  induction edits generalizing b with
  | nil => rfl
  | cons e rest ih =>
    rw [List.foldl_cons, ← e.tape_after]
    exact ih (e.after b)

/--
A run of edits does to a buffer what it does to its tape, where each edit first fills the gap before
the cursor. At every moment of the run the buffer is the tape of zeros with the same edits exactly
if no edit so far has filled a gap with another byte, as only a skip that starts behind the end does.
-/
theorem run_as_tape (edits : List Edit) (b : Buffer) :
    (b.run edits).tape = edits.foldl (fun t e => e.onTape (t.fillGap e.gapFill)) b.tape ∧
    ((∀ done, done <+: edits →
        (b.run done).tape = done.foldl (fun t e => e.onTape t) b.tape) ↔
      ∀ done e, done ++ [e] <+: edits → e.Grounded (b.run done)) := by
  refine ⟨tape_run edits b, ?_, ?_⟩
  · intro htape done e hprefix
    have hbefore := htape done ((List.prefix_append done [e]).trans hprefix)
    have hafter := htape (done ++ [e]) hprefix
    rw [run_snoc, List.foldl_concat, ← hbefore] at hafter
    exact (e.tape_after_iff _).mp hafter
  · intro hground done
    -- by induction on the edits that are done, the last one taken off
    induction done using List.reverseRecOn with
    | nil => exact fun _ => rfl
    | append_singleton done e ih =>
      intro hprefix
      rw [run_snoc, List.foldl_concat, ← ih ((List.prefix_append done [e]).trans hprefix)]
      exact (e.tape_after_iff _).mpr (hground done e hprefix)

/-- A skip that starts two bytes behind the end. -/
def distantSkip : List Edit :=
  [.seek 2, .skip 1 0xAA]

/-- The gap before the skip holds the byte of the skip, on the tape it holds zeros. -/
theorem distant_skip_fills_gap :
    (run distantSkip {}).data = #[0xAA, 0xAA, 0xAA] ∧
      (distantSkip.foldl (fun t e => e.onTape t) (tape {})).byte 0 = 0 ∧
      (run distantSkip {}).tape ≠ distantSkip.foldl (fun t e => e.onTape t) (tape {}) := by
  have hdata : (run distantSkip {}).data = #[0xAA, 0xAA, 0xAA] := by decide
  have hzero : (distantSkip.foldl (fun t e => e.onTape t) (tape {})).byte 0 = 0 := rfl
  refine ⟨hdata, hzero, fun h => ?_⟩
  have hfirst : (run distantSkip {}).tape.byte 0 = 0xAA := by
    show (run distantSkip {}).data.byteAt 0 = 0xAA
    rw [hdata]
    rfl
  rw [h, hzero] at hfirst
  exact absurd hfirst (by decide)

end Buffer

end ScriptToolchain
