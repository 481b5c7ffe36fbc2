import Mathlib.Tactic
import ScriptToolchain.Proofs.Emission
import ScriptToolchain.Proofs.Reading

/-!
# Code there and back

The code that is decoded as some instructions is the one made of their bytes
(`Code.decode_eq_ok_iff`), and an emitter that emits operations one behind the
other holds just these bytes. So lists of operations with immediates of the
right kind and code buffers that can be decoded are two forms of the same, as
long as results fit their words: an emitter stops where the operations overflow
(`Emitter.stopped_emitAll`), and decoding stops where an address does.
-/

namespace ScriptToolchain

/-! ## What stands where an instruction is read -/

theorem Opcode.tag_of_ofTag? {raw : UInt32} {op : Opcode} (h : ofTag? raw = some op) :
    op.tag = raw := by
  -- the table lists the operations in the order of their constructors
  have hall : ∀ n < all.size, all[n]?.map Opcode.ctorIdx = some n := by decide
  obtain ⟨hlt, -⟩ := Array.getElem?_eq_some_iff.mp h
  have hidx := hall raw.toNat hlt
  rw [ofTag?] at h
  rw [h, Option.map_some, Option.some_inj] at hidx
  rw [tag, hidx]
  exact UInt32.ofNat_toNat

open Reader in
theorem Operand.reads_read (kind : OperandKind) :
    Reads (Operand.read kind) (Encoded (fun x => x.kind = kind) Operand.bytes) := by
  cases kind with
  | none =>
    refine (reads_pure Operand.none).of_iff fun x b => ?_
    cases x <;> simp [Encoded, Operand.kind, Operand.bytes]
  | int32 =>
    refine (reads_word32.next fun w => reads_pure (Operand.int w.toInt32)).of_iff fun x b => ?_
    constructor
    · rintro ⟨w, _, -, ⟨rfl, rfl⟩, rfl⟩
      exact ⟨rfl, by simp [Operand.bytes]⟩
    · rintro ⟨hkind, rfl⟩
      cases x with
      | int v => exact ⟨v.toUInt32, #[], trivial, ⟨by simp, rfl⟩, by simp [Operand.bytes]⟩
      | _ => cases hkind
  | float32 =>
    refine (reads_word32.next fun w => reads_pure (Operand.float w)).of_iff fun x b => ?_
    constructor
    · rintro ⟨w, _, -, ⟨rfl, rfl⟩, rfl⟩
      exact ⟨rfl, by simp [Operand.bytes]⟩
    · rintro ⟨hkind, rfl⟩
      cases x with
      | float w => exact ⟨w, #[], trivial, ⟨rfl, rfl⟩, by simp [Operand.bytes]⟩
      | _ => cases hkind
  | word64 =>
    refine (reads_word64.next fun w => reads_pure (Operand.word w)).of_iff fun x b => ?_
    constructor
    · rintro ⟨w, _, -, ⟨rfl, rfl⟩, rfl⟩
      exact ⟨rfl, by simp [Operand.bytes]⟩
    · rintro ⟨hkind, rfl⟩
      cases x with
      | word w => exact ⟨w, #[], trivial, ⟨rfl, rfl⟩, by simp [Operand.bytes]⟩
      | _ => cases hkind

/-- An instruction that is read has its bytes where it is read, and the address of that place. -/
theorem Instruction.of_decodeAt {code : Bytes} {address : Nat} {i : Instruction}
    (hwithin : ({ data := code, offset := address } : Reader).Within)
    (h : decodeAt code address = .ok i) :
    i.address = address.toUInt32 ∧ i.Fits ∧
      ({ data := code, offset := address } : Reader).Holds i.bytes := by
  unfold decodeAt at h
  split at h
  · cases h
  · rename_i raw r htag
    obtain ⟨_, ⟨-, rfl⟩, hholds, rfl⟩ := (Reader.reads_word32 hwithin raw r).mp htag
    split at h
    · cases h
    · rename_i op hop
      split at h
      · cases h
      · rename_i x r' hoperand
        cases h
        obtain ⟨_, ⟨hkind, rfl⟩, hholds', -⟩ :=
          (Operand.reads_read op.operand hholds.within_advance x r').mp hoperand
        refine ⟨rfl, hkind, ?_⟩
        show Reader.Holds _ (Bytes.ofWord32 op.tag ++ x.bytes)
        rw [Opcode.tag_of_ofTag? hop]
        exact Reader.holds_append.mpr ⟨hholds, hholds'⟩

/-- An instruction that is read ends inside the code. -/
theorem Instruction.end_le_of_decodeAt {code : Bytes} {address : Nat} {i : Instruction}
    (hwithin : address ≤ code.size) (h : decodeAt code address = .ok i) :
    address + i.opcode.size ≤ code.size := by
  obtain ⟨-, hfits, hholds⟩ := of_decodeAt hwithin h
  have hend := hholds.size_le
  rwa [size_bytes, hfits.size_eq] at hend

namespace Code

/-! ## Code that can be decoded -/

/-- What a scan has read stands from where it started on, up to the end if nothing stopped it. -/
theorem scan_reads {code : Bytes} {address : Nat} {is : List Instruction}
    {stop : Option DecodeError} (hwithin : address ≤ code.size)
    (h : scan code address = (is, stop)) :
    Placed address is ∧ address + length is ≤ code.size ∧
      code.extract address (address + length is) = assemble is ∧
      (stop = none → address + length is = code.size) ∧
      (address < 2 ^ 32 → address + length is < 2 ^ 32) := by
  -- along the scan: each instruction stands at the front of what is left
  induction is generalizing address with
  | nil =>
    refine ⟨trivial, hwithin, Array.extract_empty_of_stop_le_start (Nat.le_refl _), ?_, id⟩
    rintro rfl
    unfold scan at h
    split at h
    · split at h
      · split at h <;> cases h
      · cases h
    · show address = code.size
      omega
  | cons i rest ih =>
    unfold scan at h
    split at h
    swap
    · cases h
    split at h
    swap
    · cases h
    rename_i j hdecode
    split at h
    swap
    · cases h
    rename_i hbehind
    dsimp only at h
    rw [Prod.mk.injEq, List.cons.injEq] at h
    obtain ⟨⟨rfl, hrest⟩, hstop⟩ := h
    obtain ⟨haddress, hfits, hholds⟩ := Instruction.of_decodeAt hwithin hdecode
    have hfront := hholds.extract_eq
    rw [Instruction.size_bytes, hfits.size_eq] at hfront
    obtain ⟨hplaced, hend, hafter, hall, hword⟩ :=
      ih (Instruction.end_le_of_decodeAt hwithin hdecode) (Prod.ext hrest hstop)
    rw [length_cons, hfits.size_eq, ← Nat.add_assoc]
    refine ⟨⟨haddress, hfits, hfits.size_eq ▸ hplaced⟩, hend, ?_, hall, fun _ => hword hbehind⟩
    rw [assemble, ← hafter, ← hfront]
    have hstart : address ≤ address + j.opcode.size := Nat.le_add_right _ _
    have hrest : address + j.opcode.size ≤ address + j.opcode.size + length rest :=
      Nat.le_add_right _ _
    simp only [Array.extract_append_extract, Nat.min_eq_left hstart, Nat.max_eq_right hrest]

/-- The code of instructions is the one that is decoded as them; its addresses are words. -/
theorem decode_eq_ok_iff {code : Bytes} {is : List Instruction} :
    decode code = .ok is ↔ Placed 0 is ∧ code = assemble is ∧ code.size < 2 ^ 32 := by
  constructor
  · intro h
    unfold decode at h
    split at h
    · rename_i is' hscan
      cases h
      obtain ⟨hplaced, -, hbytes, hend, hword⟩ := scan_reads (Nat.zero_le _) hscan
      have hlt := hword (by decide)
      rw [hend rfl] at hlt
      rw [hend rfl, Array.extract_size] at hbytes
      exact ⟨hplaced, hbytes, hlt⟩
    · cases h
  · rintro ⟨hplaced, rfl, hlt⟩
    rw [size_assemble] at hlt
    exact decode_of_placed hplaced hlt

theorem decodeAt_ne_overflow (code : Bytes) (address : Nat) :
    Instruction.decodeAt code address ≠ .error .overflow := by
  rw [Instruction.decodeAt]
  split
  · rintro ⟨⟩
  · split
    · rintro ⟨⟩
    · split <;> rintro ⟨⟩

/-- In code below the largest address, there is one behind every instruction. -/
theorem scan_ne_overflow {code : Bytes} (hlt : code.size < 2 ^ 32) {address : Nat}
    (hwithin : address ≤ code.size) : (scan code address).2 ≠ some .overflow := by
  fun_induction scan code address with
  | case1 address _ i hdecode _ rest stop hrest ih =>
    have hne := ih (Instruction.end_le_of_decodeAt hwithin hdecode)
    rwa [hrest] at hne
  | case2 address _ i hdecode hout =>
    have hend := Instruction.end_le_of_decodeAt hwithin hdecode
    exact absurd (Nat.lt_of_le_of_lt hend hlt) hout
  | case3 address _ e hdecode =>
    rintro ⟨⟩
    exact decodeAt_ne_overflow code address hdecode
  | case4 => rintro ⟨⟩

theorem decode_ne_overflow {code : Bytes} (hlt : code.size < 2 ^ 32) :
    decode code ≠ .error .overflow := by
  have hstop := scan_ne_overflow hlt (Nat.zero_le _)
  intro h
  rw [decode] at h
  split at h
  · cases h
  · rename_i hscan
    cases h
    rw [hscan] at hstop
    exact hstop rfl

/-- Reading stops at the first instruction behind which there is no address. -/
theorem scan_overflow (first : Bytes) (is : List Instruction) (h : Placed first.size is)
    (hlt : first.size < 2 ^ 32) (hle : 2 ^ 32 ≤ first.size + length is) :
    (scan (first ++ assemble is) first.size).2 = some .overflow := by
  induction is generalizing first with
  | nil => exact absurd hle (Nat.not_le.mpr hlt)
  | cons i rest ih =>
    obtain ⟨ha, hi, hrest⟩ := h
    rw [length_cons, ← Nat.add_assoc] at hle
    have hd := Instruction.decodeAt_bytes first (assemble rest) i hi ha
    have hpos := i.size_pos
    have hnext : (first ++ i.bytes).size = first.size + i.opcode.size := by
      rw [Array.size_append, Instruction.size_bytes, hi.size_eq]
    rw [assemble, ← Array.append_assoc, scan, if_pos (by simp; omega), hd]
    dsimp only
    split
    case isTrue hbehind =>
      have hr := ih (first ++ i.bytes) (by rwa [hnext, ← hi.size_eq]) (by rwa [hnext])
        (by rwa [hnext, ← hi.size_eq])
      rwa [hnext] at hr
    case isFalse => rfl

/-- Code of 2^32 bytes or more is not decoded. -/
theorem decode_overflow {is : List Instruction} (h : Placed 0 is) (hle : 2 ^ 32 ≤ length is) :
    decode (assemble is) = .error .overflow := by
  have hscan : (scan (assemble is) 0).2 = some .overflow := by
    have hempty := scan_overflow #[] is h (by decide) (by simpa using hle)
    rwa [Array.empty_append] at hempty
  rw [decode]
  split
  case h_1 heq =>
    rw [heq] at hscan
    cases hscan
  case h_2 heq =>
    rw [heq] at hscan
    cases hscan
    rfl

/-- An instruction stands behind all that come before it. -/
theorem Placed.address_getElem? {is : List Instruction} {address k : Nat} {i : Instruction}
    (h : Placed address is) (hi : is[k]? = some i) :
    i.address = (address + length (is.take k)).toUInt32 := by
  induction is generalizing address k with
  | nil => simp at hi
  | cons j rest ih =>
    obtain ⟨haddress, -, hrest⟩ := h
    cases k with
    | zero =>
      cases hi
      simpa using haddress
    | succ k =>
      rw [ih hrest hi, List.take_succ_cons, length_cons, Nat.add_assoc]

/-! ## Operations and their places -/

/-- Operations with immediates, as instructions from `address` on. -/
def place (address : Nat) : List (Opcode × Operand) → List Instruction
  | [] => []
  | (op, x) :: rest => ⟨address.toUInt32, op, x⟩ :: place (address + op.size) rest

/-- The number of bytes that operations take. -/
def encodedSize (ops : List (Opcode × Operand)) : Nat :=
  (ops.map fun op => op.1.size).sum

end Code

/-- The instruction without its place. -/
def Instruction.operation (i : Instruction) : Opcode × Operand :=
  (i.opcode, i.operand)

namespace Code

theorem operation_place (address : Nat) (ops : List (Opcode × Operand)) :
    (place address ops).map Instruction.operation = ops := by
  induction ops generalizing address with
  | nil => rfl
  | cons op rest ih => rw [place, List.map_cons, ih, Instruction.operation]

theorem placed_place {address : Nat} {ops : List (Opcode × Operand)}
    (h : ∀ op ∈ ops, op.2.kind = op.1.operand) : Placed address (place address ops) := by
  induction ops generalizing address with
  | nil => trivial
  | cons op rest ih =>
    obtain ⟨hop, hrest⟩ := List.forall_mem_cons.mp h
    have hfits : Instruction.Fits ⟨address.toUInt32, op.1, op.2⟩ := hop
    refine ⟨rfl, hfits, ?_⟩
    rw [hfits.size_eq]
    exact ih hrest

/-- Instructions that fit take the bytes that their operations need. -/
theorem length_eq_encodedSize {is : List Instruction} (h : ∀ i ∈ is, i.Fits) :
    length is = encodedSize (is.map Instruction.operation) := by
  rw [length, encodedSize, List.map_map]
  congr 1
  apply List.map_congr_left
  intro i hi
  exact (h i hi).size_eq

theorem encodedSize_take_le (ops : List (Opcode × Operand)) (k : Nat) :
    encodedSize (ops.take k) ≤ encodedSize ops := by
  have hsum := congrArg encodedSize (List.take_append_drop k ops)
  simp only [encodedSize, List.map_append, List.sum_append] at hsum ⊢
  omega

/-- Placed instructions with the same operations have the same bytes. -/
theorem assemble_congr {is js : List Instruction}
    (h : is.map Instruction.operation = js.map Instruction.operation) :
    assemble is = assemble js := by
  induction is generalizing js with
  | nil =>
    rw [List.map_eq_nil_iff.mp h.symm]
  | cons i rest ih =>
    obtain _ | ⟨j, rest'⟩ := js
    · cases h
    · rw [List.map_cons, List.map_cons, List.cons.injEq] at h
      obtain ⟨hop, hrest⟩ := h
      have hbytes : i.bytes = j.bytes :=
        congrArg (fun op : Opcode × Operand => Bytes.ofWord32 op.1.tag ++ op.2.bytes) hop
      rw [assemble, assemble, ih hrest, hbytes]

end Code

namespace Emitter

/-- Emits operations one behind the other. -/
def emitAll (e : Emitter) (ops : List (Opcode × Operand)) : Emitter :=
  ops.foldl (fun e op => e.emit op.1 op.2) e

theorem Holds.emitAll {e : Emitter} {is : List Instruction} (h : e.Holds is) (address : Nat)
    (ops : List (Opcode × Operand)) : (e.emitAll ops).Holds (is ++ Code.place address ops) := by
  induction ops generalizing e is address with
  | nil =>
    rw [Code.place, List.append_nil]
    exact h
  | cons op rest ih =>
    have hstep := ih (h.emit address.toUInt32 op.1 op.2) (address + op.1.size)
    rw [List.append_assoc] at hstep
    exact hstep

/-- What a new emitter holds after some operations. -/
theorem code_emitAll (r : LineRecorder) (ops : List (Opcode × Operand)) :
    (emitAll { recorder := r } ops).code = Code.assemble (Code.place 0 ops) := by
  have h := (holds_nil r).emitAll 0 ops
  rw [List.nil_append] at h
  exact h.data

/-- An emitter stops at an immediate that is left out and where the operations overflow. -/
theorem stopped_emitAll {e : Emitter} (hdepth : Word.Signed e.depth)
    (ops : List (Opcode × Operand)) :
    (e.emitAll ops).stopped = true ↔ e.stopped = true ∨
      (∃ op ∈ ops, wellFormed op.1 op.2 = false) ∨ Code.Overflows e.depth ops := by
  induction ops generalizing e with
  | nil => simp [emitAll, Code.not_overflows_nil hdepth]
  | cons op rest ih =>
    have hcons : e.emitAll (op :: rest) = (e.emit op.1 op.2).emitAll rest := rfl
    rw [hcons, stopped_cons hdepth (e.stack_emit op.1 op.2) (e.stopped_emit op.1 op.2) ih]
    simp

theorem wellFormed_of_kind {op : Opcode} {x : Operand} (h : x.kind = op.operand) :
    wellFormed op x = true := by
  cases x with
  | none => simp [wellFormed, ← h, Operand.kind]
  | _ => rfl

/-- A new emitter stops where operations with immediates of their kind overflow. -/
theorem stopped_emitAll_iff (r : LineRecorder) {ops : List (Opcode × Operand)}
    (h : ∀ op ∈ ops, op.2.kind = op.1.operand) :
    (emitAll { recorder := r } ops).stopped = true ↔ Code.Overflows 0 ops := by
  have hzero : Word.Signed 0 := by decide
  rw [stopped_emitAll (e := { recorder := r }) hzero]
  have hnone : ¬∃ op ∈ ops, wellFormed op.1 op.2 = false := by
    rintro ⟨op, hop, hill⟩
    rw [wellFormed_of_kind (h op hop)] at hill
    cases hill
  simp only [hnone, Bool.false_eq_true, false_or]
  rfl

end Emitter

/--
Operations with immediates of the right kind are emitted from scratch unless they overflow. What
is emitted is decoded as just these operations, each at the sum of the sizes before it, if that is
a word for all of them; beyond 2^32 bytes decoding stops. Conversely the instructions of any code
that can be decoded are emitted again unless they overflow, and give the same bytes. Floats are
patterns of bits here.
-/
theorem code_round_trip (r : LineRecorder) (ops : List (Opcode × Operand)) (code : Bytes) :
    ((∀ op ∈ ops, op.2.kind = op.1.operand) →
      ((Emitter.emitAll { recorder := r } ops).stopped = true ↔ Code.Overflows 0 ops) ∧
      (¬Code.Overflows 0 ops →
        (Code.encodedSize ops < 2 ^ 32 →
          ∃ is, Code.decode (Emitter.emitAll { recorder := r } ops).code = .ok is ∧
            is.map Instruction.operation = ops ∧
            ∀ k i, is[k]? = some i → i.address.toNat = Code.encodedSize (ops.take k)) ∧
        (2 ^ 32 ≤ Code.encodedSize ops →
          Code.decode (Emitter.emitAll { recorder := r } ops).code = .error .overflow))) ∧
    ∀ is : List Instruction, Code.decode code = .ok is →
      (∀ i ∈ is, i.operand.kind = i.opcode.operand) ∧
      ((Emitter.emitAll { recorder := r } (is.map Instruction.operation)).stopped = true ↔
        Code.Overflows 0 (is.map Instruction.operation)) ∧
      (¬Code.Overflows 0 (is.map Instruction.operation) →
        (Emitter.emitAll { recorder := r } (is.map Instruction.operation)).code = code) := by
  constructor
  · intro hops
    have hplaced : Code.Placed 0 (Code.place 0 ops) := Code.placed_place hops
    have hcode := Emitter.code_emitAll r ops
    have hlength : Code.length (Code.place 0 ops) = Code.encodedSize ops := by
      rw [Code.length_eq_encodedSize hplaced.fits, Code.operation_place]
    refine ⟨Emitter.stopped_emitAll_iff r hops, fun _ => ⟨fun hlt => ?_, fun hle => ?_⟩⟩
    · have hdecode := Code.decode_of_placed hplaced (hlength ▸ hlt)
      refine ⟨Code.place 0 ops, hcode ▸ hdecode, Code.operation_place 0 ops, ?_⟩
      intro k i hi
      have hbefore : Code.length ((Code.place 0 ops).take k) = Code.encodedSize (ops.take k) := by
        rw [Code.length_eq_encodedSize fun j hj => hplaced.fits j (List.mem_of_mem_take hj),
          List.map_take, Code.operation_place]
      have haddress := hplaced.address_getElem? hi
      rw [Nat.zero_add, hbefore] at haddress
      rw [haddress]
      exact UInt32.toNat_ofNat_of_lt' (Nat.lt_of_le_of_lt (Code.encodedSize_take_le ops k) hlt)
    · rw [hcode]
      exact Code.decode_overflow hplaced (hlength ▸ hle)
  · intro is h
    obtain ⟨hplaced, rfl, -⟩ := Code.decode_eq_ok_iff.mp h
    refine ⟨hplaced.fits, Emitter.stopped_emitAll_iff r ?_, fun _ => ?_⟩
    · intro op hop
      obtain ⟨i, hi, rfl⟩ := List.mem_map.mp hop
      exact hplaced.fits i hi
    · rw [Emitter.code_emitAll]
      exact Code.assemble_congr (Code.operation_place 0 _)

/-- Operations with immediates of every kind: a NaN, a negative number, a wide id. -/
def mixedOperations : List (Opcode × Operand) := [
  (.pushFloat, .float 0x7FC00001),
  (.pushInt, .int (-1)),
  (.pushString, .word 0xFFFFFFFFFFFFFFFF),
  (.pop, .none),
  (.ret, .none)]

/-- They come back, the last one from address 32, and give the same code again. -/
theorem code_round_trip_mixed :
    (∀ op ∈ mixedOperations, op.2.kind = op.1.operand) ∧
    ∃ is, Code.decode (Emitter.emitAll {} mixedOperations).code = .ok is ∧
      is.map Instruction.operation = mixedOperations ∧
      is[4]?.map (·.address.toNat) = some 32 ∧
      (Emitter.emitAll {} (is.map Instruction.operation)).code =
        (Emitter.emitAll {} mixedOperations).code := by
  have hkinds : ∀ op ∈ mixedOperations, op.2.kind = op.1.operand := by decide
  obtain ⟨hgiven, hread⟩ :=
    code_round_trip {} mixedOperations (Emitter.emitAll {} mixedOperations).code
  obtain ⟨hstopped, hgoes⟩ := hgiven hkinds
  have hfits : ¬Code.Overflows 0 mixedOperations := by
    rw [← hstopped]
    decide +kernel
  obtain ⟨is, hdecode, hops, haddress⟩ := (hgoes hfits).1 (by decide)
  obtain ⟨-, -, hagain⟩ := hread is hdecode
  refine ⟨hkinds, is, hdecode, hops, ?_, hagain (by rwa [hops])⟩
  have hlen : is.length = 5 := by simpa [mixedOperations] using congrArg List.length hops
  have hlast : is[4]? = some is[4] := List.getElem?_eq_getElem (by omega)
  rw [hlast, Option.map_some, haddress 4 _ hlast]
  rfl

/-- The emitter stops at a call with the greatest argument count of a signed word, an operation
with an immediate of its kind. -/
theorem wide_call_stops :
    ¬∀ ops : List (Opcode × Operand), (∀ op ∈ ops, op.2.kind = op.1.operand) →
      Code.encodedSize ops < 2 ^ 32 → (Emitter.emitAll {} ops).stopped = false := by
  intro goes
  have hgoes := goes [(.call, .int 0x7FFFFFFF)] (by decide) (by decide)
  exact absurd hgoes (by decide +kernel)

end ScriptToolchain
