import ScriptToolchain.Code.Instruction
import ScriptToolchain.Proofs.Bytes

/-!
# Encoded instructions

`Code.assemble` joins the bytes of instructions. When every instruction
carries the kind of immediate of its operation and the address at which it
stands, `Instruction.decodeAt` finds it there and `Code.scan` reads the whole
list back.
-/

namespace ScriptToolchain

/-! ## One instruction -/

theorem Opcode.ofTag?_tag (op : Opcode) : Opcode.ofTag? op.tag = some op := by
  cases op <;> rfl

@[simp]
theorem Operand.size_bytes (x : Operand) : x.bytes.size = x.kind.size := by
  cases x <;> rfl

/-- Reading as many bytes as stand at the offset. -/
theorem Reader.take_run (first x last : Bytes) :
    (Reader.take x.size).run { data := first ++ x ++ last, offset := first.size } =
      .ok x { data := first ++ x ++ last, offset := first.size + x.size } := by
  have hsize : (first ++ x ++ last).size = first.size + x.size + last.size := by
    rw [Array.size_append, Array.size_append]
  have hextract : (first ++ x ++ last).extract first.size (first.size + x.size) = x := by
    rw [Array.append_assoc, Array.extract_append]
    simp
  show Reader.take x.size { data := first ++ x ++ last, offset := first.size } = _
  rw [Reader.take, if_neg (by simp only [Reader.remaining]; omega),
    if_neg (show ¬(first ++ x ++ last).size < first.size by omega)]
  rw [hextract]

theorem Reader.word32_run (first last : Bytes) (v : UInt32) :
    Reader.word32.run { data := first ++ Bytes.ofWord32 v ++ last, offset := first.size } =
      .ok v { data := first ++ Bytes.ofWord32 v ++ last, offset := first.size + 4 } := by
  have h := Reader.take_run first (Bytes.ofWord32 v) last
  rw [Bytes.size_ofWord32] at h
  simp only [Reader.word32, EStateM.run, bind, EStateM.bind, pure, EStateM.pure] at h ⊢
  rw [h]
  simp

theorem Reader.word64_run (first last : Bytes) (v : UInt64) :
    Reader.word64.run { data := first ++ Bytes.ofWord64 v ++ last, offset := first.size } =
      .ok v { data := first ++ Bytes.ofWord64 v ++ last, offset := first.size + 8 } := by
  have h := Reader.take_run first (Bytes.ofWord64 v) last
  rw [Bytes.size_ofWord64] at h
  simp only [Reader.word64, EStateM.run, bind, EStateM.bind, pure, EStateM.pure] at h ⊢
  rw [h]
  simp

theorem Operand.read_run (first last : Bytes) (x : Operand) :
    ∃ r, (Operand.read x.kind).run { data := first ++ x.bytes ++ last, offset := first.size } =
      .ok x r := by
  cases x with
  | none => exact ⟨_, rfl⟩
  | int v =>
    have h := Reader.word32_run first last v.toUInt32
    simp only [Operand.read, Operand.kind, Operand.bytes, EStateM.run, bind, EStateM.bind, pure,
      EStateM.pure] at h ⊢
    rw [h]
    exact ⟨_, rfl⟩
  | float bits =>
    have h := Reader.word32_run first last bits
    simp only [Operand.read, Operand.kind, Operand.bytes, EStateM.run, bind, EStateM.bind, pure,
      EStateM.pure] at h ⊢
    rw [h]
    exact ⟨_, rfl⟩
  | word v =>
    have h := Reader.word64_run first last v
    simp only [Operand.read, Operand.kind, Operand.bytes, EStateM.run, bind, EStateM.bind, pure,
      EStateM.pure] at h ⊢
    rw [h]
    exact ⟨_, rfl⟩

namespace Instruction

/-- The immediate is of the kind that the operation has. -/
def Fits (i : Instruction) : Prop :=
  i.operand.kind = i.opcode.operand

/-- The number of bytes of the instruction. -/
def size (i : Instruction) : Nat :=
  Opcode.tagSize + i.operand.kind.size

theorem size_pos (i : Instruction) : 4 ≤ i.size := by
  simp [size, Opcode.tagSize]

theorem Fits.size_eq {i : Instruction} (h : i.Fits) : i.size = i.opcode.size := by
  rw [size, h, Opcode.size]

@[simp]
theorem size_bytes (i : Instruction) : i.bytes.size = i.size := by
  simp [bytes, size, Opcode.tagSize]

/-- An instruction is found where its bytes stand. -/
theorem decodeAt_bytes (first last : Bytes) (i : Instruction) (hi : i.Fits)
    (ha : i.address = first.size.toUInt32) :
    decodeAt (first ++ i.bytes ++ last) first.size = .ok i := by
  obtain ⟨r, hr⟩ := Operand.read_run (first ++ Bytes.ofWord32 i.opcode.tag) last i.operand
  have hw := Reader.word32_run first (i.operand.bytes ++ last) i.opcode.tag
  have hcode : first ++ i.bytes ++ last =
      first ++ Bytes.ofWord32 i.opcode.tag ++ (i.operand.bytes ++ last) := by
    simp only [bytes, Array.append_assoc]
  have hsize : (first ++ Bytes.ofWord32 i.opcode.tag).size = first.size + 4 := by simp
  rw [Array.append_assoc, hsize] at hr
  rw [hcode, decodeAt, hw]
  simp only [Opcode.ofTag?_tag]
  rw [← show i.operand.kind = i.opcode.operand from hi, hr]
  simp only [← ha]

end Instruction

/-! ## Sequences of instructions -/

namespace Code

/-- The bytes of instructions, one behind the other. -/
def assemble : List Instruction → Bytes
  | [] => #[]
  | i :: rest => i.bytes ++ assemble rest

/-- The number of bytes of instructions. -/
def length (is : List Instruction) : Nat :=
  (is.map Instruction.size).sum

/-- Every instruction fits its operation and carries the address at which it stands. -/
def Placed (address : Nat) : List Instruction → Prop
  | [] => True
  | i :: rest => i.address = address.toUInt32 ∧ i.Fits ∧ Placed (address + i.size) rest

@[simp]
theorem length_nil : length [] = 0 :=
  rfl

@[simp]
theorem length_cons (i : Instruction) (is : List Instruction) :
    length (i :: is) = i.size + length is :=
  rfl

@[simp]
theorem length_append (is js : List Instruction) : length (is ++ js) = length is + length js := by
  simp [length]

theorem assemble_append (is js : List Instruction) :
    assemble (is ++ js) = assemble is ++ assemble js := by
  induction is with
  | nil => simp [assemble]
  | cons i rest ih => simp only [List.cons_append, assemble, ih, Array.append_assoc]

@[simp]
theorem size_assemble (is : List Instruction) : (assemble is).size = length is := by
  induction is with
  | nil => rfl
  | cons i rest ih => simp [assemble, ih]

theorem placed_append {address : Nat} {is js : List Instruction} :
    Placed address (is ++ js) ↔ Placed address is ∧ Placed (address + length is) js := by
  induction is generalizing address with
  | nil => simp [Placed]
  | cons i rest ih =>
    simp only [List.cons_append, Placed, ih, length_cons, Nat.add_assoc, and_assoc]

theorem Placed.fits {start : Nat} {is : List Instruction} (h : Placed start is) :
    ∀ i ∈ is, i.Fits := by
  induction is generalizing start with
  | nil => exact nofun
  | cons i rest ih =>
    intro j hj
    rcases List.mem_cons.mp hj with rfl | hj
    · exact h.2.1
    · exact ih h.2.2 j hj

/-- A list of placed instructions is read back as a whole. -/
theorem scan_assemble (first : Bytes) (is : List Instruction) (h : Placed first.size is)
    (hlt : first.size + length is < 2 ^ 32) :
    scan (first ++ assemble is) first.size = (is, none) := by
  induction is generalizing first with
  | nil =>
    rw [scan, assemble, if_neg (by simp)]
  | cons i rest ih =>
    obtain ⟨ha, hi, hrest⟩ := h
    rw [length_cons] at hlt
    have hd := Instruction.decodeAt_bytes first (assemble rest) i hi ha
    have hr := ih (first ++ i.bytes) (by simpa using hrest) (by simp; omega)
    have hpos := i.size_pos
    have hbehind : first.size + i.opcode.size < UInt32.size := by
      rw [← hi.size_eq]
      exact Nat.lt_of_le_of_lt (by omega) hlt
    rw [Array.size_append, Instruction.size_bytes, hi.size_eq] at hr
    rw [assemble, ← Array.append_assoc, scan, if_pos (by simp; omega), hd]
    simp only [hr, if_pos hbehind]

theorem scan_of_placed {is : List Instruction} (h : Placed 0 is) (hlt : length is < 2 ^ 32) :
    scan (assemble is) 0 = (is, none) := by
  simpa using scan_assemble #[] is h (by simpa using hlt)

theorem decode_of_placed {is : List Instruction} (h : Placed 0 is) (hlt : length is < 2 ^ 32) :
    decode (assemble is) = .ok is := by
  rw [decode, scan_of_placed h hlt]

/-- Every instruction of a placed list is found at its address. -/
theorem decodeAt_of_placed {is : List Instruction} (h : Placed 0 is) (hlt : length is < 2 ^ 32)
    {i : Instruction} (hi : i ∈ is) :
    Instruction.decodeAt (assemble is) i.address.toNat = .ok i := by
  obtain ⟨before, after, rfl⟩ := List.append_of_mem hi
  obtain ⟨-, ha, hfit, -⟩ := placed_append.mp h
  rw [length_append, length_cons] at hlt
  have hpos : length before < 2 ^ 32 := by omega
  have haddr : i.address.toNat = (assemble before).size := by
    rw [ha, Nat.zero_add, size_assemble]
    exact UInt32.toNat_ofNat_of_lt' hpos
  rw [assemble_append, assemble, ← Array.append_assoc, haddr]
  exact Instruction.decodeAt_bytes _ _ i hfit (by rw [ha, Nat.zero_add, size_assemble])

end Code

end ScriptToolchain
