import ScriptToolchain.Code.Emitter
import ScriptToolchain.Proofs.Effects
import ScriptToolchain.Proofs.Encoding

/-!
# What an emitter holds

An emitter whose cursor stands at the end holds a list of instructions: their
bytes are its buffer and, unless it stopped, the sum of their effects is its
depth. Emitting adds an instruction at the end, leaving an operand open adds a
branch to address zero, and filling the operand in changes the target of that
one branch and nothing else.
-/

namespace ScriptToolchain

/-- The depth and the greatest depth after some instructions, as whole numbers. -/
def Code.climb : StackReport → List Instruction → StackReport
  | r, [] => r
  | r, i :: rest => climb (r.add i.effect) rest

theorem Code.climb_append (r : StackReport) (is js : List Instruction) :
    climb r (is ++ js) = climb (climb r is) js := by
  induction is generalizing r with
  | nil => rfl
  | cons i rest ih => exact ih _

theorem Code.climb_snoc (r : StackReport) (is : List Instruction) (i : Instruction) :
    climb r (is ++ [i]) = (climb r is).add i.effect := by
  rw [climb_append, climb, climb]

theorem Code.assemble_snoc (is : List Instruction) (i : Instruction) :
    assemble (is ++ [i]) = assemble is ++ Bytes.ofWord32 i.opcode.tag ++ i.operand.bytes := by
  rw [assemble_append, assemble, assemble, Array.append_empty, Instruction.bytes,
    Array.append_assoc]

theorem Code.length_snoc (is : List Instruction) (i : Instruction) :
    length (is ++ [i]) =
      (assemble is ++ Bytes.ofWord32 i.opcode.tag).size + i.operand.bytes.size := by
  rw [length_append, length_cons, length_nil, Array.size_append, size_assemble,
    Bytes.size_ofWord32, Operand.size_bytes, Instruction.size, Opcode.tagSize]
  omega

namespace Buffer

theorem size_le_write (b : Buffer) (bytes : Bytes) : b.data.size ≤ (b.write bytes).data.size := by
  simp only [write, Bytes.size_le_store]

theorem size_le_skip (b : Buffer) (n : Nat) (fill : UInt8) :
    b.data.size ≤ (b.skip n fill).data.size := by
  simp only [skip]
  refine Nat.le_trans ?_ (Bytes.size_le_store (b.data ++ _) b.cursor (Array.replicate n fill))
  rw [Array.size_append]
  exact Nat.le_add_right _ _

end Buffer

namespace Emitter

variable (e : Emitter)

/-! ## What each step touches -/

theorem buffer_require (holds : Bool) : (e.require holds).buffer = e.buffer := by
  rw [require]

theorem here_require (holds : Bool) : (e.require holds).here = e.here := by
  rw [here, buffer_require, here]

theorem recorder_require (holds : Bool) : (e.require holds).recorder = e.recorder := by
  rw [require]

theorem buffer_write (bytes : Bytes) : (e.write bytes).buffer = e.buffer.write bytes := by
  rw [write]

theorem stack_write (bytes : Bytes) : (e.write bytes).stack = e.stack := by
  rw [write]

theorem stopped_write (bytes : Bytes) : (e.write bytes).stopped = e.stopped := by
  rw [write]

theorem recorder_write (bytes : Bytes) : (e.write bytes).recorder = e.recorder := by
  rw [write]

theorem buffer_adjust (op : Opcode) (count : UInt32) : (e.adjust op count).buffer = e.buffer := by
  rw [adjust]
  split <;> rfl

theorem recorder_adjust (op : Opcode) (count : UInt32) :
    (e.adjust op count).recorder = e.recorder := by
  rw [adjust]
  split <;> rfl

theorem buffer_start (op : Opcode) (count : UInt32) :
    (e.start op count).buffer = e.buffer.write (Bytes.ofWord32 op.tag) := by
  simp only [start, buffer_write, buffer_adjust]

/-- The depth is that of the step in words, if there is one. -/
theorem stack_start (op : Opcode) (count : UInt32) :
    (e.start op count).stack = (e.stack.step? op count).getD e.stack := by
  simp only [start, stack_write, adjust]
  split <;> simp [*]

/-- An instruction stops the emitter where its effect or the depth behind it is no word. -/
theorem stopped_start (op : Opcode) (count : UInt32) :
    (e.start op count).stopped = (e.stopped || (e.stack.step? op count).isNone) := by
  simp only [start, stopped_write, adjust]
  split <;> simp [*]

theorem recorder_start (op : Opcode) (count : UInt32) :
    (e.start op count).recorder = e.recorder.record e.here := by
  simp only [start, recorder_write, recorder_adjust]

theorem buffer_emit (op : Opcode) (x : Operand) :
    (e.emit op x).buffer = (e.buffer.write (Bytes.ofWord32 op.tag)).write x.bytes := by
  rw [emit, buffer_write, buffer_start, buffer_require]

theorem stack_emit (op : Opcode) (x : Operand) :
    (e.emit op x).stack = (e.stack.step? op x.count).getD e.stack := by
  rw [emit, stack_write, stack_start, require]

theorem stopped_emit (op : Opcode) (x : Operand) :
    (e.emit op x).stopped =
      (e.stopped || !wellFormed op x || (e.stack.step? op x.count).isNone) := by
  rw [emit, stopped_write, stopped_start, require]

theorem recorder_emit (op : Opcode) (x : Operand) :
    (e.emit op x).recorder = e.recorder.record e.here := by
  rw [emit, recorder_write, recorder_start, recorder_require, here_require]

theorem emitOpen_fst (op : Opcode) (fill : UInt8) :
    (e.emitOpen op fill).1 = saturate32 (e.buffer.cursor + 4) := by
  simp only [emitOpen, here, buffer_start, Buffer.write, Bytes.size_ofWord32]

theorem buffer_emitOpen (op : Opcode) (fill : UInt8) :
    (e.emitOpen op fill).2.buffer =
      (e.buffer.write (Bytes.ofWord32 op.tag)).skip patchSize fill := by
  simp only [emitOpen, skip, buffer_start]

theorem stack_emitOpen (op : Opcode) (fill : UInt8) :
    (e.emitOpen op fill).2.stack = (e.stack.step? op 0).getD e.stack := by
  simp only [emitOpen, skip, stack_start]

theorem stopped_emitOpen (op : Opcode) (fill : UInt8) :
    (e.emitOpen op fill).2.stopped = (e.stopped || (e.stack.step? op 0).isNone) := by
  simp only [emitOpen, skip, stopped_start]

theorem recorder_emitOpen (op : Opcode) (fill : UInt8) :
    (e.emitOpen op fill).2.recorder = e.recorder.record e.here := by
  simp only [emitOpen, skip, recorder_start]

theorem buffer_patch (address : UInt32) (v : UInt64) :
    (e.patch address v).buffer =
      ((e.buffer.seek address.toNat).write (Bytes.ofWord64 v)).seek e.here.toNat := by
  rw [patch, seek, seek, writeWord, write]

theorem stack_patch (address : UInt32) (v : UInt64) : (e.patch address v).stack = e.stack := by
  rw [patch, seek, seek, writeWord, write]

theorem stopped_patch (address : UInt32) (v : UInt64) :
    (e.patch address v).stopped = e.stopped := by
  rw [patch, seek, seek, writeWord, write]

theorem recorder_patch (address : UInt32) (v : UInt64) :
    (e.patch address v).recorder = e.recorder := by
  rw [patch, seek, seek, writeWord, write]

/-! ## Where an emitter stops -/

/-- An emitter stops at an instruction, in a form that it has not or where it overflows, or
later. -/
theorem stopped_cons {e e' : Emitter} {op : Opcode} {x : Operand} {ill : Bool}
    {later illLater : Prop} {ops : List (Opcode × Operand)} (hdepth : Word.Signed e.depth)
    (hstack : e'.stack = (e.stack.step? op x.count).getD e.stack)
    (hstopped : e'.stopped = (e.stopped || ill || (e.stack.step? op x.count).isNone))
    (hlater : Word.Signed e'.depth →
      (later ↔ e'.stopped = true ∨ illLater ∨ Code.Overflows e'.depth ops)) :
    later ↔
      e.stopped = true ∨ (ill = true ∨ illLater) ∨ Code.Overflows e.depth ((op, x) :: ops) := by
  rw [Code.overflows_cons hdepth]
  cases hstep : e.stack.step? op x.count with
  | none =>
    -- the depth stays what it was, and the emitter stays stopped
    rw [hstep] at hstack hstopped
    have hsame : e'.depth = e.depth := by rw [depth, hstack, Option.getD_none, depth]
    have hout := StackReport.step?_eq_none_iff.mp hstep
    rw [← depth] at hout
    rw [hlater (hsame ▸ hdepth), hstopped]
    simp only [Option.isNone_none, Bool.or_true, true_or, true_iff]
    exact .inr (.inr (hout.imp_right .inl))
  | some r =>
    rw [hstep] at hstack hstopped
    obtain ⟨hwide, hin, rfl⟩ := StackReport.step?_eq_some_iff.mp hstep
    have hnext : e'.depth = e.depth + op.effect x.count := by
      rw [depth, hstack, Option.getD_some, StackReport.finalDepth_add, depth]
    rw [← depth] at hin
    rw [hlater (hnext ▸ hin), hstopped, hnext]
    simp [hwide, hin, or_assoc]

/-! ## The instructions in the buffer -/

/-- The emitter holds these instructions and its cursor stands behind them. -/
structure Holds (e : Emitter) (is : List Instruction) : Prop where
  data : e.buffer.data = Code.assemble is
  cursor : e.buffer.cursor = Code.length is
  stack : e.stopped = false → e.stack = Code.climb {} is

theorem holds_nil (r : LineRecorder) : Holds { recorder := r } [] where
  data := rfl
  cursor := rfl
  stack _ := rfl

variable {e} {is : List Instruction}

theorem Holds.here (h : e.Holds is) : e.here = saturate32 (Code.length is) := by
  rw [Emitter.here, h.cursor]

theorem Holds.cursor_eq_size (h : e.Holds is) : e.buffer.cursor = e.buffer.data.size := by
  rw [h.cursor, h.data, Code.size_assemble]

/-- A write at the end extends the buffer and leaves the cursor at the end. -/
theorem Holds.buffer_write (h : e.Holds is) (bytes : Bytes) :
    e.buffer.write bytes =
      { data := Code.assemble is ++ bytes, cursor := (Code.assemble is ++ bytes).size } := by
  rw [Buffer.write, h.cursor_eq_size, Bytes.store_end, h.data, Array.size_append]

/-- An assertion that holds changes nothing, and one that fails stops the emitter. -/
theorem Holds.require (h : e.Holds is) (holds : Bool) : (e.require holds).Holds is where
  data := h.data
  cursor := h.cursor
  stack hgoes := h.stack (Bool.or_eq_false_iff.mp hgoes).1

theorem Holds.stack_start (h : e.Holds is) (i : Instruction)
    (hgoes : (e.start i.opcode i.operand.count).stopped = false) :
    (e.start i.opcode i.operand.count).stack = Code.climb {} (is ++ [i]) := by
  rw [stopped_start, Bool.or_eq_false_iff, Option.isNone_eq_false_iff,
    Option.isSome_iff_exists] at hgoes
  obtain ⟨hgoes, r, hstep⟩ := hgoes
  rw [Emitter.stack_start, hstep, Option.getD_some, Code.climb_snoc, ← h.stack hgoes]
  exact (StackReport.step?_eq_some_iff.mp hstep).2.2

/-- The current line is not part of the code. -/
theorem Holds.setLine (h : e.Holds is) (line : UInt32) : (e.setLine line).Holds is where
  data := h.data
  cursor := h.cursor
  stack := h.stack

/-- Emitting adds one instruction. -/
theorem Holds.emit (h : e.Holds is) (address : UInt32) (op : Opcode) (x : Operand) :
    (e.emit op x).Holds (is ++ [⟨address, op, x⟩]) where
  data := by
    rw [buffer_emit, h.buffer_write, Buffer.write, Bytes.store_end, Code.assemble_snoc]
  cursor := by
    rw [buffer_emit, h.buffer_write, Buffer.write, Code.length_snoc]
  stack hgoes := by
    rw [Emitter.emit, stopped_write] at hgoes
    rw [Emitter.emit, stack_write]
    exact (h.require (wellFormed op x)).stack_start ⟨address, op, x⟩ hgoes

/-- An instruction with an open operand goes to address zero for now. -/
theorem Holds.emitOpen (h : e.Holds is) (address : UInt32) (op : Opcode) :
    (e.emitOpen op 0).2.Holds (is ++ [⟨address, op, .word 0⟩]) where
  data := by
    have hzero : Array.replicate patchSize 0 = Bytes.ofWord64 0 := by decide
    have hstore := Bytes.store_middle (Code.assemble is ++ Bytes.ofWord32 op.tag)
      (Bytes.ofWord64 0) #[] (Bytes.ofWord64 0) rfl
    simp only [Array.append_empty] at hstore
    rw [buffer_emitOpen, h.buffer_write, Buffer.skip]
    simp only [Nat.add_sub_cancel_left, hzero]
    rw [hstore, Code.assemble_snoc, Operand.bytes]
  cursor := by
    rw [buffer_emitOpen, h.buffer_write, Buffer.skip, Code.length_snoc, Operand.size_bytes]
    rfl
  stack hgoes := by
    simp only [Emitter.emitOpen, skip] at hgoes ⊢
    exact h.stack_start ⟨address, op, .word 0⟩ hgoes

/-- Filling in an operand changes the target of one branch. -/
theorem Holds.patch {before after : List Instruction} {address : UInt32} {op : Opcode}
    {old : UInt64} (h : e.Holds (before ++ ⟨address, op, .word old⟩ :: after)) (new : UInt64)
    (hlt : e.buffer.data.size < 2 ^ 32) :
    (e.patch (saturate32 (Code.length before + 4)) new).Holds
      (before ++ ⟨address, op, .word new⟩ :: after) := by
  have hsize := h.cursor_eq_size
  have hwide : Instruction.size ⟨address, op, .word old⟩ = 12 := rfl
  have hlength : Code.length before + 12 ≤ e.buffer.data.size := by
    rw [h.data, Code.size_assemble, Code.length_append, Code.length_cons, hwide]
    omega
  have hopen : (saturate32 (Code.length before + 4)).toNat = Code.length before + 4 :=
    toNat_saturate32 (by omega)
  constructor
  · have hfront : (Code.assemble before ++ Bytes.ofWord32 op.tag).size =
        Code.length before + 4 := by simp
    rw [buffer_patch, Buffer.seek, Buffer.write, Buffer.seek]
    simp only [hopen, h.data, Code.assemble_append, Code.assemble, Instruction.bytes,
      Operand.bytes]
    rw [← Array.append_assoc, ← Array.append_assoc, ← hfront]
    rw [Bytes.store_middle _ (Bytes.ofWord64 old) _ (Bytes.ofWord64 new) rfl]
    simp only [Array.append_assoc]
  · have hback : e.here.toNat = e.buffer.cursor := toNat_saturate32 (by omega)
    rw [buffer_patch, Buffer.seek, hback, h.cursor, Code.length_append, Code.length_append,
      Code.length_cons, Code.length_cons, hwide]
    rfl
  · intro hgoes
    rw [stopped_patch] at hgoes
    rw [stack_patch, h.stack hgoes, Code.climb_append, Code.climb_append]
    rfl

/-! ## Growth -/

variable (e)

theorem size_le_emit (op : Opcode) (x : Operand) :
    e.buffer.data.size ≤ (e.emit op x).buffer.data.size := by
  rw [buffer_emit]
  exact Nat.le_trans (Buffer.size_le_write _ _) (Buffer.size_le_write _ _)

theorem size_le_emitOpen (op : Opcode) (fill : UInt8) :
    e.buffer.data.size ≤ (e.emitOpen op fill).2.buffer.data.size := by
  rw [buffer_emitOpen]
  exact Nat.le_trans (Buffer.size_le_write _ _) (Buffer.size_le_skip _ _ _)

theorem size_le_patch (address : UInt32) (v : UInt64) :
    e.buffer.data.size ≤ (e.patch address v).buffer.data.size := by
  have h := Buffer.size_le_write (e.buffer.seek address.toNat) (Bytes.ofWord64 v)
  rw [buffer_patch]
  simp only [Buffer.seek] at h ⊢
  exact h

end Emitter

end ScriptToolchain
