import ScriptToolchain.Code.Opcode
import ScriptToolchain.Number.Word

/-!
# Depth of the evaluation stack

What is known of the stack along a run of instructions: the depth behind the
last one and the greatest depth. `add` is meant on whole numbers; `step?` is
computed in signed words and answers nothing where a result leaves its word.
-/

namespace ScriptToolchain

/-- What is found along a run of instructions. -/
structure StackReport where
  /-- The greatest depth, at least zero. -/
  maxDepth : Int := 0
  /-- The depth after the last instruction. -/
  finalDepth : Int := 0
deriving Repr, DecidableEq

namespace StackReport

/-- The depth is set. -/
def set (r : StackReport) (depth : Int) : StackReport :=
  { maxDepth := max r.maxDepth depth, finalDepth := depth }

/-- The depth changes. -/
def add (r : StackReport) (change : Int) : StackReport :=
  r.set (r.finalDepth + change)

/-- The depth behind an instruction, if it and the effect of the instruction are signed words. -/
def step? (r : StackReport) (op : Opcode) (count : UInt32) : Option StackReport := do
  let depth ← Word.signed? (r.finalDepth + (← op.effect? count))
  return r.set depth

end StackReport

end ScriptToolchain
