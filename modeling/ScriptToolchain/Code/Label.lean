import ScriptToolchain.Code.Emitter

/-!
# Labels of forward branches

A branch whose target is not known yet is emitted with an open operand and
gets a label. Resolving the label writes the target there and leaves the
cursor where it was. A label is resolved once.
-/

namespace ScriptToolchain

/-- A label is known by its position among the labels of its function. -/
abbrev LabelId := Nat

/-- An open branch operand and, once resolved, its target. -/
structure Label where
  operandAt : UInt32
  target : Option UInt32 := none
deriving Repr, DecidableEq

/-- Misuse of a label. -/
inductive LabelError where
  | unknown (label : LabelId)
  | alreadyResolved (label : LabelId) (target : UInt32)
deriving Repr, DecidableEq

/-- The misuse in words. -/
def LabelError.message : LabelError → String
  | .unknown label => s!"unknown label {label}"
  | .alreadyResolved label target => s!"label {label} already resolved to {target}"

/-- The labels of one function, in the order they were reserved. -/
structure LabelTable where
  labels : Array Label := #[]
deriving Repr, DecidableEq

namespace LabelTable

/-- The number of labels. -/
def size (t : LabelTable) : Nat :=
  t.labels.size

/-- The number of labels without a target. -/
def unresolved (t : LabelTable) : Nat :=
  t.labels.countP (·.target.isNone)

/-- Emits a branch with an open target; its label is the next one. -/
def reserve (t : LabelTable) (e : Emitter) (op : Opcode) : LabelTable × Emitter :=
  let (operandAt, emitted) := (e.require op.isBranch).emitOpen op 0
  ({ labels := t.labels.push { operandAt } }, emitted)

/-- Fills in the target of a label. -/
def resolve (t : LabelTable) (e : Emitter) (label : LabelId) (target : UInt32) :
    Except LabelError (LabelTable × Emitter) :=
  match t.labels[label]? with
  | none => .error (.unknown label)
  | some { target := some first, .. } => .error (.alreadyResolved label first)
  | some { operandAt, target := none } =>
    .ok ({ labels := t.labels.setIfInBounds label { operandAt, target := some target } },
      e.patch operandAt target.toUInt64)

/-- Fills in the cursor as the target of a label. -/
def resolveHere (t : LabelTable) (e : Emitter) (label : LabelId) :
    Except LabelError (LabelTable × Emitter) :=
  t.resolve e label e.here

end LabelTable

end ScriptToolchain
