import ScriptToolchain.Proofs.Grammar

/-!
# Trees of the right shape

A tree may be wrong in two ways: by what it says, and by its shape. The shape
is what a parser answers for: operators have all their operands, expressions
stand where expressions belong, and parameters stand with function literals.
-/

namespace ScriptToolchain.Node

/-- The nodes right below that stand as expressions. -/
def expressions : Node → List Node
  | .ifElse _ cond _ _ | .whileLoop _ cond _ | .doLoop _ _ cond => [cond]
  | .forLoop _ _ cond _ _ => cond.toList
  | .foreach _ collection _ _ _ => [collection]
  | .ret _ value => value.toList
  | .operation _ _ operands => operands
  | .call _ callee args receiver => receiver.toList ++ callee :: args
  | .table _ fields => fields
  | _ => []

/-- The nodes right below that stand as parameters. -/
def parameters : Node → List Node
  | .function _ params _ => params
  | _ => []

/-- An operation has as many operands as its operator asks for. -/
def HasArity : Node → Prop
  | .operation _ op operands => operands.length = op.arity
  | _ => True

/-- The nodes right below are of the kinds that belong there. -/
structure WellShaped (n : Node) : Prop where
  arity : n.HasArity
  expressions : ∀ e ∈ n.expressions, e.isExpression
  statements : ∀ s ∈ n.statements, s.parameter? = none
  parameters : ∀ p ∈ n.parameters, p.parameter?.isSome

/-- The shape is right at every place of the tree. -/
def Shaped (n : Node) : Prop :=
  ∀ m, n.Contains m → m.WellShaped

/-- The shape is right, and the tree itself is no parameter. -/
structure RightShape (n : Node) : Prop where
  root : n.parameter? = none
  nodes : n.Shaped

theorem Shaped.child {n m : Node} (h : n.Shaped) (hm : m ∈ n.children) : m.Shaped :=
  fun k hk => h k (.child hm hk)

/-! ## Deciding the shape -/

instance (n : Node) : Decidable n.HasArity := by
  unfold HasArity
  split <;> infer_instance

instance (n : Node) : Decidable n.WellShaped :=
  decidable_of_iff (n.HasArity ∧ (∀ e ∈ n.expressions, e.isExpression) ∧
    (∀ s ∈ n.statements, s.parameter? = none) ∧ ∀ p ∈ n.parameters, p.parameter?.isSome)
  ⟨fun ⟨ha, he, hs, hp⟩ => ⟨ha, he, hs, hp⟩, fun ⟨ha, he, hs, hp⟩ => ⟨ha, he, hs, hp⟩⟩

instance (n : Node) : Decidable n.Shaped :=
  decidable_of_iff (holdsDown (fun m => decide m.WellShaped) n.count n = true) <| by
  rw [holdsDown_iff (Nat.le_refl _)]
  simp only [decide_eq_true_eq]
  exact Iff.rfl

instance (n : Node) : Decidable n.RightShape :=
  decidable_of_iff (n.parameter? = none ∧ n.Shaped)
    ⟨fun ⟨hroot, hnodes⟩ => ⟨hroot, hnodes⟩, fun ⟨hroot, hnodes⟩ => ⟨hroot, hnodes⟩⟩

end ScriptToolchain.Node
