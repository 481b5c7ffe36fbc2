import Mathlib.Tactic
import ScriptToolchain.Tree.Node

/-!
# Nodes below a node

A tree is walked by the number of its nodes: whatever stands below a node has
fewer, also where a recursion passes over a level. `Node.Contains` reaches all
nodes of a tree, for conditions that hold at every place of it.
-/

namespace ScriptToolchain.Node

theorem countAll_eq_sum (l : List Node) : countAll l = (l.map count).sum := by
  induction l with
  | nil => rfl
  | cons n rest ih => rw [countAll, List.map_cons, List.sum_cons, ih]

@[simp]
theorem countAll_append (l rest : List Node) :
    countAll (l ++ rest) = countAll l + countAll rest := by
  simp only [countAll_eq_sum, List.map_append, List.sum_append]

@[simp]
theorem countAll_toList (o : Option Node) : countAll o.toList = countOption o := by
  cases o <;> simp [countAll, countOption]

/-- A node counts one more than the nodes right below it. -/
theorem count_eq (n : Node) : n.count = 1 + countAll n.children := by
  cases n <;> simp [count, children, countAll, Nat.add_assoc]

/-- A node below another one has fewer nodes. -/
theorem count_lt_of_mem_children {m n : Node} (h : m ∈ n.children) : m.count < n.count := by
  have hle : m.count ≤ (n.children.map count).sum := List.le_sum_of_mem (List.mem_map_of_mem h)
  rw [n.count_eq, countAll_eq_sum]
  omega

/-- Induction over a tree: the smaller trees are all at hand. -/
theorem induction_count {P : Node → Prop} (h : ∀ n, (∀ m, m.count < n.count → P m) → P n)
    (n : Node) : P n := by
  have hall : ∀ k, ∀ m : Node, m.count < k → P m := by
    intro k
    induction k with
    | zero => exact fun m hm => absurd hm (Nat.not_lt_zero _)
    | succ k ih => exact fun m hm => h m fun l hl => ih l (by omega)
  exact hall _ n (Nat.lt_succ_self _)

/-- Induction over a tree: what holds right below a node, and right below that, is at hand. -/
theorem induction_below {P : Node → Prop}
    (h : ∀ n, (∀ ⦃m⦄, m ∈ n.children → P m) → (∀ m ∈ n.children, ∀ k ∈ m.children, P k) → P n)
    (n : Node) : P n := by
  induction n using induction_count with
  | h n ih =>
    refine h n (fun m hm => ih m (count_lt_of_mem_children hm)) fun m hm k hk => ?_
    exact ih k (Nat.lt_trans (count_lt_of_mem_children hk) (count_lt_of_mem_children hm))

/-- The second node is the first one or stands below it. -/
inductive Contains : Node → Node → Prop where
  | self (n : Node) : Contains n n
  | child {n m k : Node} (h : m ∈ n.children) (hk : Contains m k) : Contains n k

/-- The node at a path: positions among the nodes right below, from the root on. -/
def at? : List Nat → Node → Option Node
  | [], n => some n
  | i :: path, n => n.children[i]?.bind (at? path)

/-- The condition holds for the node and for those up to `k` levels below it. -/
def holdsDown (p : Node → Bool) : Nat → Node → Bool
  | 0, _ => true
  | k + 1, n => p n && n.children.all (holdsDown p k)

theorem one_le_count (n : Node) : 1 ≤ n.count :=
  n.count_eq ▸ Nat.le_add_right ..

/-- As many levels as there are nodes are all levels. -/
theorem holdsDown_iff {p : Node → Bool} {k : Nat} {n : Node} (hk : n.count ≤ k) :
    holdsDown p k n ↔ ∀ m, n.Contains m → p m := by
  induction k generalizing n with
  | zero => exact absurd (Nat.le_trans n.one_le_count hk) (by decide)
  | succ k ih =>
    rw [holdsDown, Bool.and_eq_true, List.all_eq_true]
    have hbelow {m : Node} (hm : m ∈ n.children) : m.count ≤ k := by
      have := count_lt_of_mem_children hm
      omega
    constructor
    · rintro ⟨hn, hall⟩ m (_ | ⟨hm, hk⟩)
      · exact hn
      · exact (ih (hbelow hm)).mp (hall _ hm) _ hk
    · intro h
      exact ⟨h n (.self n), fun m hm => (ih (hbelow hm)).mpr fun k hk => h k (.child hm hk)⟩

/-! ## Statements -/

/-- The nodes right below that stand as statements. -/
def statements : Node → List Node
  | .block _ items => items
  | .ifElse _ _ thenBranch elseBranch => thenBranch :: elseBranch.toList
  | .whileLoop _ _ body | .doLoop _ body _ | .foreach _ _ _ _ body | .function _ _ body => [body]
  | .forLoop _ init _ step body => init.toList ++ step.toList ++ [body]
  | _ => []

theorem statements_subset {n s : Node} (h : s ∈ n.statements) : s ∈ n.children := by
  cases n <;> simp only [statements, children, List.not_mem_nil] at h ⊢ <;> grind

/-- The node has a value. -/
def isExpression : Node → Bool
  | .operation .. | .constant .. | .identifier .. | .call .. | .this .. | .function .. | .table .. =>
    true
  | _ => false

/-- As a statement, the node is an assignment, or its value, if it has one, is dropped. -/
def Discards : Node → Prop
  | .operation _ .assign _ => True
  | n => n.isExpression → n.flags.contains .popResult

theorem Discards.popResult {n : Node} (h : n.Discards) (he : n.isExpression)
    (hne : ∀ m operands, n ≠ .operation m .assign operands) : n.flags.contains .popResult := by
  unfold Discards at h
  split at h
  · exact absurd rfl (hne _ _)
  · exact h he

/-- Every expression of the tree that stands as a statement and is no assignment is dropped. -/
structure Popped (n : Node) : Prop where
  self : n.Discards
  below : ∀ {m s}, n.Contains m → s ∈ m.statements → s.Discards

/-- The numbers of parameters of all function literals of the tree. -/
def ParamsFit (fit : Nat → Prop) (n : Node) : Prop :=
  ∀ {mark params body}, n.Contains (.function mark params body) → fit params.length

/-! ## Deciding conditions on a tree -/

instance (n : Node) : Decidable n.Discards := by
  unfold Discards
  split <;> infer_instance

instance (fit : Nat → Prop) [DecidablePred fit] (n : Node) : Decidable (n.ParamsFit fit) :=
  decidable_of_iff (holdsDown (fun
    | .function _ params _ => fit params.length
    | _ => true) n.count n = true) <| by
  rw [holdsDown_iff (Nat.le_refl _)]
  constructor
  · intro h mark params body hm
    exact of_decide_eq_true (h _ hm)
  · intro h m hm
    split
    · exact decide_eq_true (h hm)
    · rfl

instance (n : Node) : Decidable n.Popped :=
  decidable_of_iff (n.Discards ∧
    holdsDown (fun m => m.statements.all fun s => decide s.Discards) n.count n = true) <| by
  rw [holdsDown_iff (Nat.le_refl _)]
  simp only [List.all_eq_true, decide_eq_true_eq]
  exact ⟨fun h => ⟨h.1, fun hm hs => h.2 _ hm _ hs⟩, fun h => ⟨h.self, fun _ hm _ hs => h.below hm hs⟩⟩

end ScriptToolchain.Node
