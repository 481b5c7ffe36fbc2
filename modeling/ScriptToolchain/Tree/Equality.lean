import ScriptToolchain.Tree.Node

/-!
# Equality of trees

`same` compares two trees node by node; it holds exactly of equal trees, which
makes their equality decidable.
-/

namespace ScriptToolchain.Node

mutual

/-- The trees agree in every node. -/
def same : Node → Node → Bool
  | .declaration m s n, .declaration m' s' n' => m = m' && s = s' && n = n'
  | .parameter m n, .parameter m' n' => m = m' && n = n'
  | .block m is, .block m' is' => m = m' && sameAll is is'
  | .ifElse m c t e, .ifElse m' c' t' e' => m = m' && same c c' && same t t' && sameOption e e'
  | .whileLoop m c b, .whileLoop m' c' b' => m = m' && same c c' && same b b'
  | .doLoop m b c, .doLoop m' b' c' => m = m' && same b b' && same c c'
  | .forLoop m i c s b, .forLoop m' i' c' s' b' =>
    m = m' && sameOption i i' && sameOption c c' && sameOption s s' && same b b'
  | .foreach m t k v b, .foreach m' t' k' v' b' =>
    m = m' && same t t' && k = k' && v = v' && same b b'
  | .breakLoop m, .breakLoop m' => m = m'
  | .continueLoop m, .continueLoop m' => m = m'
  | .ret m v, .ret m' v' => m = m' && sameOption v v'
  | .operation m o xs, .operation m' o' xs' => m = m' && o = o' && sameAll xs xs'
  | .constant m v, .constant m' v' => m = m' && v = v'
  | .identifier m n, .identifier m' n' => m = m' && n = n'
  | .call m c xs r, .call m' c' xs' r' =>
    m = m' && same c c' && sameAll xs xs' && sameOption r r'
  | .this m, .this m' => m = m'
  | .function m ps b, .function m' ps' b' => m = m' && sameAll ps ps' && same b b'
  | .table m fs, .table m' fs' => m = m' && sameAll fs fs'
  | _, _ => false

/-- `same` item by item. -/
def sameAll : List Node → List Node → Bool
  | [], [] => true
  | n :: rest, n' :: rest' => same n n' && sameAll rest rest'
  | _, _ => false

/-- `same` for trees that may be missing. -/
def sameOption : Option Node → Option Node → Bool
  | none, none => true
  | some n, some n' => same n n'
  | _, _ => false

end

mutual

theorem same_iff : (a b : Node) → (same a b = true ↔ a = b)
  | .declaration .., b => by cases b <;> simp [same, and_assoc]
  | .parameter .., b => by cases b <;> simp [same]
  | .block _ is, b => by cases b <;> simp [same, sameAll_iff is]
  | .ifElse _ c t e, b => by
    cases b <;> simp [same, same_iff c, same_iff t, sameOption_iff e, and_assoc]
  | .whileLoop _ c b, b' => by cases b' <;> simp [same, same_iff c, same_iff b, and_assoc]
  | .doLoop _ b c, b' => by cases b' <;> simp [same, same_iff c, same_iff b, and_assoc]
  | .forLoop _ i c s b, b' => by
    cases b' <;> simp [same, sameOption_iff i, sameOption_iff c, sameOption_iff s, same_iff b,
      and_assoc]
  | .foreach _ t _ _ b, b' => by cases b' <;> simp [same, same_iff t, same_iff b, and_assoc]
  | .breakLoop _, b => by cases b <;> simp [same]
  | .continueLoop _, b => by cases b <;> simp [same]
  | .ret _ v, b => by cases b <;> simp [same, sameOption_iff v]
  | .operation _ _ xs, b => by cases b <;> simp [same, sameAll_iff xs, and_assoc]
  | .constant .., b => by cases b <;> simp [same]
  | .identifier .., b => by cases b <;> simp [same]
  | .call _ c xs r, b => by
    cases b <;> simp [same, same_iff c, sameAll_iff xs, sameOption_iff r, and_assoc]
  | .this _, b => by cases b <;> simp [same]
  | .function _ ps b, b' => by cases b' <;> simp [same, sameAll_iff ps, same_iff b, and_assoc]
  | .table _ fs, b => by cases b <;> simp [same, sameAll_iff fs]

theorem sameAll_iff : (as bs : List Node) → (sameAll as bs = true ↔ as = bs)
  | [], bs => by cases bs <;> simp [sameAll]
  | a :: as, bs => by cases bs <;> simp [sameAll, same_iff a, sameAll_iff as]

theorem sameOption_iff : (a b : Option Node) → (sameOption a b = true ↔ a = b)
  | none, b => by cases b <;> simp [sameOption]
  | some a, b => by cases b <;> simp [sameOption, same_iff a]

end

instance : DecidableEq Node := fun a b =>
  decidable_of_iff (same a b = true) (same_iff a b)

end ScriptToolchain.Node
