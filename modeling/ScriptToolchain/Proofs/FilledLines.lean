import ScriptToolchain.Proofs.Trees
import ScriptToolchain.Tree.Build

/-!
# Filled lines

A node is made of its form, its mark and its children, and a tree of what is
seen at its places when it is walked by children (`eq_of_places`). Filling goes
its own way over the nodes, and the walk finds it at every place
(`at?_fillLine`): the marks without a line have the new one, and nothing else
has changed. So there is one tree that is filled in this way (`Filled.unique`),
and laws of filling are laws of single marks (`fillLine_congr`).
-/

namespace ScriptToolchain

namespace Mark

@[simp]
theorem flags_fillLine (m : Mark) (line : UInt32) : (m.fillLine line).flags = m.flags := by
  unfold fillLine
  split <;> rfl

theorem line_fillLine (m : Mark) (line : UInt32) :
    (m.fillLine line).line = if m.line = 0 then line else m.line := by
  unfold fillLine
  split <;> rfl

theorem eq_of_line_flags {m m' : Mark} (hline : m.line = m'.line) (hflags : m.flags = m'.flags) :
    m = m' := by
  cases m
  cases m'
  cases hline
  cases hflags
  rfl

theorem fillLine_zero (m : Mark) : m.fillLine 0 = m := by
  apply eq_of_line_flags
  · rw [line_fillLine]
    split
    · next hzero => exact hzero.symm
    · rfl
  · exact m.flags_fillLine 0

/-- A line other than zero is not filled again. -/
theorem fillLine_fillLine {a : UInt32} (ha : a ≠ 0) (b : UInt32) (m : Mark) :
    (m.fillLine a).fillLine b = m.fillLine a := by
  apply eq_of_line_flags
  · have hne : (m.fillLine a).line ≠ 0 := by
      rw [line_fillLine]
      split
      · exact ha
      · next hline => exact hline
    rw [line_fillLine, if_neg hne]
  · rw [flags_fillLine]

end Mark

namespace Node

/-! ## Form, mark and children -/

/-- What a node is, with its names and constants, but without its mark and the nodes below it. -/
inductive Form where
  | declaration (storage : StorageClass) (name : String)
  | parameter (name : String)
  | block
  | ifElse
  | whileLoop
  | doLoop
  | forLoop (hasInit hasCond hasStep : Bool)
  | foreach (key : Option String) (value : String)
  | breakLoop
  | continueLoop
  | ret
  | operation (op : Operator)
  | constant (value : Constant)
  | identifier (name : String)
  | call (hasReceiver : Bool)
  | this
  | function
  | table
deriving Repr, DecidableEq

/-- The form of a node. -/
def form : Node → Form
  | .declaration _ storage name => .declaration storage name
  | .parameter _ name => .parameter name
  | .block .. => .block
  | .ifElse .. => .ifElse
  | .whileLoop .. => .whileLoop
  | .doLoop .. => .doLoop
  | .forLoop _ init cond step _ => .forLoop init.isSome cond.isSome step.isSome
  | .foreach _ _ key value _ => .foreach key value
  | .breakLoop _ => .breakLoop
  | .continueLoop _ => .continueLoop
  | .ret .. => .ret
  | .operation _ op _ => .operation op
  | .constant _ value => .constant value
  | .identifier _ name => .identifier name
  | .call _ _ _ receiver => .call receiver.isSome
  | .this _ => .this
  | .function .. => .function
  | .table .. => .table

/-- The first of some nodes, if there is to be one, and the others. -/
def takeIf : Bool → List Node → Option Node × List Node
  | true, n :: rest => (some n, rest)
  | _, rest => (none, rest)

theorem takeIf_isSome (o : Option Node) (rest : List Node) :
    takeIf o.isSome (o.toList ++ rest) = (o, rest) := by
  cases o <;> simp [takeIf]

/-- The node with this form, mark and children, if they go together. -/
def Form.node? (mark : Mark) : Form → List Node → Option Node
  | .declaration storage name, _ => some (.declaration mark storage name)
  | .parameter name, _ => some (.parameter mark name)
  | .block, items => some (.block mark items)
  | .ifElse, cond :: thenBranch :: rest => some (.ifElse mark cond thenBranch rest.head?)
  | .whileLoop, [cond, body] => some (.whileLoop mark cond body)
  | .doLoop, [body, cond] => some (.doLoop mark body cond)
  | .forLoop hasInit hasCond hasStep, nodes =>
    let (init, nodes) := takeIf hasInit nodes
    let (cond, nodes) := takeIf hasCond nodes
    let (step, nodes) := takeIf hasStep nodes
    nodes.head?.map (.forLoop mark init cond step)
  | .foreach key value, [collection, body] => some (.foreach mark collection key value body)
  | .breakLoop, _ => some (.breakLoop mark)
  | .continueLoop, _ => some (.continueLoop mark)
  | .ret, nodes => some (.ret mark nodes.head?)
  | .operation op, operands => some (.operation mark op operands)
  | .constant value, _ => some (.constant mark value)
  | .identifier name, _ => some (.identifier mark name)
  | .call hasReceiver, nodes =>
    let (receiver, nodes) := takeIf hasReceiver nodes
    nodes.head?.map fun callee => .call mark callee nodes.tail receiver
  | .this, _ => some (.this mark)
  | .function, nodes => nodes.getLast?.map (.function mark nodes.dropLast)
  | .table, fields => some (.table mark fields)
  | _, _ => none

/-- A node is put together again. -/
theorem node?_form (n : Node) : n.form.node? n.mark n.children = some n := by
  cases n with
  | ifElse m cond thenBranch elseBranch => cases elseBranch <;> rfl
  | ret m value => cases value <;> rfl
  | forLoop m init cond step body =>
    simp only [form, mark, children, Form.node?, List.append_assoc, takeIf_isSome,
      List.head?_cons, Option.map_some]
  | call m callee args receiver =>
    simp only [form, mark, children, Form.node?, takeIf_isSome, List.head?_cons, Option.map_some,
      List.tail_cons]
  | function m params body =>
    simp [form, mark, children, Form.node?]
  | _ => rfl

/-- Nodes with the same form, mark and children are the same. -/
theorem eq_of_parts {m n : Node} (hform : m.form = n.form) (hmark : m.mark = n.mark)
    (hchildren : m.children = n.children) : m = n := by
  apply Option.some.inj
  rw [← node?_form m, hform, hmark, hchildren, node?_form n]

/-- What is seen of a node at its place. -/
def face (n : Node) : Form × Mark :=
  (n.form, n.mark)

/-- Trees with the same nodes at all places are the same. -/
theorem eq_of_places {m n : Node} (h : ∀ path, (at? path m).map face = (at? path n).map face) :
    m = n := by
  induction m using induction_count generalizing n with
  | h m ih =>
    have hface : m.face = n.face := Option.some.inj (h [])
    refine eq_of_parts (congrArg Prod.fst hface) (congrArg Prod.snd hface) ?_
    -- by what is seen below each child, the children are the same one by one
    apply List.ext_getElem?
    intro i
    have hbelow : ∀ path, (m.children[i]?.bind (at? path)).map face =
        (n.children[i]?.bind (at? path)).map face := fun path => h (i :: path)
    cases hm : m.children[i]? with
    | none =>
      cases hn : n.children[i]? with
      | none => rfl
      | some d =>
        have hroot := hbelow []
        rw [hm, hn] at hroot
        cases hroot
    | some c =>
      cases hn : n.children[i]? with
      | none =>
        have hroot := hbelow []
        rw [hm, hn] at hroot
        cases hroot
      | some d =>
        rw [hm, hn] at hbelow
        rw [ih c (count_lt_of_mem_children (List.mem_of_getElem? hm)) hbelow]

/-! ## Filling -/

theorem fillLineAll_eq_map (line : UInt32) (ns : List Node) :
    fillLineAll line ns = ns.map (fillLine line) := by
  induction ns with
  | nil => rw [fillLineAll, List.map_nil]
  | cons n rest ih => rw [fillLineAll, List.map_cons, ih]

theorem fillLineOption_eq_map (line : UInt32) (o : Option Node) :
    fillLineOption line o = o.map (fillLine line) := by
  cases o <;> rw [fillLineOption] <;> rfl

theorem form_fillLine (line : UInt32) (n : Node) : (n.fillLine line).form = n.form := by
  cases n <;> simp [fillLine, form, fillLineOption_eq_map]

theorem mark_fillLine (line : UInt32) (n : Node) :
    (n.fillLine line).mark = n.mark.fillLine line := by
  cases n <;> rw [fillLine] <;> rfl

/-- The walk by children meets each node as it was filled. -/
theorem children_fillLine (line : UInt32) (n : Node) :
    (n.fillLine line).children = n.children.map (fillLine line) := by
  cases n <;>
    simp [fillLine, children, fillLineAll_eq_map, fillLineOption_eq_map, Option.toList_map]

theorem at?_fillLine (line : UInt32) (path : List Nat) (n : Node) :
    at? path (n.fillLine line) = (at? path n).map (fillLine line) := by
  induction path generalizing n with
  | nil => rfl
  | cons i path ih =>
    rw [at?, at?, children_fillLine, List.getElem?_map]
    cases n.children[i]? with
    | none => rfl
    | some c => exact ih c

/-- `n'` is `n` with `line` at all places without a line. -/
structure Filled (line : UInt32) (n n' : Node) : Prop where
  /-- Both trees have nodes at the same places. -/
  shape : ∀ path, (at? path n').isSome = (at? path n).isSome
  form : ∀ path m m', at? path n = some m → at? path n' = some m' → m'.form = m.form
  flags : ∀ path m m', at? path n = some m → at? path n' = some m' → m'.flags = m.flags
  kept : ∀ path m m', at? path n = some m → at? path n' = some m' → m.line ≠ 0 → m'.line = m.line
  filled : ∀ path m m', at? path n = some m → at? path n' = some m' → m.line = 0 → m'.line = line

theorem filled_fillLine (line : UInt32) (n : Node) : Filled line n (n.fillLine line) := by
  -- what stands at a place is what stood there, filled
  have hsame : ∀ path m m', at? path n = some m → at? path (n.fillLine line) = some m' →
      m' = m.fillLine line := by
    intro path m m' hm hm'
    rw [at?_fillLine, hm] at hm'
    exact (Option.some.inj hm').symm
  have hline : ∀ m : Node, (m.fillLine line).line = if m.line = 0 then line else m.line := by
    intro m
    unfold Node.line
    rw [mark_fillLine, Mark.line_fillLine]
  constructor
  case shape =>
    intro path
    rw [at?_fillLine, Option.isSome_map]
  case form =>
    intro path m m' hm hm'
    rw [hsame path m m' hm hm', form_fillLine]
  case flags =>
    intro path m m' hm hm'
    rw [hsame path m m' hm hm', Node.flags, mark_fillLine, Mark.flags_fillLine]
    rfl
  case kept =>
    intro path m m' hm hm' hne
    rw [hsame path m m' hm hm', hline, if_neg hne]
  case filled =>
    intro path m m' hm hm' hzero
    rw [hsame path m m' hm hm', hline, if_pos hzero]

/-- Nothing else is filled in this way: every place of it is known. -/
theorem Filled.unique {line : UInt32} {n n' n'' : Node} (h : Filled line n n')
    (h' : Filled line n n'') : n' = n'' := by
  apply eq_of_places
  intro path
  have hshape := (h.shape path).trans (h'.shape path).symm
  cases hm : at? path n with
  | none =>
    have hnone := h.shape path
    have hnone' := h'.shape path
    rw [hm, Option.isSome_none, Option.isSome_eq_false_iff, Option.isNone_iff_eq_none] at hnone hnone'
    rw [hnone, hnone']
  | some m =>
    obtain ⟨m', hm'⟩ := Option.isSome_iff_exists.mp ((h.shape path).trans (by rw [hm]; rfl))
    obtain ⟨m'', hm''⟩ := Option.isSome_iff_exists.mp ((h'.shape path).trans (by rw [hm]; rfl))
    have hform : m'.form = m''.form :=
      (h.form path m m' hm hm').trans (h'.form path m m'' hm hm'').symm
    have hflags : m'.flags = m''.flags :=
      (h.flags path m m' hm hm').trans (h'.flags path m m'' hm hm'').symm
    have hline : m'.line = m''.line := by
      by_cases hzero : m.line = 0
      · rw [h.filled path m m' hm hm' hzero, h'.filled path m m'' hm hm'' hzero]
      · rw [h.kept path m m' hm hm' hzero, h'.kept path m m'' hm hm'' hzero]
    rw [hm', hm'', Option.map_some, Option.map_some, face, face, hform,
      Mark.eq_of_line_flags hline hflags]

/-- A law of marks is one of trees: it is enough that all marks come out the same. -/
theorem fillLine_congr {line : UInt32} {n n' : Node}
    (hplace : ∀ path, (at? path n').map face =
      (at? path n).map fun m => (m.form, m.mark.fillLine line)) :
    n' = n.fillLine line := by
  apply eq_of_places
  intro path
  rw [hplace path, at?_fillLine, Option.map_map]
  congr 1
  funext m
  rw [Function.comp_apply, face, form_fillLine, mark_fillLine]

/--
Filling keeps the shape of a tree, what its nodes are and their flags, and every line that is there.
It sets all lines that are not there, at every place that is reached by children; one tree only is
filled in this way. So nothing changes when no line is filled in, or where one was filled in before.
-/
theorem fillLine_fills :
    (∀ line (n n' : Node), n.fillLine line = n' ↔ Filled line n n') ∧
    (∀ n : Node, n.fillLine 0 = n) ∧
    ∀ (n : Node) a b, a ≠ 0 → (n.fillLine a).fillLine b = n.fillLine a := by
  refine ⟨?_, ?_, ?_⟩
  · intro line n n'
    constructor
    · rintro rfl
      exact filled_fillLine line n
    · exact (filled_fillLine line n).unique
  · intro n
    symm
    apply fillLine_congr
    intro path
    simp only [Mark.fillLine_zero]
    rfl
  · intro n a b ha
    apply fillLine_congr
    intro path
    rw [at?_fillLine, at?_fillLine, Option.map_map, Option.map_map]
    congr 1
    funext m
    rw [Function.comp_apply, Function.comp_apply, face, form_fillLine, form_fillLine,
      mark_fillLine, mark_fillLine, Mark.fillLine_fillLine ha]

namespace Example

open Node.Build

/-- `a = b + 2`, in which only the constant has a line. -/
def sum : Node :=
  statement (assign (ident "a") (binary .add (ident "b") ((int 2).fillLine 7)))

end Example

open Example in
/-- The constant keeps its line, and what is filled first stays. -/
theorem fillLine_fills_sum :
    (3 : UInt32) ≠ 0 ∧ (sum.fillLine 3).fillLine 9 = sum.fillLine 3 ∧
      [[], [0], [1], [1, 0], [1, 1]].map (fun path => (at? path (sum.fillLine 3)).map line) =
        [some 3, some 3, some 3, some 3, some 7] :=
  ⟨by decide, fillLine_fills.2.2 sum 3 9 (by decide), by decide⟩

end Node

end ScriptToolchain
