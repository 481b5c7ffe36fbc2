import ScriptToolchain.Compile.Generate
import ScriptToolchain.Proofs.Trees

/-!
# Tours of a tree

A tour meets the nodes of a tree in the order in which they are lowered. A
function literal is entered before its body and left behind it, and nothing
else of its body is kept: what is met there belongs to another function. By
induction over the tree every literal is entered once and left once, at its own
place (`mem_entered`, `left_perm`), and the literals around it are left later
(`left_ordered`).
-/

namespace ScriptToolchain.Node

/-! ## Places -/

/-- A literal together with its place. -/
structure Occurrence where
  path : List Nat
  literal : Node

namespace Occurrence

/-- The place as seen from one node higher. -/
def below (i : Nat) (o : Occurrence) : Occurrence :=
  { o with path := i :: o.path }

/-- The first occurrence is the second one or stands around it. -/
def Encloses (o o' : Occurrence) : Prop :=
  o.path <+: o'.path

theorem encloses_below {i j : Nat} {o o' : Occurrence} :
    (o.below i).Encloses (o'.below j) ↔ i = j ∧ o.Encloses o' :=
  List.cons_prefix_cons

end Occurrence

/-! ## What is met -/

/-- What a tour of a function meets. -/
inductive Visit where
  /-- A node that is lowered for itself. -/
  | node (n : Node)
  /-- A node that is lowered as a part of the one above. -/
  | part (n : Node)
  /-- A literal, before its body. -/
  | enter (o : Occurrence)
  /-- A literal, behind its body. -/
  | leave (o : Occurrence)

namespace Visit

/-- The visit as seen from one node higher. -/
def below (i : Nat) : Visit → Visit
  | .enter o => .enter (o.below i)
  | .leave o => .leave (o.below i)
  | v => v

/-- The visit is one of a literal. -/
def isLiteral : Visit → Bool
  | .enter _ | .leave _ => true
  | _ => false

/-- The literal that is entered, if one is. -/
def entered : Visit → List Occurrence
  | .enter o => [o]
  | _ => []

/-- The literal that is left, if one is. -/
def left : Visit → List Occurrence
  | .leave o => [o]
  | _ => []

@[simp]
theorem entered_below (i : Nat) (v : Visit) :
    (v.below i).entered = v.entered.map (Occurrence.below i) := by
  cases v <;> rfl

@[simp]
theorem left_below (i : Nat) (v : Visit) :
    (v.below i).left = v.left.map (Occurrence.below i) := by
  cases v <;> rfl

/-- What is read off the visits of literals can do without the others. -/
theorem flatMap_isLiteral {α : Type} {f : Visit → List α} (h : ∀ v, v.isLiteral = false → f v = [])
    (vs : List Visit) : (vs.filter isLiteral).flatMap f = vs.flatMap f := by
  induction vs with
  | nil => rfl
  | cons v rest ih =>
    rw [List.filter_cons, List.flatMap_cons, ← ih]
    cases hv : v.isLiteral with
    | true => rfl
    | false => simp [h v hv]

end Visit

/-- The child at a position is lowered as a part of the node. -/
def isPart : Node → Nat → Node → Bool
  | .operation _ .dot _, i, _ => i = 1
  | .operation _ .assign _, i, _ | .operation _ .assignField _, i, _ => i = 0
  | .call _ _ _ none, i, m => i = 0 && Compile.Gen.operator? m = some .dot
  | .table _ _, _, m => Compile.Gen.operator? m = some .assignField
  | _, _, _ => false

/-- The nodes right below with their positions, in the order in which they are lowered. -/
def order : Node → List (Node × Nat)
  | .operation _ .dot [object, member] => [(member, 1), (object, 0)]
  | .forLoop _ init cond (some step) body =>
    let before := init.toList ++ cond.toList
    before.zipIdx ++ [(body, before.length + 1), (step, before.length)]
  | n => n.children.zipIdx

theorem order_perm (n : Node) : n.order.Perm n.children.zipIdx := by
  unfold order
  split
  · exact .swap ..
  · rename_i init cond step body
    have hzip : (init.toList ++ cond.toList ++ [step] ++ [body]).zipIdx =
        (init.toList ++ cond.toList).zipIdx ++
          [(step, (init.toList ++ cond.toList).length),
            (body, (init.toList ++ cond.toList).length + 1)] := by
      rw [List.append_assoc, List.zipIdx_append]
      simp
    show List.Perm _ (init.toList ++ cond.toList ++ [step] ++ [body]).zipIdx
    rw [hzip]
    exact (List.Perm.swap ..).append_left _
  · exact .refl _

theorem mem_order {n m : Node} {i : Nat} : (m, i) ∈ n.order ↔ n.children[i]? = some m := by
  rw [n.order_perm.mem_iff, List.mem_zipIdx_iff_getElem?]

theorem mem_children_of_order {n : Node} {x : Node × Nat} (h : x ∈ n.order) : x.1 ∈ n.children :=
  List.mem_of_getElem? (mem_order.mp h)

/-- The positions are distinct. -/
theorem order_distinct (n : Node) : n.order.Pairwise fun x y => x.2 ≠ y.2 := by
  have hzip : (n.children.zipIdx).Pairwise fun x y => x.2 ≠ y.2 := by
    rw [← List.pairwise_map (f := Prod.snd), List.zipIdx_map_snd]
    exact List.nodup_range'
  exact hzip.perm n.order_perm.symm fun h => h.symm

/-- The visit of a node, for itself or as a part of the one above. -/
def visit (part : Bool) (n : Node) : Visit :=
  if part then .part n else .node n

/-- The tour of a node, for itself or as a part of the one above. -/
def tour (part : Bool) (n : Node) : List Visit :=
  let below := n.order.attach.flatMap fun x =>
    (tour (n.isPart x.1.2 x.1.1) x.1.1).map (Visit.below x.1.2)
  n.visit part ::
    if n.isFunction then
      .enter ⟨[], n⟩ :: below.filter Visit.isLiteral ++ [.leave ⟨[], n⟩]
    else below
termination_by n.count
decreasing_by exact count_lt_of_mem_children (mem_children_of_order x.2)

/-- The tour of a node, as seen from the node right above. -/
def tourAt (part : Bool) (i : Nat) (n : Node) : List Visit :=
  (n.tour part).map (Visit.below i)

/-- The tours of nodes that stand side by side from a position on, some of them as parts. -/
def toursFrom (isPart : Node → Bool) (k : Nat) (ns : List Node) : List Visit :=
  (ns.zipIdx k).flatMap fun x => x.1.tourAt (isPart x.1) x.2

/-- The tour of a node that may be missing. -/
def tourOption (i : Nat) : Option Node → List Visit
  | none => []
  | some n => n.tourAt false i

/-- What is met below a node. -/
def tourBelow (n : Node) : List Visit :=
  n.order.flatMap fun x => x.1.tourAt (n.isPart x.2 x.1) x.2

theorem tour_eq (part : Bool) (n : Node) :
    n.tour part = n.visit part ::
      if n.isFunction then
        .enter ⟨[], n⟩ :: n.tourBelow.filter Visit.isLiteral ++ [.leave ⟨[], n⟩]
      else n.tourBelow := by
  rw [tour, tourBelow]
  simp only [List.flatMap_subtype, List.unattach_attach, tourAt]

/-! ## Below nodes of some kinds -/

theorem tourBelow_forLoop (m : Mark) (init cond step : Option Node) (body : Node) :
    ∃ i j k l, tourBelow (.forLoop m init cond step body) =
      tourOption i init ++ (tourOption j cond ++ (body.tourAt false k ++ tourOption l step)) := by
  refine ⟨0, init.toList.length, init.toList.length + cond.toList.length + step.toList.length,
    init.toList.length + cond.toList.length, ?_⟩
  cases init <;> cases cond <;> cases step <;>
    simp [tourBelow, order, children, isPart, tourOption]

theorem tourBelow_function (m : Mark) (params : List Node) (body : Node) :
    tourBelow (.function m params body) =
      toursFrom (fun _ => false) 0 params ++ body.tourAt false params.length := by
  have hzip : (params ++ [body]).zipIdx = params.zipIdx ++ [(body, params.length)] := by
    rw [List.zipIdx_append, Nat.zero_add]
    rfl
  show ((params ++ [body]).zipIdx.flatMap fun x => x.1.tourAt false x.2) = _
  rw [hzip, List.flatMap_append, List.flatMap_singleton]
  rfl

theorem tourBelow_call (m : Mark) (callee : Node) (args : List Node) :
    tourBelow (.call m callee args none) =
      callee.tourAt (Compile.Gen.operator? callee = some .dot) 0 ++
        toursFrom (fun _ => false) 1 args := by
  have hargs : ∀ x ∈ args.zipIdx 1, x.1.tourAt ((Node.call m callee args none).isPart x.2 x.1) x.2 =
      x.1.tourAt false x.2 := by
    intro x hx
    have hne : x.2 ≠ 0 := Nat.ne_of_gt (List.le_snd_of_mem_zipIdx hx)
    rw [isPart, decide_eq_false hne, Bool.false_and]
  rw [toursFrom, ← List.flatMap_congr hargs]
  rfl

/-! ## Literals -/

/-- The literals in the order in which they are entered. -/
def entered (vs : List Visit) : List Occurrence :=
  vs.flatMap Visit.entered

/-- The literals in the order in which they are left. -/
def left (vs : List Visit) : List Occurrence :=
  vs.flatMap Visit.left

/-- The node as a literal at the top, if it is one. -/
def here (n : Node) : List Occurrence :=
  if n.isFunction then [⟨[], n⟩] else []

theorem entered_cons (v : Visit) (vs : List Visit) : entered (v :: vs) = v.entered ++ entered vs :=
  List.flatMap_cons

theorem entered_append (vs ws : List Visit) : entered (vs ++ ws) = entered vs ++ entered ws :=
  List.flatMap_append

theorem entered_below (i : Nat) (vs : List Visit) :
    entered (vs.map (Visit.below i)) = (entered vs).map (Occurrence.below i) := by
  simp [entered, List.flatMap_map, List.map_flatMap]

theorem left_cons (v : Visit) (vs : List Visit) : left (v :: vs) = v.left ++ left vs :=
  List.flatMap_cons

theorem left_append (vs ws : List Visit) : left (vs ++ ws) = left vs ++ left ws :=
  List.flatMap_append

theorem left_below (i : Nat) (vs : List Visit) :
    left (vs.map (Visit.below i)) = (left vs).map (Occurrence.below i) := by
  simp [left, List.flatMap_map, List.map_flatMap]

theorem entered_isLiteral (vs : List Visit) : entered (vs.filter Visit.isLiteral) = entered vs :=
  Visit.flatMap_isLiteral (fun v hv => by cases v <;> first | rfl | cases hv) vs

theorem left_isLiteral (vs : List Visit) : left (vs.filter Visit.isLiteral) = left vs :=
  Visit.flatMap_isLiteral (fun v hv => by cases v <;> first | rfl | cases hv) vs

theorem entered_tour (part : Bool) (n : Node) :
    entered (n.tour part) = n.here ++ n.order.flatMap fun x =>
      (entered (x.1.tour (n.isPart x.2 x.1))).map (Occurrence.below x.2) := by
  have hbelow : entered n.tourBelow = n.order.flatMap fun x =>
      (entered (x.1.tour (n.isPart x.2 x.1))).map (Occurrence.below x.2) := by
    simp [tourBelow, tourAt, entered, List.flatMap_assoc, List.flatMap_map, List.map_flatMap]
  have hself : (n.visit part).entered = [] := by
    cases part <;> rfl
  rw [tour_eq, ← hbelow, entered_cons, hself, List.nil_append, here]
  split
  · rw [entered_append, entered_cons, entered_isLiteral]
    exact List.append_nil _
  · rfl

theorem left_tour (part : Bool) (n : Node) :
    left (n.tour part) = (n.order.flatMap fun x =>
      (left (x.1.tour (n.isPart x.2 x.1))).map (Occurrence.below x.2)) ++ n.here := by
  have hbelow : left n.tourBelow = n.order.flatMap fun x =>
      (left (x.1.tour (n.isPart x.2 x.1))).map (Occurrence.below x.2) := by
    simp [tourBelow, tourAt, left, List.flatMap_assoc, List.flatMap_map, List.map_flatMap]
  have hself : (n.visit part).left = [] := by
    cases part <;> rfl
  rw [tour_eq, ← hbelow, left_cons, hself, List.nil_append, here]
  split
  · rw [left_append, left_cons, left_isLiteral]
    rfl
  · exact (List.append_nil _).symm

/-- The literals of a tree at their places. -/
theorem mem_entered {part : Bool} {n : Node} {o : Occurrence} :
    o ∈ entered (n.tour part) ↔ n.at? o.path = some o.literal ∧ o.literal.isFunction = true := by
  induction n using induction_count generalizing part o with
  | h n ih =>
    obtain ⟨path, literal⟩ := o
    rw [entered_tour, List.mem_append, List.mem_flatMap]
    cases path with
    | nil =>
      -- only the node itself is at the top
      have hnone : ¬ ∃ x ∈ n.order, (⟨[], literal⟩ : Occurrence) ∈
          (entered (x.1.tour (n.isPart x.2 x.1))).map (Occurrence.below x.2) := by
        rintro ⟨x, -, hx⟩
        obtain ⟨o, -, ho⟩ := List.mem_map.mp hx
        cases ho
      rw [or_iff_left hnone, here, at?]
      split
      · next h => simp_all; grind
      · next h => simp_all; grind
    | cons i path =>
      have hhere : (⟨i :: path, literal⟩ : Occurrence) ∉ n.here := by
        unfold here
        split <;> simp
      rw [or_iff_right hhere, at?]
      constructor
      · rintro ⟨⟨m, j⟩, hm, ho⟩
        obtain ⟨⟨path', literal'⟩, ho', heq⟩ := List.mem_map.mp ho
        cases heq
        have hat := (ih m (count_lt_of_mem_children (mem_children_of_order hm))).mp ho'
        rw [mem_order.mp hm]
        exact hat
      · rintro ⟨hat, hfunction⟩
        obtain ⟨m, hm, hpath⟩ := Option.bind_eq_some_iff.mp hat
        have hlt := count_lt_of_mem_children (List.mem_of_getElem? hm)
        exact ⟨(m, i), mem_order.mpr hm, List.mem_map.mpr
          ⟨⟨path, literal⟩, (ih m hlt).mpr ⟨hpath, hfunction⟩, rfl⟩⟩

/-- Nothing below a node stands around the node. -/
theorem not_encloses_here {i : Nat} {n : Node} {o o' : Occurrence} (ho : o' ∈ n.here) :
    ¬ (o.below i).Encloses o' := by
  unfold here at ho
  split at ho
  · rw [List.mem_singleton.mp ho]
    exact fun h => List.cons_ne_nil _ _ (List.prefix_nil.mp h)
  · cases ho

/-- A literal is left behind those in it. -/
theorem left_ordered (part : Bool) (n : Node) :
    (left (n.tour part)).Pairwise fun o o' => ¬ o.Encloses o' := by
  induction n using induction_count generalizing part with
  | h n ih =>
    rw [left_tour, List.pairwise_append, List.pairwise_flatMap]
    refine ⟨⟨?_, ?_⟩, ?_, ?_⟩
    · intro x hx
      rw [List.pairwise_map]
      have hlt := count_lt_of_mem_children (mem_children_of_order hx)
      refine (ih x.1 hlt _).imp ?_
      intro o o' h h'
      exact h (Occurrence.encloses_below.mp h').2
    · refine n.order_distinct.imp ?_
      intro x y hne o ho o' ho' h
      obtain ⟨_, -, rfl⟩ := List.mem_map.mp ho
      obtain ⟨_, -, rfl⟩ := List.mem_map.mp ho'
      exact hne (Occurrence.encloses_below.mp h).1
    · unfold here
      split <;> simp
    · intro o ho o' ho' h
      obtain ⟨x, -, hx⟩ := List.mem_flatMap.mp ho
      obtain ⟨_, -, rfl⟩ := List.mem_map.mp hx
      exact not_encloses_here ho' h

/-- What is entered is left once. -/
theorem left_perm (part : Bool) (n : Node) : (left (n.tour part)).Perm (entered (n.tour part)) := by
  induction n using induction_count generalizing part with
  | h n ih =>
    rw [left_tour, entered_tour]
    refine List.perm_append_comm.trans (List.Perm.append_left _ (List.Perm.flatMap_left _ ?_))
    intro x hx
    exact (ih x.1 (count_lt_of_mem_children (mem_children_of_order hx)) _).map _

/-! ## Nodes of a function -/

/-- The second node is the first one or stands below it in the same function. -/
inductive Spans : Node → Node → Prop where
  | self (n : Node) : Spans n n
  | child {n m k : Node} (hn : n.isFunction = false) (hm : m ∈ n.children) (hk : Spans m k) :
    Spans n k

/-- What is met below a node that is no literal is met in the tour of the node. -/
theorem visit_mem_tour {n m k : Node} {i : Nat} {part : Bool} (as : Bool)
    (hn : n.isFunction = false) (hm : n.children[i]? = some m)
    (hk : k.visit as ∈ m.tour (n.isPart i m)) : k.visit as ∈ n.tour part := by
  rw [tour_eq, hn]
  refine List.mem_cons_of_mem _ (List.mem_flatMap.mpr ⟨(m, i), mem_order.mpr hm, ?_⟩)
  refine List.mem_map.mpr ⟨_, hk, ?_⟩
  cases as <;> rfl

/-- A node of a function is met for itself or as a part. -/
theorem Spans.met {n m : Node} (h : n.Spans m) (part : Bool) :
    ∃ as, m.visit as ∈ n.tour part := by
  induction h generalizing part with
  | self n =>
    refine ⟨part, ?_⟩
    rw [tour_eq]
    exact List.mem_cons_self ..
  | @child n m k hn hm hk ih =>
    obtain ⟨i, hi⟩ := List.mem_iff_getElem?.mp hm
    obtain ⟨as, hmet⟩ := ih (n.isPart i m)
    exact ⟨as, visit_mem_tour as hn hi hmet⟩

/-- What stands as a statement in a function is met for itself. -/
theorem Spans.met_statement {n m s : Node} (h : n.Spans m) (hm : m.isFunction = false)
    (hs : s ∈ m.statements) (part : Bool) : .node s ∈ n.tour part := by
  induction h generalizing part with
  | self n =>
    obtain ⟨i, hi⟩ := List.mem_iff_getElem?.mp (statements_subset hs)
    have hpart : n.isPart i s = false := by
      cases n <;> first | rfl | cases hs
    refine visit_mem_tour false hm hi ?_
    rw [hpart, tour_eq]
    exact List.mem_cons_self ..
  | @child n k _ hn hk _ ih =>
    obtain ⟨i, hi⟩ := List.mem_iff_getElem?.mp hk
    exact visit_mem_tour false hn hi (ih hm hs _)

/-- The body of a literal; any other node is a body itself. -/
def body : Node → Node
  | .function _ _ body => body
  | n => n

/-- The bodies of the functions of a unit, those of literals as they are left, the unit last. -/
def bodies (n : Node) : List Node :=
  (left (n.tour false)).map (·.literal.body) ++ [n]

/-! ## Lines -/

/-- The node marks its line when it is lowered for itself. -/
def isMarked : Node → Bool
  | .declaration .. | .parameter .. | .block .. => false
  | _ => true

/-- The line that is to be marked, if there is one. -/
def Visit.lines : Visit → List UInt32
  | .node n => if n.isMarked then [n.line] else []
  | _ => []

/-- The lines that a tour asks to mark, in order. -/
def lines (vs : List Visit) : List UInt32 :=
  vs.flatMap Visit.lines

theorem lines_append (vs ws : List Visit) : lines (vs ++ ws) = lines vs ++ lines ws :=
  List.flatMap_append

@[simp]
theorem Visit.lines_below (i : Nat) (v : Visit) : (v.below i).lines = v.lines := by
  cases v <;> rfl

theorem lines_below (i : Nat) (vs : List Visit) : lines (vs.map (Visit.below i)) = lines vs := by
  simp [lines, List.flatMap_map]

/-- The visits of literals ask to mark nothing. -/
theorem lines_isLiteral (vs : List Visit) : lines (vs.filter Visit.isLiteral) = [] := by
  refine List.flatMap_eq_nil_iff.mpr fun v hv => ?_
  have hliteral := (List.mem_filter.mp hv).2
  cases v <;> first | rfl | cases hliteral

theorem mem_lines {vs : List Visit} {n : Node} (h : .node n ∈ vs) (hn : n.isMarked = true) :
    n.line ∈ lines vs := by
  refine List.mem_flatMap.mpr ⟨_, h, ?_⟩
  rw [Visit.lines, if_pos hn]
  exact List.mem_singleton_self _

end ScriptToolchain.Node
