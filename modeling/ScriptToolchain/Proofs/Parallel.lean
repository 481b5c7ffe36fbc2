import ScriptToolchain.Proofs.Forms
import ScriptToolchain.Proofs.Plans

/-!
# Lowering for two hosts

Nothing that lowering decides depends on the ids that a host gives out: they
only stand in the code. So a unit takes the same course with any two hosts, and
what they may differ in before it they may differ in behind it. `Parallel` says
so of a step; the induction over the tree follows the recursion of lowering.
-/

namespace ScriptToolchain.Compile

/-- Hosts that are asked the same stay related, whatever they answer. -/
structure Indifferent {σ₁ σ₂ : Type} [Host σ₁] [Host σ₂] (H : σ₁ → σ₂ → Prop) : Prop where
  functionId : ∀ {a b}, H a b → H (Host.functionId a).2 (Host.functionId b).2
  symbolId : ∀ {a b} (name : String), H a b →
    H (Host.symbolId name a).2 (Host.symbolId name b).2
  stringId : ∀ {a b} (text : String), H a b →
    H (Host.stringId text a).2 (Host.stringId text b).2

variable {σ₁ σ₂ α α' β β' : Type}

/-- Two scopes differ in their hosts and functions at most. -/
structure Scope.Beside (H : σ₁ → σ₂ → Prop) (c : Scope σ₁) (c' : Scope σ₂) : Prop where
  host : H c.host c'.host
  names : c.names = c'.names
  line : c.line = c'.line
  reports : c.reports = c'.reports

/-- Two steps have succeeded alike, with values related by `R`, or have both given up. -/
inductive Lowered.Beside (H : σ₁ → σ₂ → Prop) (R : α → α' → Prop) :
    Lowered σ₁ α → Lowered σ₂ α' → Prop
  | ok {a : α} {a' : α'} {code code' : Block} {c : Scope σ₁} {c' : Scope σ₂} :
    R a a' → c.Beside H c' → Lowered.Beside H R (.ok a code c) (.ok a' code' c')
  | error {c : Scope σ₁} {c' : Scope σ₂} :
    H c.host c'.host → c.reports = c'.reports → Lowered.Beside H R (.error c) (.error c')

/-- Two steps take the same course from scopes that differ in their hosts and functions. -/
def Parallel (H : σ₁ → σ₂ → Prop) (R : α → α' → Prop) (l : Lowering σ₁ α) (l' : Lowering σ₂ α') :
    Prop :=
  ∀ c c', c.Beside H c' → (l c).Beside H R (l' c')

variable {H : σ₁ → σ₂ → Prop} {R : α → α' → Prop} {S : β → β' → Prop}

namespace Parallel

theorem pure {a : α} {a' : α'} (h : R a a') :
    Parallel H R (Pure.pure a : Lowering σ₁ α) (Pure.pure a') :=
  fun _ _ hc => .ok h hc

theorem done : Parallel H Eq (Pure.pure () : Lowering σ₁ Unit) (Pure.pure ()) :=
  pure rfl

theorem bind {l : Lowering σ₁ α} {l' : Lowering σ₂ α'} {f : α → Lowering σ₁ β}
    {f' : α' → Lowering σ₂ β'} (h : Parallel H R l l')
    (hf : ∀ a a', R a a' → Parallel H S (f a) (f' a')) : Parallel H S (l >>= f) (l' >>= f') := by
  intro c c' hc
  have hfirst := h c c' hc
  simp only [Bind.bind]
  generalize l c = r at hfirst
  generalize l' c' = r' at hfirst
  cases hfirst with
  | error hhost hreports => exact .error hhost hreports
  | ok ha hc₁ =>
    rename_i a a' code code' c₁ c₁'
    have hsecond := hf a a' ha c₁ c₁' hc₁
    simp only
    generalize f a c₁ = r at hsecond
    generalize f' a' c₁' = r' at hsecond
    cases hsecond with
    | ok hb hc₂ => exact .ok hb hc₂
    | error hhost hreports => exact .error hhost hreports

/-- Steps behind equal values. -/
theorem next {l : Lowering σ₁ α} {l' : Lowering σ₂ α} {f : α → Lowering σ₁ β}
    {f' : α → Lowering σ₂ β'} (h : Parallel H Eq l l')
    (hf : ∀ a, Parallel H S (f a) (f' a)) : Parallel H S (l >>= f) (l' >>= f') := by
  refine h.bind fun a a' ha => ?_
  rw [← ha]
  exact hf a

theorem fail (line : UInt32) (f : Finding) :
    Parallel H R (Lowering.fail line f : Lowering σ₁ α) (Lowering.fail line f) :=
  fun _ _ hc => .error hc.host (congrArg (f.report line :: ·) hc.reports)

theorem report (line : UInt32) (f : Finding) :
    Parallel H Eq (Lowering.report line f : Lowering σ₁ Unit) (Lowering.report line f) :=
  fun _ _ hc => .ok rfl ⟨hc.host, hc.names, hc.line, congrArg (f.report line :: ·) hc.reports⟩

/-- The code does not matter. -/
theorem put (b b' : Block) :
    Parallel H Eq (Lowering.put b : Lowering σ₁ Unit) (Lowering.put b') :=
  fun _ _ hc => .ok rfl hc

theorem emit (op : Opcode) :
    Parallel H Eq (Lowering.emit op : Lowering σ₁ Unit) (Lowering.emit op) :=
  put _ _

theorem pushInt (v : Int32) :
    Parallel H Eq (Lowering.pushInt v : Lowering σ₁ Unit) (Lowering.pushInt v) :=
  put _ _

theorem table : Parallel H Eq (Lowering.table : Lowering σ₁ VariableTable) Lowering.table :=
  fun _ _ hc => .ok hc.names hc

theorem names (f : VariableTable → α × VariableTable) :
    Parallel H Eq (Lowering.names f : Lowering σ₁ α) (Lowering.names f) :=
  fun _ _ hc => .ok (congrArg (fun t => (f t).1) hc.names)
    ⟨hc.host, congrArg (fun t => (f t).2) hc.names, hc.line, hc.reports⟩

/-- The answers of the hosts may differ. -/
theorem ask {f : σ₁ → α × σ₁} {f' : σ₂ → α' × σ₂} (h : ∀ {a b}, H a b → H (f a).2 (f' b).2) :
    Parallel H (fun _ _ => True) (Lowering.ask f) (Lowering.ask f') :=
  fun _ _ hc => .ok trivial ⟨h hc.host, hc.names, hc.line, hc.reports⟩

theorem markLine (line : UInt32) :
    Parallel H Eq (Lowering.markLine line : Lowering σ₁ Unit) (Lowering.markLine line) := by
  intro c c' hc
  rw [Lowering.markLine, Lowering.markLine, hc.line]
  split
  · exact .ok rfl ⟨hc.host, hc.names, rfl, hc.reports⟩
  · exact .ok rfl hc

/-! ## Shapes of blocks -/

theorem captured {l : Lowering σ₁ Unit} {l' : Lowering σ₂ Unit} (h : Parallel H Eq l l') :
    Parallel H (fun _ _ => True) (Lowering.captured l) (Lowering.captured l') := by
  intro c c' hc
  have hrun := h c c' hc
  rw [Lowering.captured, Lowering.captured]
  generalize l c = r at hrun
  generalize l' c' = r' at hrun
  cases hrun with
  | ok _ hc => exact .ok trivial hc
  | error hhost hreports => exact .error hhost hreports

variable {body tail : Lowering σ₁ Unit} {body' tail' : Lowering σ₂ Unit}

theorem skip (op : Opcode) (h : Parallel H Eq body body') :
    Parallel H Eq (Lowering.skip op body) (Lowering.skip op body') :=
  h.captured.bind fun _ _ _ => put _ _

theorem either (h : Parallel H Eq body body') (h' : Parallel H Eq tail tail') :
    Parallel H Eq (Lowering.either body tail) (Lowering.either body' tail') :=
  h.captured.bind fun _ _ _ => h'.captured.bind fun _ _ _ => put _ _

theorem tested (h : Parallel H Eq body body') (h' : Parallel H Eq tail tail') :
    Parallel H Eq (Lowering.tested body tail) (Lowering.tested body' tail') :=
  h.next fun _ => (put _ _).next fun _ => h'

theorem loop (back : Opcode) (resume : Resume) (h : Parallel H Eq body body')
    (h' : Parallel H Eq tail tail') :
    Parallel H Eq (Lowering.loop body tail back resume) (Lowering.loop body' tail' back resume) :=
  h.captured.bind fun _ _ _ => h'.captured.bind fun _ _ _ => put _ _

theorem jump (inLoop : Bool) (j : Jump) (line : UInt32) :
    Parallel H Eq (Lowering.jump inLoop j line : Lowering σ₁ Unit)
      (Lowering.jump inLoop j line) := by
  unfold Lowering.jump
  split
  · exact put _ _
  · exact fail line _

/-! ## Parts of nodes -/

theorem asStatement (role : Role) (line : UInt32) (h : Parallel H Eq body body') :
    Parallel H Eq (Lowering.asStatement role line body) (Lowering.asStatement role line body') := by
  cases role with
  | statement => exact h
  | value name => exact fail line .notAnExpression

theorem asValue {l : Option String → Lowering σ₁ Unit} {l' : Option String → Lowering σ₂ Unit}
    (role : Role) (m : Mark) (h : ∀ name, Parallel H Eq (l name) (l' name)) :
    Parallel H Eq (Lowering.asValue role m l) (Lowering.asValue role m l') := by
  refine (markLine m.line).next fun _ => ?_
  cases role with
  | value name => exact h name
  | statement =>
    refine (h none).next fun _ => ?_
    show Parallel _ _ (if _ then _ else _) (if _ then _ else _)
    split
    · exact emit .pop
    · exact done

theorem declare (m : Mark) (storage : StorageClass) (name : String) :
    Parallel H Eq (Lowering.declare m storage name : Lowering σ₁ Unit)
      (Lowering.declare m storage name) := by
  refine (names _).next fun a => ?_
  cases a with
  | conflict kept requested => exact report m.line _
  | new => exact done
  | again => exact done

theorem foreachSlot (name : String) (line : UInt32) :
    Parallel H Eq (Lowering.foreachSlot name line : Lowering σ₁ UInt16)
      (Lowering.foreachSlot name line) := by
  refine (names _).next fun a => ?_
  cases a with
  | none => exact fail line _
  | some slot =>
    show Parallel _ _ (if _ then _ else _) (if _ then _ else _)
    split
    · exact pure rfl
    · exact fail line _

theorem declareParameters (line : UInt32) (params : List Node) :
    Parallel H Eq (Lowering.declareParameters line params : Lowering σ₁ Unit)
      (Lowering.declareParameters line params) := by
  induction params with
  | nil => exact done
  | cons n rest ih =>
    cases n with
    | parameter m name =>
      refine (names _).next fun a => ?_
      cases a with
      | none => exact fail _ _
      | some slot => exact ih
    | _ => exact fail _ _

theorem memberName (line : UInt32) (member : Node) :
    Parallel H Eq (Lowering.memberName line member : Lowering σ₁ String)
      (Lowering.memberName line member) := by
  unfold Lowering.memberName
  cases member.identifier? with
  | some name => exact pure rfl
  | none => exact fail line _

theorem emitCall (count : Nat) (line : UInt32) :
    Parallel H Eq (Lowering.emitCall count line : Lowering σ₁ Unit)
      (Lowering.emitCall count line) := by
  unfold Lowering.emitCall
  split
  · exact put _ _
  · exact fail line _

theorem pushReceiver (policy : ReceiverPolicy) (callee : Node) :
    Parallel H Eq (Lowering.pushReceiver policy callee : Lowering σ₁ Unit)
      (Lowering.pushReceiver policy callee) := by
  unfold Lowering.pushReceiver
  cases policy with
  | currentThis => exact emit .pushThis
  | memberOnly =>
    refine table.next fun t => ?_
    show Parallel _ _ (if _ then _ else _) (if _ then _ else _)
    split
    · exact emit .pushThis
    · exact emit .pushNull

variable [Host σ₁] [Host σ₂]

/-- A function is lowered without the names around it, whatever its id. -/
theorem function (hH : Indifferent H) (name : Option String) (h : Parallel H Eq body body') :
    Parallel H Eq (Lowering.function name body) (Lowering.function name body') := by
  refine (ask hH.functionId).bind fun id id' _ => ?_
  intro c c' hc
  have hrun := h { c with names := {}, line := 0 } { c' with names := {}, line := 0 }
    ⟨hc.host, rfl, rfl, hc.reports⟩
  dsimp only at hrun ⊢
  generalize body _ = r at hrun ⊢
  generalize body' _ = r' at hrun ⊢
  cases hrun with
  | ok _ hc₁ => exact .ok rfl ⟨hc₁.host, hc.names, hc.line, hc₁.reports⟩
  | error hhost hreports => exact .error hhost hreports

theorem emitSymbol (hH : Indifferent H) (op : Opcode) (name : String) :
    Parallel H Eq (Lowering.emitSymbol op name : Lowering σ₁ Unit)
      (Lowering.emitSymbol op name) :=
  (ask (hH.symbolId name)).bind fun _ _ _ => put _ _

theorem pushConstant (hH : Indifferent H) (v : Constant) :
    Parallel H Eq (Lowering.pushConstant v : Lowering σ₁ Unit) (Lowering.pushConstant v) := by
  cases v with
  | null => exact emit .pushNull
  | int v => exact pushInt v
  | float bits => exact put _ _
  | str s => exact (ask (hH.stringId s)).bind fun _ _ _ => put _ _

theorem pushVariable (hH : Indifferent H) (m : Mark) (name : String) :
    Parallel H Eq (Lowering.pushVariable m name : Lowering σ₁ Unit)
      (Lowering.pushVariable m name) := by
  refine (names _).next fun a => ?_
  rcases a with _ | (n | _ | _)
  · exact emitSymbol hH _ name
  · exact put _ _
  · exact emitSymbol hH _ name
  · exact emitSymbol hH _ name

theorem storeVariable (hH : Indifferent H) (name : String) (isMember : Bool) (line : UInt32) :
    Parallel H Eq (Lowering.storeVariable name isMember line : Lowering σ₁ Unit)
      (Lowering.storeVariable name isMember line) := by
  refine (names _).next fun a => ?_
  rcases a with _ | (n | _ | _)
  · show Parallel _ _ (if _ then _ else _) (if _ then _ else _)
    split
    · exact emitSymbol hH _ name
    · refine (names _).next fun a => ?_
      cases a with
      | none => exact fail line _
      | some n => exact put _ _
  · exact put _ _
  · exact emitSymbol hH _ name
  · exact emitSymbol hH _ name

theorem store (hH : Indifferent H) (line : UInt32) (p : Place) :
    Parallel H Eq (Lowering.store line p : Lowering σ₁ Unit) (Lowering.store line p) := by
  rcases p with name | _ | ⟨name, isMember⟩
  · exact emitSymbol hH .setDot name
  · exact emit .setIndex
  · exact storeVariable hH name isMember line

end Parallel

/-! ## Nodes -/

variable [Host σ₁] [Host σ₂] {policy : ReceiverPolicy}

/-- Lowering the node takes the same course, in every role. -/
def Impartial (H : σ₁ → σ₂ → Prop) (policy : ReceiverPolicy) (n : Node) : Prop :=
  ∀ inLoop role, Parallel H Eq (Lowering.node policy inLoop role n)
    (Lowering.node policy inLoop role n)

open Parallel

theorem parallel_statements {items : List Node} (h : ∀ m ∈ items, Impartial H policy m)
    (inLoop : Bool) :
    Parallel H Eq (Lowering.statements policy inLoop items)
      (Lowering.statements policy inLoop items) := by
  induction items with
  | nil =>
    rw [Lowering.statements, Lowering.statements]
    exact done
  | cons n rest ih =>
    rw [Lowering.statements, Lowering.statements]
    exact (h n List.mem_cons_self inLoop .statement).next fun _ =>
      ih fun m hm => h m (List.mem_cons_of_mem _ hm)

theorem parallel_arguments {args : List Node} (h : ∀ m ∈ args, Impartial H policy m)
    (inLoop : Bool) :
    Parallel H Eq (Lowering.arguments policy inLoop args)
      (Lowering.arguments policy inLoop args) := by
  induction args with
  | nil =>
    rw [Lowering.arguments, Lowering.arguments]
    exact done
  | cons n rest ih =>
    rw [Lowering.arguments, Lowering.arguments]
    exact (h n List.mem_cons_self inLoop (.value none)).next fun _ =>
      ih fun m hm => h m (List.mem_cons_of_mem _ hm)

theorem parallel_place {n : Node} (h : ∀ m ∈ n.children, Impartial H policy m) (inLoop : Bool)
    (line : UInt32) :
    Parallel H Eq (Lowering.place policy inLoop line n) (Lowering.place policy inLoop line n) := by
  cases placeForm n with
  | field m object member =>
    rw [Lowering.place_field, Lowering.place_field]
    exact (memberName line member).next fun name =>
      (h object (by simp [Node.children]) inLoop _).next fun _ => pure rfl
  | element m object key =>
    rw [Lowering.place_element, Lowering.place_element]
    exact (h object (by simp [Node.children]) inLoop _).next fun _ =>
      (h key (by simp [Node.children]) inLoop _).next fun _ => pure rfl
  | name m name =>
    rw [Lowering.place_name, Lowering.place_name]
    exact pure rfl
  | refused f hrefused =>
    rw [hrefused, hrefused]
    exact fail line f

theorem parallel_method (hH : Indifferent H) {n : Node}
    (h : ∀ m ∈ n.children, Impartial H policy m) (inLoop : Bool) (line : UInt32) :
    Parallel H Eq (Lowering.method policy inLoop line n)
      (Lowering.method policy inLoop line n) := by
  cases methodForm n with
  | dot m op object member =>
    rw [Lowering.method_dot, Lowering.method_dot]
    exact (memberName line member).next fun name =>
      (h object (by simp [Node.children]) inLoop _).next fun _ =>
        (emit .dup).next fun _ => emitSymbol hH .getDot name
  | refused f hrefused =>
    rw [hrefused, hrefused]
    exact fail line f

theorem parallel_keyedField (hH : Indifferent H) {n : Node}
    (h : ∀ m ∈ n.children, Impartial H policy m) (inLoop : Bool) (line : UInt32) :
    Parallel H Eq (Lowering.keyedField policy inLoop line n)
      (Lowering.keyedField policy inLoop line n) := by
  cases keyedForm n with
  | named m op key value hname =>
    rw [Lowering.keyedField_named op value hname, Lowering.keyedField_named op value hname]
    exact (h value (by simp [Node.children]) inLoop _).next fun _ => emitSymbol hH .setDot _
  | refused f hrefused =>
    rw [hrefused, hrefused]
    exact fail _ f

theorem parallel_tableFields (hH : Indifferent H) {fields : List Node}
    (h : ∀ m ∈ fields, Impartial H policy m)
    (hbelow : ∀ m ∈ fields, ∀ k ∈ m.children, Impartial H policy k) (inLoop : Bool)
    (line : UInt32) (position : Int32) :
    Parallel H Eq (Lowering.tableFields policy inLoop line position fields)
      (Lowering.tableFields policy inLoop line position fields) := by
  induction fields generalizing position with
  | nil =>
    rw [Lowering.tableFields, Lowering.tableFields]
    exact done
  | cons n rest ih =>
    have hrest := ih (fun m hm => h m (List.mem_cons_of_mem _ hm))
      fun m hm => hbelow m (List.mem_cons_of_mem _ hm)
    rw [Lowering.tableFields, Lowering.tableFields]
    refine (emit .dup).next fun _ => ?_
    split
    · exact (parallel_keyedField hH (hbelow n List.mem_cons_self) inLoop line).next fun _ =>
        hrest position
    · exact (pushInt position).next fun _ =>
        (h n List.mem_cons_self inLoop (.value none)).next fun _ =>
          (emit .setIndex).next fun _ => hrest (position + 1)

theorem parallel_operate (hH : Indifferent H) {op : Operator} {operands : List Node}
    (h : ∀ k ∈ operands, Impartial H policy k) (inLoop : Bool) (line : UInt32) :
    Parallel H Eq (Lowering.operate policy inLoop line op operands)
      (Lowering.operate policy inLoop line op operands) := by
  cases operationForm op operands with
  | refused hrefused =>
    rw [Lowering.operate_refused hrefused, Lowering.operate_refused hrefused]
    exact fail line _
  | dot object member =>
    exact (memberName line member).next fun name =>
      (h object (by simp) inLoop _).next fun _ => emitSymbol hH .getDot name
  | binary hop harity left right =>
    rw [Lowering.operate_binary hop harity, Lowering.operate_binary hop harity]
    refine (h left (by simp) inLoop _).next fun _ => ?_
    have hright := h right (by simp) inLoop (.value none)
    cases shortCircuit? op with
    | some op => exact skip op ((emit .pop).next fun _ => hright)
    | none => exact hright.next fun _ => emit _
  | unary hop harity operand =>
    rw [Lowering.operate_unary harity, Lowering.operate_unary harity]
    exact (h operand (by simp) inLoop _).next fun _ => emit (unaryOpcode op)

theorem parallel_forLoop {m : Mark} {init cond step : Option Node} {body : Node}
    (h : ∀ k ∈ (Node.forLoop m init cond step body).children, Impartial H policy k) :
    Impartial H policy (.forLoop m init cond step body) := by
  intro inLoop role
  rw [Lowering.node_forLoop, Lowering.node_forLoop]
  have hbody := h body (by simp [Node.children]) true .statement
  have hround : Parallel H Eq (Lowering.round policy inLoop cond body : Lowering σ₁ Unit)
      (Lowering.round policy inLoop cond body) := by
    cases cond with
    | none => exact hbody
    | some cond => exact tested (h cond (by simp [Node.children]) inLoop _) hbody
  have hadvance : Parallel H Eq (Lowering.advance policy inLoop step : Lowering σ₁ Unit)
      (Lowering.advance policy inLoop step) := by
    cases step with
    | none => exact done
    | some step => exact h step (by simp [Node.children]) inLoop .statement
  have hloop := loop .branch .tail hround hadvance
  refine asStatement role m.line ((markLine m.line).next fun _ => ?_)
  cases init with
  | none => exact hloop
  | some init => exact (h init (by simp [Node.children]) inLoop .statement).next fun _ => hloop

theorem parallel_operation (hH : Indifferent H) (m : Mark) (op : Operator)
    {operands : List Node}
    (h : ∀ k ∈ operands, Impartial H policy k)
    (hbelow : ∀ k ∈ operands, ∀ l ∈ k.children, Impartial H policy l) :
    Impartial H policy (.operation m op operands) := by
  intro inLoop role
  by_cases hassign : op = .assign ∧ role = .statement
  · obtain ⟨rfl, rfl⟩ := hassign
    rw [Lowering.node.eq_def, Lowering.node.eq_def]
    refine (markLine m.line).next fun _ => ?_
    rcases operands with _ | ⟨target, _ | ⟨value, _ | _⟩⟩
    case cons.cons.nil =>
      exact (parallel_place (hbelow target (by simp)) inLoop m.line).next fun p =>
        (h value (by simp) inLoop _).next fun _ => store hH m.line p
    all_goals exact fail m.line _
  · rw [Lowering.node_operation hassign, Lowering.node_operation hassign]
    exact asValue role m fun _ => parallel_operate hH h inLoop m.line

theorem parallel_node (hH : Indifferent H) (n : Node) : Impartial H policy n := by
  induction n using Node.induction_below with
  | h n below below₂ =>
    intro inLoop role
    rw [Lowering.node.eq_def, Lowering.node.eq_def]
    cases n with
    | declaration m storage name => exact asStatement role m.line (declare m storage name)
    | parameter m name => exact asStatement role m.line (fail m.line _)
    | block m items =>
      exact asStatement role m.line (parallel_statements (fun m hm => below hm) inLoop)
    | ifElse m cond thenBranch elseBranch =>
      have hthen : Impartial H policy thenBranch := below (by simp [Node.children])
      refine asStatement role m.line ((markLine m.line).next fun _ => ?_)
      refine (below (by simp [Node.children]) inLoop _).next fun _ => ?_
      cases elseBranch with
      | none => exact skip .branchZero (hthen inLoop _)
      | some other =>
        exact either (hthen inLoop _) (below (by simp [Node.children]) inLoop _)
    | whileLoop m cond body =>
      have hcond : Impartial H policy cond := below (by simp [Node.children])
      have hbody : Impartial H policy body := below (by simp [Node.children])
      refine asStatement role m.line ((markLine m.line).next fun _ => ?_)
      exact loop .branch .top (tested (hcond inLoop _) (hbody true _)) done
    | doLoop m body cond =>
      have hcond : Impartial H policy cond := below (by simp [Node.children])
      have hbody : Impartial H policy body := below (by simp [Node.children])
      refine asStatement role m.line ((markLine m.line).next fun _ => ?_)
      exact loop .branchNonZero .tail (hbody true _) (hcond inLoop _)
    | forLoop m init cond step body =>
      have hloop := parallel_forLoop (fun k hk => below hk) inLoop role
      rwa [Lowering.node.eq_def, Lowering.node.eq_def] at hloop
    | foreach m collection key value body =>
      have hcollection : Impartial H policy collection := below (by simp [Node.children])
      have hbody : Impartial H policy body := below (by simp [Node.children])
      refine asStatement role m.line ((markLine m.line).next fun _ => ?_)
      refine (foreachSlot _ m.line).next fun _ => (foreachSlot _ m.line).next fun _ => ?_
      refine (hcollection inLoop _).next fun _ => (pushInt (-2)).next fun _ => ?_
      exact (loop .branch .top (tested (put _ _) (hbody true _)) done).next fun _ => emit .pop2
    | breakLoop m =>
      refine asStatement role m.line ((markLine m.line).next fun _ => ?_)
      exact jump inLoop .breakLoop m.line
    | continueLoop m =>
      refine asStatement role m.line ((markLine m.line).next fun _ => ?_)
      exact jump inLoop .continueLoop m.line
    | ret m value =>
      refine asStatement role m.line ((markLine m.line).next fun _ => ?_)
      cases value with
      | none => exact emit .ret
      | some value =>
        exact (below (by simp [Node.children]) inLoop _).next fun _ => emit .retValue
    | operation m op operands =>
      have hoperation := parallel_operation hH m op (fun k hk => below hk) below₂ inLoop role
      rwa [Lowering.node.eq_def, Lowering.node.eq_def] at hoperation
    | constant m value => exact asValue role m fun _ => pushConstant hH value
    | identifier m name => exact asValue role m fun _ => pushVariable hH m name
    | call m callee args receiver =>
      have hcallee : Impartial H policy callee := below (by simp [Node.children])
      have hall (k : Node) (hk : k ∈ args) : Impartial H policy k :=
        below (by simp [Node.children, hk])
      have hcall := (parallel_arguments hall inLoop).next fun _ => emitCall args.length m.line
      refine asValue role m fun _ => ?_
      cases receiver with
      | some receiver =>
        exact (below (by simp [Node.children]) inLoop _).next fun _ =>
          (hcallee inLoop _).next fun _ => hcall
      | none =>
        show Parallel _ _ (if _ then _ else _) (if _ then _ else _)
        split
        · exact (parallel_method hH (below₂ callee (by simp [Node.children])) inLoop m.line).next
            fun _ => hcall
        · exact (pushReceiver policy callee).next fun _ => (hcallee inLoop _).next fun _ => hcall
    | this m => exact asValue role m fun _ => emit .pushThis
    | function m params body =>
      have hbody : Impartial H policy body := below (by simp [Node.children])
      refine asValue role m fun name => function hH name ?_
      exact (declareParameters m.line params).next fun _ =>
        (hbody false _).next fun _ => emit .ret
    | table m fields =>
      refine asValue role m fun _ => (emit .pushTable).next fun _ => ?_
      exact parallel_tableFields hH (fun k hk => below hk) below₂ inLoop m.line 0

/-! ## Units -/

/-- Two hosts get the same reports on a unit, and both get functions or neither. -/
theorem plan_parallel (hH : Indifferent H) (policy : ReceiverPolicy) (rootName : String) (n : Node)
    {a : σ₁} {b : σ₂} (h : H a b) :
    H (plan policy rootName n a).host (plan policy rootName n b).host ∧
      (plan policy rootName n a).reports = (plan policy rootName n b).reports ∧
      (plan policy rootName n a).functions.isSome =
        (plan policy rootName n b).functions.isSome := by
  have hunit : Lowered.Beside H Eq
      ((do Lowering.node policy false .statement n; Lowering.emit .ret : Lowering σ₁ Unit)
        { host := (Host.functionId a).2 })
      ((do Lowering.node policy false .statement n; Lowering.emit .ret : Lowering σ₂ Unit)
        { host := (Host.functionId b).2 }) :=
    ((parallel_node hH n false .statement).next fun _ => emit .ret) _ _
      ⟨hH.functionId h, rfl, rfl, rfl⟩
  unfold plan
  dsimp only
  generalize (do Lowering.node policy false .statement n; Lowering.emit .ret : Lowering σ₁ Unit)
    { host := (Host.functionId a).2 } = r at hunit ⊢
  generalize (do Lowering.node policy false .statement n; Lowering.emit .ret : Lowering σ₂ Unit)
    { host := (Host.functionId b).2 } = r' at hunit ⊢
  cases hunit with
  | ok _ hc => exact ⟨hc.host, congrArg List.reverse hc.reports, rfl⟩
  | error hhost hreports => exact ⟨hhost, congrArg List.reverse hreports, rfl⟩

/-- Generating a unit for two hosts reports the same, and gives functions to both or to neither. -/
theorem generate_parallel (hH : Indifferent H) (o : Options) (n : Node) {a : σ₁} {b : σ₂}
    (h : H a b) :
    H (generate o n a).host (generate o n b).host ∧
      (generate o n a).reports = (generate o n b).reports ∧
      (generate o n a).root.isSome = (generate o n b).root.isSome := by
  have hplan : ∀ {σ : Type} [Host σ] (c : σ),
      (generate o n c).host = (plan o.receiver o.rootName n c).host ∧
        (generate o n c).reports = (plan o.receiver o.rootName n c).reports ∧
        (generate o n c).root.isSome = (plan o.receiver o.rootName n c).functions.isSome := by
    intro σ _ c
    obtain ⟨hhost, hreports, hmakes⟩ := generate_plan sameIds_eq o n (rfl : c = c)
    refine ⟨hhost, hreports, ?_⟩
    cases hfunctions : (plan o.receiver o.rootName n c).functions with
    | none => rw [(hmakes.failed hfunctions).1]; rfl
    | some functions => rw [(hmakes.made functions.1 functions.2 hfunctions).1]; rfl
  obtain ⟨hhost, hreports, hroot⟩ := hplan a
  obtain ⟨hhost', hreports', hroot'⟩ := hplan b
  rw [hhost, hhost', hreports, hreports', hroot, hroot']
  exact plan_parallel hH o.receiver o.rootName n h

end ScriptToolchain.Compile
