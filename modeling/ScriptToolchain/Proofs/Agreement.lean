import ScriptToolchain.Proofs.Follows
import ScriptToolchain.Proofs.Soundness

/-!
# The generator writes lowered blocks

Generating a node and lowering it go the same way: they ask the host the same
questions, report the same findings and give up together. The proof is an
induction over the tree with one step of `Follows` for each step of the
generator.
-/

namespace ScriptToolchain.Compile

namespace Role

/-- The code of a node in this role has no jump out of it. -/
def closed (inLoop : Bool) : Role → Bool
  | .statement => !inLoop
  | .value _ => true

end Role

variable {σ₁ σ₂ α β : Type} {H : σ₁ → σ₂ → Prop} {debug inLoop closed : Bool}

namespace Follows

theorem weaken {m : Gen σ₁ α} {l : Lowering σ₂ α} (h : Follows H debug inLoop true m l) :
    Follows H debug inLoop closed m l := by
  intro s c hs hloops
  rcases h s c hs hloops with ⟨a, b, s', c', hgen, hlow, hs', hframe, hclosed⟩ | herror
  · exact .inl ⟨a, b, s', c', hgen, hlow, hs', hframe, fun _ => hclosed rfl⟩
  · exact .inr herror

/-- Nothing comes behind a step that gives up. -/
theorem fail_bind (line : UInt32) (f : Finding) (m : α → Gen σ₁ β) (l : α → Lowering σ₂ β) :
    Follows H debug inLoop closed (Gen.fail line f >>= m) (Lowering.fail line f >>= l) := by
  intro s c h hloops
  have hfail : Follows H debug inLoop closed (Gen.fail line f : Gen σ₁ α) (Lowering.fail line f) :=
    fail line f
  rcases hfail s c h hloops with
    ⟨a, b, s', c', hgen, -⟩ | ⟨e, s', c', hgen, hlow, hhost, hreports⟩
  · cases hgen
  · refine .inr ⟨e, s', c', ?_, ?_, hhost, hreports⟩
    · simp only [Bind.bind, EStateM.bind, hgen]
    · simp only [Bind.bind, hlow]

theorem asStatement {m : Gen σ₁ Unit} {l : Lowering σ₂ Unit} (role : Role) (line : UInt32)
    (h : Follows H debug inLoop (!inLoop) m l) :
    Follows H debug inLoop (role.closed inLoop) (Gen.asStatement role line m)
      (Lowering.asStatement role line l) := by
  cases role with
  | statement => exact h
  | value name => exact fail line .notAnExpression

theorem asValue {m : Option String → Gen σ₁ Unit} {l : Option String → Lowering σ₂ Unit}
    (o : Options) (role : Role) (k : Mark)
    (h : ∀ name, Follows H o.debug inLoop true (m name) (l name)) :
    Follows H o.debug inLoop (role.closed inLoop) (Gen.asValue o role k m)
      (Lowering.asValue role k l) := by
  refine (markLine o k.line).bind fun _ => ?_
  cases role with
  | value name => exact h name
  | statement =>
    refine (h none).weaken.bind fun _ => ?_
    show Follows _ _ _ _ (if _ then _ else _) (if _ then _ else _)
    split
    · exact emit .pop
    · exact pure ()

theorem declare (m : Mark) (storage : StorageClass) (name : String) :
    Follows H debug inLoop closed (Gen.declare m storage name : Gen σ₁ Unit)
      (Lowering.declare m storage name) := by
  refine (names _).bind fun a => ?_
  cases a with
  | conflict kept requested => exact report m.line _
  | new => exact pure ()
  | again => exact pure ()

theorem foreachSlot (name : String) (line : UInt32) :
    Follows H debug inLoop closed (Gen.foreachSlot name line : Gen σ₁ UInt16)
      (Lowering.foreachSlot name line) := by
  refine (names _).bind fun a => ?_
  cases a with
  | none => exact fail line _
  | some slot =>
    show Follows _ _ _ _ (if _ then _ else _) (if _ then _ else _)
    split
    · exact pure _
    · exact fail line _

theorem declareParameters (line : UInt32) (params : List Node) :
    Follows H debug inLoop closed (Gen.declareParameters line params : Gen σ₁ Unit)
      (Lowering.declareParameters line params) := by
  induction params with
  | nil => exact pure ()
  | cons n rest ih =>
    cases n with
    | parameter m name =>
      refine (names _).bind fun a => ?_
      cases a with
      | none => exact fail _ _
      | some slot => exact ih
    | _ => exact fail _ _

theorem memberName (line : UInt32) (member : Node) :
    Follows H debug inLoop closed (Gen.memberName line member : Gen σ₁ String)
      (Lowering.memberName line member) := by
  rw [Gen.memberName, Lowering.memberName]
  cases member.identifier? with
  | some name => exact pure name
  | none => exact fail line _

theorem pushReceiver (o : Options) (callee : Node) :
    Follows H debug inLoop closed (Gen.pushReceiver o callee : Gen σ₁ Unit)
      (Lowering.pushReceiver o.receiver callee) := by
  unfold Gen.pushReceiver Lowering.pushReceiver
  cases o.receiver with
  | currentThis => exact emit .pushThis
  | memberOnly =>
    refine table.bind fun t => ?_
    show Follows _ _ _ _ (if _ then _ else _) (if _ then _ else _)
    split
    · exact emit .pushThis
    · exact emit .pushNull

variable [Host σ₁] [Host σ₂]

theorem emitSymbol (hids : SameIds H) (op : Opcode) (name : String) :
    Follows H debug inLoop closed (Gen.emitSymbol op name : Gen σ₁ Unit)
      (Lowering.emitSymbol op name) :=
  (ask (hids.symbolId name)).bind fun _ => emitWord op _

theorem pushConstant (hids : SameIds H) (v : Constant) :
    Follows H debug inLoop closed (Gen.pushConstant v : Gen σ₁ Unit)
      (Lowering.pushConstant v) := by
  cases v with
  | null => exact emit .pushNull
  | int v => exact pushInt v
  | float bits => exact put .pushFloat _ nofun
  | str s => exact (ask (hids.stringId s)).bind fun _ => emitWord .pushString _

theorem pushVariable (hids : SameIds H) (m : Mark) (name : String) :
    Follows H debug inLoop closed (Gen.pushVariable m name : Gen σ₁ Unit)
      (Lowering.pushVariable m name) := by
  refine (names _).bind fun a => ?_
  rcases a with _ | (n | _ | _)
  · exact emitSymbol hids _ name
  · exact emitInt (by decide) _
  · exact emitSymbol hids _ name
  · exact emitSymbol hids _ name

theorem storeVariable (hids : SameIds H) (name : String) (isMember : Bool) (line : UInt32) :
    Follows H debug inLoop closed (Gen.storeVariable name isMember line : Gen σ₁ Unit)
      (Lowering.storeVariable name isMember line) := by
  refine (names _).bind fun a => ?_
  rcases a with _ | (n | _ | _)
  · show Follows _ _ _ _ (if _ then _ else _) (if _ then _ else _)
    split
    · exact emitSymbol hids _ name
    · refine (names _).bind fun a => ?_
      cases a with
      | none => exact fail line _
      | some n => exact emitInt (by decide) _
  · exact emitInt (by decide) _
  · exact emitSymbol hids _ name
  · exact emitSymbol hids _ name

theorem store (hids : SameIds H) (line : UInt32) (p : Place) :
    Follows H debug inLoop closed (Gen.store line p : Gen σ₁ Unit) (Lowering.store line p) := by
  rcases p with name | _ | ⟨name, isMember⟩
  · exact emitSymbol hids .setDot name
  · exact emit .setIndex
  · exact storeVariable hids name isMember line

end Follows

/-! ## Nodes -/

variable [Host σ₁] [Host σ₂] {o : Options}

/-- Generating this node goes the way of lowering it, in every role. -/
def Agrees (H : σ₁ → σ₂ → Prop) (o : Options) (n : Node) : Prop :=
  ∀ inLoop role, Follows H o.debug inLoop (role.closed inLoop) (Gen.node o role n)
    (Lowering.node o.receiver inLoop role n)

theorem Agrees.value {n : Node} (h : Agrees H o n) (inLoop closed : Bool)
    (name : Option String) :
    Follows H o.debug inLoop closed (Gen.node o (.value name) n)
      (Lowering.node o.receiver inLoop (.value name) n) :=
  (h inLoop (.value name)).weaken

theorem Agrees.statement {n : Node} (h : Agrees H o n) (inLoop : Bool) :
    Follows H o.debug inLoop (!inLoop) (Gen.node o .statement n)
      (Lowering.node o.receiver inLoop .statement n) :=
  h inLoop .statement

open Follows

theorem agrees_statements {items : List Node} (h : ∀ m ∈ items, Agrees H o m) (inLoop : Bool) :
    Follows H o.debug inLoop (!inLoop) (Gen.statements o items)
      (Lowering.statements o.receiver inLoop items) := by
  induction items with
  | nil =>
    rw [Gen.statements, Lowering.statements]
    exact pure ()
  | cons n rest ih =>
    rw [Gen.statements, Lowering.statements]
    exact ((h n (List.mem_cons_self ..)).statement inLoop).bind fun _ =>
      ih fun m hm => h m (List.mem_cons_of_mem _ hm)

theorem agrees_arguments {args : List Node} (h : ∀ m ∈ args, Agrees H o m) (inLoop : Bool) :
    Follows H o.debug inLoop true (Gen.arguments o args)
      (Lowering.arguments o.receiver inLoop args) := by
  induction args with
  | nil =>
    rw [Gen.arguments, Lowering.arguments]
    exact pure ()
  | cons n rest ih =>
    rw [Gen.arguments, Lowering.arguments]
    exact ((h n (List.mem_cons_self ..)).value inLoop true none).bind fun _ =>
      ih fun m hm => h m (List.mem_cons_of_mem _ hm)

theorem agrees_place {n : Node} (h : ∀ m ∈ n.children, Agrees H o m)
    (inLoop : Bool) (line : UInt32) :
    Follows H o.debug inLoop closed (Gen.place o line n)
      (Lowering.place o.receiver inLoop line n) := by
  rw [Gen.place.eq_def, Lowering.place.eq_def]
  cases n with
  | operation m op operands =>
    cases op with
    | dot =>
      rcases operands with _ | ⟨object, _ | ⟨member, _ | _⟩⟩
      case cons.cons.nil =>
        exact (memberName line member).bind fun name =>
          ((h object (by simp [Node.children])).value inLoop _ none).bind fun _ => pure _
      all_goals exact fail line _
    | index =>
      rcases operands with _ | ⟨object, _ | ⟨key, _ | _⟩⟩
      case cons.cons.nil =>
        exact ((h object (by simp [Node.children])).value inLoop _ none).bind fun _ =>
          ((h key (by simp [Node.children])).value inLoop _ none).bind fun _ => pure _
      all_goals exact fail line _
    | _ => exact fail line _
  | identifier m name => exact pure _
  | _ => exact fail line _

theorem agrees_method (hids : SameIds H) {n : Node} (h : ∀ m ∈ n.children, Agrees H o m)
    (inLoop : Bool) (line : UInt32) :
    Follows H o.debug inLoop closed (Gen.method o line n)
      (Lowering.method o.receiver inLoop line n) := by
  rw [Gen.method.eq_def, Lowering.method.eq_def]
  cases n with
  | operation m op operands =>
    rcases operands with _ | ⟨object, _ | ⟨member, _ | _⟩⟩
    case cons.cons.nil =>
      exact (memberName line member).bind fun name =>
        ((h object (by simp [Node.children])).value inLoop _ none).bind fun _ =>
          (emit .dup).bind fun _ => emitSymbol hids .getDot name
    all_goals exact fail line _
  | _ => exact fail line _

theorem agrees_keyedField (hids : SameIds H) {n : Node} (h : ∀ m ∈ n.children, Agrees H o m)
    (inLoop : Bool) (line : UInt32) :
    Follows H o.debug inLoop closed (Gen.keyedField o line n)
      (Lowering.keyedField o.receiver inLoop line n) := by
  rw [Gen.keyedField.eq_def, Lowering.keyedField.eq_def]
  cases n with
  | operation m op operands =>
    rcases operands with _ | ⟨key, _ | ⟨value, _ | _⟩⟩
    case cons.cons.nil =>
      dsimp only
      cases key.identifier? with
      | some name =>
        exact ((h value (by simp [Node.children])).value inLoop _ (some name)).bind fun _ =>
          emitSymbol hids .setDot name
      | none => exact fail _ _
    all_goals exact fail _ _
  | _ => exact fail _ _

theorem agrees_tableFields (hids : SameIds H) {fields : List Node}
    (h : ∀ m ∈ fields, Agrees H o m) (hbelow : ∀ m ∈ fields, ∀ k ∈ m.children, Agrees H o k)
    (inLoop : Bool) (line : UInt32) (position : Int32) :
    Follows H o.debug inLoop true (Gen.tableFields o line position fields)
      (Lowering.tableFields o.receiver inLoop line position fields) := by
  induction fields generalizing position with
  | nil =>
    rw [Gen.tableFields, Lowering.tableFields]
    exact pure ()
  | cons n rest ih =>
    have hrest := ih (fun m hm => h m (List.mem_cons_of_mem _ hm))
      fun m hm => hbelow m (List.mem_cons_of_mem _ hm)
    rw [Gen.tableFields, Lowering.tableFields]
    refine (emit .dup).bind fun _ => ?_
    split
    · exact (agrees_keyedField hids (hbelow n (List.mem_cons_self ..)) inLoop line).bind fun _ =>
        hrest position
    · exact (pushInt position).bind fun _ =>
        ((h n (List.mem_cons_self ..)).value inLoop true none).bind fun _ =>
          (emit .setIndex).bind fun _ => hrest (position + 1)

/-- An operation whose operands are both evaluated, or only the first where it decides. -/
theorem agrees_binary {left right : Node} (hleft : Agrees H o left) (hright : Agrees H o right)
    (op : Operator) (inLoop : Bool) (line : UInt32) :
    Follows H o.debug inLoop true
      (do
        Gen.node o (.value none) left
        match shortCircuit? op with
        | some op =>
          let skip ← Gen.reserve op
          Gen.emit .pop
          Gen.node o (.value none) right
          Gen.resolveHere line skip
        | none =>
          Gen.node o (.value none) right
          Gen.emit (binaryOpcode op))
      (do
        Lowering.node o.receiver inLoop (.value none) left
        match shortCircuit? op with
        | some op =>
          Lowering.skip op do
            Lowering.emit .pop
            Lowering.node o.receiver inLoop (.value none) right
        | none =>
          Lowering.node o.receiver inLoop (.value none) right
          Lowering.emit (binaryOpcode op)) := by
  refine (hleft.value inLoop true none).bind fun _ => ?_
  cases shortCircuit? op with
  | some op =>
    have hskip := skip line ((emit .pop).bind fun _ => hright.value inLoop true none) op
    simp only [bind_assoc] at hskip
    exact hskip
  | none => exact (hright.value inLoop true none).bind fun _ => emit _

theorem agrees_forLoop {m : Mark} {init cond step : Option Node} {body : Node}
    (h : ∀ k ∈ (Node.forLoop m init cond step body).children, Agrees H o k) :
    Agrees H o (.forLoop m init cond step body) := by
  intro inLoop role
  rw [Gen.node.eq_def, Lowering.node.eq_def]
  have hbody := (h body (by simp [Node.children])).statement true
  have hinit {k : Node} (hk : init = some k) :=
    (h k (by simp [Node.children, hk])).statement inLoop
  have htest {k : Node} (hk : cond = some k) :=
    (h k (by simp [Node.children, hk])).value inLoop true none
  have hstep {k : Node} (hk : step = some k) :=
    (h k (by simp [Node.children, hk])).statement inLoop
  have hskip : Follows H o.debug inLoop (!inLoop) (Pure.pure () : Gen σ₁ Unit) (Pure.pure ()) :=
    pure ()
  refine asStatement role m.line ((markLine o m.line).bind fun _ => ?_)
  rcases init with _ | init
  case' some => refine (hinit rfl).bind fun _ => ?_
  all_goals
    rcases cond with _ | cond <;> rcases step with _ | step
    · have hloop := untested m.line .branch .tail hbody hskip
      exact hloop
    · have hloop := untested m.line .branch .tail hbody (hstep rfl)
      exact hloop
    · have hloop := tested m.line .branch .tail (htest rfl) hbody hskip
      simp only [bind_map_left]
      exact hloop
    · have hloop := tested m.line .branch .tail (htest rfl) hbody (hstep rfl)
      simp only [bind_map_left]
      exact hloop

theorem agrees_operation (hids : SameIds H) (m : Mark) (op : Operator) {operands : List Node}
    (h : ∀ k ∈ operands, Agrees H o k)
    (hbelow : ∀ k ∈ operands, ∀ l ∈ k.children, Agrees H o l) :
    Agrees H o (.operation m op operands) := by
  intro inLoop role
  rw [Gen.node.eq_def, Lowering.node.eq_def]
  show Follows _ _ _ _ (if _ then _ else _) (if _ then _ else _)
  split
  case isTrue hassign =>
    obtain ⟨rfl, rfl⟩ := hassign
    refine (markLine o m.line).bind fun _ => ?_
    rcases operands with _ | ⟨target, _ | ⟨value, _ | _⟩⟩
    case cons.cons.nil =>
      exact (agrees_place (hbelow target (by simp)) inLoop m.line).bind fun p =>
        ((h value (by simp)).value inLoop _ _).bind fun _ => store hids m.line p
    all_goals exact fail m.line _
  case isFalse =>
    refine asValue o role m fun _ => ?_
    show Follows _ _ _ _ (if _ then _ else _) (if _ then _ else _)
    split
    · exact fail_bind m.line _ _ _
    rcases operands with _ | ⟨left, _ | ⟨right, _ | _⟩⟩
    case cons.cons.nil =>
      have hleft := h left (by simp)
      have hbinary := agrees_binary hleft (h right (by simp)) op inLoop m.line
      cases op with
      | assign => exact fail m.line _
      | assignField => exact fail m.line _
      | dot =>
        exact (memberName m.line right).bind fun name =>
          (hleft.value inLoop true none).bind fun _ => emitSymbol hids .getDot name
      | _ => exact hbinary
    case cons.nil =>
      have hunary := ((h left (by simp)).value inLoop true none).bind fun _ =>
        emit (unaryOpcode op)
      cases op with
      | assign => exact fail m.line _
      | assignField => exact fail m.line _
      | _ => exact hunary
    all_goals cases op <;> exact fail m.line _

/-- The values of a call are pushed, and the depth is set to one above that from before the call. -/
theorem agrees_call (hids : SameIds H) {m : Mark} {callee : Node} {args : List Node}
    {receiver : Option Node}
    (h : ∀ k ∈ (Node.call m callee args receiver).children, Agrees H o k)
    (hbelow : ∀ k ∈ callee.children, Agrees H o k) :
    Agrees H o (.call m callee args receiver) := by
  intro inLoop role
  rw [Gen.node.eq_def, Lowering.node.eq_def]
  have hleaves (k : Node) :
      (Lowering.node o.receiver inLoop (.value none) k : Lowering σ₂ Unit).Leaves 1 :=
    ((lowers_any k).value inLoop none).leaves
  have hcallee := (h callee (by simp [Node.children])).value inLoop true none
  have hall (k : Node) (hk : k ∈ args) : Agrees H o k := h k (by simp [Node.children, hk])
  have hcall : FollowsAbove H o.debug inLoop true 2
      (fun before => do
        Gen.arguments o args
        Gen.emitCall before args.length m.line)
      (do
        Lowering.arguments o.receiver inLoop args
        Lowering.emitCall args.length m.line) := by
    have hpushed : (Lowering.arguments o.receiver inLoop args : Lowering σ₂ Unit).Leaves _ :=
      (lowers_arguments (fun k _ => lowers_any k) inLoop (Int.le_refl 0)).leaves
    rw [Int.sub_zero, Int.add_zero] at hpushed
    refine (agrees_arguments hall inLoop).push hpushed ?_
    rw [Int.add_comm]
    exact emitCall m.line args.length
  refine asValue o role m fun _ => remember ?_
  cases receiver with
  | some receiver =>
    have hreceiver := (h receiver (by simp [Node.children])).value inLoop true none
    exact hreceiver.push (hleaves receiver) (hcallee.push (hleaves callee) hcall)
  | none =>
    by_cases hdot : Gen.operator? callee = some .dot
    · have hmethod : Follows H o.debug inLoop true _ _ := agrees_method hids hbelow inLoop m.line
      have hpushed :
          (Lowering.method o.receiver inLoop m.line callee : Lowering σ₂ Unit).Leaves 2 :=
        (lowers_method (fun k _ => lowers_any k) inLoop m.line).leaves
      simp only [if_pos hdot]
      exact hmethod.push hpushed hcall
    · have hreceiver : (Lowering.pushReceiver o.receiver callee : Lowering σ₂ Unit).Yields False
          (fun _ => True) 0 0 fun _ x => x.Moves False 0 1 :=
        Lowering.Yields.pushReceiver o.receiver callee
      simp only [if_neg hdot]
      exact (pushReceiver o callee).push hreceiver.leaves (hcallee.push (hleaves callee) hcall)

theorem agrees_node (hids : SameIds H) (n : Node) : Agrees H o n := by
  induction n using Node.induction_below with
  | h n below below₂ =>
    intro inLoop role
    have hskip : Follows H o.debug inLoop (!inLoop) (Pure.pure () : Gen σ₁ Unit) (Pure.pure ()) :=
      pure ()
    rw [Gen.node.eq_def, Lowering.node.eq_def]
    cases n with
    | declaration m storage name =>
      exact asStatement role m.line (declare m storage name)
    | parameter m name =>
      exact asStatement role m.line (fail m.line _)
    | block m items =>
      exact asStatement role m.line (agrees_statements (fun m hm => below hm) inLoop)
    | ifElse m cond thenBranch elseBranch =>
      have hcond : Agrees H o cond := below (by simp [Node.children])
      have hthen : Agrees H o thenBranch := below (by simp [Node.children])
      refine asStatement role m.line ?_
      refine (markLine o m.line).bind fun _ => (hcond.value inLoop _ none).bind fun _ => ?_
      cases elseBranch with
      | none => exact skip m.line (hthen.statement inLoop) .branchZero
      | some other =>
        exact either m.line (hthen.statement inLoop)
          ((below (by simp [Node.children])).statement inLoop)
    | whileLoop m cond body =>
      have hcond : Agrees H o cond := below (by simp [Node.children])
      have hbody : Agrees H o body := below (by simp [Node.children])
      refine asStatement role m.line ?_
      have hloop := tested m.line .branch .top (hcond.value inLoop true none)
        (hbody.statement true) hskip
      exact (markLine o m.line).bind fun _ => hloop
    | doLoop m body cond =>
      have hcond : Agrees H o cond := below (by simp [Node.children])
      have hbody : Agrees H o body := below (by simp [Node.children])
      refine asStatement role m.line ?_
      have hloop := untested m.line .branchNonZero .tail (hbody.statement true)
        (hcond.value inLoop (!inLoop) none)
      exact (markLine o m.line).bind fun _ => hloop
    | forLoop m init cond step body =>
      have hloop := agrees_forLoop (fun k hk => below hk) inLoop role
      rwa [Gen.node.eq_def, Lowering.node.eq_def] at hloop
    | foreach m collection key value body =>
      have hcollection : Agrees H o collection := below (by simp [Node.children])
      have hbody : Agrees H o body := below (by simp [Node.children])
      refine asStatement role m.line ?_
      refine (markLine o m.line).bind fun _ => ?_
      refine (foreachSlot _ m.line).bind fun keySlot => ?_
      refine (foreachSlot _ m.line).bind fun valueSlot => ?_
      refine (hcollection.value inLoop _ none).bind fun _ => (pushInt (-2)).bind fun _ => ?_
      have hop : Opcode.foreach ≠ .call := by decide
      have hloop := tested m.line .branch .top
        (emitInt hop (SlotPair.pack { key := keySlot, value := valueSlot }))
        (hbody.statement true) hskip
      have hall := hloop.bind fun _ => emit .pop2
      simp only [Gen.rounds, bind_assoc, pure_bind] at hall
      exact hall
    | breakLoop m =>
      refine asStatement role m.line ?_
      exact (markLine o m.line).bind fun _ => jump .breakLoop m.line
    | continueLoop m =>
      refine asStatement role m.line ?_
      exact (markLine o m.line).bind fun _ => jump .continueLoop m.line
    | ret m value =>
      refine asStatement role m.line ?_
      refine (markLine o m.line).bind fun _ => ?_
      cases value with
      | none => exact emit .ret
      | some value =>
        exact ((below (by simp [Node.children])).value inLoop _ none).bind fun _ => emit .retValue
    | operation m op operands =>
      have hoperation := agrees_operation hids m op (fun k hk => below hk) below₂ inLoop role
      rwa [Gen.node.eq_def, Lowering.node.eq_def] at hoperation
    | constant m value => exact asValue o role m fun _ => pushConstant hids value
    | identifier m name => exact asValue o role m fun _ => pushVariable hids m name
    | call m callee args receiver =>
      have hcall := agrees_call hids (fun k hk => below hk)
        (below₂ callee (by simp [Node.children]))
        inLoop role
      rwa [Gen.node.eq_def, Lowering.node.eq_def] at hcall
    | this m => exact asValue o role m fun _ => emit .pushThis
    | function m params body =>
      have hbody : Agrees H o body := below (by simp [Node.children])
      refine asValue o role m fun name => ?_
      have hfunction : Follows H o.debug inLoop true _ _ := function hids o name m.line
        ((declareParameters m.line params).bind fun _ =>
          (hbody.statement false).bind fun _ => emit .ret)
      simp only [bind_assoc] at hfunction
      exact hfunction
    | table m fields =>
      refine asValue o role m fun _ => ?_
      exact (emit .pushTable).bind fun _ =>
        agrees_tableFields hids (fun k hk => below hk) below₂ inLoop m.line 0

end ScriptToolchain.Compile
