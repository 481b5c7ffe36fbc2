import ScriptToolchain.Proofs.Forms
import ScriptToolchain.Proofs.Yields

/-!
# Lowered trees are sound

Whatever the tree, its code climbs from one depth to the next and never goes
below zero: an expression leaves one value and a statement leaves none, or more
than none where a value is not dropped. Where every value is dropped the code
is level, too.
-/

namespace ScriptToolchain

namespace Node

/-- Values are dropped where they are asked to be, and the parameters of functions are so many. -/
structure Meets (popped : Prop) (fit : Nat → Prop) (n : Node) : Prop where
  discards : popped → ∀ {m s}, n.Contains m → s ∈ m.statements → s.Discards
  params : n.ParamsFit fit

variable {popped : Prop} {fit : Nat → Prop} {n m : Node}

theorem Meets.child (h : n.Meets popped fit) (hm : m ∈ n.children) : m.Meets popped fit :=
  ⟨fun hp _ _ hk hs => h.discards hp (.child hm hk) hs, fun hk => h.params (.child hm hk)⟩

end Node

namespace Compile

/-- The code of a node that is met in this role. -/
def Role.Code (popped : Prop) : Role → Block → Prop
  | .statement, x => x.Keeps popped True 0
  | .value _, x => x.Moves popped 0 1

variable {σ : Type} {popped : Prop} {fit : Nat → Prop} {policy : ReceiverPolicy}

open Lowering Lowering.Yields

theorem Lowering.Yields.asStatement {l : Lowering σ Unit} (role : Role) (line : UInt32)
    (h : l.Yields popped fit 0 0 fun _ x => x.Keeps popped True 0) :
    (Lowering.asStatement role line l).Yields popped fit 0 0 fun _ => role.Code popped := by
  cases role with
  | statement => exact h
  | value name => exact Yields.fail line _

theorem Lowering.Yields.asValue {l : Option String → Lowering σ Unit} (role : Role) (m : Mark)
    (hm : role = .statement → popped → m.flags.contains .popResult)
    (h : ∀ name, (l name).Yields popped fit 0 0 fun _ x => x.Moves popped 0 1) :
    (Lowering.asValue role m l).Yields popped fit 0 0 fun _ => role.Code popped := by
  cases role with
  | value name => exact (Yields.markLine m.line).bind fun _ => h name
  | statement =>
    refine (Yields.markLine m.line).bind_keeps fun _ => (h none).bind_keeps fun _ => ?_
    show Yields _ _ _ _ _ (if _ then _ else _)
    split
    · exact Yields.keeps (instr (by decide) (by decide) rfl (Nat.zero_le _))
    · rename_i hflag
      exact (Yields.pure ()).mono fun _ _ hx =>
        hx.keeps (by decide) fun hp => absurd (hm rfl hp) hflag

variable [Host σ]

/-- In every role the node gives sound code, as a statement if it drops its value. -/
def Lowers (σ : Type) [Host σ] (policy : ReceiverPolicy) (popped : Prop) (fit : Nat → Prop)
    (n : Node) : Prop :=
  ∀ inLoop role, (role = .statement → popped → n.Discards) →
    (Lowering.node policy inLoop role n : Lowering σ Unit).Yields popped fit 0 0
      fun _ => role.Code popped

theorem Lowers.value {n : Node} (h : Lowers σ policy popped fit n) (inLoop : Bool)
    (name : Option String) :
    (Lowering.node policy inLoop (.value name) n : Lowering σ Unit).Yields popped fit 0 0
      fun _ x => x.Moves popped 0 1 :=
  h inLoop (.value name) nofun

theorem Lowers.statement {n : Node} (h : Lowers σ policy popped fit n)
    (hn : popped → n.Discards) (inLoop : Bool) :
    (Lowering.node policy inLoop .statement n : Lowering σ Unit).Yields popped fit 0 0
      fun _ x => x.Keeps popped True 0 :=
  h inLoop .statement fun _ => hn

theorem lowers_statements {items : List Node} (h : ∀ m ∈ items, Lowers σ policy popped fit m)
    (hdrop : popped → ∀ m ∈ items, m.Discards) (inLoop : Bool) :
    (Lowering.statements policy inLoop items : Lowering σ Unit).Yields popped fit 0 0
      fun _ x => x.Keeps popped True 0 := by
  induction items with
  | nil =>
    rw [Lowering.statements]
    exact Yields.keeps (Yields.pure ())
  | cons n rest ih =>
    rw [Lowering.statements]
    refine ((h n (List.mem_cons_self ..)).statement (fun hp =>
      hdrop hp n (List.mem_cons_self ..)) inLoop).keeps_bind fun _ => ?_
    exact ih (fun m hm => h m (List.mem_cons_of_mem _ hm)) fun hp m hm =>
      hdrop hp m (List.mem_cons_of_mem _ hm)

theorem lowers_arguments {args : List Node} (h : ∀ m ∈ args, Lowers σ policy popped fit m)
    (inLoop : Bool) {d : Int} (hd : 0 ≤ d) :
    (Lowering.arguments policy inLoop args : Lowering σ Unit).Yields popped fit 0 0
      fun _ x => x.Moves popped d (args.length + d) := by
  induction args generalizing d with
  | nil =>
    rw [Lowering.arguments]
    rw [List.length_nil, show ((0 : Nat) : Int) + d = d by omega]
    exact Yields.pure ()
  | cons n rest ih =>
    rw [Lowering.arguments]
    have hfirst := ((h n (List.mem_cons_self ..)).value inLoop none).above hd
    have hrest := ih (fun m hm => h m (List.mem_cons_of_mem _ hm)) (d := 1 + d) (by omega)
    rw [Int.zero_add] at hfirst
    rw [List.length_cons, show ((rest.length + 1 : Nat) : Int) + d = rest.length + (1 + d) by
      omega]
    exact hfirst.bind fun _ => hrest

theorem lowers_place {n : Node} (h : ∀ m ∈ n.children, Lowers σ policy popped fit m)
    (inLoop : Bool) (line : UInt32) :
    (Lowering.place policy inLoop line n : Lowering σ Place).Yields popped fit 0 0
      fun p x => x.Moves popped 0 p.depth := by
  cases placeForm n with
  | field m object member =>
    have hobject := h object (by simp [Node.children])
    rw [place_field]
    exact (Yields.memberName line member).bind fun name =>
      (hobject.value inLoop none).bind fun _ => Yields.answer (Place.field name) rfl
  | element m object key =>
    have hobject := h object (by simp [Node.children])
    have hkey := ((h key (by simp [Node.children])).value inLoop none).above (k := 1) (by decide)
    rw [place_element]
    exact (hobject.value inLoop none).bind fun _ =>
      hkey.bind fun _ => Yields.answer Place.element rfl
  | name m name =>
    rw [place_name]
    exact Yields.answer (Place.variable name _) rfl
  | refused f hrefused =>
    rw [hrefused]
    exact Yields.fail line f

theorem lowers_method {n : Node} (h : ∀ m ∈ n.children, Lowers σ policy popped fit m)
    (inLoop : Bool) (line : UInt32) :
    (Lowering.method policy inLoop line n : Lowering σ Unit).Yields popped fit 0 0
      fun _ x => x.Moves popped 0 2 := by
  cases methodForm n with
  | dot m op object member =>
    have hobject := h object (by simp [Node.children])
    rw [method_dot]
    exact (Yields.memberName line member).bind fun name =>
      (hobject.value inLoop none).bind fun _ =>
        (instr (by decide) (by decide) rfl (Nat.zero_le _)).bind fun _ =>
          Yields.emitSymbol (by decide) name (by decide) rfl (Nat.zero_le _)
  | refused f hrefused =>
    rw [hrefused]
    exact Yields.fail line f

theorem lowers_keyedField {n : Node} (h : ∀ m ∈ n.children, Lowers σ policy popped fit m)
    (inLoop : Bool) (line : UInt32) :
    (Lowering.keyedField policy inLoop line n : Lowering σ Unit).Yields popped fit 0 0
      fun _ x => x.Moves popped 2 1 := by
  cases keyedForm n with
  | @named m op key value name hname =>
    have hvalue := ((h value (by simp [Node.children])).value inLoop (some name)).above (k := 2)
      (by decide)
    rw [keyedField_named op value hname]
    exact hvalue.bind fun _ => Yields.emitSymbol (by decide) name (by decide) rfl (Nat.zero_le _)
  | refused f hrefused =>
    rw [hrefused]
    exact Yields.fail _ f

theorem lowers_tableFields {fields : List Node}
    (h : ∀ m ∈ fields, Lowers σ policy popped fit m)
    (hbelow : ∀ m ∈ fields, ∀ k ∈ m.children, Lowers σ policy popped fit k)
    (inLoop : Bool) (line : UInt32) (position : Int32) :
    (Lowering.tableFields policy inLoop line position fields : Lowering σ Unit).Yields popped fit
      0 0 fun _ x => x.Moves popped 1 1 := by
  induction fields generalizing position with
  | nil =>
    rw [Lowering.tableFields]
    exact Yields.pure ()
  | cons n rest ih =>
    have hrest := ih (fun m hm => h m (List.mem_cons_of_mem _ hm))
      fun m hm => hbelow m (List.mem_cons_of_mem _ hm)
    rw [Lowering.tableFields]
    have hdup : (Lowering.emit .dup : Lowering σ Unit).Yields popped fit 0 0
        fun _ x => x.Moves popped 1 2 :=
      instr (by decide) (by decide) rfl (Nat.zero_le _)
    refine hdup.bind fun _ => ?_
    split
    · exact (lowers_keyedField (hbelow n (List.mem_cons_self ..)) inLoop line).bind fun _ =>
        hrest position
    · have hvalue := ((h n (List.mem_cons_self ..)).value inLoop none).above (k := 3) (by decide)
      have hstore : (Lowering.emit .setIndex : Lowering σ Unit).Yields popped fit 0 0
          fun _ x => x.Moves popped 4 1 :=
        instr (by decide) (by decide) rfl (Nat.zero_le _)
      exact (Yields.pushInt position (by decide)).bind fun _ =>
        hvalue.bind fun _ => hstore.bind fun _ => hrest (position + 1)

/-- The operations with two operands take both of them. -/
theorem plain_binaryOpcode {op : Operator} (hop : Grammar.isPlain op) (harity : op.arity = 2)
    (hcircuit : shortCircuit? op = none) :
    (binaryOpcode op).Plain .none ∧ (binaryOpcode op).delta = -1 := by
  cases op <;> first | contradiction | decide

theorem plain_unaryOpcode (op : Operator) :
    (unaryOpcode op).Plain .none ∧ (unaryOpcode op).delta = 0 := by
  cases op <;> decide

theorem lowers_operate {op : Operator} {operands : List Node}
    (h : ∀ k ∈ operands, Lowers σ policy popped fit k) (inLoop : Bool) (line : UInt32) :
    (operate policy inLoop line op operands : Lowering σ Unit).Yields popped fit 0 0
      fun _ x => x.Moves popped 0 1 := by
  cases operationForm op operands with
  | refused hrefused =>
    rw [operate_refused hrefused]
    exact Yields.fail line _
  | dot object member =>
    have hobject := h object (by simp)
    exact (Yields.memberName line member).bind fun name =>
      (hobject.value inLoop none).bind fun _ =>
        Yields.emitSymbol (by decide) name (by decide) rfl (Nat.zero_le _)
  | binary hop harity left right =>
    have hleft := h left (by simp)
    have hright := h right (by simp)
    rw [operate_binary hop harity]
    refine (hleft.value inLoop none).bind fun _ => ?_
    cases hcircuit : shortCircuit? op with
    | some keep =>
      have hkeep : keep.isBranch = true ∧ keep.delta = 0 := by
        cases op <;> first | contradiction | (cases hcircuit; decide)
      have hpop : (Lowering.emit .pop : Lowering σ Unit).Yields popped fit 0 0
          fun _ x => x.Moves popped 1 0 :=
        instr (by decide) (by decide) rfl (Nat.zero_le _)
      exact Yields.skip hkeep.1 hkeep.2 (by decide) (hpop.bind fun _ => hright.value inLoop none)
    | none =>
      obtain ⟨hplain, hdelta⟩ := plain_binaryOpcode hop harity hcircuit
      have hsecond := (hright.value inLoop none).above (k := 1) (by decide)
      exact hsecond.bind fun _ => instr hplain (by omega) (by omega) (Nat.zero_le _)
  | unary hop harity operand =>
    obtain ⟨hplain, hdelta⟩ := plain_unaryOpcode op
    have hunary : (Lowering.emit (unaryOpcode op) : Lowering σ Unit).Yields popped fit 0 0
        fun _ x => x.Moves popped 1 1 :=
      instr hplain (by omega) (by omega) (Nat.zero_le _)
    rw [operate_unary harity]
    exact ((h operand (by simp)).value inLoop none).bind fun _ => hunary

theorem lowers_forLoop {m : Mark} {init cond step : Option Node} {body : Node}
    (h : ∀ k ∈ (Node.forLoop m init cond step body).children, Lowers σ policy popped fit k)
    (hdrop : popped → ∀ s ∈ (Node.forLoop m init cond step body).statements, s.Discards) :
    Lowers σ policy popped fit (.forLoop m init cond step body) := by
  intro inLoop role _
  rw [node_forLoop]
  have hbody := (h body (by simp [Node.children])).statement
    (fun hp => hdrop hp body (by simp [Node.statements])) true
  have hround : (round policy inLoop cond body : Lowering σ Unit).Yields popped fit 0 0
      fun _ x => x.Keeps popped True 0 := by
    cases cond with
    | none => exact hbody
    | some cond => exact Yields.tested ((h cond (by simp [Node.children])).value inLoop none) hbody
  have hadvance : (advance policy inLoop step : Lowering σ Unit).Yields popped fit 0 0
      fun _ x => x.Keeps popped True 0 := by
    cases step with
    | none => exact Yields.keeps (Yields.pure ())
    | some step =>
      exact (h step (by simp [Node.children])).statement
        (fun hp => hdrop hp step (by simp [Node.statements])) inLoop
  have hloop : (Lowering.loop (round policy inLoop cond body) (advance policy inLoop step) .branch
      .tail : Lowering σ Unit).Yields popped fit 0 0 fun _ x => x.Keeps popped True 0 :=
    Yields.loop .tail rfl rfl hround hadvance
  refine asStatement role m.line ((Yields.markLine m.line).bind_keeps fun _ => ?_)
  cases init with
  | none => exact hloop
  | some init =>
    have hinit := (h init (by simp [Node.children])).statement
      (fun hp => hdrop hp init (by simp [Node.statements])) inLoop
    exact hinit.keeps_bind fun _ => hloop

theorem lowers_foreach {m : Mark} {collection : Node} {key : Option String} {value : String}
    {body : Node}
    (h : ∀ k ∈ (Node.foreach m collection key value body).children, Lowers σ policy popped fit k)
    (hdrop : popped → body.Discards) :
    Lowers σ policy popped fit (.foreach m collection key value body) := by
  intro inLoop role _
  rw [Lowering.node.eq_def]
  have hcollection := h collection (by simp [Node.children])
  have hbody := h body (by simp [Node.children])
  refine asStatement role m.line ?_
  refine (Yields.markLine m.line).bind_keeps fun _ => ?_
  refine (Yields.foreachSlot _ m.line 0).bind_keeps fun keySlot => ?_
  refine (Yields.foreachSlot _ m.line 4).bind_keeps fun valueSlot => ?_
  refine ((hcollection.value inLoop none).owe 8).bind_keeps fun _ => ?_
  refine (Yields.pushInt (-2) (by decide)).bind_keeps fun _ => ?_
  -- the instruction of the loop pays for the two slots
  have hnext : (Lowering.emitInt .foreach (SlotPair.pack { key := keySlot, value := valueSlot })
      : Lowering σ Unit).Yields popped fit 8 0 fun _ x => x.Moves popped 0 1 :=
    Yields.emitInt (by decide) _ (by decide) rfl (by decide)
  have hskip : (Pure.pure () : Lowering σ Unit).Yields popped fit 0 0 fun _ x =>
      x.Keeps popped False 0 :=
    Yields.keeps (Yields.pure ())
  have hback : Opcode.branch.delta = 0 := rfl
  have hloop := Yields.loop .top rfl hback (Yields.tested hnext (hbody.statement hdrop true)) hskip
  have hpop : (Lowering.emit .pop2 : Lowering σ Unit).Yields popped fit 0 0
      fun _ x => x.Moves popped 2 0 :=
    instr (by decide) (by decide) rfl (Nat.zero_le _)
  exact hloop.bind_of (fun _ => hpop) fun _ _ _ _ hx hy => hx.seq_moves hy (by decide)

/-- An assignment that is a statement of its own. -/
theorem lowers_assign {m : Mark} {operands : List Node}
    (h : ∀ k ∈ operands, Lowers σ policy popped fit k)
    (hbelow : ∀ k ∈ operands, ∀ l ∈ k.children, Lowers σ policy popped fit l) (inLoop : Bool) :
    (Lowering.node policy inLoop .statement (.operation m .assign operands) :
      Lowering σ Unit).Yields popped fit 0 0 fun _ x => x.Keeps popped True 0 := by
  rw [Lowering.node.eq_def]
  refine (Yields.markLine m.line).bind_keeps fun _ => Yields.keeps ?_
  rcases operands with _ | ⟨target, _ | ⟨value, _ | _⟩⟩
  case cons.cons.nil =>
    refine (lowers_place (hbelow target (by simp)) inLoop m.line).bind fun p => ?_
    have hvalue := ((h value (by simp)).value inLoop p.name?).above (k := p.depth) p.depth_nonneg
    rw [Int.zero_add, Int.add_comm] at hvalue
    exact hvalue.bind fun _ => Yields.store m.line p
  all_goals exact Yields.fail m.line _

theorem lowers_operation {m : Mark} {op : Operator} {operands : List Node}
    (h : ∀ k ∈ operands, Lowers σ policy popped fit k)
    (hbelow : ∀ k ∈ operands, ∀ l ∈ k.children, Lowers σ policy popped fit l) :
    Lowers σ policy popped fit (.operation m op operands) := by
  intro inLoop role hrole
  by_cases hstatement : op = .assign ∧ role = .statement
  · obtain ⟨rfl, rfl⟩ := hstatement
    exact lowers_assign h hbelow inLoop
  have hm (hr : role = .statement) (hp : popped) : m.flags.contains .popResult := by
    refine (hrole hr hp).popResult rfl ?_
    rintro _ _ ⟨⟩
    exact hstatement ⟨rfl, hr⟩
  rw [node_operation hstatement]
  exact asValue role m hm fun _ => lowers_operate h inLoop m.line

theorem lowers_call {m : Mark} {callee : Node} {args : List Node} {receiver : Option Node}
    (h : ∀ k ∈ (Node.call m callee args receiver).children, Lowers σ policy popped fit k)
    (hbelow : ∀ k ∈ callee.children, Lowers σ policy popped fit k) :
    Lowers σ policy popped fit (.call m callee args receiver) := by
  intro inLoop role hrole
  rw [Lowering.node.eq_def]
  have hall (k : Node) (hk : k ∈ args) : Lowers σ policy popped fit k :=
    h k (by simp [Node.children, hk])
  have hargs := lowers_arguments hall inLoop (d := 2) (by decide)
  have hcall := hargs.bind fun _ => Yields.emitCall args.length m.line
  have hcallee := ((h callee (by simp [Node.children])).value inLoop none).above (k := 1)
    (by decide)
  refine asValue role m (fun hr hp => hrole hr hp rfl) fun _ => ?_
  cases receiver with
  | some receiver =>
    have hreceiver := h receiver (by simp [Node.children])
    exact (hreceiver.value inLoop none).bind fun _ => hcallee.bind fun _ => hcall
  | none =>
    show Yields _ _ _ _ _ (if _ then _ else _)
    split
    · exact (lowers_method hbelow inLoop m.line).bind fun _ => hcall
    · exact (Yields.pushReceiver policy callee).bind fun _ => hcallee.bind fun _ => hcall

theorem lowers_node (n : Node) (hn : n.Meets popped fit) : Lowers σ policy popped fit n := by
  -- assignments, calls and keyed fields look below their operands
  induction n using Node.induction_below with
  | h n ih ih₂ =>
    have below {m : Node} (hm : m ∈ n.children) : Lowers σ policy popped fit m :=
      ih hm (hn.child hm)
    have below₂ (m : Node) (hm : m ∈ n.children) (k : Node) (hk : k ∈ m.children) :
        Lowers σ policy popped fit k :=
      ih₂ m hm k hk ((hn.child hm).child hk)
    have drops {s : Node} (hs : s ∈ n.statements) (hp : popped) : s.Discards :=
      hn.discards hp (.self n) hs
    intro inLoop role hrole
    rw [Lowering.node.eq_def]
    cases n with
    | declaration m storage name =>
      exact asStatement role m.line (Yields.keeps (Yields.declare m storage name))
    | parameter m name =>
      exact asStatement role m.line (Yields.fail m.line _)
    | block m items =>
      exact asStatement role m.line
        (lowers_statements (fun m hm => below hm) (fun hp m hm => drops hm hp) inLoop)
    | ifElse m cond thenBranch elseBranch =>
      have hcond : Lowers σ policy popped fit cond := below (by simp [Node.children])
      have hthen : Lowers σ policy popped fit thenBranch := below (by simp [Node.children])
      have hyes := hthen.statement (drops (by simp [Node.statements])) inLoop
      refine asStatement role m.line ?_
      refine (Yields.markLine m.line).bind_keeps fun _ =>
        (hcond.value inLoop none).bind_keeps fun _ => ?_
      cases elseBranch with
      | none => exact Yields.skip_keeps rfl rfl hyes
      | some other =>
        have hother : Lowers σ policy popped fit other := below (by simp [Node.children])
        exact Yields.either hyes (hother.statement (drops (by simp [Node.statements])) inLoop)
    | whileLoop m cond body =>
      have hcond : Lowers σ policy popped fit cond := below (by simp [Node.children])
      have hbody : Lowers σ policy popped fit body := below (by simp [Node.children])
      refine asStatement role m.line ?_
      exact (Yields.markLine m.line).bind_keeps fun _ =>
        Yields.loop .top rfl rfl (Yields.tested (hcond.value inLoop none)
          (hbody.statement (drops (by simp [Node.statements])) true))
          (Yields.keeps (Yields.pure ()))
    | doLoop m body cond =>
      have hcond : Lowers σ policy popped fit cond := below (by simp [Node.children])
      have hbody : Lowers σ policy popped fit body := below (by simp [Node.children])
      refine asStatement role m.line ?_
      exact (Yields.markLine m.line).bind_keeps fun _ =>
        Yields.loop_value .tail rfl rfl
          (hbody.statement (drops (by simp [Node.statements])) true) (hcond.value inLoop none)
    | forLoop m init cond step body =>
      have hloop := lowers_forLoop (fun k hk => below hk) (fun hp s hs => drops hs hp) inLoop role
        hrole
      rwa [Lowering.node.eq_def] at hloop
    | foreach m collection key value body =>
      have hloop := lowers_foreach (fun k hk => below hk) (drops (by simp [Node.statements])) inLoop
        role hrole
      rwa [Lowering.node.eq_def] at hloop
    | breakLoop m =>
      refine asStatement role m.line ?_
      exact (Yields.markLine m.line).bind_keeps fun _ => Yields.jump inLoop .breakLoop m.line
    | continueLoop m =>
      refine asStatement role m.line ?_
      exact (Yields.markLine m.line).bind_keeps fun _ => Yields.jump inLoop .continueLoop m.line
    | ret m value =>
      refine asStatement role m.line ?_
      refine (Yields.markLine m.line).bind_keeps fun _ => Yields.keeps ?_
      cases value with
      | none => exact instr (by decide) (by decide) rfl (Nat.zero_le _)
      | some value =>
        have h : Lowers σ policy popped fit value := below (by simp [Node.children])
        exact (h.value inLoop none).bind fun _ =>
          instr (by decide) (by decide) rfl (Nat.zero_le _)
    | operation m op operands =>
      have hoperation := lowers_operation (fun k hk => below hk) below₂ inLoop role hrole
      rwa [Lowering.node.eq_def] at hoperation
    | constant m value =>
      exact asValue role m (fun hr hp => hrole hr hp rfl) fun _ => Yields.pushConstant value
    | identifier m name =>
      exact asValue role m (fun hr hp => hrole hr hp rfl) fun _ => Yields.pushVariable m name
    | call m callee args receiver =>
      have hcall := lowers_call (fun k hk => below hk) (below₂ callee (by simp [Node.children]))
        inLoop role hrole
      rwa [Lowering.node.eq_def] at hcall
    | this m =>
      exact asValue role m (fun hr hp => hrole hr hp rfl) fun _ =>
        instr (by decide) (by decide) rfl (Nat.zero_le _)
    | function m params body =>
      have hbody : Lowers σ policy popped fit body := below (by simp [Node.children])
      exact asValue role m (fun hr hp => hrole hr hp rfl) fun name =>
        Yields.function (hbody.statement (drops (by simp [Node.statements])) false)
          (hn.params (.self _)) name
    | table m fields =>
      have hnew : (Lowering.emit .pushTable : Lowering σ Unit).Yields popped fit 0 0
          fun _ x => x.Moves popped 0 1 :=
        instr (by decide) (by decide) rfl (Nat.zero_le _)
      exact asValue role m (fun hr hp => hrole hr hp rfl) fun _ => hnew.bind fun _ =>
        lowers_tableFields (fun k hk => below hk) below₂ inLoop m.line 0

/-- Whatever the tree, its code leaves one value, or none or more as a statement. -/
theorem lowers_any (n : Node) : Lowers σ policy False (fun _ => True) n :=
  lowers_node n ⟨False.elim, fun _ => trivial⟩

end Compile

end ScriptToolchain
