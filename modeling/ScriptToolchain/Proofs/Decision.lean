import ScriptToolchain.Proofs.Forms
import ScriptToolchain.Proofs.Judgement

/-!
# Lowering decides the grammar

Every node is lowered in a role, and lowering succeeds exactly where the
grammar admits the node in that role. The proof is an induction over the tree
with one step of `Judges` for each step of lowering; the function literals in
it change the table that the invariant is about.
-/

namespace ScriptToolchain

/-- A call has room for so many arguments. -/
def ArgumentsFit (count : Nat) : Prop :=
  count < UInt32.size

/-- The grammar admits the node in this role. -/
def Compile.Role.Admits (inLoop : Bool) : Compile.Role → Node → Prop
  | .statement, n => Grammar.Statement ArgumentsFit inLoop n
  | .value _, n => Grammar.Expression ArgumentsFit n

/-- A node of the right shape may be met in this role. -/
def Compile.Role.Suits : Compile.Role → Node → Prop
  | .statement, n => n.parameter? = none
  | .value _, n => n.isExpression

namespace Node

/-- Where names fit, the table has those of the function and no others. -/
def Keeps (named : Prop) (body : Node) (names : List String) (t : VariableTable) : Prop :=
  named → t.Within names body.SetsInLoop

/-- The function with this body has the node, and what is known of names and shape is true of it. -/
structure Has (named shaped : Prop) (body : Node) (names : List String) (n : Node) : Prop where
  uses : named → body.Uses names
  owns : named → body.Owns n
  literals : named → ∀ {m params body}, n.Contains (.function m params body) →
    FunctionNamesFit params body
  shape : shaped → n.Shaped

/-- Where names fit there are names of the function, and elsewhere none are needed. -/
theorem exists_names {named : Prop} {params : List Node} {body : Node}
    (h : named → FunctionNamesFit params body) :
    ∃ names, named → body.Uses names ∧ ∀ name ∈ params.filterMap parameter?, name ∈ names := by
  by_cases hnamed : named
  · obtain ⟨names, hfit⟩ := h hnamed
    exact ⟨names, fun _ => hfit⟩
  · exact ⟨[], fun hn => absurd hn hnamed⟩

theorem Has.inner {named shaped : Prop} {body n m : Node} {names : List String}
    (h : body.Has named shaped names n) (hm : m ∈ n.inner) :
    body.Has named shaped names m where
  uses := h.uses
  owns hn := (h.owns hn).inner hm
  literals hn _ _ _ hk := h.literals hn (.child (mem_children_of_inner hm) hk)
  shape hs := (h.shape hs).child (mem_children_of_inner hm)

theorem Has.expression {named shaped : Prop} {body n e : Node} {names : List String}
    (h : body.Has named shaped names n) (he : e ∈ n.expressions) (hs : shaped) : e.isExpression :=
  (h.shape hs n (.self n)).expressions e he

theorem Has.statement {named shaped : Prop} {body n s : Node} {names : List String}
    (h : body.Has named shaped names n) (hm : s ∈ n.statements) (hs : shaped) :
    s.parameter? = none :=
  (h.shape hs n (.self n)).statements s hm

end Node

/-- A variable that is stored to is one of these names. -/
def Compile.Place.IsIn (names : List String) : Compile.Place → Prop
  | .variable name _ => name ∈ names
  | _ => True

namespace Compile.Lowering.Judges

variable {σ : Type} {named shaped : Prop} {body : Node} {names : List String} {inLoop : Bool}
  {P : Prop}

/-! ## Names -/

theorem declare {m : Mark} {storage : StorageClass} {name : String}
    (h : body.Has named shaped names (.declaration m storage name)) :
    (Lowering.declare m storage name : Lowering σ Unit).Decides named shaped
      (body.Keeps named names) True := by
  refine (Judges.names (J := fun _ => body.Keeps named names) fun t ht hn =>
    (ht hn).declare fun hl => (h.uses hn).locals (h.owns hn) hl).next fun a => ?_
  cases a with
  | conflict kept requested => exact warn m.line rfl
  | new => exact pure ()
  | again => exact pure ()

/-- A variable of `foreach` gets a slot that fits. -/
theorem foreachSlot {n : Node} (h : body.Has named shaped names n) (name : String)
    (hname : name ∈ n.loopNames) (hvar : name ∈ n.variableNames) (line : UInt32) :
    (Lowering.foreachSlot name line : Lowering σ UInt16).Decides named shaped
      (body.Keeps named names) True := by
  let J : Option Nat → VariableTable → Prop := fun a t =>
    (named → ∃ slot, a = some slot ∧ slot < UInt16.size) ∧ body.Keeps named names t
  have hslot (t : VariableTable) (ht : body.Keeps named names t) :
      J (t.localSlot name).1 (t.localSlot name).2 := by
    refine ⟨fun hn => ?_, fun hn => ?_⟩
    · have hlist := (h.uses hn).listed (h.owns hn) hvar
      obtain ⟨slot, hsome, hlt⟩ := (ht hn).localSlot_some hlist ⟨n, h.owns hn, hname⟩
      exact ⟨slot, hsome, Nat.lt_of_lt_of_le hlt (h.uses hn).few⟩
    · exact (ht hn).localSlot ((h.uses hn).listed (h.owns hn) hvar)
  refine (Judges.names hslot).next fun a => assume fun ha => ?_
  have herror {f : Finding} (hf : f.severity = .error) (hno : ¬ named) :
      (Lowering.fail line f : Lowering σ UInt16).Decides named shaped
        (body.Keeps named names) True :=
    fail_of line (fun _ _ hn => absurd hn hno) (Finding.blames_of_error (by rw [hf]; decide))
      (by rw [hf]; decide)
  cases a with
  | none =>
    refine herror rfl fun hn => ?_
    obtain ⟨slot, hsome, -⟩ := ha hn
    cases hsome
  | some slot =>
    show Judges _ _ _ _ _ (if _ then _ else _)
    split
    · exact pure _
    · rename_i hlarge
      refine herror rfl fun hn => ?_
      obtain ⟨_, ⟨⟩, hlt⟩ := ha hn
      exact hlarge hlt

theorem pushVariable [Host σ] {m : Mark} {name : String}
    (h : body.Has named shaped names (.identifier m name)) :
    (Lowering.pushVariable m name : Lowering σ Unit).Decides named shaped
      (body.Keeps named names) True := by
  have hname (hn : named) : name ∈ names :=
    (h.uses hn).listed (h.owns hn) (List.mem_singleton_self name)
  refine (Judges.names (J := fun _ => body.Keeps named names) fun t ht hn =>
    (ht hn).resolve (hname hn)).next fun a => ?_
  match a with
  | some (.slot n) => exact put _
  | some .member => exact emitSymbol _ name
  | some .global | none => exact emitSymbol _ name

/-- A name that is no variable yet becomes a local. -/
theorem localSlot_of_none {t : VariableTable} {name : String} (h : t.class? name = none) :
    (t.localSlot name).1 ≠ none := by
  rw [VariableTable.localSlot, h]
  exact Option.some_ne_none _

theorem storeVariable [Host σ] {name : String}
    (hname : named → name ∈ names) (isMember : Bool) (line : UInt32) :
    (Lowering.storeVariable name isMember line : Lowering σ Unit).Decides named shaped
      (body.Keeps named names) True := by
  let J : Option Storage → VariableTable → Prop := fun a t =>
    (a = none → t.class? name = none) ∧ body.Keeps named names t
  have hresolve (t : VariableTable) (ht : body.Keeps named names t) :
      J (t.resolve name).1 (t.resolve name).2 := by
    refine ⟨fun ha => ?_, fun hn => (ht hn).resolve (hname hn)⟩
    rw [VariableTable.resolve] at ha ⊢
    split at ha
    all_goals first | assumption | cases ha
  refine (Judges.names hresolve).next fun a => ?_
  cases a with
  | some storage =>
    cases storage with
    | slot n => exact weaken (put _) fun _ ht => ht.2
    | member => exact weaken (emitSymbol _ name) fun _ ht => ht.2
    | global => exact weaken (emitSymbol _ name) fun _ ht => ht.2
  | none =>
    show Judges _ _ _ _ _ (if _ then _ else _)
    split
    · exact weaken (emitSymbol _ name) fun _ ht => ht.2
    -- the name has no class, so that it gets a slot and the last case never comes
    · refine (Judges.names (J := fun a t => a ≠ none ∧ body.Keeps named names t) fun t ht =>
        ⟨localSlot_of_none (ht.1 rfl), fun hn => (ht.2 hn).localSlot (hname hn)⟩).next fun a => ?_
      refine assume fun ha => ?_
      cases a with
      | some n => exact put _
      | none => exact absurd rfl ha

theorem store [Host σ] {p : Place} (h : named → p.IsIn names) (line : UInt32) :
    (Lowering.store line p : Lowering σ Unit).Decides named shaped (body.Keeps named names)
      True := by
  match p, h with
  | .field name, _ => exact emitSymbol _ name
  | .element, _ => exact put _
  | .variable name isMember, h => exact storeVariable h isMember line

/-- The parameters are declarations of new names, all different. -/
def NewNames (t : VariableTable) (params : List Node) : Prop :=
  ((∀ p ∈ params, p.parameter?.isSome) ∧ (params.filterMap Node.parameter?).Nodup) ∧
    ∀ name ∈ params.filterMap Node.parameter?, t.class? name = none

theorem class?_declareParameter {t : VariableTable} {name : String} (h : t.class? name = none)
    (other : String) :
    (t.declareParameter name).2.class? other = none ↔ other ≠ name ∧ t.class? other = none := by
  have hclass : (t.declareParameter name).2.class? other =
      if other = name then some .local else t.class? other := by
    rw [VariableTable.declareParameter, h]
    exact t.class?_insert name other .local (t.params + 1)
  rw [hclass]
  split <;> simp_all

theorem newNames_cons {t : VariableTable} {m : Mark} {name : String} {rest : List Node}
    (h : t.class? name = none) :
    NewNames t (.parameter m name :: rest) ↔ NewNames (t.declareParameter name).2 rest := by
  simp only [NewNames, class?_declareParameter h]
  simp only [List.filterMap_cons, Node.parameter?, List.mem_cons, List.nodup_cons, forall_eq_or_imp]
  grind

theorem declareParameters (line : UInt32) {params : List Node} {t : VariableTable}
    (ht : body.Keeps named names t)
    (hnames : named → ∀ name ∈ params.filterMap Node.parameter?, name ∈ names)
    (hshape : shaped → ∀ p ∈ params, p.parameter?.isSome) :
    (Lowering.declareParameters line params : Lowering σ Unit).Judges named shaped (· = t)
      (fun _ => body.Keeps named names) (NewNames t params) := by
  induction params generalizing t with
  | nil =>
    refine of_iff ?_ (weaken (I := body.Keeps named names) (pure ()) ?_)
    · simp [NewNames]
    · rintro _ rfl
      exact ht
  | cons p rest ih =>
    cases p with
    | parameter m name =>
      refine (Judges.names (J := fun a t' => a = (t.declareParameter name).1 ∧
        t' = (t.declareParameter name).2) (by rintro _ rfl; exact ⟨rfl, rfl⟩)).next fun a => ?_
      refine assume fun ha => ?_
      cases hclass : t.class? name with
      | none =>
        have hslot : ∃ slot, (t.declareParameter name).1 = some slot := by
          rw [VariableTable.declareParameter, hclass]
          exact ⟨_, rfl⟩
        obtain ⟨slot, hslot⟩ := hslot
        obtain rfl := ha.trans hslot
        refine of_iff (newNames_cons hclass).symm (ih ?_ ?_ ?_)
        · exact fun hn => (ht hn).declareParameter (hnames hn name (by simp [Node.parameter?]))
        · exact fun hn other ho => hnames hn other (by simp_all [Node.parameter?])
        · exact fun hs p hp => hshape hs p (List.mem_cons_of_mem _ hp)
      | some storage =>
        have hnone : (t.declareParameter name).1 = none := by
          rw [VariableTable.declareParameter, hclass]
        obtain rfl := ha.trans hnone
        refine fail _ ?_ rfl
        rintro ⟨-, hnew⟩
        rw [hnew name (by simp [Node.parameter?])] at hclass
        cases hclass
    | _ =>
      refine fail_shape _ ?_ ?_ rfl rfl
      · rintro ⟨⟨hparams, -⟩, -⟩
        cases hparams _ (List.mem_cons_self ..)
      · intro hs
        cases hshape hs _ (List.mem_cons_self ..)

theorem memberName (line : UInt32) {member : Node} :
    (Lowering.memberName line member : Lowering σ String).Decides named shaped
      (body.Keeps named names) member.identifier?.isSome := by
  rw [Lowering.memberName]
  cases member.identifier? with
  | some name => exact of_iff (by simp) (pure name)
  | none => exact fail line (by simp) rfl

theorem emitCall (count : Nat) (line : UInt32) :
    (Lowering.emitCall count line : Lowering σ Unit).Decides named shaped
      (body.Keeps named names) (ArgumentsFit count) := by
  rw [Lowering.emitCall]
  split
  · exact of_iff ⟨fun _ => ‹_›, fun _ => trivial⟩ (put _)
  · exact fail line ‹_› rfl

theorem pushConstant [Host σ] (value : Constant) :
    (Lowering.pushConstant value : Lowering σ Unit).Decides named shaped
      (body.Keeps named names) True := by
  cases value with
  | null => exact put _
  | int v => exact put _
  | float bits => exact put _
  | str s => exact (ask _).next fun _ => put _

theorem pushReceiver (policy : ReceiverPolicy) (callee : Node) :
    (Lowering.pushReceiver policy callee : Lowering σ Unit).Decides named shaped
      (body.Keeps named names) True := by
  cases policy with
  | currentThis => exact put _
  | memberOnly =>
    refine table.next fun t => ?_
    show Judges _ _ _ _ _ (if _ then _ else _)
    split
    · exact put _
    · exact put _

/-! ## Roles -/

/-- A node that is no expression has no value to give. -/
theorem asStatement {l : Lowering σ Unit} {role : Role} {n : Node} (line : UInt32)
    (hn : n.isExpression = false) (hrole : shaped → role.Suits n)
    (h : l.Decides named shaped (body.Keeps named names)
      (Grammar.Statement ArgumentsFit inLoop n)) :
    (Lowering.asStatement role line l).Decides named shaped (body.Keeps named names)
      (role.Admits inLoop n) := by
  have hnot : n.isExpression ≠ true := by rw [hn]; exact Bool.false_ne_true
  cases role with
  | statement => exact h
  | value name =>
    exact fail_shape line (fun he => hnot he.isExpression) (fun hs => hnot (hrole hs)) rfl rfl

/-- A node with a value is a statement if it is an expression. -/
theorem asValue {l : Option String → Lowering σ Unit} {role : Role} {n : Node} (m : Mark)
    (hn : role = .statement →
      (Grammar.Statement ArgumentsFit inLoop n ↔ Grammar.Expression ArgumentsFit n))
    (h : ∀ name, (l name).Decides named shaped (body.Keeps named names)
      (Grammar.Expression ArgumentsFit n)) :
    (Lowering.asValue role m l).Decides named shaped (body.Keeps named names)
      (role.Admits inLoop n) := by
  refine (markLine m.line).next fun _ => ?_
  cases role with
  | value name => exact h name
  | statement =>
    refine of_iff (hn rfl).symm ((h none).done fun _ => ?_)
    show Judges _ _ _ _ _ (if _ then _ else _)
    split
    · exact put _
    · exact pure ()

end Compile.Lowering.Judges

namespace Compile

open Lowering.Judges

variable {σ : Type} [Host σ] {policy : ReceiverPolicy} {named shaped : Prop} {body : Node}
  {names : List String}

/-- In every role that suits the node, lowering it decides whether the grammar admits it. -/
def Decided (σ : Type) [Host σ] (policy : ReceiverPolicy) (named shaped : Prop) (body : Node)
    (names : List String) (n : Node) : Prop :=
  ∀ inLoop role, (shaped → role.Suits n) →
    (Lowering.node policy inLoop role n : Lowering σ Unit).Decides named shaped
      (body.Keeps named names) (role.Admits inLoop n)

theorem Decided.value {n : Node} (h : Decided σ policy named shaped body names n)
    (hn : shaped → n.isExpression) (inLoop : Bool) (name : Option String) :
    (Lowering.node policy inLoop (.value name) n : Lowering σ Unit).Decides named shaped
      (body.Keeps named names) (Grammar.Expression ArgumentsFit n) :=
  h inLoop (.value name) hn

theorem Decided.statement {n : Node} (h : Decided σ policy named shaped body names n)
    (hn : shaped → n.parameter? = none) (inLoop : Bool) :
    (Lowering.node policy inLoop .statement n : Lowering σ Unit).Decides named shaped
      (body.Keeps named names) (Grammar.Statement ArgumentsFit inLoop n) :=
  h inLoop .statement hn

theorem decides_statements {items : List Node}
    (h : ∀ n ∈ items, Decided σ policy named shaped body names n)
    (hshape : shaped → ∀ n ∈ items, n.parameter? = none) (inLoop : Bool) :
    (Lowering.statements policy inLoop items : Lowering σ Unit).Decides named shaped
      (body.Keeps named names) (∀ n ∈ items, Grammar.Statement ArgumentsFit inLoop n) := by
  induction items with
  | nil =>
    rw [Lowering.statements]
    exact of_iff (by simp) (pure ())
  | cons n rest ih =>
    rw [Lowering.statements]
    have hfirst := (h n (List.mem_cons_self ..)).statement
      (fun hs => hshape hs n (List.mem_cons_self ..)) inLoop
    refine of_iff List.forall_mem_cons.symm (hfirst.bind fun _ => ?_)
    exact ih (fun m hm => h m (List.mem_cons_of_mem _ hm))
      fun hs m hm => hshape hs m (List.mem_cons_of_mem _ hm)

theorem decides_arguments (args : List Node)
    (h : ∀ n ∈ args, Decided σ policy named shaped body names n)
    (hshape : shaped → ∀ n ∈ args, n.isExpression) (inLoop : Bool) :
    (Lowering.arguments policy inLoop args : Lowering σ Unit).Decides named shaped
      (body.Keeps named names) (∀ n ∈ args, Grammar.Expression ArgumentsFit n) := by
  induction args with
  | nil =>
    rw [Lowering.arguments]
    exact of_iff (by simp) (pure ())
  | cons n rest ih =>
    rw [Lowering.arguments]
    have hfirst := (h n (List.mem_cons_self ..)).value
      (fun hs => hshape hs n (List.mem_cons_self ..)) inLoop none
    refine of_iff List.forall_mem_cons.symm (hfirst.bind fun _ => ?_)
    exact ih (fun m hm => h m (List.mem_cons_of_mem _ hm))
      fun hs m hm => hshape hs m (List.mem_cons_of_mem _ hm)

/-- What an operation evaluates, and the shape that its operands have. -/
theorem operand_shape {m : Mark} {op : Operator} {operands : List Node}
    (h : body.Has named shaped names (.operation m op operands)) :
    shaped → operands.length = op.arity ∧ ∀ e ∈ operands, e.isExpression :=
  fun hs => ⟨(h.shape hs _ (.self _)).arity, (h.shape hs _ (.self _)).expressions⟩

/-- The left side of an assignment; a variable is one of the function. -/
theorem decides_place {n : Node} (hn : body.Has named shaped names n)
    (h : ∀ m ∈ n.inner, Decided σ policy named shaped body names m) (inLoop : Bool)
    (line : UInt32) :
    (Lowering.place policy inLoop line n : Lowering σ Place).Judges named shaped
      (body.Keeps named names)
      (fun p t => (named → p.IsIn names) ∧ body.Keeps named names t)
      (Grammar.Target ArgumentsFit n) := by
  rw [Lowering.place.eq_def]
  cases n with
  | operation m op operands =>
    have hshape := operand_shape hn
    cases op with
    | dot =>
      rcases operands with _ | ⟨object, _ | ⟨member, _ | _⟩⟩
      case cons.cons.nil =>
        have hobject := (h object (List.mem_singleton_self _)).value
          (fun hs => (hshape hs).2 object (by simp)) inLoop none
        exact of_iff Grammar.target_dot.symm ((memberName line).bind fun name =>
          hobject.done fun _ => answer _ fun _ ht => ⟨fun _ => trivial, ht⟩)
      all_goals
        exact fail_shape line (by rintro ⟨⟩) (fun hs => by cases (hshape hs).1) rfl rfl
    | index =>
      rcases operands with _ | ⟨object, _ | ⟨key, _ | _⟩⟩
      case cons.cons.nil =>
        have hobject := (h object (by simp [Node.inner, Node.children])).value
          (fun hs => (hshape hs).2 object (by simp)) inLoop none
        have hkey := (h key (by simp [Node.inner, Node.children])).value
          (fun hs => (hshape hs).2 key (by simp)) inLoop none
        exact of_iff Grammar.target_index.symm (hobject.bind fun _ =>
          hkey.done fun _ => answer _ fun _ ht => ⟨fun _ => trivial, ht⟩)
      all_goals
        exact fail_shape line (by rintro ⟨⟩) (fun hs => by cases (hshape hs).1) rfl rfl
    | _ => exact fail line (by rintro ⟨⟩) rfl
  | identifier m name =>
    refine of_iff ⟨fun _ => .identifier m name, fun _ => trivial⟩ (answer _ fun _ ht => ⟨?_, ht⟩)
    exact fun hnamed => (hn.uses hnamed).listed (hn.owns hnamed) (List.mem_singleton_self name)
  | _ => exact fail line (by rintro ⟨⟩) rfl

theorem decides_method {m : Mark} {operands : List Node}
    (hn : body.Has named shaped names (.operation m .dot operands))
    (h : ∀ k ∈ (Node.operation m .dot operands).inner,
      Decided σ policy named shaped body names k) (inLoop : Bool) (line : UInt32) :
    (Lowering.method policy inLoop line (.operation m .dot operands) : Lowering σ Unit).Decides
      named shaped (body.Keeps named names)
      (Grammar.Expression ArgumentsFit (.operation m .dot operands)) := by
  rw [Lowering.method.eq_def]
  have hshape := operand_shape hn
  rcases operands with _ | ⟨object, _ | ⟨member, _ | _⟩⟩
  case cons.cons.nil =>
    have hobject := (h object (List.mem_singleton_self _)).value
      (fun hs => (hshape hs).2 object (by simp)) inLoop none
    exact of_iff Grammar.expression_dot.symm ((memberName line).bind fun name =>
      hobject.done fun _ => (put _).next fun _ => emitSymbol _ name)
  all_goals
    exact fail_shape line (fun he => by cases he.arity) (fun hs => by cases (hshape hs).1) rfl rfl

theorem decides_keyedField {m : Mark} {operands : List Node}
    (hn : body.Has named shaped names (.operation m .assignField operands))
    (h : ∀ k ∈ (Node.operation m .assignField operands).inner,
      Decided σ policy named shaped body names k) (inLoop : Bool) (line : UInt32) :
    (Lowering.keyedField policy inLoop line (.operation m .assignField operands) :
      Lowering σ Unit).Decides named shaped (body.Keeps named names)
      (Grammar.Field ArgumentsFit (.operation m .assignField operands)) := by
  rw [Lowering.keyedField.eq_def]
  have hshape := operand_shape hn
  rcases operands with _ | ⟨key, _ | ⟨value, _ | _⟩⟩
  case cons.cons.nil =>
    have hvalue (name : String) := (h value (List.mem_singleton_self _)).value
      (fun hs => (hshape hs).2 value (by simp)) inLoop (some name)
    refine of_iff Grammar.field_keyed.symm ?_
    dsimp only
    cases hkey : key.identifier? with
    | some name =>
      refine of_iff ?_ ((hvalue name).done fun _ => emitSymbol _ name)
      simp [hkey]
    | none =>
      refine fail _ ?_ rfl
      rintro ⟨key, value, heq, hname, -⟩
      cases heq
      rw [hkey] at hname
      cases hname
  all_goals
    refine fail _ ?_ rfl
    rw [Grammar.field_keyed]
    rintro ⟨key, value, heq, -⟩
    cases heq

theorem decides_tableFields {fields : List Node}
    (hn : ∀ n ∈ fields, body.Has named shaped names n)
    (h : ∀ n ∈ fields, Decided σ policy named shaped body names n)
    (hbelow : ∀ n ∈ fields, ∀ k ∈ n.inner, Decided σ policy named shaped body names k)
    (hshape : shaped → ∀ n ∈ fields, n.isExpression) (inLoop : Bool) (line : UInt32)
    (position : Int32) :
    (Lowering.tableFields policy inLoop line position fields : Lowering σ Unit).Decides named
      shaped (body.Keeps named names) (∀ n ∈ fields, Grammar.Field ArgumentsFit n) := by
  induction fields generalizing position with
  | nil =>
    rw [Lowering.tableFields]
    exact of_iff (by simp) (pure ())
  | cons n rest ih =>
    have hrest := ih (fun m hm => hn m (List.mem_cons_of_mem _ hm))
      (fun m hm => h m (List.mem_cons_of_mem _ hm))
      (fun m hm => hbelow m (List.mem_cons_of_mem _ hm))
      fun hs m hm => hshape hs m (List.mem_cons_of_mem _ hm)
    have hself : n ∈ n :: rest := List.mem_cons_self ..
    rw [Lowering.tableFields]
    refine of_iff List.forall_mem_cons.symm ((put _).next fun _ => ?_)
    split
    · rename_i hop
      match n, hop, hn n hself, hbelow n hself with
      | .operation m .assignField operands, _, hn, hbelow =>
        exact (decides_keyedField hn hbelow inLoop line).bind fun _ => hrest position
    · rename_i hop
      have hvalue := (h n hself).value (fun hs => hshape hs n hself) inLoop none
      refine (put _).next fun _ => ?_
      exact (of_iff (Grammar.field_positional hop).symm hvalue).bind fun _ =>
        (put _).next fun _ => hrest (position + 1)

/-- The operands of an operator that takes two of them are both evaluated, or the first decides. -/
theorem decides_binary {left right : Node}
    (hleft : Decided σ policy named shaped body names left)
    (hright : Decided σ policy named shaped body names right)
    (hshape : shaped → ∀ e ∈ [left, right], e.isExpression) (op : Operator) (inLoop : Bool) :
    (do
      Lowering.node policy inLoop (.value none) left
      match shortCircuit? op with
      | some op =>
        Lowering.skip op do
          Lowering.emit .pop
          Lowering.node policy inLoop (.value none) right
      | none =>
        Lowering.node policy inLoop (.value none) right
        Lowering.emit (binaryOpcode op) : Lowering σ Unit).Decides named shaped
      (body.Keeps named names) (∀ e ∈ [left, right], Grammar.Expression ArgumentsFit e) := by
  have hfirst := hleft.value (fun hs => hshape hs left (by simp)) inLoop none
  have hsecond := hright.value (fun hs => hshape hs right (by simp)) inLoop none
  refine of_iff (P := Grammar.Expression ArgumentsFit left ∧ Grammar.Expression ArgumentsFit right)
    (by simp) (hfirst.bind fun _ => ?_)
  cases shortCircuit? op with
  | some keep => exact Lowering.Judges.skip keep ((put _).next fun _ => hsecond)
  | none => exact hsecond.done fun _ => put _

theorem mem_inner_of_isPlain {m : Mark} {op : Operator} {operands : List Node} {k : Node}
    (hop : Grammar.isPlain op) (hk : k ∈ operands) : k ∈ (Node.operation m op operands).inner := by
  cases op <;> first | exact hk | cases hop

theorem decides_operation (m : Mark) (op : Operator) (operands : List Node) (inLoop : Bool) :
    body.Has named shaped names (.operation m op operands) →
    (∀ k ∈ (Node.operation m op operands).inner, Decided σ policy named shaped body names k) →
    (Lowering.operate policy inLoop m.line op operands : Lowering σ Unit).Decides named shaped
      (body.Keeps named names) (Grammar.Expression ArgumentsFit (.operation m op operands)) := by
  intro hn h
  have hshape := operand_shape hn
  clear hn
  cases operationForm op operands with
  | refused hrefused =>
    rw [Lowering.operate_refused hrefused, Lowering.refusal]
    by_cases harity : operands.length ≠ op.arity
    · rw [if_pos harity]
      exact fail_shape m.line (fun he => harity he.arity) (fun hs => harity (hshape hs).1) rfl rfl
    · rw [if_neg harity]
      rcases hrefused.resolve_left harity with rfl | rfl
      · exact fail m.line (fun he => he.ne_assign rfl) rfl
      · exact fail m.line (fun he => he.ne_assignField rfl) rfl
  | dot object member =>
    have hobject := (h object (List.mem_singleton_self _)).value
      (fun hs => (hshape hs).2 object (by simp)) inLoop none
    exact of_iff Grammar.expression_dot.symm ((memberName m.line).bind fun name =>
      hobject.done fun _ => emitSymbol _ name)
  | binary hop harity left right =>
    have hleft := h left (mem_inner_of_isPlain hop (by simp))
    have hright := h right (mem_inner_of_isPlain hop (by simp))
    have hgrammar : Grammar.Expression ArgumentsFit (.operation m op [left, right]) ↔
        ∀ e ∈ [left, right], Grammar.Expression ArgumentsFit e :=
      Grammar.expression_operation hop harity.symm
    rw [Lowering.operate_binary hop harity]
    exact of_iff hgrammar.symm
      (decides_binary hleft hright (fun hs => (hshape hs).2) op inLoop)
  | unary hop harity operand =>
    have hoperand := (h operand (mem_inner_of_isPlain hop (by simp))).value
      (fun hs => (hshape hs).2 operand (by simp)) inLoop none
    have hgrammar : Grammar.Expression ArgumentsFit (.operation m op [operand]) ↔
        ∀ e ∈ [operand], Grammar.Expression ArgumentsFit e :=
      Grammar.expression_operation hop harity.symm
    rw [Lowering.operate_unary harity]
    exact of_iff (hgrammar.trans List.forall_mem_singleton).symm (hoperand.done fun _ => put _)

theorem decides_assign (m : Mark) (operands : List Node) (inLoop : Bool) :
    body.Has named shaped names (.operation m .assign operands) →
    (∀ k ∈ (Node.operation m .assign operands).inner,
      Decided σ policy named shaped body names k) →
    (∀ k ∈ (Node.operation m .assign operands).inner, ∀ l ∈ k.inner,
      Decided σ policy named shaped body names l) →
    (match operands with
      | [target, value] => do
        let p ← Lowering.place policy inLoop m.line target
        Lowering.node policy inLoop (.value p.name?) value
        Lowering.store m.line p
      | _ => Lowering.fail m.line .assignOperands : Lowering σ Unit).Decides named shaped
      (body.Keeps named names)
      (Grammar.Statement ArgumentsFit inLoop (.operation m .assign operands)) := by
  intro hn h hbelow
  have hshape := operand_shape hn
  refine of_iff Grammar.statement_assign.symm ?_
  match operands, hn, h, hbelow, hshape with
  | [target, value], hn, h, hbelow, hshape =>
    have htarget : target ∈ (Node.operation m .assign [target, value]).inner := by
      simp [Node.inner, Node.children]
    have hvalue (name : Option String) := (h value (by simp [Node.inner, Node.children])).value
      (fun hs => (hshape hs).2 value (by simp)) inLoop name
    have hplace := decides_place (hn.inner htarget) (hbelow target htarget) inLoop m.line
    refine of_iff (P := Grammar.Target ArgumentsFit target ∧
      Grammar.Expression ArgumentsFit value) (by simp) (hplace.bind fun p => assume fun hp => ?_)
    exact (hvalue p.name?).done fun _ => store hp m.line
  | [], _, _, _, hshape | [_], _, _, _, hshape | _ :: _ :: _ :: _, _, _, _, hshape =>
    refine fail_shape m.line ?_ (fun hs => nomatch (hshape hs).1) rfl rfl
    rintro ⟨target, value, heq, -⟩
    cases heq

/-- A function literal has a table of its own. -/
theorem decides_function {m : Mark} {params : List Node} {inside : Node}
    (hn : body.Has named shaped names (.function m params inside))
    (h : ∀ names', inside.Has named shaped names' inside →
      Decided σ policy named shaped inside names' inside) (name : Option String) :
    (Lowering.function name (do
      Lowering.declareParameters m.line params
      Lowering.node policy false .statement inside
      Lowering.emit .ret) : Lowering σ Unit).Decides named shaped (body.Keeps named names)
      (Grammar.Expression ArgumentsFit (.function m params inside)) := by
  have hchild : inside ∈ (Node.function m params inside).children := by simp [Node.children]
  obtain ⟨names', hfit⟩ := Node.exists_names fun hnamed => hn.literals hnamed (.self _)
  have hinside : inside.Has named shaped names' inside :=
    ⟨fun hnamed => (hfit hnamed).1, fun _ => .self inside,
      fun hnamed _ _ _ hk => hn.literals hnamed (.child hchild hk),
      fun hs => (hn.shape hs).child hchild⟩
  have hshape (hs : shaped) := hn.shape hs _ (.self _)
  have hparams : (Lowering.declareParameters m.line params : Lowering σ Unit).Judges named shaped
      (fun t => t = {}) (fun _ => inside.Keeps named names') (NewNames {} params) :=
    declareParameters m.line (fun _ => VariableTable.within_empty _ _)
      (fun hnamed => (hfit hnamed).2) fun hs => (hshape hs).parameters
  have hbody := (h names' hinside).statement
    (fun hs => (hshape hs).statements inside (by simp [Node.statements])) false
  have hnew : NewNames {} params ↔ (∀ p ∈ params, p.parameter?.isSome) ∧
      (params.filterMap Node.parameter?).Nodup :=
    ⟨fun h => h.1, fun h => ⟨h, fun _ _ => Std.TreeMap.getElem?_emptyc⟩⟩
  exact of_iff Grammar.expression_function.symm (function name
    ((of_iff hnew hparams).bind fun _ => hbody.done fun _ => put _))

theorem decides_forLoop {m : Mark} {init cond step : Option Node} {inside : Node}
    (hn : body.Has named shaped names (.forLoop m init cond step inside))
    (h : ∀ k ∈ (Node.forLoop m init cond step inside).inner,
      Decided σ policy named shaped body names k) :
    Decided σ policy named shaped body names (.forLoop m init cond step inside) := by
  intro inLoop role hrole
  rw [Lowering.node_forLoop]
  have hinside := (h inside (by simp [Node.inner, Node.children])).statement
    (hn.statement (by simp [Node.statements])) true
  -- a part that is missing is no condition
  have hround : (Lowering.round policy inLoop cond inside : Lowering σ Unit).Decides named shaped
      (body.Keeps named names) ((∀ e ∈ cond, Grammar.Expression ArgumentsFit e) ∧
        Grammar.Statement ArgumentsFit true inside) := by
    cases cond with
    | none => exact of_iff (by simp) hinside
    | some cond =>
      have hcond := (h cond (by simp [Node.inner, Node.children])).value
        (hn.expression (by simp [Node.expressions])) inLoop none
      exact of_iff (by simp) (tested hcond hinside)
  have hadvance : (Lowering.advance policy inLoop step : Lowering σ Unit).Decides named shaped
      (body.Keeps named names) (∀ s ∈ step, Grammar.Statement ArgumentsFit inLoop s) := by
    cases step with
    | none => exact of_iff (by simp) (pure ())
    | some step =>
      have hstep := (h step (by simp [Node.inner, Node.children])).statement
        (hn.statement (by simp [Node.statements])) inLoop
      exact of_iff (by simp) hstep
  have hloop := loop .branch .tail hround hadvance
  refine asStatement m.line rfl hrole (of_iff Grammar.statement_forLoop.symm ?_)
  refine (markLine m.line).next fun _ => ?_
  cases init with
  | none => exact of_iff (and_iff_right (by simp)).symm hloop
  | some init =>
    have hinit := (h init (by simp [Node.inner, Node.children])).statement
      (hn.statement (by simp [Node.statements])) inLoop
    exact of_iff (and_congr_left' (by simp)) (hinit.bind fun _ => hloop)

theorem decides_foreach {m : Mark} {collection : Node} {key : Option String} {value : String}
    {inside : Node} (hn : body.Has named shaped names (.foreach m collection key value inside))
    (h : ∀ k ∈ (Node.foreach m collection key value inside).inner,
      Decided σ policy named shaped body names k) :
    Decided σ policy named shaped body names (.foreach m collection key value inside) := by
  intro inLoop role hrole
  rw [Lowering.node.eq_def]
  have hcollection := (h collection (by simp [Node.inner, Node.children])).value
    (hn.expression (by simp [Node.expressions])) inLoop none
  have hinside := (h inside (by simp [Node.inner, Node.children])).statement
    (hn.statement (by simp [Node.statements])) true
  have hslot {name : String} (hname : name ∈ [key.getD hiddenKey, value]) :=
    foreachSlot (σ := σ) hn name hname hname m.line
  have hround (slots : SlotPair) :
      (Lowering.loop (Lowering.tested (Lowering.emitInt .foreach (SlotPair.pack slots))
        (Lowering.node policy true .statement inside)) (Pure.pure ()) .branch .top :
        Lowering σ Unit).Decides named shaped (body.Keeps named names)
        (Grammar.Statement ArgumentsFit true inside) :=
    of_iff (by simp) (loop .branch .top (tested (put _) hinside) (pure ()))
  refine asStatement m.line rfl hrole (of_iff Grammar.statement_foreach.symm ?_)
  refine (markLine m.line).next fun _ => ?_
  refine (hslot (by simp)).next fun keySlot => (hslot (by simp)).next fun valueSlot => ?_
  exact hcollection.bind fun _ => (put _).next fun _ =>
    (hround { key := keySlot, value := valueSlot }).done fun _ => put _

theorem decides_call {m : Mark} {callee : Node} {args : List Node} {receiver : Option Node}
    (hn : body.Has named shaped names (.call m callee args receiver))
    (h : ∀ k ∈ (Node.call m callee args receiver).inner,
      Decided σ policy named shaped body names k)
    (hbelow : ∀ k ∈ callee.inner, Decided σ policy named shaped body names k) :
    Decided σ policy named shaped body names (.call m callee args receiver) := by
  intro inLoop role hrole
  rw [Lowering.node.eq_def]
  have hmem : callee ∈ (Node.call m callee args receiver).inner := by
    simp [Node.inner, Node.children]
  have hcallee := (h callee hmem).value (hn.expression (by simp [Node.expressions])) inLoop none
  have hargs := decides_arguments args (fun k hk => h k (by simp [Node.inner, Node.children, hk]))
    (fun hs k hk => hn.expression (by simp [Node.expressions, hk]) hs) inLoop
  have hcall := hargs.bind fun _ => emitCall (σ := σ) args.length m.line
  refine asValue m (fun _ => Grammar.statement_expression rfl (by rintro _ _ ⟨⟩)) fun _ => ?_
  refine of_iff Grammar.expression_call.symm ?_
  cases receiver with
  | some receiver =>
    have hreceiver := (h receiver (by simp [Node.inner, Node.children])).value
      (hn.expression (by simp [Node.expressions])) inLoop none
    exact of_iff (by simp [and_assoc]) (hreceiver.bind fun _ => hcallee.bind fun _ => hcall)
  | none =>
    refine of_iff (and_congr_left' (and_iff_right (by simp)).symm) ?_
    show Lowering.Judges _ _ _ _ _ (if _ then _ else _)
    split
    · -- a callee by dot is no expression of its own here: its object is the receiver as well
      rename_i hop
      cases callee with
      | operation k op operands =>
        obtain rfl := Option.some.inj hop
        exact (decides_method (hn.inner hmem) hbelow inLoop m.line).bind fun _ => hcall
      | _ => cases hop
    · exact (pushReceiver policy callee).next fun _ => hcallee.bind fun _ => hcall

theorem decides_node (n : Node) (hn : body.Has named shaped names n) :
    Decided σ policy named shaped body names n := by
  -- for all tables, because a function literal starts a new one
  induction n using Node.induction_below generalizing body names with
  | h n ih ih₂ =>
    have below {k : Node} (hk : k ∈ n.inner) : Decided σ policy named shaped body names k :=
      ih (Node.mem_children_of_inner hk) (hn.inner hk)
    have below₂ (k : Node) (hk : k ∈ n.inner) (l : Node) (hl : l ∈ k.inner) :
        Decided σ policy named shaped body names l :=
      ih₂ k (Node.mem_children_of_inner hk) l (Node.mem_children_of_inner hl)
        ((hn.inner hk).inner hl)
    intro inLoop role hrole
    rw [Lowering.node.eq_def]
    cases n with
    | declaration m storage name =>
      exact asStatement m.line rfl hrole
        (of_iff Grammar.statement_declaration.symm (declare hn))
    | parameter m name =>
      cases role with
      | statement =>
        exact fail_shape m.line Grammar.statement_parameter (fun hs => by cases hrole hs) rfl rfl
      | value name =>
        exact fail_shape m.line (fun he => by cases he.isExpression)
          (fun hs => by cases hrole hs) rfl rfl
    | block m items =>
      refine asStatement m.line rfl hrole (of_iff Grammar.statement_block.symm ?_)
      exact decides_statements (fun k hk => below hk) (fun hs k hk => hn.statement hk hs) inLoop
    | ifElse m cond thenBranch elseBranch =>
      have hcond := (below (k := cond) (by simp [Node.inner, Node.children])).value
        (hn.expression (by simp [Node.expressions])) inLoop none
      have hthen := (below (k := thenBranch) (by simp [Node.inner, Node.children])).statement
        (hn.statement (by simp [Node.statements])) inLoop
      refine asStatement m.line rfl hrole (of_iff Grammar.statement_ifElse.symm ?_)
      refine (markLine m.line).next fun _ => hcond.bind fun _ => ?_
      cases elseBranch with
      | none => exact of_iff (by simp) (skip .branchZero hthen)
      | some other =>
        have hother := (below (k := other) (by simp [Node.inner, Node.children])).statement
          (hn.statement (by simp [Node.statements])) inLoop
        exact of_iff (by simp) (either hthen hother)
    | whileLoop m cond inside =>
      have hcond := (below (k := cond) (by simp [Node.inner, Node.children])).value
        (hn.expression (by simp [Node.expressions])) inLoop none
      have hinside := (below (k := inside) (by simp [Node.inner, Node.children])).statement
        (hn.statement (by simp [Node.statements])) true
      refine asStatement m.line rfl hrole (of_iff Grammar.statement_whileLoop.symm ?_)
      refine (markLine m.line).next fun _ => ?_
      exact of_iff (Iff.of_eq (and_true _)) (loop .branch .top (tested hcond hinside) (pure ()))
    | doLoop m inside cond =>
      have hcond := (below (k := cond) (by simp [Node.inner, Node.children])).value
        (hn.expression (by simp [Node.expressions])) inLoop none
      have hinside := (below (k := inside) (by simp [Node.inner, Node.children])).statement
        (hn.statement (by simp [Node.statements])) true
      refine asStatement m.line rfl hrole (of_iff Grammar.statement_doLoop.symm ?_)
      exact (markLine m.line).next fun _ => loop .branchNonZero .tail hinside hcond
    | forLoop m init cond step inside =>
      have hloop := decides_forLoop hn (fun k hk => below hk) inLoop role hrole
      rwa [Lowering.node.eq_def] at hloop
    | foreach m collection key value inside =>
      have hloop := decides_foreach hn (fun k hk => below hk) inLoop role hrole
      rwa [Lowering.node.eq_def] at hloop
    | breakLoop m =>
      refine asStatement m.line rfl hrole (of_iff Grammar.statement_breakLoop.symm ?_)
      exact (markLine m.line).next fun _ => jump inLoop .breakLoop m.line
    | continueLoop m =>
      refine asStatement m.line rfl hrole (of_iff Grammar.statement_continueLoop.symm ?_)
      exact (markLine m.line).next fun _ => jump inLoop .continueLoop m.line
    | ret m value =>
      refine asStatement m.line rfl hrole (of_iff Grammar.statement_ret.symm ?_)
      refine (markLine m.line).next fun _ => ?_
      cases value with
      | none => exact of_iff (by simp) (put _)
      | some value =>
        have hvalue := (below (k := value) (by simp [Node.inner, Node.children])).value
          (hn.expression (by simp [Node.expressions])) inLoop none
        exact of_iff (by simp) (hvalue.done fun _ => put _)
    | operation m op operands =>
      show Lowering.Judges _ _ _ _ _ (if _ then _ else _)
      split
      case isTrue h =>
        -- an assignment that is a statement of its own is met before operands are counted
        obtain ⟨rfl, rfl⟩ := h
        refine (markLine m.line).next fun _ => ?_
        exact decides_assign m operands inLoop hn (fun k hk => below hk) below₂
      case isFalse hrest =>
        refine asValue m ?_ fun _ => ?_
        · intro hr
          refine Grammar.statement_expression rfl ?_
          rintro _ _ ⟨⟩
          exact hrest ⟨rfl, hr⟩
        · exact decides_operation m op operands inLoop hn fun k hk => below hk
    | constant m value =>
      refine asValue m (fun _ => Grammar.statement_expression rfl (by rintro _ _ ⟨⟩)) fun _ => ?_
      exact of_iff ⟨fun _ => .constant m value, fun _ => trivial⟩ (pushConstant value)
    | identifier m name =>
      refine asValue m (fun _ => Grammar.statement_expression rfl (by rintro _ _ ⟨⟩)) fun _ => ?_
      exact of_iff ⟨fun _ => .identifier m name, fun _ => trivial⟩ (pushVariable hn)
    | call m callee args receiver =>
      have hcall := decides_call hn (fun k hk => below hk)
        (below₂ callee (by simp [Node.inner, Node.children])) inLoop role hrole
      rwa [Lowering.node.eq_def] at hcall
    | this m =>
      refine asValue m (fun _ => Grammar.statement_expression rfl (by rintro _ _ ⟨⟩)) fun _ => ?_
      exact of_iff ⟨fun _ => .this m, fun _ => trivial⟩ (put _)
    | function m params inside =>
      refine asValue m (fun _ => Grammar.statement_expression rfl (by rintro _ _ ⟨⟩)) fun name => ?_
      exact decides_function hn (fun names' hinside => ih (by simp [Node.children]) hinside) name
    | table m fields =>
      refine asValue m (fun _ => Grammar.statement_expression rfl (by rintro _ _ ⟨⟩)) fun _ => ?_
      refine of_iff Grammar.expression_table.symm ((put _).next fun _ => ?_)
      exact decides_tableFields (fun k hk => hn.inner hk) (fun k hk => below hk)
        (fun k hk => below₂ k hk) (fun hs k hk => hn.expression hk hs) inLoop m.line 0

end Compile

end ScriptToolchain
