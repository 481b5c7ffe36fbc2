import ScriptToolchain.Proofs.Forms
import ScriptToolchain.Proofs.Tours

/-!
# Lowering goes along the tour

`Watched` puts a record of all calls beside any host, and lets the host answer.
`Lowering.Tours` judges a step of lowering by a piece of a tour: an id is asked
for where a literal is entered, its function is made where it is left, and the
lines that are met are marked unless they are unknown or current. A step goes
along the tour of every node, so a whole body goes along the tour of the body.
-/

namespace ScriptToolchain

namespace Compile

open Node

/-! ## Watched hosts -/

/-- A call of a host; a question stands with its answer. -/
inductive Call where
  | started (debug : Bool)
  | ended (errors : Nat)
  | functionId (id : UInt64)
  | symbolId (name : String) (id : UInt64)
  | stringId (text : String) (id : UInt64)
  | deliver (f : CompiledFunction)
deriving Repr, DecidableEq

namespace Call

/-- The function id that is given out, if one is. -/
def id? : Call → Option UInt64
  | .functionId id => some id
  | _ => none

/-- The call asks for an id. -/
def isQuestion : Call → Bool
  | .functionId _ | .symbolId .. | .stringId .. => true
  | _ => false

end Call

/-- A host together with the calls that it has got. -/
structure Watched (σ : Type) where
  host : σ
  calls : List Call := []

namespace Watched

variable {σ : Type}

/-- The function ids that were given out. -/
def ids (w : Watched σ) : List UInt64 :=
  w.calls.filterMap Call.id?

instance [Host σ] : Host (Watched σ) where
  started debug w :=
    { host := Host.started debug w.host, calls := w.calls ++ [.started debug] }
  ended errors w := { host := Host.ended errors w.host, calls := w.calls ++ [.ended errors] }
  functionId w :=
    let (id, host) := Host.functionId w.host
    (id, { host, calls := w.calls ++ [.functionId id] })
  symbolId name w :=
    let (id, host) := Host.symbolId name w.host
    (id, { host, calls := w.calls ++ [.symbolId name id] })
  stringId text w :=
    let (id, host) := Host.stringId text w.host
    (id, { host, calls := w.calls ++ [.stringId text id] })
  deliver f w :=
    let (answer, host) := Host.deliver f w.host
    (answer, { host, calls := w.calls ++ [.deliver f] })

end Watched

/-! ## Marks -/

/-- The lines that a block marks, in order. -/
def Block.marks : Block → List UInt32
  | .empty | .instr .. | .jump .. => []
  | .mark line => [line]
  | .seq a b | .either a b | .loop a b .. => a.marks ++ b.marks
  | .skip _ body => body.marks

/-- What is marked of some lines: all but those that are unknown or current. -/
def marksFrom (current : UInt32) : List UInt32 → List UInt32
  | [] => []
  | line :: rest =>
    if line != 0 && line != current then line :: marksFrom line rest else marksFrom current rest

/-- The line that is current behind some marks. -/
def lineBehind (current : UInt32) (marks : List UInt32) : UInt32 :=
  marks.getLast?.getD current

theorem lineBehind_append (current : UInt32) (xs ys : List UInt32) :
    lineBehind current (xs ++ ys) = lineBehind (lineBehind current xs) ys := by
  rw [lineBehind, lineBehind, lineBehind, List.getLast?_append]
  cases ys.getLast? <;> rfl

theorem lineBehind_cons (current line : UInt32) (rest : List UInt32) :
    lineBehind current (line :: rest) = lineBehind line rest :=
  lineBehind_append current [line] rest

theorem marksFrom_append (current : UInt32) (xs ys : List UInt32) :
    marksFrom current (xs ++ ys) =
      marksFrom current xs ++ marksFrom (lineBehind current (marksFrom current xs)) ys := by
  induction xs generalizing current with
  | nil => rfl
  | cons line rest ih =>
    rw [List.cons_append, marksFrom, marksFrom]
    split
    · rw [ih, lineBehind_cons, List.cons_append]
    · rw [ih]

/-! ## Literals -/

variable {σ : Type} [Host σ] {policy : ReceiverPolicy}

/-- The code of a function literal on `line`. -/
def Lowering.literal (policy : ReceiverPolicy) (line : UInt32) (params : List Node) (body : Node) :
    Lowering σ Unit := do
  Lowering.declareParameters line params
  Lowering.node policy false .statement body
  Lowering.emit .ret

/-- The code of a unit. -/
def Lowering.unit (policy : ReceiverPolicy) (n : Node) : Lowering σ Unit := do
  Lowering.node policy false .statement n
  Lowering.emit .ret

/-- The outline is what a step gives in a new function, in some state of the host. -/
def Outline.LoweredBy (l : Outline) (step : Lowering σ Unit) : Prop :=
  ∃ c c' : Scope σ, c.names = {} ∧ c.line = 0 ∧ step c = .ok () l.code c' ∧ l.names = c'.names

/-- The outline is that of a function literal. -/
def Outline.Describes (σ : Type) [Host σ] (policy : ReceiverPolicy) (l : Outline) (literal : Node) :
    Prop :=
  ∃ m params body, literal = .function m params body ∧
    l.LoweredBy (σ := Watched σ) (Lowering.literal policy m.line params body)

/-- The ids that were asked for along a tour, and the functions that were made. -/
structure Literals (σ : Type) [Host σ] (policy : ReceiverPolicy) (vs : List Visit)
    (asked : List (Occurrence × UInt64)) (made : List (Occurrence × Outline)) : Prop where
  enters : asked.map Prod.fst = entered vs
  leaves : made.map Prod.fst = left vs
  ids : (made.map fun x => (x.1, x.2.id)).Perm asked
  describes : ∀ x ∈ made, x.2.Describes σ policy x.1.literal

namespace Literals

variable {vs ws : List Visit} {asked asked' : List (Occurrence × UInt64)}
  {made made' : List (Occurrence × Outline)}

theorem silent (hentered : entered vs = []) (hleft : left vs = []) :
    Literals σ policy vs [] [] where
  enters := hentered.symm
  leaves := hleft.symm
  ids := .nil
  describes := nofun

theorem append (h : Literals σ policy vs asked made) (h' : Literals σ policy ws asked' made') :
    Literals σ policy (vs ++ ws) (asked ++ asked') (made ++ made') where
  enters := by rw [List.map_append, h.enters, h'.enters, entered_append]
  leaves := by rw [List.map_append, h.leaves, h'.leaves, left_append]
  ids := by
    rw [List.map_append]
    exact h.ids.append h'.ids
  describes x hx := (List.mem_append.mp hx).elim (h.describes x) (h'.describes x)

/-- The same literals, seen from one node higher. -/
theorem below (h : Literals σ policy vs asked made) (i : Nat) :
    Literals σ policy (vs.map (Visit.below i)) (asked.map (Prod.map (Occurrence.below i) id))
      (made.map (Prod.map (Occurrence.below i) id)) where
  enters := by
    rw [entered_below, ← h.enters]
    simp
  leaves := by
    rw [left_below, ← h.leaves]
    simp
  ids := by
    have hids := h.ids.map (Prod.map (Occurrence.below i) id)
    simpa [Function.comp_def] using hids
  describes := by
    intro x hx
    obtain ⟨y, hy, rfl⟩ := List.mem_map.mp hx
    exact h.describes y hy

/-- A literal around others is asked for before them and made behind them. -/
theorem around (h : Literals σ policy vs asked made) (o : Occurrence) {l : Outline}
    (hl : l.Describes σ policy o.literal) :
    Literals σ policy (.enter o :: vs.filter Visit.isLiteral ++ [.leave o]) ((o, l.id) :: asked)
      (made ++ [(o, l)]) where
  enters := by
    rw [List.map_cons, h.enters, entered_append, entered_cons, entered_isLiteral]
    exact (List.append_nil _).symm
  leaves := by
    rw [List.map_append, h.leaves, left_append, left_cons, left_isLiteral]
    rfl
  ids := by
    rw [List.map_append]
    exact (List.perm_append_singleton _ _).trans (h.ids.cons _)
  describes := by
    intro x hx
    rcases List.mem_append.mp hx with hx | hx
    · exact h.describes x hx
    · rwa [List.mem_singleton.mp hx]

end Literals

/-! ## Going along a tour -/

/-- What happens to the scope along a piece of a tour. -/
structure Scope.Tours (policy : ReceiverPolicy) (vs : List Visit) (code : Block)
    (c c' : Scope (Watched σ)) : Prop where
  literals : ∃ asked made, Literals σ policy vs asked made ∧
    c'.host.ids = c.host.ids ++ asked.map Prod.snd ∧
    c'.outlines = (made.map Prod.snd).reverse ++ c.outlines
  marks : code.marks = marksFrom c.line (lines vs)
  line : c'.line = lineBehind c.line code.marks
  parts : ∀ {m : Node}, .part m ∈ vs → m.isExpression = true

namespace Scope.Tours

variable {vs ws : List Visit} {a b : Block} {c c' c'' : Scope (Watched σ)}

theorem seq (h : Scope.Tours policy vs a c c') (h' : Scope.Tours policy ws b c' c'') :
    Scope.Tours policy (vs ++ ws) (.seq a b) c c'' where
  literals := by
    obtain ⟨asked, made, hliterals, hids, houtlines⟩ := h.literals
    obtain ⟨asked', made', hliterals', hids', houtlines'⟩ := h'.literals
    refine ⟨asked ++ asked', made ++ made', hliterals.append hliterals', ?_, ?_⟩
    · rw [hids', hids, List.map_append, List.append_assoc]
    · rw [houtlines', houtlines, List.map_append, List.reverse_append, List.append_assoc]
  marks := by
    rw [Block.marks, h.marks, h'.marks, lines_append, marksFrom_append, h.line, h.marks]
  line := by
    rw [Block.marks, lineBehind_append, h'.line, h.line]
  parts hm := (List.mem_append.mp hm).elim h.parts h'.parts

theorem of_marks (h : Scope.Tours policy vs a c c') (hab : b.marks = a.marks) :
    Scope.Tours policy vs b c c' where
  literals := h.literals
  marks := hab.trans h.marks
  line := by rw [hab, h.line]
  parts := h.parts

theorem below (h : Scope.Tours policy vs a c c') (i : Nat) :
    Scope.Tours policy (vs.map (Visit.below i)) a c c' where
  literals := by
    obtain ⟨asked, made, hliterals, hids, houtlines⟩ := h.literals
    refine ⟨_, _, hliterals.below i, ?_, ?_⟩
    · rw [hids]
      simp
    · rw [houtlines]
      simp
  marks := by rw [lines_below, h.marks]
  line := h.line
  parts := by
    intro m hm
    obtain ⟨v, hv, heq⟩ := List.mem_map.mp hm
    cases v <;> cases heq
    exact h.parts hv

end Scope.Tours

namespace Lowering

variable {α β : Type} {vs ws : List Visit}

/-- Where the step gives code, it goes along a piece of a tour. -/
def Tours (policy : ReceiverPolicy) (vs : List Visit) (l : Lowering (Watched σ) α) : Prop :=
  ∀ c a code c', l c = .ok a code c' → Scope.Tours policy vs code c c'

namespace Tours

theorem of_eq {l : Lowering (Watched σ) α} (h : l.Tours policy vs) (heq : vs = ws) :
    l.Tours policy ws :=
  heq ▸ h

theorem bind {l : Lowering (Watched σ) α} {f : α → Lowering (Watched σ) β}
    (h : l.Tours policy vs) (hf : ∀ a, (f a).Tours policy ws) :
    (l >>= f).Tours policy (vs ++ ws) := by
  intro c b code c' hl
  obtain ⟨a, x, c₁, y, hfirst, hsecond, rfl⟩ := bind_eq_ok hl
  exact (h c a x c₁ hfirst).seq (hf a c₁ b y c' hsecond)

/-- A step behind which nothing is met. -/
theorem done {l : Lowering (Watched σ) α} {f : α → Lowering (Watched σ) β}
    (h : l.Tours policy vs) (hf : ∀ a, (f a).Tours policy []) : (l >>= f).Tours policy vs :=
  (h.bind hf).of_eq (List.append_nil vs)

theorem fail (line : UInt32) (f : Finding) :
    (Lowering.fail line f : Lowering (Watched σ) α).Tours policy vs :=
  fun _ _ _ _ hl => by cases hl

/-- A step without literals that marks nothing. -/
theorem silent {l : Lowering (Watched σ) α} (hentered : entered vs = []) (hleft : left vs = [])
    (hlines : lines vs = []) (hparts : ∀ {m}, .part m ∈ vs → m.isExpression = true)
    (h : ∀ c a code c', l c = .ok a code c' → c'.host.ids = c.host.ids ∧
      c'.outlines = c.outlines ∧ c'.line = c.line ∧ code.marks = []) :
    l.Tours policy vs := by
  intro c a code c' hl
  obtain ⟨hids, houtlines, hline, hcode⟩ := h c a code c' hl
  refine ⟨⟨[], [], .silent hentered hleft, ?_, ?_⟩, ?_, ?_, hparts⟩
  · rw [hids]
    exact (List.append_nil _).symm
  · rw [houtlines]
    rfl
  · rw [hcode, hlines, marksFrom]
  · rw [hcode, hline]
    rfl

/-- A step at which nothing is met. -/
theorem quiet {l : Lowering (Watched σ) α}
    (h : ∀ c a code c', l c = .ok a code c' → c'.host.ids = c.host.ids ∧
      c'.outlines = c.outlines ∧ c'.line = c.line ∧ code.marks = []) :
    l.Tours policy [] :=
  silent rfl rfl rfl nofun h

theorem pure (a : α) : (Pure.pure a : Lowering (Watched σ) α).Tours policy [] :=
  quiet fun _ _ _ _ hl => by cases hl; exact ⟨rfl, rfl, rfl, rfl⟩

theorem put {b : Block} (hb : b.marks = []) :
    (Lowering.put b : Lowering (Watched σ) Unit).Tours policy [] :=
  quiet fun _ _ _ _ hl => by cases hl; exact ⟨rfl, rfl, rfl, hb⟩

theorem emit (op : Opcode) : (Lowering.emit op : Lowering (Watched σ) Unit).Tours policy [] :=
  put rfl

theorem emitInt (op : Opcode) (v : UInt32) :
    (Lowering.emitInt op v : Lowering (Watched σ) Unit).Tours policy [] :=
  put rfl

theorem report (line : UInt32) (f : Finding) :
    (Lowering.report line f : Lowering (Watched σ) Unit).Tours policy [] :=
  quiet fun _ _ _ _ hl => by cases hl; exact ⟨rfl, rfl, rfl, rfl⟩

theorem table : (Lowering.table : Lowering (Watched σ) VariableTable).Tours policy [] :=
  quiet fun _ _ _ _ hl => by cases hl; exact ⟨rfl, rfl, rfl, rfl⟩

theorem names (f : VariableTable → α × VariableTable) :
    (Lowering.names f : Lowering (Watched σ) α).Tours policy [] :=
  quiet fun _ _ _ _ hl => by cases hl; exact ⟨rfl, rfl, rfl, rfl⟩

theorem pushInt (v : Int32) : (Lowering.pushInt v : Lowering (Watched σ) Unit).Tours policy [] :=
  put rfl

/-- The ids of symbols and of strings are counted on their own. -/
theorem emitSymbol (op : Opcode) (name : String) :
    (Lowering.emitSymbol op name : Lowering (Watched σ) Unit).Tours policy [] := by
  refine quiet fun c a code c' hl => ?_
  cases hl
  exact ⟨by simp [Watched.ids, Host.symbolId, Call.id?], rfl, rfl, rfl⟩

theorem pushConstant (v : Constant) :
    (Lowering.pushConstant v : Lowering (Watched σ) Unit).Tours policy [] := by
  cases v with
  | null => exact emit _
  | int v => exact pushInt v
  | float bits => exact put rfl
  | str text =>
    refine quiet fun c a code c' hl => ?_
    cases hl
    exact ⟨by simp [Watched.ids, Host.stringId, Call.id?], rfl, rfl, rfl⟩

theorem pushVariable (m : Mark) (name : String) :
    (Lowering.pushVariable m name : Lowering (Watched σ) Unit).Tours policy [] := by
  refine (names _).bind fun a => ?_
  rcases a with _ | (n | _ | _) <;> first | exact emitSymbol _ _ | exact emitInt _ _

theorem storeVariable (name : String) (isMember : Bool) (line : UInt32) :
    (Lowering.storeVariable name isMember line : Lowering (Watched σ) Unit).Tours policy [] := by
  refine (names _).bind fun a => ?_
  rcases a with _ | (n | _ | _)
  · show Tours _ _ (if _ then _ else _)
    split
    · exact emitSymbol _ _
    · refine (names _).bind fun a => ?_
      cases a with
      | none => exact fail line _
      | some n => exact emitInt _ _
  · exact emitInt _ _
  · exact emitSymbol _ _
  · exact emitSymbol _ _

theorem store (line : UInt32) (p : Place) :
    (Lowering.store line p : Lowering (Watched σ) Unit).Tours policy [] := by
  match p with
  | .field name => exact emitSymbol _ _
  | .element => exact emit _
  | .variable name isMember => exact storeVariable name isMember line

theorem foreachSlot (name : String) (line : UInt32) :
    (Lowering.foreachSlot name line : Lowering (Watched σ) UInt16).Tours policy [] := by
  refine (names _).bind fun a => ?_
  cases a with
  | none => exact fail line _
  | some n =>
    show Tours _ _ (if _ then _ else _)
    split
    · exact pure _
    · exact fail line _

theorem declare (m : Mark) (storage : StorageClass) (name : String) :
    (Lowering.declare m storage name : Lowering (Watched σ) Unit).Tours policy [] := by
  refine (names _).bind fun a => ?_
  cases a with
  | conflict kept requested => exact report m.line _
  | _ => exact pure ()

theorem pushReceiver (callee : Node) :
    (Lowering.pushReceiver policy callee : Lowering (Watched σ) Unit).Tours policy [] := by
  cases policy with
  | currentThis => exact emit _
  | memberOnly =>
    refine table.bind fun t => ?_
    show Tours _ _ (if _ then _ else _)
    split
    · exact emit _
    · exact emit _

theorem emitCall (count : Nat) (line : UInt32) :
    (Lowering.emitCall count line : Lowering (Watched σ) Unit).Tours policy [] := by
  rw [Lowering.emitCall]
  split
  · exact emitInt _ _
  · exact fail line _

theorem jump (inLoop : Bool) (j : Jump) (line : UInt32) :
    (Lowering.jump inLoop j line : Lowering (Watched σ) Unit).Tours policy [] := by
  rw [Lowering.jump]
  split
  · exact put rfl
  · exact fail line _

/-! ## Visits of one node -/

variable {l k : Lowering (Watched σ) Unit}

/-- A piece of a tour, seen from one node higher. -/
theorem below {l : Lowering (Watched σ) α} (h : l.Tours policy vs) (i : Nat) :
    l.Tours policy (vs.map (Visit.below i)) :=
  fun c a code c' hl => (h c a code c' hl).below i

/-- A node that marks no line is met without further ado. -/
theorem visit {l : Lowering (Watched σ) α} (n : Node) (hn : n.isMarked = false)
    (h : l.Tours policy vs) : l.Tours policy (.node n :: vs) := by
  have hnode : (Pure.pure () : Lowering (Watched σ) Unit).Tours policy [.node n] := by
    refine silent rfl rfl ?_ (fun hm => by cases List.mem_singleton.mp hm)
      fun _ _ _ _ hl => by cases hl; exact ⟨rfl, rfl, rfl, rfl⟩
    rw [lines, List.flatMap_singleton, Visit.lines, hn, if_neg Bool.false_ne_true]
  intro c a code c' hl
  exact ((hnode c () .empty c rfl).seq (h c a code c' hl)).of_marks rfl

/-- A node that is a part of the one above is met without a mark. -/
theorem part {l : Lowering (Watched σ) α} (n : Node) (hn : n.isExpression = true)
    (h : l.Tours policy vs) : l.Tours policy (.part n :: vs) := by
  have hnode : (Pure.pure () : Lowering (Watched σ) Unit).Tours policy [.part n] := by
    have hexpression : ∀ {m : Node}, Visit.part m ∈ [Visit.part n] → m.isExpression = true := by
      intro m hm
      cases List.mem_singleton.mp hm
      exact hn
    exact silent rfl rfl rfl hexpression fun _ _ _ _ hl => by cases hl; exact ⟨rfl, rfl, rfl, rfl⟩
  intro c a code c' hl
  exact ((hnode c () .empty c rfl).seq (h c a code c' hl)).of_marks rfl

theorem markLine (n : Node) (hn : n.isMarked = true) :
    (Lowering.markLine n.line : Lowering (Watched σ) Unit).Tours policy [.node n] := by
  intro c a code c' hl
  have hlines : lines [.node n] = [n.line] := by
    rw [lines, List.flatMap_singleton, Visit.lines, if_pos hn]
  have hliterals : ∃ asked made, Literals σ policy [.node n] asked made ∧
      c.host.ids = c.host.ids ++ asked.map Prod.snd ∧
      c.outlines = (made.map Prod.snd).reverse ++ c.outlines :=
    ⟨[], [], .silent rfl rfl, (List.append_nil _).symm, rfl⟩
  have hparts : ∀ {m : Node}, Visit.part m ∈ [Visit.node n] → m.isExpression = true :=
    fun hm => by cases List.mem_singleton.mp hm
  rw [Lowering.markLine] at hl
  split at hl
  · rename_i hmark
    cases hl
    refine ⟨hliterals, ?_, rfl, hparts⟩
    rw [hlines, marksFrom, if_pos hmark]
    rfl
  · rename_i hmark
    cases hl
    refine ⟨hliterals, ?_, rfl, hparts⟩
    rw [hlines, marksFrom, if_neg hmark]
    rfl

theorem asStatement (role : Role) (line : UInt32) (h : l.Tours policy vs) :
    (Lowering.asStatement role line l).Tours policy vs := by
  cases role with
  | statement => exact h
  | value name => exact fail line _

theorem asValue {l : Option String → Lowering (Watched σ) Unit} (n : Node) (role : Role)
    (hn : n.isMarked = true) (h : ∀ name, (l name).Tours policy vs) :
    (Lowering.asValue role n.mark l).Tours policy (.node n :: vs) := by
  cases role with
  | value name => exact (markLine n hn).bind fun _ => h name
  | statement =>
    refine (markLine n hn).bind fun _ => (h none).done fun _ => ?_
    show Tours _ _ (if _ then _ else _)
    split
    · exact emit _
    · exact pure ()

/-- The member that a dot selects is an identifier, and nothing is met below it. -/
theorem memberName (line : UInt32) (member : Node) :
    (Lowering.memberName line member : Lowering (Watched σ) String).Tours policy
      (member.tour true) := by
  rw [Lowering.memberName]
  split
  · rename_i name hname
    cases member <;> cases hname
    rw [tour_eq]
    exact part _ rfl (pure _)
  · exact fail line _

/-! ## Branches -/

theorem skip (op : Opcode) (h : l.Tours policy vs) : (Lowering.skip op l).Tours policy vs := by
  intro c a code c' hl
  obtain ⟨b, hbody, rfl⟩ := skip_eq_ok hl
  exact (h c () b c' hbody).of_marks rfl

/-- Two pieces of code that are kept for one block. -/
theorem capture_both {shape : Block → Block → Block} (h : l.Tours policy vs)
    (hk : k.Tours policy ws) (hshape : ∀ a b, (shape a b).marks = a.marks ++ b.marks) :
    (do
      let a ← captured l
      Lowering.put (shape a (← captured k)) : Lowering (Watched σ) Unit).Tours policy
      (vs ++ ws) := by
  intro c a code c' hl
  obtain ⟨b, d, c₁, hfirst, hsecond, rfl⟩ := capture_both_eq_ok hl
  exact ((h c () b c₁ hfirst).seq (hk c₁ () d c' hsecond)).of_marks (hshape b d)

theorem either (h : l.Tours policy vs) (hk : k.Tours policy ws) :
    (Lowering.either l k).Tours policy (vs ++ ws) :=
  capture_both h hk fun _ _ => rfl

theorem loop (back : Opcode) (resume : Resume) (h : l.Tours policy vs) (hk : k.Tours policy ws) :
    (Lowering.loop l k back resume).Tours policy (vs ++ ws) :=
  capture_both h hk fun _ _ => rfl

theorem tested (h : l.Tours policy vs) (hk : k.Tours policy ws) :
    (Lowering.tested l k).Tours policy (vs ++ ws) :=
  h.bind fun _ => (put rfl).bind fun _ => hk

/-! ## Function literals -/

theorem declareParameters (line : UInt32) (params : List Node) (k : Nat) :
    (Lowering.declareParameters line params : Lowering (Watched σ) Unit).Tours policy
      (toursFrom (fun _ => false) k params) := by
  induction params generalizing k with
  | nil => exact pure ()
  | cons n rest ih =>
    cases n with
    | parameter m name =>
      have hnode : tourAt false k (.parameter m name) = [.node (.parameter m name)] := by
        rw [tourAt, tour_eq]
        rfl
      have hmet : toursFrom (fun _ => false) k (.parameter m name :: rest) =
          .node (.parameter m name) :: toursFrom (fun _ => false) (k + 1) rest :=
        congrArg (· ++ toursFrom (fun _ => false) (k + 1) rest) hnode
      rw [hmet]
      refine visit (.parameter m name) rfl ((names _).bind fun a => ?_)
      cases a with
      | none => exact fail _ _
      | some _ => exact ih (k + 1)
    | _ => exact fail _ _

/-- Nothing is met at parameters that can be declared: they stand no literal and no line. -/
theorem declareParameters_quiet (line : UInt32) (params : List Node) :
    (Lowering.declareParameters line params : Lowering (Watched σ) Unit).Tours policy [] := by
  induction params with
  | nil => exact pure ()
  | cons n rest ih =>
    cases n with
    | parameter m name =>
      refine (names _).bind fun a => ?_
      cases a with
      | none => exact fail _ _
      | some _ => exact ih
    | _ => exact fail _ _

/-- The id of a literal is asked for before its body, and its function is made behind it. -/
theorem function {m : Mark} {params : List Node} {body : Node} {vs : List Visit}
    (name : Option String)
    (h : (literal policy m.line params body : Lowering (Watched σ) Unit).Tours policy vs) :
    (Lowering.function name (literal policy m.line params body) :
      Lowering (Watched σ) Unit).Tours policy
      (.enter ⟨[], .function m params body⟩ :: vs.filter Visit.isLiteral ++
        [.leave ⟨[], .function m params body⟩]) := by
  intro c a code c' hl
  obtain ⟨inner, c₁, hrun, rfl, rfl⟩ := function_eq_ok hl
  obtain ⟨asked, made, hliterals, hids, houtlines⟩ := (h _ _ _ _ hrun).literals
  have hstart : (Host.functionId c.host).2.ids = c.host.ids ++ [(Host.functionId c.host).1] := by
    simp [Watched.ids, Host.functionId, Call.id?]
  refine ⟨⟨_, _, hliterals.around _ (l := ⟨(Host.functionId c.host).1, name, c₁.names, inner⟩)
    ⟨m, params, body, rfl, _, c₁, rfl, rfl, hrun, rfl⟩, ?_, ?_⟩, ?_, rfl, ?_⟩
  · rw [hids, hstart, List.append_assoc]
    rfl
  · rw [houtlines]
    simp
  · have hlines : lines (.enter ⟨[], .function m params body⟩ :: vs.filter Visit.isLiteral ++
        [.leave ⟨[], .function m params body⟩]) = [] := by
      rw [lines_append]
      exact (List.append_nil _).trans (lines_isLiteral vs)
    rw [hlines]
    rfl
  · intro k hk
    simp [Visit.isLiteral] at hk

end Tours

end Lowering

/-! ## Parts of nodes -/

/-- In every role, the node is lowered along its tour. -/
def Toured (σ : Type) [Host σ] (policy : ReceiverPolicy) (n : Node) : Prop :=
  ∀ (inLoop : Bool) (role : Role),
    (Lowering.node policy inLoop role n : Lowering (Watched σ) Unit).Tours policy (n.tour false)

theorem Toured.at {n : Node} (h : Toured σ policy n) (inLoop : Bool) (role : Role) (i : Nat) :
    (Lowering.node policy inLoop role n : Lowering (Watched σ) Unit).Tours policy
      (n.tourAt false i) :=
  (h inLoop role).below i

open Lowering

theorem tours_statements {items : List Node} (h : ∀ m ∈ items, Toured σ policy m) (inLoop : Bool)
    (k : Nat) : (Lowering.statements policy inLoop items : Lowering (Watched σ) Unit).Tours policy
      (toursFrom (fun _ => false) k items) := by
  induction items generalizing k with
  | nil =>
    rw [Lowering.statements]
    exact Tours.pure ()
  | cons n rest ih =>
    rw [Lowering.statements]
    exact ((h n (List.mem_cons_self ..)).at inLoop _ k).bind fun _ =>
      ih (fun m hm => h m (List.mem_cons_of_mem _ hm)) (k + 1)

theorem tours_arguments {args : List Node} (h : ∀ m ∈ args, Toured σ policy m) (inLoop : Bool)
    (k : Nat) : (Lowering.arguments policy inLoop args : Lowering (Watched σ) Unit).Tours policy
      (toursFrom (fun _ => false) k args) := by
  induction args generalizing k with
  | nil =>
    rw [Lowering.arguments]
    exact Tours.pure ()
  | cons n rest ih =>
    rw [Lowering.arguments]
    exact ((h n (List.mem_cons_self ..)).at inLoop _ k).bind fun _ =>
      ih (fun m hm => h m (List.mem_cons_of_mem _ hm)) (k + 1)

/-- Of the left side of an assignment, the operands are met. -/
theorem tours_place {target : Node} (h : ∀ m ∈ target.children, Toured σ policy m)
    (inLoop : Bool) (line : UInt32) :
    (Lowering.place policy inLoop line target : Lowering (Watched σ) Place).Tours policy
      (target.tour true) := by
  rw [tour_eq]
  cases placeForm target with
  | field m object member =>
    have hobject := h object (by simp [Node.children])
    rw [place_field]
    exact Tours.part _ rfl (((Tours.memberName line member).below 1).bind fun _ =>
      (hobject.at inLoop _ 0).bind fun _ => Tours.pure _)
  | element m object key =>
    have hobject := h object (by simp [Node.children])
    have hkey := h key (by simp [Node.children])
    rw [place_element]
    exact Tours.part _ rfl ((hobject.at inLoop _ 0).bind fun _ => (hkey.at inLoop _ 1).bind
      fun _ => Tours.pure _)
  | name m name =>
    rw [place_name]
    exact Tours.part _ rfl (Tours.pure _)
  | refused f hrefused =>
    rw [hrefused]
    exact Tours.fail line f

/-- Of the callee of a call by dot, the object is met once. -/
theorem tours_method {callee : Node} (hdot : Gen.operator? callee = some .dot)
    (h : ∀ m ∈ callee.children, Toured σ policy m) (inLoop : Bool) (line : UInt32) :
    (Lowering.method policy inLoop line callee : Lowering (Watched σ) Unit).Tours policy
      (callee.tour true) := by
  rw [tour_eq]
  cases methodForm callee with
  | dot m op object member =>
    obtain rfl := Option.some.inj hdot
    have hobject := h object (by simp [Node.children])
    rw [method_dot]
    exact Tours.part _ rfl (((Tours.memberName line member).below 1).bind fun _ =>
      (hobject.at inLoop _ 0).bind fun _ => (Tours.emit _).bind fun _ => Tours.emitSymbol _ _)
  | refused f hrefused =>
    rw [hrefused]
    exact Tours.fail line f

theorem tours_keyedField {field : Node} (hkeyed : Gen.operator? field = some .assignField)
    (h : ∀ m ∈ field.children, Toured σ policy m) (inLoop : Bool) (line : UInt32) :
    (Lowering.keyedField policy inLoop line field : Lowering (Watched σ) Unit).Tours policy
      (field.tour true) := by
  rw [tour_eq]
  cases keyedForm field with
  | named m op key value hname =>
    obtain rfl := Option.some.inj hkeyed
    have hvalue := h value (by simp [Node.children])
    rw [keyedField_named _ value hname]
    cases key with
    | identifier km name =>
      obtain rfl := Option.some.inj hname
      have hkey : tourAt true 0 (.identifier km name) = [.part (.identifier km name)] := by
        rw [tourAt, tour_eq]
        rfl
      have hset : (Lowering.emitSymbol .setDot name :
          Lowering (Watched σ) Unit).Tours policy [] := Tours.emitSymbol _ _
      refine Tours.part _ rfl ((Tours.part (.identifier km name) rfl
        ((hvalue.at inLoop (.value (some name)) 1).bind fun _ => hset)).of_eq ?_)
      show _ = tourAt true 0 (.identifier km name) ++ (tourAt false 1 value ++ [])
      rw [hkey]
      rfl
    | _ => cases hname
  | refused f hrefused =>
    rw [hrefused]
    exact Tours.fail _ f

theorem tours_tableFields {fields : List Node} (h : ∀ m ∈ fields, Toured σ policy m)
    (hbelow : ∀ m ∈ fields, ∀ k ∈ m.children, Toured σ policy k) (inLoop : Bool)
    (line : UInt32) (position : Int32) (k : Nat) :
    (Lowering.tableFields policy inLoop line position fields : Lowering (Watched σ) Unit).Tours
      policy (toursFrom (fun field => Gen.operator? field = some .assignField) k fields) := by
  induction fields generalizing position k with
  | nil =>
    rw [Lowering.tableFields]
    exact Tours.pure ()
  | cons field rest ih =>
    have hrest (position : Int32) := ih (fun m hm => h m (List.mem_cons_of_mem _ hm))
      (fun m hm => hbelow m (List.mem_cons_of_mem _ hm)) position (k + 1)
    have hmet : toursFrom (fun field => Gen.operator? field = some .assignField) k
        (field :: rest) = field.tourAt (Gen.operator? field = some .assignField) k ++
          toursFrom (fun field => Gen.operator? field = some .assignField) (k + 1) rest := rfl
    rw [Lowering.tableFields, hmet]
    refine (Tours.emit .dup).bind fun _ => ?_
    split
    · rename_i hkeyed
      rw [decide_eq_true hkeyed]
      exact ((tours_keyedField hkeyed (hbelow field (List.mem_cons_self ..)) inLoop line).below
        k).bind fun _ => hrest position
    · rename_i hkeyed
      rw [decide_eq_false hkeyed]
      exact (Tours.pushInt position).bind fun _ =>
        ((h field (List.mem_cons_self ..)).at inLoop _ k).bind fun _ =>
          (Tours.emit _).bind fun _ => hrest (position + 1)

theorem tours_round {cond : Option Node} {body : Node} (inLoop : Bool) (j k : Nat) :
    (∀ n ∈ cond, Toured σ policy n) → Toured σ policy body →
    (round policy inLoop cond body : Lowering (Watched σ) Unit).Tours policy
      (tourOption j cond ++ body.tourAt false k) := by
  intro hcond hbody
  cases cond with
  | none => exact hbody.at true _ k
  | some cond => exact Tours.tested ((hcond cond rfl).at inLoop _ j) (hbody.at true _ k)

theorem tours_advance {step : Option Node} (inLoop : Bool) (l : Nat) :
    (∀ n ∈ step, Toured σ policy n) →
    (advance policy inLoop step : Lowering (Watched σ) Unit).Tours policy (tourOption l step) := by
  intro hstep
  cases step with
  | none => exact Tours.pure ()
  | some step => exact (hstep step rfl).at inLoop _ l

/-- The parts of a `for` are met in the order of a round. -/
theorem tours_forLoop {init cond step : Option Node} {body : Node} (inLoop : Bool)
    (i j k l : Nat) :
    (∀ n ∈ init, Toured σ policy n) → (∀ n ∈ cond, Toured σ policy n) →
    (∀ n ∈ step, Toured σ policy n) → Toured σ policy body →
    (forLoop policy inLoop init cond step body : Lowering (Watched σ) Unit).Tours policy
      (tourOption i init ++ (tourOption j cond ++ (body.tourAt false k ++ tourOption l step))) := by
  intro hinit hcond hstep hbody
  have hloop := (Tours.loop .branch .tail (tours_round inLoop j k hcond hbody)
    (tours_advance inLoop l hstep)).of_eq (List.append_assoc ..)
  cases init with
  | none => exact hloop
  | some init => exact ((hinit init rfl).at inLoop _ i).bind fun _ => hloop

theorem tourBelow_of_isPlain {m : Mark} {op : Operator} (hop : Grammar.isPlain op)
    (operands : List Node) :
    (Node.operation m op operands).tourBelow = toursFrom (fun _ => false) 0 operands := by
  cases op <;> first | contradiction | rfl

/-- An operation that is no assignment goes along its operands. -/
theorem tours_operation {m : Mark} {op : Operator} {operands : List Node}
    (h : ∀ k ∈ operands, Toured σ policy k) (inLoop : Bool) :
    (operate policy inLoop m.line op operands : Lowering (Watched σ) Unit).Tours policy
      (Node.operation m op operands).tourBelow := by
  cases operationForm op operands with
  | refused hrefused =>
    rw [operate_refused hrefused]
    exact Tours.fail m.line _
  | dot object member =>
    have hobject := h object (by simp)
    exact ((Tours.memberName m.line member).below 1).bind fun _ =>
      (hobject.at inLoop _ 0).bind fun _ => Tours.emitSymbol _ _
  | binary hop harity left right =>
    have hleft := h left (by simp)
    have hright := h right (by simp)
    rw [operate_binary hop harity, tourBelow_of_isPlain hop]
    refine (hleft.at inLoop _ 0).bind fun _ => ?_
    cases shortCircuit? op with
    | some keep =>
      exact (Tours.skip keep ((Tours.emit .pop).bind fun _ => hright.at inLoop _ 1)).of_eq
        (List.append_nil _).symm
    | none => exact (hright.at inLoop _ 1).bind fun _ => Tours.emit _
  | unary hop harity operand =>
    rw [operate_unary harity, tourBelow_of_isPlain hop]
    exact ((h operand (by simp)).at inLoop _ 0).bind fun _ => Tours.emit _

/-! ## Nodes -/

theorem tours_call {m : Mark} {callee : Node} {args : List Node} {receiver : Option Node}
    (h : ∀ k ∈ (Node.call m callee args receiver).children, Toured σ policy k)
    (hbelow : ∀ k ∈ callee.children, Toured σ policy k) :
    Toured σ policy (.call m callee args receiver) := by
  intro inLoop role
  rw [Lowering.node.eq_def, tour_eq]
  have hcallee := h callee (by simp [Node.children])
  have hall (k : Node) (hk : k ∈ args) : Toured σ policy k := h k (by simp [Node.children, hk])
  have hargs (k : Nat) : (do
      Lowering.arguments policy inLoop args
      Lowering.emitCall args.length m.line : Lowering (Watched σ) Unit).Tours policy
      (toursFrom (fun _ => false) k args) :=
    (tours_arguments hall inLoop k).done fun _ => Tours.emitCall args.length m.line
  refine Tours.asValue (.call m callee args receiver) role rfl fun _ => ?_
  cases receiver with
  | some receiver =>
    have hreceiver := h receiver (by simp [Node.children])
    exact (hreceiver.at inLoop _ 0).bind fun _ => (hcallee.at inLoop _ 1).bind fun _ => hargs 2
  | none =>
    show Tours _ (tourBelow (.call m callee args none)) (if _ then _ else _)
    rw [tourBelow_call]
    split
    · rename_i hdot
      rw [decide_eq_true hdot]
      exact ((tours_method hdot hbelow inLoop m.line).below 0).bind fun _ => hargs 1
    · rename_i hdot
      rw [decide_eq_false hdot]
      exact (Tours.pushReceiver callee).bind fun _ =>
        (hcallee.at inLoop _ 0).bind fun _ => hargs 1

theorem toured_node (n : Node) : Toured σ policy n := by
  induction n using Node.induction_below with
  | h n below below₂ =>
    intro inLoop role
    rw [Lowering.node.eq_def, tour_eq]
    cases n with
    | declaration m storage name =>
      exact Tours.asStatement role m.line (Tours.visit _ rfl (Tours.declare m storage name))
    | parameter m name => exact Tours.asStatement role m.line (Tours.fail m.line _)
    | block m items =>
      exact Tours.asStatement role m.line
        (Tours.visit _ rfl (tours_statements (fun k hk => below hk) inLoop 0))
    | ifElse m cond yes no =>
      have hcond : Toured σ policy cond := below (by simp [Node.children])
      have hyes : Toured σ policy yes := below (by simp [Node.children])
      refine Tours.asStatement role m.line ((Tours.markLine (.ifElse m cond yes no) rfl).bind
        fun _ => (hcond.at inLoop _ 0).bind fun _ => ?_)
      cases no with
      | none =>
        exact (Tours.skip _ (hyes.at inLoop _ 1)).of_eq (List.append_nil _).symm
      | some other =>
        have hother : Toured σ policy other := below (by simp [Node.children])
        exact (Tours.either (hyes.at inLoop _ 1) (hother.at inLoop _ 2)).of_eq
          (congrArg _ (List.append_nil _).symm)
    | whileLoop m cond body =>
      have hcond : Toured σ policy cond := below (by simp [Node.children])
      have hbody : Toured σ policy body := below (by simp [Node.children])
      refine Tours.asStatement role m.line
        ((Tours.markLine (.whileLoop m cond body) rfl).bind fun _ => ?_)
      exact (Tours.loop .branch .top (Tours.tested (hcond.at inLoop _ 0) (hbody.at true _ 1))
        (Tours.pure ())).of_eq (List.append_assoc ..)
    | doLoop m body cond =>
      have hcond : Toured σ policy cond := below (by simp [Node.children])
      have hbody : Toured σ policy body := below (by simp [Node.children])
      refine Tours.asStatement role m.line
        ((Tours.markLine (.doLoop m body cond) rfl).bind fun _ => ?_)
      exact (Tours.loop .branchNonZero .tail (hbody.at true _ 0) (hcond.at inLoop _ 1)).of_eq
        (congrArg _ (List.append_nil _).symm)
    | forLoop m init cond step body =>
      have hbody : Toured σ policy body := below (by simp [Node.children])
      have hinit (k : Node) (hk : k ∈ init) : Toured σ policy k :=
        below (by simp [Node.children, Option.mem_def.mp hk])
      have hcond (k : Node) (hk : k ∈ cond) : Toured σ policy k :=
        below (by simp [Node.children, Option.mem_def.mp hk])
      have hstep (k : Node) (hk : k ∈ step) : Toured σ policy k :=
        below (by simp [Node.children, Option.mem_def.mp hk])
      obtain ⟨i, j, k, l, hmet⟩ := tourBelow_forLoop m init cond step body
      refine Tours.asStatement role m.line
        (((Tours.markLine (.forLoop m init cond step body) rfl).bind fun _ =>
          tours_forLoop inLoop i j k l hinit hcond hstep hbody).of_eq ?_)
      rw [← hmet]
      rfl
    | foreach m collection key value body =>
      have hcollection : Toured σ policy collection := below (by simp [Node.children])
      have hbody : Toured σ policy body := below (by simp [Node.children])
      refine Tours.asStatement role m.line
        ((Tours.markLine (.foreach m collection key value body) rfl).bind fun _ => ?_)
      refine (Tours.foreachSlot _ m.line).bind fun _ => (Tours.foreachSlot value m.line).bind
        fun _ => (hcollection.at inLoop _ 0).bind fun _ => (Tours.pushInt (-2)).bind fun _ => ?_
      refine (Tours.loop .branch .top (Tours.tested (Tours.emitInt _ _) (hbody.at true _ 1))
        (Tours.pure ())).done fun _ => Tours.emit _
    | breakLoop m =>
      exact Tours.asStatement role m.line ((Tours.markLine (.breakLoop m) rfl).bind fun _ =>
        Tours.jump inLoop .breakLoop m.line)
    | continueLoop m =>
      exact Tours.asStatement role m.line ((Tours.markLine (.continueLoop m) rfl).bind fun _ =>
        Tours.jump inLoop .continueLoop m.line)
    | ret m value =>
      refine Tours.asStatement role m.line ((Tours.markLine (.ret m value) rfl).bind
        fun _ => ?_)
      cases value with
      | none => exact Tours.emit _
      | some value =>
        have hvalue : Toured σ policy value := below (by simp [Node.children])
        exact (hvalue.at inLoop _ 0).bind fun _ => Tours.emit _
    | operation m op operands =>
      have hoperand (k : Node) (hk : k ∈ operands) : Toured σ policy k := below hk
      show Tours _ (.node (.operation m op operands) :: tourBelow (.operation m op operands))
        (if _ then _ else _)
      split
      · rename_i hassign
        obtain ⟨rfl, rfl⟩ := hassign
        refine (Tours.markLine (.operation m .assign operands) rfl).bind fun _ => ?_
        rcases operands with _ | ⟨target, _ | ⟨value, _ | _⟩⟩
        case cons.cons.nil =>
          have hvalue := hoperand value (by simp)
          exact ((tours_place (below₂ target (by simp [Node.children])) inLoop
            m.line).below 0).bind fun p => (hvalue.at inLoop (.value p.name?) 1).bind fun _ =>
              Tours.store m.line p
        all_goals exact Tours.fail m.line _
      · exact Tours.asValue (.operation m op operands) role rfl fun _ =>
          tours_operation hoperand inLoop
    | constant m value =>
      exact Tours.asValue (.constant m value) role rfl fun _ => Tours.pushConstant value
    | identifier m name =>
      exact Tours.asValue (.identifier m name) role rfl fun _ => Tours.pushVariable m name
    | call m callee args receiver =>
      have hcall := tours_call (fun k hk => below hk) (below₂ callee (by simp [Node.children]))
        inLoop role
      rwa [Lowering.node.eq_def, tour_eq] at hcall
    | this m => exact Tours.asValue (.this m) role rfl fun _ => Tours.emit _
    | function m params body =>
      have hbody : Toured σ policy body := below (by simp [Node.children])
      refine Tours.asValue (.function m params body) role rfl fun name =>
        Tours.function name ?_
      rw [tourBelow_function]
      exact (Tours.declareParameters m.line params 0).bind fun _ =>
        (hbody.at false _ params.length).done fun _ => Tours.emit _
    | table m fields =>
      exact Tours.asValue (.table m fields) role rfl fun _ => (Tours.emit _).bind fun _ =>
        tours_tableFields (fun k hk => below hk) below₂ inLoop m.line
          0 0

/-- The marks of an outline are those of the tour along which it is lowered. -/
theorem Outline.LoweredBy.marks {l : Outline} {step : Lowering (Watched σ) Unit}
    {vs : List Visit} (h : l.LoweredBy step) (hstep : step.Tours policy vs) :
    l.code.marks = marksFrom 0 (lines vs) ∧
      ∀ {m : Node}, .part m ∈ vs → m.isExpression = true := by
  obtain ⟨c, c', -, hline, hrun, -⟩ := h
  have htours := hstep c () l.code c' hrun
  exact ⟨hline ▸ htours.marks, htours.parts⟩

/-- Behind its parameters, a function literal is lowered along the tour of its body. -/
theorem tours_literal (line : UInt32) (params : List Node) (body : Node) :
    (Lowering.literal policy line params body : Lowering (Watched σ) Unit).Tours policy
      (body.tour false) :=
  (Tours.declareParameters_quiet line params).bind fun _ =>
    (toured_node body false .statement).done fun _ => Tours.emit _

theorem tours_unit (n : Node) :
    (Lowering.unit policy n : Lowering (Watched σ) Unit).Tours policy (n.tour false) :=
  (toured_node n false .statement).done fun _ => Tours.emit _

end Compile

end ScriptToolchain
