import ScriptToolchain.Proofs.Forms
import ScriptToolchain.Proofs.Lookups
import ScriptToolchain.Proofs.UnitRuns

/-!
# Compiled programs are closed

By induction over the tree, the code of a node looks up what the node mentions.
A function literal is generated with a table of variables of its own, between
the code around it; its id is known from then on. In the program of a unit
that compiles, every lookup of every function then finds what the tree has
written there, and a pushed function was delivered before.
-/

namespace ScriptToolchain

namespace Compile

/-- What storing to a place mentions. -/
def Place.mentions : Place → List Mention
  | .field name => [.setField name]
  | .element => []
  | .variable name _ => [.store name]

/-- In every role and in every function, the code of the node looks up what the node mentions. -/
def Mentioned (p : Program) (policy : ReceiverPolicy) (n : Node) : Prop :=
  ∀ (slots : List String) (A : Prop) (inLoop : Bool) (role : Role),
    (Lowering.node policy inLoop role n : Lowering ProgramBuilder Unit).Mentions p slots A
      n.mentions fun _ => True

variable {p : Program} {policy : ReceiverPolicy} {slots : List String} {A : Prop} {n : Node}

open Lowering

theorem Mentioned.value (h : Mentioned p policy n) (inLoop : Bool) (name : Option String) :
    (Lowering.node policy inLoop (.value name) n : Lowering ProgramBuilder Unit).Mentions p slots A
      n.mentions fun _ => True :=
  h slots A inLoop (.value name)

theorem Mentioned.statement (h : Mentioned p policy n) (inLoop : Bool) :
    (Lowering.node policy inLoop .statement n : Lowering ProgramBuilder Unit).Mentions p slots A
      n.mentions fun _ => True :=
  h slots A inLoop .statement

/-! ## Parts of nodes -/

theorem mentions_store (line : UInt32) (q : Place) :
    (Lowering.store line q : Lowering ProgramBuilder Unit).Mentions p slots A q.mentions
      fun _ => True := by
  match q with
  | .field name => exact Mentions.emitSymbol rfl rfl fun _ _ hid => .setDot hid
  | .element => exact Mentions.emit rfl
  | .variable name isMember => exact Mentions.storeVariable name isMember line

/-- What stands before the value of an assignment leaves the place that the store mentions. -/
theorem mentions_place {target : Node} (h : ∀ m ∈ target.children, Mentioned p policy m)
    (inLoop : Bool) (line : UInt32) :
    (Lowering.place policy inLoop line target : Lowering ProgramBuilder Place).Mentions p slots A
      target.mentionsPlace fun q => q.mentions = target.stored := by
  cases placeForm target with
  | field m object member =>
    have hobject := h object (by simp [Node.children])
    rw [place_field]
    refine (Mentions.memberName line member).bind fun name => ?_
    refine ((hobject.value inLoop none).bind fun _ => ?_).of_eq (List.append_nil _)
    exact Mentions.pure fun hA => (Node.selected_eq hA.1.2 _).symm
  | element m object key =>
    have hobject := h object (by simp [Node.children])
    have hkey := h key (by simp [Node.children])
    rw [place_element]
    refine (hobject.value inLoop none).bind fun _ => ?_
    refine ((hkey.value inLoop none).bind fun _ => ?_).of_eq (List.append_nil key.mentions)
    exact Mentions.pure fun _ => rfl
  | name m name =>
    rw [place_name]
    exact Mentions.pure fun _ => rfl
  | refused f hrefused =>
    rw [hrefused]
    exact Mentions.fail line f

/-- A call by dot mentions what its callee mentions; the object is pushed once. -/
theorem mentions_method {callee : Node} (hdot : Gen.operator? callee = some .dot)
    (h : ∀ m ∈ callee.children, Mentioned p policy m) (inLoop : Bool) (line : UInt32) :
    (Lowering.method policy inLoop line callee : Lowering ProgramBuilder Unit).Mentions p slots A
      callee.mentions fun _ => True := by
  cases methodForm callee with
  | dot m op object member =>
    obtain rfl := Option.some.inj hdot
    have hobject := h object (by simp [Node.children])
    rw [method_dot]
    exact (Mentions.memberName line member).bind fun _ => (hobject.value inLoop none).bind
      fun _ => (Mentions.emit rfl).bind fun _ => Mentions.getField fun hA => hA.1.1.2
  | refused f hrefused =>
    rw [hrefused]
    exact Mentions.fail line f

theorem mentions_statements {items : List Node} (h : ∀ m ∈ items, Mentioned p policy m)
    (inLoop : Bool) :
    (Lowering.statements policy inLoop items : Lowering ProgramBuilder Unit).Mentions p slots A
      (Node.mentionsAll items) fun _ => True := by
  induction items generalizing A with
  | nil =>
    rw [Lowering.statements]
    exact Mentions.done
  | cons n rest ih =>
    rw [Lowering.statements]
    exact ((h n (List.mem_cons_self ..)).statement inLoop).bind fun _ =>
      ih fun m hm => h m (List.mem_cons_of_mem _ hm)

theorem mentions_arguments {args : List Node} (h : ∀ m ∈ args, Mentioned p policy m)
    (inLoop : Bool) :
    (Lowering.arguments policy inLoop args : Lowering ProgramBuilder Unit).Mentions p slots A
      (Node.mentionsAll args) fun _ => True := by
  induction args generalizing A with
  | nil =>
    rw [Lowering.arguments]
    exact Mentions.done
  | cons n rest ih =>
    rw [Lowering.arguments]
    exact ((h n (List.mem_cons_self ..)).value inLoop none).bind fun _ =>
      ih fun m hm => h m (List.mem_cons_of_mem _ hm)

theorem mentions_keyedField {field : Node} (h : ∀ m ∈ field.children, Mentioned p policy m)
    (inLoop : Bool) (line : UInt32) :
    (Lowering.keyedField policy inLoop line field : Lowering ProgramBuilder Unit).Mentions p slots A
      field.mentionsKeyed fun _ => True := by
  cases keyedForm field with
  | named m op key value hname =>
    have hvalue := h value (by simp [Node.children])
    rw [keyedField_named op value hname]
    exact (hvalue.value inLoop _).bind fun _ => Mentions.setField fun _ => hname
  | refused f hrefused =>
    rw [hrefused]
    exact Mentions.fail _ f

theorem mentions_tableFields {fields : List Node} (h : ∀ m ∈ fields, Mentioned p policy m)
    (hbelow : ∀ m ∈ fields, ∀ k ∈ m.children, Mentioned p policy k) (inLoop : Bool)
    (line : UInt32) (position : Int32) :
    (Lowering.tableFields policy inLoop line position fields :
      Lowering ProgramBuilder Unit).Mentions p slots A (Node.mentionsFields fields)
        fun _ => True := by
  induction fields generalizing position A with
  | nil =>
    rw [Lowering.tableFields]
    exact Mentions.done
  | cons field rest ih =>
    have hrest {A : Prop} (position : Int32) : (Lowering.tableFields policy inLoop line position
        rest : Lowering ProgramBuilder Unit).Mentions p slots A (Node.mentionsFields rest)
          fun _ => True :=
      ih (fun m hm => h m (List.mem_cons_of_mem _ hm))
        (fun m hm => hbelow m (List.mem_cons_of_mem _ hm)) position
    rw [Lowering.tableFields, Node.mentionsFields]
    refine (Mentions.emit rfl).bind fun _ => ?_
    split
    · exact (mentions_keyedField (hbelow field (List.mem_cons_self ..)) inLoop line).bind fun _ =>
        hrest position
    · exact (Mentions.pushInt position).bind fun _ =>
        ((h field (List.mem_cons_self ..)).value inLoop none).bind fun _ =>
          (Mentions.emit rfl).bind fun _ => hrest (position + 1)

theorem mentions_round {cond : Option Node} {body : Node} (inLoop : Bool) :
    (∀ k ∈ cond, Mentioned p policy k) → Mentioned p policy body →
    (round policy inLoop cond body : Lowering ProgramBuilder Unit).Mentions p slots A
      (Node.mentionsOption cond ++ body.mentions) fun _ => True := by
  intro hcond hbody
  cases cond with
  | none => exact hbody.statement true
  | some cond =>
    exact Mentions.tested ((hcond cond rfl).value inLoop none) (hbody.statement true)

theorem mentions_advance {step : Option Node} (inLoop : Bool) :
    (∀ k ∈ step, Mentioned p policy k) →
    (advance policy inLoop step : Lowering ProgramBuilder Unit).Mentions p slots A
      (Node.mentionsOption step) fun _ => True := by
  intro hstep
  cases step with
  | none => exact Mentions.done
  | some step => exact (hstep step rfl).statement inLoop

/-- The parts of a `for` stand in the order in which a round meets them. -/
theorem mentions_forLoop {init cond step : Option Node} {body : Node} (inLoop : Bool) :
    (∀ k ∈ init, Mentioned p policy k) → (∀ k ∈ cond, Mentioned p policy k) →
    (∀ k ∈ step, Mentioned p policy k) → Mentioned p policy body →
    (forLoop policy inLoop init cond step body : Lowering ProgramBuilder Unit).Mentions p slots A
      (Node.mentionsOption init ++
        (Node.mentionsOption cond ++ (body.mentions ++ Node.mentionsOption step)))
      fun _ => True := by
  intro hinit hcond hstep hbody
  have hloop {A : Prop} : Mentions p slots A _ _ _ := (Mentions.loop .branch .tail
    (mentions_round inLoop hcond hbody) (mentions_advance inLoop hstep)).of_eq
      (List.append_assoc ..)
  cases init with
  | none => exact hloop
  | some init => exact ((hinit init rfl).statement inLoop).bind fun _ => hloop

theorem looksUp_binaryOpcode (op : Operator) : (binaryOpcode op).looksUp = false := by
  cases op <;> rfl

theorem looksUp_unaryOpcode (op : Operator) : (unaryOpcode op).looksUp = false := by
  cases op <;> rfl

theorem mentions_of_isPlain {m : Mark} {op : Operator} (hop : Grammar.isPlain op)
    (operands : List Node) :
    (Node.operation m op operands).mentions = Node.mentionsAll operands := by
  cases op <;> first | contradiction | rfl

/-- An operation that is no assignment mentions what its operands mention. -/
theorem mentions_operation {m : Mark} {op : Operator} {operands : List Node}
    (h : ∀ k ∈ operands, Mentioned p policy k) (inLoop : Bool) :
    (operate policy inLoop m.line op operands : Lowering ProgramBuilder Unit).Mentions p slots A
      (Node.operation m op operands).mentions fun _ => True := by
  cases operationForm op operands with
  | refused hrefused =>
    rw [operate_refused hrefused]
    exact Mentions.fail m.line _
  | dot object member =>
    have hobject := h object (by simp)
    exact (Mentions.memberName m.line member).bind fun _ => (hobject.value inLoop none).bind
      fun _ => Mentions.getField fun hA => hA.1.2
  | binary hop harity left right =>
    have hleft := h left (by simp)
    have hright := h right (by simp)
    rw [operate_binary hop harity, mentions_of_isPlain hop]
    refine (hleft.value inLoop none).bind fun _ => ?_
    cases shortCircuit? op with
    | some keep =>
      refine (Mentions.skip ?_).of_eq (List.append_nil right.mentions).symm
      exact (Mentions.emit rfl).bind fun _ => hright.value inLoop none
    | none =>
      exact (hright.value inLoop none).bind fun _ => Mentions.emit (looksUp_binaryOpcode op)
  | unary hop harity operand =>
    have hoperand := h operand (by simp)
    rw [operate_unary harity, mentions_of_isPlain hop]
    exact (hoperand.value inLoop none).bind fun _ => Mentions.emit (looksUp_unaryOpcode op)

/-! ## Nodes -/

theorem mentions_call {m : Mark} {callee : Node} {args : List Node} {receiver : Option Node}
    (h : ∀ k ∈ (Node.call m callee args receiver).children, Mentioned p policy k)
    (hbelow : ∀ k ∈ callee.children, Mentioned p policy k) :
    Mentioned p policy (.call m callee args receiver) := by
  intro slots A inLoop role
  rw [Lowering.node.eq_def]
  have hcallee := h callee (by simp [Node.children])
  have hall (k : Node) (hk : k ∈ args) : Mentioned p policy k := h k (by simp [Node.children, hk])
  have hargs {A : Prop} : (do
      Lowering.arguments policy inLoop args
      Lowering.emitCall args.length m.line : Lowering ProgramBuilder Unit).Mentions p slots A
      (Node.mentionsAll args) fun _ => True :=
    ((mentions_arguments hall inLoop).bind fun _ => Mentions.emitCall args.length m.line).of_eq
      (List.append_nil _)
  refine Mentions.asValue role m fun _ => ?_
  cases receiver with
  | some receiver =>
    have hreceiver := h receiver (by simp [Node.children])
    exact (hreceiver.value inLoop none).bind fun _ =>
      (hcallee.value inLoop none).bind fun _ => hargs
  | none =>
    show Mentions _ _ _ _ _ (if _ then _ else _)
    split
    · rename_i hdot
      exact (mentions_method hdot hbelow inLoop m.line).bind fun _ => hargs
    · exact (Mentions.pushReceiver policy callee).bind fun _ =>
        (hcallee.value inLoop none).bind fun _ => hargs

theorem mentioned_node (n : Node) : Mentioned p policy n := by
  induction n using Node.induction_below with
  | h n below below₂ =>
    intro slots A inLoop role
    rw [Lowering.node.eq_def]
    cases n with
    | declaration m storage name =>
      exact Mentions.asStatement role m.line (Mentions.declare m storage name)
    | parameter m name => exact Mentions.asStatement role m.line (Mentions.fail m.line _)
    | block m items =>
      exact Mentions.asStatement role m.line (mentions_statements (fun k hk => below hk) inLoop)
    | ifElse m cond yes no =>
      have hcond : Mentioned p policy cond := below (by simp [Node.children])
      have hyes : Mentioned p policy yes := below (by simp [Node.children])
      refine Mentions.asStatement role m.line ((Mentions.markLine m.line).bind fun _ =>
        (hcond.value inLoop none).bind fun _ => ?_)
      cases no with
      | none =>
        exact (Mentions.skip (hyes.statement inLoop)).of_eq (List.append_nil yes.mentions).symm
      | some no =>
        have hno : Mentioned p policy no := below (by simp [Node.children])
        exact Mentions.either (hyes.statement inLoop) (hno.statement inLoop)
    | whileLoop m cond body =>
      have hcond : Mentioned p policy cond := below (by simp [Node.children])
      have hbody : Mentioned p policy body := below (by simp [Node.children])
      refine Mentions.asStatement role m.line ((Mentions.markLine m.line).bind fun _ => ?_)
      refine (Mentions.loop .branch .top ?_ Mentions.done).of_eq (List.append_nil _)
      exact Mentions.tested (hcond.value inLoop none) (hbody.statement true)
    | doLoop m body cond =>
      have hcond : Mentioned p policy cond := below (by simp [Node.children])
      have hbody : Mentioned p policy body := below (by simp [Node.children])
      refine Mentions.asStatement role m.line ((Mentions.markLine m.line).bind fun _ => ?_)
      exact Mentions.loop .branchNonZero .tail (hbody.statement true) (hcond.value inLoop none)
    | forLoop m init cond step body =>
      have hbody : Mentioned p policy body := below (by simp [Node.children])
      refine Mentions.asStatement role m.line ((Mentions.markLine m.line).bind fun _ => ?_)
      have hinit (k : Node) (hk : k ∈ init) : Mentioned p policy k :=
        below (by simp [Node.children, Option.mem_def.mp hk])
      have hcond (k : Node) (hk : k ∈ cond) : Mentioned p policy k :=
        below (by simp [Node.children, Option.mem_def.mp hk])
      have hstep (k : Node) (hk : k ∈ step) : Mentioned p policy k :=
        below (by simp [Node.children, Option.mem_def.mp hk])
      exact mentions_forLoop inLoop hinit hcond hstep hbody
    | foreach m collection key value body =>
      have hcollection : Mentioned p policy collection := below (by simp [Node.children])
      have hbody : Mentioned p policy body := below (by simp [Node.children])
      refine Mentions.asStatement role m.line ((Mentions.markLine m.line).bind fun _ => ?_)
      refine (Mentions.foreachSlot _ m.line).bind fun k => ?_
      refine (Mentions.foreachSlot value m.line).bind fun v => ?_
      refine (hcollection.value inLoop none).bind fun _ => (Mentions.pushInt (-2)).bind fun _ => ?_
      -- the slots were named before the collection is met, and stay what they are
      have hslots (hA : ((((A ∧ True) ∧ slots[k.toNat]? = some (key.getD hiddenKey)) ∧
          slots[v.toNat]? = some value) ∧ True) ∧ True) := And.intro hA.1.1.1.2 hA.1.1.2
      refine ((Mentions.loop .branch .top (Mentions.tested (Mentions.advance hslots)
        (hbody.statement true)) Mentions.done).bind fun _ => Mentions.emit rfl).of_eq ?_
      simp
    | breakLoop m =>
      exact Mentions.asStatement role m.line ((Mentions.markLine m.line).bind fun _ =>
        Mentions.jump inLoop .breakLoop m.line)
    | continueLoop m =>
      exact Mentions.asStatement role m.line ((Mentions.markLine m.line).bind fun _ =>
        Mentions.jump inLoop .continueLoop m.line)
    | ret m value =>
      refine Mentions.asStatement role m.line ((Mentions.markLine m.line).bind fun _ => ?_)
      cases value with
      | none => exact Mentions.emit rfl
      | some value =>
        have hvalue : Mentioned p policy value := below (by simp [Node.children])
        exact ((hvalue.value inLoop none).bind fun _ => Mentions.emit rfl).of_eq (List.append_nil _)
    | operation m op operands =>
      have hoperand (k : Node) (hk : k ∈ operands) : Mentioned p policy k := below hk
      show Mentions _ _ _ _ _ (if _ then _ else _)
      split
      · rename_i hassign
        obtain ⟨rfl, rfl⟩ := hassign
        refine (Mentions.markLine m.line).bind fun _ => ?_
        rcases operands with _ | ⟨target, _ | ⟨value, _ | _⟩⟩
        case cons.cons.nil =>
          have hvalue := hoperand value (by simp)
          refine (mentions_place (below₂ target (by simp [Node.children])) inLoop
            m.line).bind fun q => (hvalue.value inLoop q.name?).bind fun _ => ?_
          exact (mentions_store m.line q).of_eq_of fun hA => hA.1.2
        all_goals exact Mentions.fail m.line _
      · exact Mentions.asValue role m fun _ => mentions_operation hoperand inLoop
    | constant m value => exact Mentions.asValue role m fun _ => Mentions.pushConstant m value
    | identifier m name => exact Mentions.asValue role m fun _ => Mentions.pushVariable m name
    | call m callee args receiver =>
      have hcall := mentions_call (fun k hk => below hk) (below₂ callee (by simp [Node.children]))
        slots A inLoop role
      rwa [Lowering.node.eq_def] at hcall
    | this m => exact Mentions.asValue role m fun _ => Mentions.emit rfl
    | function m params body =>
      have hbody : Mentioned p policy body := below (by simp [Node.children])
      refine Mentions.asValue role m fun name => Mentions.function name fun slots => ?_
      refine (Mentions.declareParameters m.line params).bind fun _ => ?_
      exact ((hbody.statement false).bind fun _ => Mentions.emit rfl).of_eq (List.append_nil _)
    | table m fields =>
      refine Mentions.asValue role m fun _ => (Mentions.emit rfl).bind fun _ => ?_
      exact mentions_tableFields (fun k hk => below hk) below₂ inLoop
        m.line 0

/-! ## Units -/

/-- The functions of a plan look up what their parts of the unit mention, in order. -/
theorem plan_delivers (rootName : String) {host : ProgramBuilder} (hsymbols : host.symbols.Sound)
    (hstrings : host.strings.Sound) {inner : List Outline} {outer : Outline}
    (h : (plan policy rootName n host).functions = some (inner, outer))
    (hp : p.symbols = (plan policy rootName n host).host.symbols.toList)
    (hs : p.strings = (plan policy rootName n host).host.strings.toList)
    (hfits : ∀ l ∈ inner ++ [outer], Fits p l.names.symbols) :
    ∃ known, Delivered p (inner ++ [outer]) known ∧ known.map Prod.snd = n.units := by
  let c : Scope ProgramBuilder := { host := (Host.functionId host).2 }
  have hc : c.Sound := ⟨hsymbols, hstrings, Interner.sound_empty⟩
  have hunit (slots : List String) : (do
      Lowering.node policy false .statement n
      Lowering.emit .ret : Lowering ProgramBuilder Unit).Mentions p slots True n.mentions
        fun _ => True :=
    (((mentioned_node n).statement false).bind fun _ => Mentions.emit rfl).of_eq
      (List.append_nil _)
  obtain ⟨code, c', hrun, hhost, rfl, rfl⟩ := plan_eq_some h
  rw [hhost] at hp hs
  have hlisted : c'.Listed p c'.names.symbols :=
    ⟨hfits _ (List.mem_append_right _ (List.mem_singleton_self _)), hp ▸ List.prefix_rfl,
      hs ▸ List.prefix_rfl, List.prefix_rfl,
      fun l hl => hfits l (List.mem_append_left _ (List.mem_reverse.mpr hl))⟩
  obtain ⟨new, hnew, hfunctions, hcode⟩ :=
    ((hunit c'.names.symbols c () code c' hrun hc).2 trivial hlisted).2 [] .nil
  rw [List.nil_append] at hnew hcode
  refine ⟨new ++ [((Host.functionId host).1, n.mentions)], hnew.snoc hcode, ?_⟩
  rw [List.map_append, hfunctions]
  rfl

/-- The function of an outline is closed where the lookups of the outline are right. -/
theorem Outline.Makes.closed {l : Outline} {root debug : Bool} {f : CompiledFunction}
    (hm : l.Makes root debug f) {popped : Prop} (hl : l.Fine popped (· < 2 ^ 31))
    (hlt : f.code.size < 2 ^ 32) {earlier : List CompiledFunction} {units : List (List Mention)}
    {ms : List Mention}
    (h : l.code.Resolves p l.names.symbols (knownFunctions earlier units) ms) :
    f.Closed p earlier units ms (l.instructions debug) l.names.symbols := by
  refine CompiledFunction.closed_of_resolved (hm.placed hl.wellFormed hlt).1
    (hm.length_slots hl hlt).1 (fun names hnames => ?_) ?_
  · rw [hm.symbols] at hnames
    split at hnames
    · exact (Option.some.inj hnames).symm
    · cases hnames
  · rw [Block.Resolves, ← Block.lookups_shown l.code debug,
      ← Block.filter_place (hl.wellFormed.shown debug) 0 0 0, List.forall₂_map_right_iff] at h
    exact h

/-- The functions before the place `k` are known with what they mention. -/
theorem Delivered.take_subset {ls : List Outline} {known : List (UInt64 × List Mention)}
    (h : Delivered p ls known) {fs : List CompiledFunction}
    (hids : fs.map (·.id) = ls.map (·.id)) (k : Nat) :
    known.take k ⊆ knownFunctions (fs.take k) (known.map Prod.snd) := by
  intro x hx
  obtain ⟨i, hi⟩ := List.mem_iff_getElem?.mp hx
  rw [List.getElem?_take] at hi
  split at hi
  · rename_i hik
    refine List.mem_iff_getElem?.mpr ⟨i, List.getElem?_zip_eq_some.mpr ⟨?_, ?_⟩⟩
    · rw [List.map_take, List.getElem?_take, if_pos hik, hids, ← h.ids, List.getElem?_map, hi]
      rfl
    · rw [List.getElem?_map, hi]
      rfl
  · cases hi

/-- The functions of a unit that compiles are made of the fine outlines of its plan. -/
theorem exists_fine_plan {o : Options} {source : Option PendingSource} {debug : Bool}
    {root : UInt64} (hparams : n.ParamsFit (· < 2 ^ 31))
    (hroot : (build o source n debug).1 = .ok root) :
    ∃ inner outer,
      (plan o.receiver o.rootName n ({} : ProgramBuilder)).functions = some (inner, outer) ∧
      List.Forall₂ (fun f (l : Outline) => l.Fine False (· < 2 ^ 31) ∧
        ∃ root, l.Makes root debug f) (program o source n debug).functions (inner ++ [outer]) ∧
      (program o source n debug).symbols =
        (plan o.receiver o.rootName n ({} : ProgramBuilder)).host.symbols.toList ∧
      (program o source n debug).strings =
        (plan o.receiver o.rootName n ({} : ProgramBuilder)).host.strings.toList := by
  obtain ⟨inner, outer, fs, f, hplan, hinner, -, hmake, -, hfunctions, hsymbols, hstrings⟩ :=
    exists_plan hroot
  obtain ⟨hfine, hall⟩ := plan_fine False (· < 2 ^ 31) o.rootName
    ⟨False.elim, fun hm => hparams hm⟩ False.elim (by decide) ({} : ProgramBuilder) hplan
  have hmakes : List.Forall₂ (fun (l : Outline) f => ∃ root, l.Makes root debug f)
      (inner ++ [outer]) (fs ++ [f]) :=
    List.rel_append (List.Forall₂.flip (hinner.imp fun _ _ h => ⟨false, h.2⟩))
      (.cons ⟨true, hmake⟩ .nil)
  have hfines : ∀ l ∈ inner ++ [outer], l.Fine False (· < 2 ^ 31) := by
    intro l hl
    rcases List.mem_append.mp hl with hl | hl
    · exact hall l hl
    · exact List.mem_singleton.mp hl ▸ hfine
  refine ⟨inner, outer, hplan, ?_, hsymbols, hstrings⟩
  rw [hfunctions]
  exact List.Forall₂.flip ((List.forall₂_and_left _ _).mpr ⟨hfines, hmakes⟩)

/--
A unit that compiles gives a closed program. There is one function for the unit and for each of its
function literals, and what the source of a function mentions is what its instructions look up, in
order: a slot of the function with the name, a symbol or a string of the program with the exact
text, or a function that was delivered before, made of the literal that is mentioned. The code of
each function stays below the largest address, no function literal has too many parameters to count
its slots, and there are enough ids for all symbols and strings.
-/
theorem compiled_program_closed (o : Options) (source : Option PendingSource) (n : Node)
    (debug : Bool) (hparams : n.ParamsFit (· < 2 ^ 31)) {root : UInt64}
    (hroot : (build o source n debug).1 = .ok root)
    (hsize : ∀ f ∈ (program o source n debug).functions, f.code.size < 2 ^ 32)
    (hsymbols : (program o source n debug).symbols.length ≤ 2 ^ 64)
    (hstrings : (program o source n debug).strings.length ≤ 2 ^ 64) :
    (program o source n debug).functions.length = n.units.length ∧
      ∀ (k : Nat) (f : CompiledFunction) (ms : List Mention),
        (program o source n debug).functions[k]? = some f → n.units[k]? = some ms → ∃ is slots,
          f.Closed (program o source n debug) ((program o source n debug).functions.take k)
            n.units ms is slots := by
  obtain ⟨inner, outer, hplan, hmakes, hsymbolsEq, hstringsEq⟩ := exists_fine_plan hparams hroot
  generalize program o source n debug = p at *
  have hlength := hmakes.length_eq
  have hpair {k : Nat} (hk : k < p.functions.length) :=
    hmakes.get hk (hlength ▸ hk)
  have hfits : ∀ l ∈ inner ++ [outer], Fits p l.names.symbols := by
    intro l hl
    obtain ⟨k, hk, rfl⟩ := List.getElem_of_mem hl
    obtain ⟨hfine, _, hm⟩ := hpair (hlength.symm ▸ hk)
    have hslots := hm.length_slots hfine (hsize _ (List.get_mem _ _))
    exact ⟨hsymbols, hstrings, Nat.le_of_lt hslots.2⟩
  obtain ⟨known, hdelivered, hunits⟩ := plan_delivers o.rootName Interner.sound_empty
    Interner.sound_empty hplan hsymbolsEq hstringsEq hfits
  have hids : p.functions.map (·.id) = (inner ++ [outer]).map (·.id) := by
    rw [← List.forall₂_eq_eq_eq, List.forall₂_map_left_iff, List.forall₂_map_right_iff]
    exact hmakes.imp fun _ _ ⟨_, _, hm⟩ => hm.id
  refine ⟨?_, fun k f ms hf hms => ?_⟩
  · rw [← hunits, List.length_map, hdelivered.length_eq, hlength]
  · obtain ⟨hk, rfl⟩ := List.getElem?_eq_some_iff.mp hf
    obtain ⟨hfine, _, hm⟩ := hpair hk
    have hresolves := hdelivered.resolves (List.getElem?_eq_getElem (hlength ▸ hk)) (hunits ▸ hms)
    refine ⟨_, _, hm.closed hfine (hsize _ (List.getElem_mem hk)) (hresolves.mono ?_)⟩
    exact hunits ▸ hdelivered.take_subset hids k

/-- A unit with a function literal, a `foreach`, a table with a keyed field and a call by dot. -/
def collectorUnit : Node :=
  .block {} [
    .operation { line := 1 } .assign [.identifier {} "sizeOf",
      .function {} [.parameter {} "item"] (.ret { line := 2 }
        (some (.operation {} .dot [.identifier {} "item", .identifier {} "size"])))],
    .operation { line := 3 } .assign [.identifier {} "total", .table {} [
      .operation {} .assignField [.identifier {} "unit", .constant {} (.str "bytes")]]],
    .foreach { line := 4 } (.identifier {} "world") none "item"
      (.call { line := 5 } (.operation {} .dot [.identifier {} "total", .identifier {} "add"])
        [.call {} (.identifier {} "sizeOf") [.identifier {} "item"] none] none)]

example : collectorUnit.units = [
    [.load "item", .getField "size"],
    [.function [.load "item", .getField "size"], .store "sizeOf", .text "bytes", .setField "unit",
      .store "total", .load "world", .advance "(key)" "item", .load "total", .getField "add",
      .load "sizeOf", .load "item"]] :=
  rfl

theorem compiled_program_closed_collector :
    (program {} none collectorUnit true).functions.length = collectorUnit.units.length ∧
      ∀ (k : Nat) (f : CompiledFunction) (ms : List Mention),
        (program {} none collectorUnit true).functions[k]? = some f →
        collectorUnit.units[k]? = some ms → ∃ is slots,
          f.Closed (program {} none collectorUnit true)
            ((program {} none collectorUnit true).functions.take k) collectorUnit.units ms is
            slots := by
  have hparams : collectorUnit.ParamsFit (· < 2 ^ 31) := by decide +kernel
  have hroot : (build {} none collectorUnit true).1 = .ok 0 := by decide +kernel
  have hsize : ∀ f ∈ (program {} none collectorUnit true).functions,
      f.code.size < 2 ^ 32 := by decide +kernel
  have hsymbols : (program {} none collectorUnit true).symbols.length ≤ 2 ^ 64 := by
    decide +kernel
  have hstrings : (program {} none collectorUnit true).strings.length ≤ 2 ^ 64 := by
    decide +kernel
  exact compiled_program_closed {} none collectorUnit true hparams hroot hsize hsymbols hstrings

end Compile

end ScriptToolchain
