import ScriptToolchain.Debug.Control
import ScriptToolchain.Proofs.LineTables
import ScriptToolchain.Proofs.Protocol

/-!
# Lines and breakpoints of delivered functions

A debug build marks the lines that the tour of a body meets, unless they are
unknown or current. So every statement of a body has its line among the marks,
and a delivered function has one line table for all of it: the table gives each
instruction the line of the last mark up to it, and a line is found at a mark
with another instruction right behind, which is where a session stops.
-/

namespace ScriptToolchain

/-! ## Statements of a function -/

namespace Node

/-- The node is a statement by its kind, and no block. -/
def isStatement : Node → Bool
  | .ifElse .. | .whileLoop .. | .doLoop .. | .forLoop .. | .foreach .. | .breakLoop ..
  | .continueLoop .. | .ret .. => true
  | _ => false

/--
The node is a statement in the function with this body, by its kind or by its place; blocks and
declarations are none.
-/
def HasStatement (body s : Node) : Prop :=
  body.Spans s ∧ s.isStatement = true ∨
    s.isMarked = true ∧
      (s = body ∨ ∃ m, body.Spans m ∧ m.isFunction = false ∧ s ∈ m.statements)

theorem isMarked_of_isStatement {s : Node} (h : s.isStatement = true) : s.isMarked = true := by
  cases s <;> first | rfl | cases h

theorem isExpression_of_isStatement {s : Node} (h : s.isStatement = true) :
    s.isExpression = false := by
  cases s <;> first | rfl | cases h

/-- Where only expressions are met as parts, the line of every statement is to be marked. -/
theorem HasStatement.mem_lines {body s : Node} (h : body.HasStatement s)
    (hparts : ∀ {m}, .part m ∈ body.tour false → m.isExpression = true) :
    s.line ∈ lines (body.tour false) := by
  rcases h with ⟨hspans, hs⟩ | ⟨hs, rfl | ⟨m, hspans, hm, hmem⟩⟩
  · obtain ⟨as, hmet⟩ := hspans.met false
    cases as with
    | false => exact Node.mem_lines hmet (isMarked_of_isStatement hs)
    | true =>
      -- only expressions are lowered as parts
      have hexpression := hparts hmet
      rw [isExpression_of_isStatement hs] at hexpression
      cases hexpression
  · refine Node.mem_lines ?_ hs
    rw [tour_eq]
    exact List.mem_cons_self ..
  · exact Node.mem_lines (hspans.met_statement hm hmem false) hs

end Node

namespace CompiledFunction

/--
What a session arms for a known line of the function: the line is found at an instruction `line`,
and the address that is armed is that of the next instruction.
-/
def Armed (f : CompiledFunction) (is : List Instruction) : Prop :=
  ∀ {line a}, line ≠ 0 → f.addressOfLine? line = some a →
    ∃ before i j after, is = before ++ i :: j :: after ∧ i.opcode = .line ∧ i.address = a ∧
      ∀ (c : Debug.Control) (t : Debug.Target) (source : UInt32) (s : Debug.Scope)
        (enabled : Bool), t.marker? source line = some ⟨f.id, a⟩ →
          c.setBreakpoint t source line s enabled =
            c.changeBreakpoint ⟨f.id, j.address⟩ s enabled

theorem Lined.armed {f : CompiledFunction} {is : List Instruction} {entries : List LineEntry}
    {marks : List UInt32} (h : f.Lined is entries marks) : f.Armed is := by
  intro line a hne hfind
  obtain ⟨before, i, j, after, hsplit, hop, hat, hnext⟩ := h.marker hne hfind
  refine ⟨before, i, j, after, hsplit, hop, hat, fun c t source s enabled hmarker => ?_⟩
  rw [Debug.Control.setBreakpoint, hmarker, hnext]
  rfl

end CompiledFunction

namespace Compile

open Node

/-- A known line is marked where it is met, unless it is current from the start. -/
theorem mem_marksFrom {current line : UInt32} {ls : List UInt32} (h : line ∈ ls)
    (hne : line ≠ 0) : line = current ∨ line ∈ marksFrom current ls := by
  induction ls generalizing current with
  | nil => cases h
  | cons x rest ih =>
    rw [marksFrom]
    split
    · rcases List.mem_cons.mp h with rfl | h
      · exact .inr (List.mem_cons_self ..)
      · have hrest : line = x ∨ line ∈ marksFrom x rest := ih h
        rcases hrest with rfl | h
        · exact .inr (List.mem_cons_self ..)
        · exact .inr (List.mem_cons_of_mem _ h)
    · -- a known line is skipped only where it is current
      rename_i hskip
      rcases List.mem_cons.mp h with rfl | h
      · left
        simpa [hne] using hskip
      · exact ih h

/-! ## Marks of an outline -/

/-- The directives of a block mark what the block marks. -/
theorem Block.marks_directives (b : Block) (start n : Nat) :
    (b.directives start n).filterMap Directive.mark? = b.marks := by
  have hbranch (op : Opcode) (ds : List Directive) :
      (.branch op :: ds).filterMap Directive.mark? = ds.filterMap Directive.mark? := rfl
  have hresolve (k : Nat) (t : UInt32) (ds : List Directive) :
      (.resolve k t :: ds).filterMap Directive.mark? = ds.filterMap Directive.mark? := rfl
  have hresolves (t : UInt32) (labels : List Nat) :
      (labels.map (Directive.resolve · t)).filterMap Directive.mark? = [] := by
    rw [List.filterMap_map]
    exact List.filterMap_eq_nil_iff.mpr fun _ _ => rfl
  induction b generalizing start n with
  | empty | instr | mark => rfl
  | jump op j => rfl
  | seq a b iha ihb => rw [directives, List.filterMap_append, iha, ihb, marks]
  | skip op body ih =>
    rw [directives, hbranch, List.filterMap_append, ih, hresolve]
    exact List.append_nil _
  | either yes no ihy ihn =>
    rw [directives, hbranch, List.filterMap_append, ihy, hbranch, hresolve,
      List.filterMap_append, ihn, hresolve]
    exact congrArg _ (List.append_nil _)
  | loop body tail back resume ihb iht =>
    have hback (x : Operand) (ds : List Directive) :
        (.emit back x :: ds).filterMap Directive.mark? = ds.filterMap Directive.mark? := rfl
    rw [directives, List.filterMap_append, ihb, List.filterMap_append, iht, hback,
      List.filterMap_append, hresolves, hresolves]
    exact congrArg _ (List.append_nil _)

/-- The marks of an outline are those of its code. -/
theorem Outline.marks_eq (l : Outline) : l.marks = l.code.marks :=
  l.code.marks_directives 0 0

/-- The outline is that of a function with this body. -/
structure Outline.Follows (l : Outline) (body : Node) : Prop where
  wellFormed : l.code.WellFormed
  returns : l.code.Returns
  marks : l.marks = marksFrom 0 (lines (body.tour false))
  parts : ∀ {m}, .part m ∈ body.tour false → m.isExpression = true

variable {σ : Type} [Host σ] {policy : ReceiverPolicy} {popped : Prop} {fit : Nat → Prop}
  {l : Outline}

theorem Outline.LoweredBy.follows {step : Lowering (Watched σ) Unit} (h : l.LoweredBy step)
    {body : Node} (hstep : step.Tours policy (body.tour false)) (hl : l.Fine popped fit) :
    l.Follows body := by
  obtain ⟨hmarks, hparts⟩ := h.marks hstep
  exact ⟨hl.wellFormed, hl.returns, l.marks_eq.trans hmarks, hparts⟩

theorem Outline.Describes.follows {literal : Node} (h : l.Describes σ policy literal)
    (hl : l.Fine popped fit) : l.Follows literal.body := by
  obtain ⟨m, params, body, rfl, hlowered⟩ := h
  exact hlowered.follows (tours_literal m.line params body) hl

/-- The function is made of an outline that follows this body. -/
def FollowsBody (o : Options) (f : CompiledFunction) (body : Node) : Prop :=
  ∃ (root : Bool) (l : Outline), l.Makes root o.debug f ∧ l.Follows body

/--
The functions of a unit are what its literals and the unit itself come to, in order: what holds of
the function of each outline holds of all of them.
-/
theorem generate_each (popped : Prop) (fit : Nat → Prop) {β : Type}
    {Q : CompiledFunction → β → Prop} {o : Options} {n : Node} {w : Watched σ} {root : UInt64}
    (g : Node → β) (b : β) (hn : n.Meets popped fit) (hself : popped → n.Discards) (hfit : fit 0)
    (hliteral : ∀ {l : Outline} {literal f}, l.Describes σ o.receiver literal →
      l.Fine popped fit → l.Makes false o.debug f → Q f (g literal))
    (hunit : ∀ {l : Outline} {f}, l.LoweredBy (σ := Watched σ) (Lowering.unit o.receiver n) →
      l.Fine popped fit → l.Makes true o.debug f → Q f b)
    (hroot : (generate o n w).root = some root) :
    List.Forall₂ Q (generate o n w).functions
      ((left (n.tour false)).map (g ·.literal) ++ [b]) := by
  obtain ⟨asked, made, outer, fs, last, hplan, hliterals, houter, -, hfs, hlast, hgiven, -⟩ :=
    generate_outlines hroot
  obtain ⟨hfine, hinner⟩ := plan_fine popped fit o.rootName hn hself hfit w hplan
  have hdescribed : ∀ x ∈ made, x.2.Describes σ o.receiver x.1.literal ∧ x.2.Fine popped fit :=
    fun x hx => ⟨hliterals.describes x hx, hinner x.2 (List.mem_map_of_mem hx)⟩
  have hmade : List.Forall₂ (fun x f => x.2.Makes false o.debug f) made fs :=
    (List.forall₂_map_right_iff.mp hfs).flip
  have heach : List.Forall₂ Q fs (made.map (g ·.1.literal)) := by
    rw [List.forall₂_map_right_iff]
    refine List.Forall₂.flip (((List.forall₂_and_left _ _).mpr ⟨hdescribed, hmade⟩).imp ?_)
    exact fun x f h => hliteral h.1.1 h.1.2 h.2
  -- the functions are made as the tour leaves their literals
  have hleft : (left (n.tour false)).map (g ·.literal) = made.map (g ·.1.literal) := by
    rw [← hliterals.leaves, List.map_map]
    rfl
  rw [hgiven, hleft]
  exact List.rel_append heach (.cons (hunit houter hfine hlast) .nil)

/-! ## Delivered functions -/

/-- The function that is handed over, if one is. -/
def Call.delivered? : Call → Option CompiledFunction
  | .deliver f => some f
  | _ => none

/-- The functions that were handed over, in order. -/
def Watched.delivered (w : Watched σ) : List CompiledFunction :=
  w.calls.filterMap Call.delivered?

/-- What is handed over are functions of the unit in their order, up to one that is refused. -/
theorem delivered_in_order (c : Compiler) (n : Node) (host : σ) :
    (c.compile n ({ host } : Watched σ)).2.2.delivered <+:
      (generate c.options n (Host.started c.options.debug ({ host } : Watched σ))).functions := by
  obtain ⟨questions, given, hcalls, -, hquestions, hprefix, -⟩ := compile_calls c n host
  have hnone : questions.filterMap Call.delivered? = [] := by
    refine List.filterMap_eq_nil_iff.mpr fun q hq => ?_
    have hquestion := hquestions q hq
    cases q <;> first | rfl | cases hquestion
  have hgiven : (given.map Call.deliver).filterMap Call.delivered? = given := by
    rw [List.filterMap_map]
    exact List.filterMap_some
  have hall : (c.compile n ({ host } : Watched σ)).2.2.delivered = given := by
    rw [Watched.delivered, hcalls, List.filterMap_append, List.filterMap_append, hgiven]
    show questions.filterMap Call.delivered? ++ given ++ [] = given
    rw [hnone, List.append_nil, List.nil_append]
  rwa [hall]

/-- What holds of the functions of all outlines holds of one that is delivered. -/
theorem delivered_each (popped : Prop) (fit : Nat → Prop) {β : Type}
    {Q : CompiledFunction → β → Prop} (c : Compiler) {n : Node} (host : σ) (g : Node → β) (b : β)
    (hn : n.Meets popped fit) (hself : popped → n.Discards) (hfit : fit 0)
    (hliteral : ∀ {l : Outline} {literal f}, l.Describes σ c.options.receiver literal →
      l.Fine popped fit → l.Makes false c.options.debug f → Q f (g literal))
    (hunit : ∀ {l : Outline} {f},
      l.LoweredBy (σ := Watched σ) (Lowering.unit c.options.receiver n) →
      l.Fine popped fit → l.Makes true c.options.debug f → Q f b)
    {k : Nat} {f : CompiledFunction}
    (hf : (c.compile n ({ host } : Watched σ)).2.2.delivered[k]? = some f) :
    ∃ x, ((left (n.tour false)).map (g ·.literal) ++ [b])[k]? = some x ∧ Q f x := by
  let w : Watched σ := Host.started c.options.debug { host }
  obtain ⟨hk, rfl⟩ := List.getElem?_eq_some_iff.mp hf
  have hgenerated := List.prefix_iff_getElem?.mp (delivered_in_order c n host) k hk
  obtain ⟨-, -, hmakes⟩ := generate_plan sameIds_eq c.options n (rfl : w = w)
  cases hplan : (plan c.options.receiver c.options.rootName n w).functions with
  | none =>
    -- a unit that is given up has no functions
    rw [(hmakes.failed hplan).2] at hgenerated
    cases hgenerated
  | some functions =>
    have heach :=
      generate_each popped fit g b hn hself hfit hliteral hunit (hmakes.made _ _ hplan).1
    obtain ⟨hfunction, heq⟩ := List.getElem?_eq_some_iff.mp hgenerated
    have hplace := heach.length_eq ▸ hfunction
    exact ⟨_, List.getElem?_eq_getElem hplace, heq ▸ heach.get hfunction hplace⟩

/-- A delivered function is that of the body at the same place. -/
theorem delivered_body (c : Compiler) (n : Node) (host : σ) {k : Nat} {f : CompiledFunction}
    (hf : (c.compile n ({ host } : Watched σ)).2.2.delivered[k]? = some f) :
    ∃ body, n.bodies[k]? = some body ∧ FollowsBody c.options f body :=
  delivered_each False (fun _ => True) c host Node.body n ⟨False.elim, fun _ => trivial⟩ False.elim
    trivial
    (fun hdescribes hfine hmakes => ⟨false, _, hmakes, hdescribes.follows hfine⟩)
    (fun hunit hfine hmakes => ⟨true, _, hmakes, hunit.follows (tours_unit n) hfine⟩) hf

/--
Every function that a debug build hands over, of whatever tree and to whatever host, belongs to the
body at the same place and has one line table. The addresses in it rise, and neighbours have
different lines. If the code stays below the largest address, an instruction has the line of the
last mark up to it, and zero before the first mark; the marks are the lines along the tour of the
body but for those that are unknown or current. A known line is found at an instruction `line`, and
a session that is given that place arms another instruction, the next one. Every statement on a
known line has an entry for its line.
-/
theorem delivered_lines (c : Compiler) (n : Node) (host : σ) (hdebug : c.options.debug = true)
    {k : Nat} {f : CompiledFunction}
    (hf : (c.compile n ({ host } : Watched σ)).2.2.delivered[k]? = some f) :
    ∃ body entries, n.bodies[k]? = some body ∧ f.Tabled entries ∧
      (f.code.size < 2 ^ 32 → ∃ is, Code.decode f.code = .ok is ∧
        f.Lined is entries (marksFrom 0 (lines (body.tour false))) ∧ f.Armed is ∧
        ∀ {s}, body.HasStatement s → s.line ≠ 0 → ∃ e ∈ entries, e.line = s.line) := by
  obtain ⟨body, hbody, root, l, hmakes, hfollows⟩ := delivered_body c n host hf
  rw [hdebug] at hmakes
  obtain ⟨entries, htable⟩ := hmakes.tabled
  refine ⟨body, entries, hbody, htable, fun hlt => ?_⟩
  obtain ⟨hdecode, -⟩ := hmakes.placed hfollows.wellFormed hlt
  have hlined := hmakes.lined hfollows.wellFormed hfollows.returns hlt htable
  rw [hfollows.marks] at hlined
  refine ⟨_, hdecode, hlined, hlined.armed, fun hs hne => hlined.listed _ ?_⟩
  exact (mem_marksFrom (hs.mem_lines hfollows.parts) hne).resolve_left hne

/--
A unit on lines that repeat, fall and are unknown, with a function literal in the middle of a line.
-/
def markedUnit : Node :=
  .block { line := 9 } [
    .operation { line := 5 } .assign [.identifier { line := 5 } "f",
      .function { line := 5 } [.parameter { line := 5 } "a"] (.block { line := 5 } [
        .ifElse { line := 7 } (.identifier { line := 7 } "a")
          (.ret { line := 6 } (some (.identifier {} "a"))) none,
        .ret {} none])],
    .call { line := 4, flags := .popResult } (.identifier { line := 4 } "f")
      [.constant { line := 5 } (.int 1)] none]

/-- The functions that a host is handed for the unit in a debug build. -/
def markedFunctions : List CompiledFunction :=
  (Compiler.compile { options := { debug := true } } markedUnit
    ({ host := {} } : Watched Counter)).2.2.delivered

theorem delivered_lines_marked :
    ∃ f body entries is, markedFunctions[0]? = some f ∧ markedUnit.bodies[0]? = some body ∧
      f.Tabled entries ∧ Code.decode f.code = .ok is ∧
      f.Lined is entries (marksFrom 0 (lines (body.tour false))) ∧ f.Armed is ∧
      ∀ {s}, body.HasStatement s → s.line ≠ 0 → ∃ e ∈ entries, e.line = s.line := by
  have hlength : 0 < markedFunctions.length := by decide +kernel
  have hsize : ∀ f ∈ markedFunctions, f.code.size < 2 ^ 32 := by decide +kernel
  have hf := List.getElem?_eq_getElem hlength
  obtain ⟨body, entries, hbody, htable, hcode⟩ :=
    delivered_lines { options := { debug := true } } markedUnit ({} : Counter) rfl hf
  obtain ⟨is, hdecode, hlined, harmed, hlisted⟩ := hcode (hsize _ (List.getElem_mem hlength))
  exact ⟨_, body, entries, is, hf, hbody, htable, hdecode, hlined, harmed, hlisted⟩

end Compile

end ScriptToolchain
