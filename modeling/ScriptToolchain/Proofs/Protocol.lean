import ScriptToolchain.Proofs.Acceptance
import ScriptToolchain.Proofs.Walks

/-!
# Delivery of a unit

A host is told of the start, asked for ids, handed the functions and told of
the end, in this order. With a host that takes every function, a unit that does
not compile hands over none, and one that compiles hands over one for each
function literal of its tree and one for itself. The ids are taken as the tour
of the tree enters the literals, the functions come as it leaves them.
-/

namespace ScriptToolchain.Compile

open Node

variable {σ : Type}

/-! ## Calls in order -/

namespace Watched

/-- Behind these calls, the host was asked for ids only. -/
def Asked (calls : List Call) (w : Watched σ) (host : σ) : Prop :=
  w.host = host ∧ ∃ questions, w.calls = calls ++ questions ∧
    ∀ q ∈ questions, q.isQuestion = true

theorem Asked.ask {calls : List Call} {w : Watched σ} {host : σ} (h : w.Asked calls host)
    {q : Call} (hq : q.isQuestion = true) (host' : σ) :
    Asked calls { host := host', calls := w.calls ++ [q] } host' := by
  obtain ⟨-, questions, hcalls, hquestions⟩ := h
  refine ⟨rfl, questions ++ [q], ?_, ?_⟩
  · rw [hcalls, List.append_assoc]
  · intro k hk
    rcases List.mem_append.mp hk with hk | hk
    · exact hquestions k hk
    · rwa [List.mem_singleton.mp hk]

variable [Host σ]

theorem sameIds (calls : List Call) : SameIds (Asked (σ := σ) calls) where
  functionId := by rintro w _ h; obtain rfl := h.1; exact ⟨rfl, h.ask rfl _⟩
  symbolId := by rintro w _ name h; obtain rfl := h.1; exact ⟨rfl, h.ask rfl _⟩
  stringId := by rintro w _ text h; obtain rfl := h.1; exact ⟨rfl, h.ask rfl _⟩

/-- Functions are handed over in order, all of them unless one is refused. -/
theorem deliverAll_calls (w : Watched σ) (fs : List CompiledFunction) :
    ∃ given, given <+: fs ∧ (deliverAll w fs).2.calls = w.calls ++ given.map .deliver ∧
      ((deliverAll w fs).1 = none → given = fs) := by
  induction fs generalizing w with
  | nil => exact ⟨[], List.prefix_rfl, (List.append_nil _).symm, fun _ => rfl⟩
  | cons f rest ih =>
    rw [deliverAll]
    split
    · rename_i w' hdeliver
      have hcalls : w'.calls = w.calls ++ [.deliver f] := (congrArg (·.2.calls) hdeliver).symm
      obtain ⟨given, hprefix, hgiven, hall⟩ := ih w'
      refine ⟨f :: given, List.prefix_cons_inj f |>.mpr hprefix, ?_, fun h => ?_⟩
      · rw [hgiven, hcalls, List.append_assoc]
        rfl
      · rw [hall h]
    · rename_i reason w' hdeliver
      have hcalls : w'.calls = w.calls ++ [.deliver f] := (congrArg (·.2.calls) hdeliver).symm
      exact ⟨[f], ⟨rest, rfl⟩, hcalls, fun h => absurd h (Option.some_ne_none _)⟩

end Watched

variable [Host σ]

/-- Generating a unit asks the host for ids, and nothing else. -/
theorem generate_calls (o : Options) (n : Node) (w : Watched σ) :
    ∃ questions, (generate o n w).host.calls = w.calls ++ questions ∧
      ∀ q ∈ questions, q.isQuestion = true := by
  have hstart : w.Asked w.calls w.host := ⟨rfl, [], (List.append_nil _).symm, nofun⟩
  exact (generate_plan (Watched.sameIds _) o n hstart).1.2

/-- A unit that fails hands over nothing, any other one what the host takes. -/
theorem handOver_calls (o : Options) (g : Generated (Watched σ)) :
    ∃ given, (handOver o g).2.calls = g.host.calls ++ given.map .deliver ∧
      given <+: g.functions ∧
      (Compiler.fails o g.reports = true → given = []) ∧
      (Compiler.fails o g.reports = false → (handOver o g).1 = none → given = g.functions) := by
  rw [handOver]
  split
  · rename_i hfails
    refine ⟨[], (List.append_nil _).symm, List.nil_prefix, fun _ => rfl, fun h => ?_⟩
    rw [hfails] at h
    cases h
  · rename_i hfails
    obtain ⟨given, hprefix, hcalls, hall⟩ := g.host.deliverAll_calls g.functions
    exact ⟨given, hcalls, hprefix, fun h => absurd h hfails, fun _ => hall⟩

/-- The number of errors that the host is told at the end. -/
def toldErrors (o : Options) (g : Generated σ) : Nat :=
  Compiler.reportedErrors (Compiler.fails o g.reports || (handOver o g).1.isSome)
    (g.reports ++ (handOver o g).1.toList)

theorem toldErrors_eq_zero {o : Options} {g : Generated σ} :
    toldErrors o g = 0 ↔ Compiler.fails o g.reports = false ∧ (handOver o g).1 = none := by
  rw [toldErrors, Compiler.reportedErrors]
  cases Compiler.fails o g.reports with
  | true => simp
  | false =>
    cases (handOver o g).1 with
    | none => simp
    | some d => simp

/-- The host is told of the end behind all that is handed over. -/
theorem compile_ended (c : Compiler) (n : Node) (host : σ) :
    let g := generate c.options n (Host.started c.options.debug host)
    (c.compile n host).2.2 = Host.ended (toldErrors c.options g) (handOver c.options g).2 := by
  simp only [Compiler.compile, toldErrors, handOver]
  generalize generate c.options n (Host.started c.options.debug host) = g
  generalize (if Compiler.fails c.options g.reports = true then ((none : Option Diagnostic), g.host)
    else deliverAll g.host g.functions) = d
  cases g.root with
  | none => rfl
  | some root =>
    simp only
    split
    · rfl
    · rfl

/-- The calls of a compilation, in order. -/
theorem compile_calls (c : Compiler) (n : Node) (host : σ) :
    let g := generate c.options n (Host.started c.options.debug ({ host } : Watched σ))
    ∃ questions given,
      (c.compile n ({ host } : Watched σ)).2.2.calls = .started c.options.debug :: questions ++
        given.map .deliver ++ [.ended (toldErrors c.options g)] ∧
      g.host.calls = .started c.options.debug :: questions ∧
      (∀ q ∈ questions, q.isQuestion = true) ∧ given <+: g.functions ∧
      (Compiler.fails c.options g.reports = true → given = []) ∧
      (Compiler.fails c.options g.reports = false → (handOver c.options g).1 = none →
        given = g.functions) := by
  intro g
  obtain ⟨questions, hcalls, hquestions⟩ :=
    generate_calls c.options n (Host.started c.options.debug ({ host } : Watched σ))
  obtain ⟨given, hgiven, hall⟩ := handOver_calls c.options g
  have hended : (c.compile n ({ host } : Watched σ)).2.2.calls =
      (handOver c.options g).2.calls ++ [.ended (toldErrors c.options g)] :=
    congrArg Watched.calls (compile_ended c n ({ host } : Watched σ))
  have hasked : g.host.calls = .started c.options.debug :: questions := hcalls
  exact ⟨questions, given, by rw [hended, hgiven, hasked], hasked, hquestions, hall⟩

/-- A unit compiles exactly when its host is told of no error. -/
theorem compile_ok_iff (c : Compiler) (n : Node) (host : σ) :
    let g := generate c.options n (Host.started c.options.debug host)
    (∃ root, (c.compile n host).1 = .ok root) ↔ toldErrors c.options g = 0 := by
  intro g
  have hverdict : ((c.compile n host).1, (c.compile n host).2.1.pending) =
      verdict c.options g (handOver c.options g).1 := (compile_eq c n host).1
  rw [toldErrors_eq_zero]
  constructor
  · rintro ⟨root, hroot⟩
    rw [hroot] at hverdict
    exact (verdict_ok hverdict.symm).2
  · rintro ⟨hfails, hrefused⟩
    -- a unit that was given up has a report that fails it
    have hroot : g.root ≠ none := by
      intro hnone
      rcases generate_decides False False c.options (n := n) (Host.started c.options.debug host)
        False.elim False.elim with ⟨hsome, -⟩ | ⟨-, -, hblocked⟩
      · exact hsome hnone
      · obtain ⟨-, d, hlast, hd⟩ := hblocked.last
        have hany : g.reports.any (·.isError) = true :=
          List.any_eq_true.mpr ⟨d, List.mem_of_getLast? hlast, hd⟩
        rw [Compiler.fails, hany] at hfails
        cases hfails
    obtain ⟨root, hroot⟩ := Option.ne_none_iff_exists'.mp hroot
    refine ⟨root, ?_⟩
    rw [congrArg Prod.fst hverdict, verdict, hroot, hfails, hrefused]
    rfl

/-! ## Functions in order -/

/-- The function is what a function literal is compiled to. -/
def Compiled (σ : Type) [Host σ] (o : Options) (literal : Node) (f : CompiledFunction) : Prop :=
  ∃ l : Outline, l.Describes σ o.receiver literal ∧ l.Makes false o.debug f

/-- The function is what a unit is compiled to. -/
def CompiledUnit (σ : Type) [Host σ] (o : Options) (n : Node) (f : CompiledFunction) : Prop :=
  ∃ l : Outline, l.LoweredBy (σ := Watched σ) (Lowering.unit o.receiver n) ∧ l.Makes true o.debug f

/--
What the host answers and gets for a unit: `asked` are the literals with the answers to their
questions for an id, `made` the literals with their functions, and `last` is the function of the
unit itself.
-/
structure Delivery (σ : Type) [Host σ] (o : Options) (n : Node) (root : UInt64)
    (asked : List (Occurrence × UInt64)) (made : List (Occurrence × CompiledFunction))
    (last : CompiledFunction) : Prop where
  enters : asked.map Prod.fst = entered (n.tour false)
  leaves : made.map Prod.fst = left (n.tour false)
  /-- Each literal carries the answer to its own question. -/
  ids : (made.map fun x => (x.1, x.2.id)).Perm asked
  literals : ∀ x ∈ made, x.2.root = false ∧ Compiled σ o x.1.literal x.2
  unit : CompiledUnit σ o n last
  rootFlag : last.root = true
  rootId : last.id = root

namespace Delivery

variable {o : Options} {n : Node} {root : UInt64} {asked : List (Occurrence × UInt64)}
  {made : List (Occurrence × CompiledFunction)} {last : CompiledFunction}

/-- The literals are those of the tree, each one at its place. -/
theorem mem_made (h : Delivery σ o n root asked made last) {occurrence : Occurrence} :
    occurrence ∈ made.map Prod.fst ↔ n.at? occurrence.path = some occurrence.literal ∧
      occurrence.literal.isFunction = true := by
  rw [h.leaves, (left_perm false n).mem_iff, mem_entered]

/-- A literal is handed over before the one around it, and none is handed over twice. -/
theorem made_ordered (h : Delivery σ o n root asked made last) :
    made.Pairwise fun x y => ¬ x.1.Encloses y.1 := by
  have hleft := left_ordered false n
  rwa [← h.leaves, List.pairwise_map] at hleft

end Delivery

/-- The outlines of literals come to functions of literals. -/
theorem Literals.compiled {o : Options} {vs : List Visit} {asked : List (Occurrence × UInt64)}
    {made : List (Occurrence × Outline)} {fs : List CompiledFunction}
    (h : Literals σ o.receiver vs asked made)
    (hmakes : List.Forall₂ (fun f (l : Outline) => l.Makes false o.debug f) fs
      (made.map Prod.snd)) :
    ∃ compiled : List (Occurrence × CompiledFunction),
      compiled.map Prod.snd = fs ∧ compiled.map Prod.fst = left vs ∧
        (compiled.map fun x => (x.1, x.2.id)).Perm asked ∧
        ∀ x ∈ compiled, x.2.root = false ∧ Compiled σ o x.1.literal x.2 := by
  have hpairs : ∃ compiled : List (Occurrence × CompiledFunction),
      compiled.map Prod.snd = fs ∧ compiled.map Prod.fst = made.map Prod.fst ∧
        (compiled.map fun x => (x.1, x.2.id)) = (made.map fun x => (x.1, x.2.id)) ∧
        ∀ x ∈ compiled, x.2.root = false ∧ Compiled σ o x.1.literal x.2 := by
    have hdescribes := h.describes
    clear h
    induction made generalizing fs with
    | nil =>
      cases hmakes
      exact ⟨[], rfl, rfl, rfl, nofun⟩
    | cons x rest ih =>
      obtain ⟨occurrence, l⟩ := x
      obtain ⟨f, fs, hf, hrest, rfl⟩ := List.forall₂_cons_right_iff.mp hmakes
      obtain ⟨compiled, hfs, hfst, hids, hall⟩ :=
        ih hrest fun x hx => hdescribes x (List.mem_cons_of_mem _ hx)
      refine ⟨(occurrence, f) :: compiled, ?_, ?_, ?_, ?_⟩
      · rw [List.map_cons, hfs]
      · rw [List.map_cons, hfst, List.map_cons]
      · rw [List.map_cons, hids, List.map_cons, hf.id]
      · intro x hx
        rcases List.mem_cons.mp hx with rfl | hx
        · exact ⟨hf.root, l, hdescribes _ (List.mem_cons_self ..), hf⟩
        · exact hall x hx
  obtain ⟨compiled, hfs, hfst, hids, hall⟩ := hpairs
  exact ⟨compiled, hfs, hfst.trans h.leaves, hids ▸ h.ids, hall⟩

/-- A generated unit is made of the outlines of its literals and of its own. -/
theorem generate_outlines {o : Options} {n : Node} {w : Watched σ} {root : UInt64}
    (hroot : (generate o n w).root = some root) :
    ∃ asked made outer fs last,
      (plan o.receiver o.rootName n w).functions = some (made.map Prod.snd, outer) ∧
      Literals σ o.receiver (n.tour false) asked made ∧
      outer.LoweredBy (σ := Watched σ) (Lowering.unit o.receiver n) ∧ outer.id = root ∧
      List.Forall₂ (fun f (l : Outline) => l.Makes false o.debug f) fs (made.map Prod.snd) ∧
      outer.Makes true o.debug last ∧
      (generate o n w).functions = fs ++ [last] ∧
      (generate o n w).host.ids = w.ids ++ root :: asked.map Prod.snd := by
  obtain ⟨hhost, -, hmakes⟩ := generate_plan sameIds_eq o n (rfl : w = w)
  cases hfunctions : (plan o.receiver o.rootName n w).functions with
  | none =>
    rw [(hmakes.failed hfunctions).1] at hroot
    cases hroot
  | some functions =>
    obtain ⟨inner, outer⟩ := functions
    obtain ⟨hid, fs, last, hgiven, hinner, -, hlast⟩ := hmakes.made inner outer hfunctions
    obtain ⟨code, c, hrun, hplanHost, rfl, rfl⟩ := plan_eq_some hfunctions
    obtain ⟨asked, made, hliterals, hids, houtlines⟩ := (tours_unit n _ _ _ _ hrun).literals
    rw [List.append_nil] at houtlines
    rw [houtlines, List.reverse_reverse] at hinner ⊢
    obtain rfl : (Host.functionId w).1 = root := Option.some.inj (hid.symm.trans hroot)
    have hstart : (Host.functionId w).2.ids = w.ids ++ [(Host.functionId w).1] := by
      simp [Watched.ids, Host.functionId, Call.id?]
    refine ⟨asked, made, _, fs, last, rfl, hliterals, ?_, rfl, hinner.imp fun _ _ h => h.2, hlast,
      hgiven, ?_⟩
    · exact ⟨{ host := (Host.functionId w).2 }, c, rfl, rfl, hrun, rfl⟩
    · rw [hhost, hplanHost, hids, hstart, List.append_assoc]
      rfl

/-- A generated unit has functions to deliver. -/
theorem generate_delivers {o : Options} {n : Node} {w : Watched σ} {root : UInt64}
    (hroot : (generate o n w).root = some root) :
    ∃ asked made last, Delivery σ o n root asked made last ∧
      (generate o n w).functions = made.map Prod.snd ++ [last] ∧
      (generate o n w).host.ids = w.ids ++ root :: asked.map Prod.snd := by
  obtain ⟨asked, made, outer, fs, last, -, hliterals, hunit, rfl, hfs, hlast, hgiven, hids⟩ :=
    generate_outlines hroot
  obtain ⟨compiled, rfl, hleft, hown, hall⟩ := hliterals.compiled hfs
  exact ⟨asked, compiled, last, ⟨hliterals.enters, hleft, hown, hall, ⟨outer, hunit, hlast⟩,
    hlast.root, hlast.id⟩, hgiven, hids⟩

/--
With a host that takes every function, a compilation tells the host of the start, asks for ids,
hands over functions and tells the host of the end, in this order. It tells of no error exactly
when the unit compiles, and a unit that does not compile hands over nothing. Of a unit that
compiles, there is one function for each function literal of the tree, behind those of the literals
in it, and a last one for the unit, the only root. Each carries the answer to its own question for
an id; the first answer is the id of the unit, which is also what the compilation answers.
-/
theorem delivered_by_protocol (c : Compiler) (n : Node) (host : σ)
    (haccept : ∀ f (s : σ), (Host.deliver f s).1 = .ok ()) :
    let answer := (c.compile n ({ host } : Watched σ)).1
    ∃ questions delivered errors,
      (c.compile n ({ host } : Watched σ)).2.2.calls =
        .started c.options.debug :: questions ++ delivered.map .deliver ++ [.ended errors] ∧
      (∀ q ∈ questions, q.isQuestion = true) ∧
      (errors = 0 ↔ ∃ root, answer = .ok root) ∧
      (∀ e, answer = .error e → delivered = []) ∧
      ∀ root, answer = .ok root → ∃ asked made last,
        questions.filterMap Call.id? = root :: asked.map Prod.snd ∧
        delivered = made.map Prod.snd ++ [last] ∧
        Delivery σ c.options n root asked made last ∧
        (∀ o : Occurrence, o ∈ made.map Prod.fst ↔
          n.at? o.path = some o.literal ∧ o.literal.isFunction = true) ∧
        made.Pairwise fun x y => ¬ x.1.Encloses y.1 := by
  intro answer
  let g := generate c.options n (Host.started c.options.debug ({ host } : Watched σ))
  obtain ⟨questions, delivered, hcalls, hasked, hquestions, -, hnone, hall⟩ :=
    compile_calls c n host
  have hok := compile_ok_iff c n ({ host } : Watched σ)
  have hverdict := (compile_eq c n ({ host } : Watched σ)).1
  change (∃ root, answer = .ok root) ↔ toldErrors c.options g = 0 at hok
  change (answer, _) = verdict c.options g _ at hverdict
  have haccepts : ∀ f (v : Watched σ), (Host.deliver f v).1 = .ok () :=
    fun f v => haccept f v.host
  have htaken : (handOver c.options g).1 = none := by
    rw [handOver]
    split
    · rfl
    · exact deliverAll_accepting haccepts _ _
  refine ⟨questions, delivered, toldErrors c.options g, hcalls, hquestions, hok.symm,
    fun e he => ?_, fun root hroot => ?_⟩
  · refine hnone (Bool.of_not_eq_false fun hfails => ?_)
    obtain ⟨root, hroot⟩ := hok.mpr (toldErrors_eq_zero.mpr ⟨hfails, htaken⟩)
    rw [he] at hroot
    cases hroot
  · rw [hroot] at hverdict
    obtain ⟨hgenerated, hfails, -⟩ := verdict_ok hverdict.symm
    obtain ⟨asked, made, last, hdelivery, hfunctions, hids⟩ := generate_delivers hgenerated
    refine ⟨asked, made, last, ?_, (hall hfails htaken).trans hfunctions, hdelivery,
      fun o => hdelivery.mem_made, hdelivery.made_ordered⟩
    rw [Watched.ids, hasked] at hids
    exact hids

/-- A function literal with another one in it, and a third one behind. -/
def nestedUnit : Node :=
  .block {} [
    .operation {} .assign [.identifier {} "outer", .function {} [.parameter {} "n"] (.block {} [
      .operation {} .assign [.identifier {} "inner", .function {} [] (.ret {} none)],
      .ret {} (some (.identifier {} "inner"))])],
    .call { flags := .popResult } (.function {} [] (.block {} [])) [] none]

theorem delivered_by_protocol_nested :
    (∀ f (s : Counter), (Host.deliver f s).1 = .ok ()) ∧
      (Compiler.compile { options := {} } nestedUnit ({ host := {} } : Watched Counter)).1 =
        .ok 0 ∧
      ∃ questions asked made last,
        (Compiler.compile { options := {} } nestedUnit
          ({ host := {} } : Watched Counter)).2.2.calls =
            .started false :: questions ++ (made.map Prod.snd ++ [last]).map .deliver ++
              [.ended 0] ∧
        questions.filterMap Call.id? = 0 :: asked.map Prod.snd ∧
        Delivery Counter {} nestedUnit 0 asked made last := by
  have hcompiles : (Compiler.compile { options := {} } nestedUnit
      ({ host := {} } : Watched Counter)).1 = .ok 0 := by decide +kernel
  have haccept : ∀ f (s : Counter), (Host.deliver f s).1 = .ok () := fun _ _ => rfl
  obtain ⟨questions, delivered, errors, hcalls, -, hzero, -, hok⟩ :=
    delivered_by_protocol { options := {} } nestedUnit ({} : Counter) haccept
  obtain ⟨asked, made, last, hanswers, rfl, hdelivery, -⟩ := hok 0 hcompiles
  obtain rfl := hzero.mpr ⟨0, hcompiles⟩
  exact ⟨haccept, hcompiles, questions, asked, made, last, hcalls, hanswers, hdelivery⟩

end ScriptToolchain.Compile
