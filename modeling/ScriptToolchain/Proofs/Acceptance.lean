import ScriptToolchain.Proofs.Decision
import ScriptToolchain.Proofs.Delivery

/-!
# Which units compile

A unit compiles exactly when it is valid, as long as its names fit, warnings
are let pass and the host takes what it is given. A unit that does not compile
has one report that fails it, and that report is the last one.
-/

namespace ScriptToolchain.Compile

variable {σ : Type} [Host σ]

section

variable (named shaped : Prop)

/--
Lowering a unit gives functions and warnings where the unit is valid. Elsewhere it gives no
function, and of its reports only the last is no warning.
-/
theorem plan_decides (policy : ReceiverPolicy) (rootName : String) {n : Node} (host : σ)
    (hnames : named → n.NamesFit) (hshape : shaped → n.RightShape) :
    let p := plan policy rootName n host
    (p.functions ≠ none ∧ (n.Valid ∧ n.CallsFit ArgumentsFit) ∧
        Warned shaped [] p.reports.reverse) ∨
      p.functions = none ∧ (named → ¬ (n.Valid ∧ n.CallsFit ArgumentsFit)) ∧
        Blocked shaped [] p.reports.reverse := by
  obtain ⟨names, hfit⟩ := Node.exists_names fun hnamed => (hnames hnamed).root
  have hhas : n.Has named shaped names n :=
    ⟨fun hnamed => (hfit hnamed).1, fun _ => .self n,
      fun hnamed _ _ _ hk => (hnames hnamed).literals hk, fun hs => (hshape hs).nodes⟩
  have hunit := ((decides_node n hhas : Decided σ policy named shaped n names n).statement
    (fun hs => (hshape hs).root) false).done fun _ => Lowering.Judges.put (.instr .ret .none)
  have hrun := hunit.of_iff Grammar.statement_iff_callsFit { host := (Host.functionId host).2 }
    fun _ => VariableTable.within_empty _ _
  rw [plan]
  dsimp only
  generalize hlowered : ((Lowering.node policy false .statement n >>= fun _ =>
    Lowering.put (.instr .ret .none)) { host := (Host.functionId host).2 } : Lowered σ Unit) = r
    at hrun
  have hsame : ((do
      Lowering.node policy false .statement n
      Lowering.emit .ret : Lowering σ Unit) { host := (Host.functionId host).2 }) = r := hlowered
  rw [hsame]
  cases hrun with
  | accepts hvalid _ hwarned =>
    exact .inl ⟨Option.some_ne_none _, hvalid, by rwa [List.reverse_reverse]⟩
  | refuses hinvalid hblocked => exact .inr ⟨rfl, hinvalid, by rwa [List.reverse_reverse]⟩

/-- The generator gives a root and warnings where the unit is valid, and elsewhere gives up. -/
theorem generate_decides (o : Options) {n : Node} (host : σ) (hnames : named → n.NamesFit)
    (hshape : shaped → n.RightShape) :
    let g := generate o n host
    (g.root ≠ none ∧ (n.Valid ∧ n.CallsFit ArgumentsFit) ∧
        Warned shaped [] g.reports.reverse) ∨
      g.root = none ∧ (named → ¬ (n.Valid ∧ n.CallsFit ArgumentsFit)) ∧
        Blocked shaped [] g.reports.reverse := by
  obtain ⟨-, hreports, hmakes⟩ := generate_plan sameIds_eq o n (rfl : host = host)
  simp only [hreports]
  rcases plan_decides named shaped o.receiver o.rootName host hnames hshape with
    ⟨hsome, hvalid, hwarned⟩ | ⟨hnone, hinvalid, hblocked⟩
  · obtain ⟨⟨inner, outer⟩, hfunctions⟩ := Option.ne_none_iff_exists'.mp hsome
    obtain ⟨hroot, -⟩ := hmakes.made inner outer hfunctions
    exact .inl ⟨by rw [hroot]; exact Option.some_ne_none _, hvalid, hwarned⟩
  · exact .inr ⟨(hmakes.failed hnone).1, hinvalid, hblocked⟩

end

/-! ## Reports -/

variable {shaped : Prop}

/-- Warnings do not fail a unit that lets them pass. -/
theorem fails_eq_any {o : Options} (hdeny : o.denyWarnings = false) (reports : List Diagnostic) :
    Compiler.fails o reports = reports.any (·.isError) := by
  rw [Compiler.fails, hdeny, Bool.false_and, Bool.or_false]

theorem Warned.isError {reports : List Diagnostic} (h : Warned shaped [] reports) :
    ∀ d ∈ reports, d.isError = false := by
  obtain ⟨new, rfl, hnew⟩ := h
  rw [List.append_nil]
  intro d hd
  obtain ⟨f, line, -, hsev, rfl⟩ := hnew d hd
  simp [Diagnostic.isError, Finding.report, hsev]

theorem Warned.errorCount {reports : List Diagnostic} (h : Warned shaped [] reports) :
    Diagnostic.errorCount reports = 0 := by
  rw [Diagnostic.errorCount, List.countP_eq_zero]
  intro d hd
  rw [h.isError d hd]
  exact Bool.false_ne_true

/-- A unit that is given up has one report that fails it, the last one. -/
theorem Blocked.last {reports : List Diagnostic} (h : Blocked shaped [] reports.reverse) :
    Diagnostic.errorCount reports = 1 ∧ ∃ d, reports.getLast? = some d ∧ d.isError := by
  obtain ⟨f, line, rest, -, hsev, hrest, hreverse⟩ := h
  have herror : (f.report line).isError = true := by
    simp [Diagnostic.isError, Finding.report, hsev]
  have hreports : reports = rest.reverse ++ [f.report line] := by
    rw [← List.reverse_cons, ← hreverse, List.reverse_reverse]
  have hwarnings : Diagnostic.errorCount rest = 0 := hrest.errorCount
  rw [Diagnostic.errorCount] at hwarnings
  rw [hreports]
  refine ⟨?_, f.report line, by simp, herror⟩
  rw [Diagnostic.errorCount, List.countP_append, List.countP_reverse, hwarnings,
    List.countP_singleton, if_pos herror]

/-- A host that takes what it is given refuses nothing. -/
theorem deliverAll_accepting (h : ∀ f (s : σ), (Host.deliver f s).1 = .ok ()) (host : σ)
    (fs : List CompiledFunction) : (deliverAll host fs).1 = none := by
  induction fs generalizing host with
  | nil => rfl
  | cons f rest ih =>
    have haccept := h f host
    rw [deliverAll]
    rcases hdeliver : Host.deliver f host with ⟨answer, host'⟩
    rw [hdeliver] at haccept
    obtain rfl : answer = .ok () := haccept
    exact ih host'

/--
Where names fit, warnings are let pass and the host takes every function, a unit compiles exactly
when it is valid and the arguments of its calls can be counted. All others have one report that
fails them, and it is the last one.
-/
theorem compiles_iff_fits {c : Compiler} {n : Node} (host : σ)
    (haccept : ∀ f (s : σ), (Host.deliver f s).1 = .ok ())
    (hdeny : c.options.denyWarnings = false) (hnames : n.NamesFit) :
    ((∃ root, (c.compile n host).1 = .ok root) ↔ n.Valid ∧ n.CallsFit ArgumentsFit) ∧
      ∀ e, (c.compile n host).1 = .error e →
        e.errorCount = 1 ∧ ∃ d, e.diagnostics.getLast? = some d ∧ d.isError := by
  obtain ⟨hverdict, -⟩ := compile_eq c n host
  have hanswer := congrArg Prod.fst hverdict
  simp only at hanswer
  rw [hanswer]
  -- names fit, and nothing is known of the shape
  have hdecides := generate_decides True False c.options
    (Host.started c.options.debug host) (fun _ => hnames) False.elim
  generalize generate c.options n (Host.started c.options.debug host) = g at *
  rcases hdecides with ⟨hroot, hvalid, hwarned⟩ | ⟨hroot, hinvalid, hblocked⟩
  · obtain ⟨root, hroot⟩ := Option.ne_none_iff_exists'.mp hroot
    have hfails : Compiler.fails c.options g.reports = false := by
      rw [fails_eq_any hdeny, List.any_eq_false]
      intro d hd
      rw [hwarned.isError d (List.mem_reverse.mpr hd)]
      exact Bool.false_ne_true
    have hrefused : (handOver c.options g).1 = none := by
      rw [handOver, hfails, if_neg Bool.false_ne_true]
      exact deliverAll_accepting haccept g.host g.functions
    have hok : (verdict c.options g (handOver c.options g).1).1 = .ok root := by
      rw [verdict, hroot, hrefused, hfails]
      rfl
    rw [hok]
    refine ⟨⟨fun _ => hvalid, fun _ => ⟨root, rfl⟩⟩, ?_⟩
    rintro _ ⟨⟩
  · obtain ⟨hcount, d, hlast, hd⟩ := hblocked.last
    have hfails : Compiler.fails c.options g.reports = true := by
      rw [fails_eq_any hdeny, List.any_eq_true]
      exact ⟨d, List.mem_of_getLast? hlast, hd⟩
    have hkept : (handOver c.options g).1 = none := by
      rw [handOver, if_pos hfails]
    have herror : (verdict c.options g (handOver c.options g).1).1 =
        .error { diagnostics := g.reports } := by
      rw [verdict, hroot, hkept, Option.toList_none, List.append_nil]
    rw [herror]
    refine ⟨⟨?_, fun hvalid => absurd hvalid (hinvalid trivial)⟩, ?_⟩
    · rintro ⟨_, ⟨⟩⟩
    · rintro _ ⟨⟩
      exact ⟨hcount, d, hlast, hd⟩

/--
Where names fit, warnings are let pass and the host takes every function, and as long as the
arguments of every call can be counted, the units that compile are the valid ones. All others have
one report that fails them, and it is the last one. A unit with a call whose arguments cannot be
counted does not compile.

The count of the arguments is what lowering itself looks at. The depth of the stack runs out
earlier, at the latest from `2 ^ 31 - 1` arguments on, but only in code that is longer than its
addresses reach: each argument takes an instruction of four bytes or more.
-/
theorem compiles_iff_valid {c : Compiler} {n : Node} (host : σ)
    (haccept : ∀ f (s : σ), (Host.deliver f s).1 = .ok ())
    (hdeny : c.options.denyWarnings = false) (hnames : n.NamesFit) :
    (n.CallsFit ArgumentsFit → ((∃ root, (c.compile n host).1 = .ok root) ↔ n.Valid)) ∧
      (¬ n.CallsFit ArgumentsFit → ¬ ∃ root, (c.compile n host).1 = .ok root) ∧
      ∀ e, (c.compile n host).1 = .error e →
        e.errorCount = 1 ∧ ∃ d, e.diagnostics.getLast? = some d ∧ d.isError := by
  obtain ⟨hiff, hlast⟩ := compiles_iff_fits host haccept hdeny hnames
  refine ⟨fun hfit => ?_, fun hunfit hok => hunfit (hiff.mp hok).2, hlast⟩
  rw [hiff, and_iff_left hfit]

/-- A host that gives out one number after the other and takes every function. -/
structure Counter where
  next : UInt64 := 0

namespace Counter

/-- The next number. -/
def take (c : Counter) : UInt64 × Counter :=
  (c.next, { next := c.next + 1 })

instance : Host Counter where
  started _ c := c
  ended _ c := c
  functionId c := c.take
  symbolId _ c := c.take
  stringId _ c := c.take
  deliver _ c := (.ok (), c)

end Counter

/-- A function literal that looks for a value in a table, and a call of it. -/
def searchUnit : Node :=
  .block {} [
    .operation {} .assign [.identifier {} "find",
      .function {} [.parameter {} "items", .parameter {} "wanted"] (.block {} [
        .foreach {} (.identifier {} "items") none "item" (.ifElse {}
          (.operation {} .eq [.identifier {} "item", .identifier {} "wanted"])
          (.breakLoop {}) none),
        .ret {} (some (.identifier {} "item"))])],
    .call {} (.identifier {} "find") [.table {} [.this {}], .this {}] none]

/-- That the unit compiles shows that it is valid. -/
theorem compiles_iff_valid_search :
    searchUnit.NamesFit ∧ searchUnit.CallsFit ArgumentsFit ∧ searchUnit.Valid := by
  have hnames : searchUnit.NamesFit := by decide +kernel
  have hcompiles : (Compiler.compile { options := {} } searchUnit ({} : Counter)).1 = .ok 0 := by
    decide +kernel
  obtain ⟨hvalid, hunfit, -⟩ := compiles_iff_valid (c := { options := {} }) ({} : Counter)
    (fun _ _ => rfl) rfl hnames
  have hfit : searchUnit.CallsFit ArgumentsFit := by
    by_contra h
    exact hunfit h ⟨0, hcompiles⟩
  exact ⟨hnames, hfit, (hvalid hfit).mp ⟨0, hcompiles⟩⟩

end ScriptToolchain.Compile
