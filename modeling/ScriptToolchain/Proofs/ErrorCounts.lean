import ScriptToolchain.Proofs.Blame
import ScriptToolchain.Proofs.Protocol

/-!
# The two error counts of a unit

The host is told a number of errors at the end of a unit, and a failure comes
with a number of errors of its own. A unit records one error at most: what
gives generation up, or the refusal of a function, which ends the delivery. So
the host is told of one error whenever a unit fails. A failure counts one as
well, except where it is due to warnings alone: then it counts none
(`error_counts`).
-/

namespace ScriptToolchain.Compile

/-- There are only warnings to blame. -/
def CompileError.OnlyWarnings (e : CompileError) : Prop :=
  ∀ d ∈ e.diagnostics, d.severity = .warning

theorem CompileError.errorCount_eq_zero {e : CompileError} :
    e.errorCount = 0 ↔ e.OnlyWarnings := by
  rw [errorCount, Diagnostic.errorCount, List.countP_eq_zero]
  simp only [Diagnostic.isError, bne_iff_ne, ne_eq, not_not]
  rfl

variable {σ : Type} [Host σ]

/-! ## One error at most -/

/-- The report of a refused function is an error. -/
theorem handOver_isError {o : Options} {g : Generated σ} {d : Diagnostic}
    (h : (handOver o g).1 = some d) : d.isError = true := by
  rw [handOver] at h
  split at h
  · cases h
  · obtain ⟨id, reason, rfl⟩ := deliverAll_blamed h
    rfl

/-- A unit records one error if it is given up or a function of it is refused, and else none. -/
theorem errorCount_generate (o : Options) (n : Node) (host : σ) :
    let g := generate o n host
    let refused := (handOver o g).1
    Diagnostic.errorCount (g.reports ++ refused.toList) =
      if g.root.isNone || refused.isSome then 1 else 0 := by
  intro g refused
  rcases generate_decides False False o (n := n) host False.elim False.elim with
    ⟨hroot, -, hwarned⟩ | ⟨hroot, -, hblocked⟩
  · -- the generator only warned, so the refusal of a function is the only error there can be
    have hwarnings : Diagnostic.errorCount g.reports = 0 := by
      rw [← hwarned.errorCount, Diagnostic.errorCount, Diagnostic.errorCount, List.countP_reverse]
    have hsome : g.root.isNone = false :=
      Option.isNone_eq_false_iff.mpr (Option.isSome_iff_ne_none.mpr hroot)
    rw [Diagnostic.errorCount] at hwarnings ⊢
    rw [List.countP_append, hwarnings, hsome, Nat.zero_add, Bool.false_or]
    cases hrefused : refused with
    | none => rfl
    | some d => rw [Option.toList_some, List.countP_singleton, handOver_isError hrefused]; rfl
  · -- the last report gave the unit up, so no function is handed over and none refused
    obtain ⟨hcount, d, hlast, hd⟩ := hblocked.last
    have hfails : Compiler.fails o g.reports = true := by
      rw [Compiler.fails, List.any_eq_true.mpr ⟨d, List.mem_of_getLast? hlast, hd⟩, Bool.true_or]
    have hkept : (handOver o g).1 = none := by
      rw [handOver, if_pos hfails]
    have hnone : g.root.isNone = true := Option.isNone_iff_eq_none.mpr hroot
    rw [show refused = none from hkept, hnone, Option.toList_none, List.append_nil]
    exact hcount

/-! ## The counts -/

/-- Warnings alone fail a unit only if they are denied. -/
theorem denyWarnings_of_fails {o : Options} {reports : List Diagnostic}
    (h : Compiler.fails o reports = true) (hcount : Diagnostic.errorCount reports = 0) :
    o.denyWarnings = true := by
  have hany : reports.any (·.isError) = false := by
    rw [List.any_eq_false]
    exact List.countP_eq_zero.mp hcount
  rw [Compiler.fails, hany, Bool.false_or, Bool.and_eq_true] at h
  exact h.1

section

variable {c : Compiler} {n : Node} {host : σ} {e : CompileError}

/-- The reports of a failure are those on the unit and that on a refused function. -/
theorem diagnostics_of_error (h : (c.compile n host).1 = .error e) :
    let g := generate c.options n (Host.started c.options.debug host)
    e.diagnostics = g.reports ++ (handOver c.options g).1.toList := by
  have hrecorded : c.recorded n host = e.diagnostics := by
    rw [Compiler.recorded]
    rcases hcompile : c.compile n host with ⟨answer, after, host'⟩
    rw [hcompile] at h
    obtain rfl : answer = .error e := h
    rfl
  rw [← hrecorded, recorded_eq]

theorem errorCount_le_one (h : (c.compile n host).1 = .error e) : e.errorCount ≤ 1 := by
  rw [CompileError.errorCount, diagnostics_of_error h, errorCount_generate]
  split <;> omega

theorem toldErrors_of_error (h : (c.compile n host).1 = .error e) :
    toldErrors c.options (generate c.options n (Host.started c.options.debug host)) = 1 := by
  have hfailed := mt (compile_ok_iff c n host).mpr (by rw [h]; rintro ⟨root, ⟨⟩⟩)
  rw [toldErrors, Compiler.reportedErrors, errorCount_generate] at hfailed ⊢
  split at hfailed
  · rename_i hfails
    rw [if_pos hfails]
    split <;> rfl
  · exact absurd rfl hfailed

theorem denyWarnings_of_onlyWarnings (h : (c.compile n host).1 = .error e)
    (hwarnings : e.OnlyWarnings) : c.options.denyWarnings = true := by
  let g := generate c.options n (Host.started c.options.debug host)
  have hzero : Diagnostic.errorCount g.reports = 0 ∧
      Diagnostic.errorCount (handOver c.options g).1.toList = 0 := by
    have hcount := CompileError.errorCount_eq_zero.mpr hwarnings
    rw [CompileError.errorCount, diagnostics_of_error h, Diagnostic.errorCount,
      List.countP_append, Nat.add_eq_zero_iff] at hcount
    exact hcount
  have hrefused : (handOver c.options g).1 = none := by
    cases hreport : (handOver c.options g).1 with
    | none => rfl
    | some d =>
      have herror := List.countP_eq_zero.mp hzero.2 d (Option.mem_toList.mpr hreport)
      exact absurd (handOver_isError hreport) herror
  have htold : toldErrors c.options g = 1 := toldErrors_of_error h
  refine denyWarnings_of_fails (Bool.of_not_eq_false fun hfine => ?_) hzero.1
  rw [toldErrors_eq_zero.mpr ⟨hfine, hrefused⟩] at htold
  cases htold

end

/--
The host is told of the end once, behind all else: of no error if the unit compiles, and of one if
it fails. A failure counts the same unless it comes with warnings only; then warnings are denied,
and it counts no error.
-/
theorem error_counts (c : Compiler) (n : Node) (host : σ) :
    let answer := (c.compile n ({ host } : Watched σ)).1
    ∃ before told,
      (c.compile n ({ host } : Watched σ)).2.2.calls = before ++ [.ended told] ∧
      (∀ errors, Call.ended errors ∉ before) ∧
      (∀ root, answer = .ok root → told = 0) ∧
      ∀ e, answer = .error e → told = 1 ∧ (e.errorCount = told ↔ ¬e.OnlyWarnings) ∧
        (e.OnlyWarnings → e.errorCount = 0 ∧ c.options.denyWarnings = true) := by
  intro answer
  let g := generate c.options n (Host.started c.options.debug ({ host } : Watched σ))
  obtain ⟨questions, given, hcalls, -, hquestions, -⟩ := compile_calls c n host
  refine ⟨_, toldErrors c.options g, hcalls, ?_, fun root hroot => ?_, fun e he => ?_⟩
  · intro errors hmem
    rcases List.mem_append.mp hmem with hmem | hmem
    · rcases List.mem_cons.mp hmem with hstart | hmem
      · cases hstart
      · cases hquestions _ hmem
    · obtain ⟨f, -, hf⟩ := List.mem_map.mp hmem
      cases hf
  · exact (compile_ok_iff c n ({ host } : Watched σ)).mp ⟨root, hroot⟩
  · have htold : toldErrors c.options g = 1 := toldErrors_of_error he
    have hle : e.errorCount ≤ 1 := errorCount_le_one he
    refine ⟨htold, ?_, fun hwarnings => ⟨CompileError.errorCount_eq_zero.mpr hwarnings,
      denyWarnings_of_onlyWarnings he hwarnings⟩⟩
    rw [htold, ← CompileError.errorCount_eq_zero]
    omega

/-- A unit with one warning: a local name is declared as a global one. -/
def redeclaringUnit : Node :=
  .block {} [.declaration {} .local "a", .declaration {} .global "a"]

/-- The host is told of an error that the failure does not count. -/
theorem denied_warning_uncounted :
    ¬∀ (c : Compiler) (n : Node) (e : CompileError) (errors : Nat),
      (c.compile n ({ host := {} } : Watched Counter)).1 = .error e →
      Call.ended errors ∈ (c.compile n ({ host := {} } : Watched Counter)).2.2.calls →
      errors = e.errorCount := by
  intro agree
  have hcount := agree { options := { denyWarnings := true } } redeclaringUnit
    { diagnostics := [(Finding.redeclared "a" .local .global).report 0] } 1 (by decide +kernel)
    (by decide +kernel)
  exact absurd hcount (by decide)

end ScriptToolchain.Compile
