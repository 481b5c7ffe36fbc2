import ScriptToolchain.Proofs.Plans

/-!
# Handing over functions

`Recorded` puts a record of the functions that are handed over beside any
host, and lets the host answer. What is handed over was generated.
-/

namespace ScriptToolchain.Compile

/-- What comes of handing over generated functions, unless the reports fail the unit. -/
def handOver {σ : Type} [Host σ] (o : Options) (g : Generated σ) : Option Diagnostic × σ :=
  if Compiler.fails o g.reports then (none, g.host) else deliverAll g.host g.functions

/-- The answer of a compilation and the reports that stay with the compiler. -/
def verdict {σ : Type} (o : Options) (g : Generated σ) (refused : Option Diagnostic) :
    Except CompileError UInt64 × List Diagnostic :=
  let reports := g.reports ++ refused.toList
  match g.root with
  | some root =>
    if Compiler.fails o g.reports || refused.isSome then (.error { diagnostics := reports }, [])
    else (.ok root, reports)
  | none => (.error { diagnostics := reports }, [])

/-- A unit that compiles has a root, no report fails it and every function is taken. -/
theorem verdict_ok {σ : Type} {o : Options} {g : Generated σ} {refused : Option Diagnostic}
    {root : UInt64} {reports : List Diagnostic}
    (h : verdict o g refused = (.ok root, reports)) :
    g.root = some root ∧ Compiler.fails o g.reports = false ∧ refused = none := by
  rw [verdict] at h
  cases hroot : g.root with
  | none =>
    rw [hroot] at h
    cases h
  | some r =>
    simp only [hroot] at h
    split at h
    · cases h
    · rename_i hfine
      cases h
      rw [Bool.or_eq_true, not_or, Bool.not_eq_true, Bool.not_eq_true] at hfine
      exact ⟨rfl, hfine.1, Option.isSome_eq_false_iff.mp hfine.2 |> Option.isNone_iff_eq_none.mp⟩

/-- A compilation generates, hands over and tells the host of the end. -/
theorem compile_eq {σ : Type} [Host σ] (c : Compiler) (n : Node) (host : σ) :
    let g := generate c.options n (Host.started c.options.debug host)
    ((c.compile n host).1, (c.compile n host).2.1.pending) =
        verdict c.options g (handOver c.options g).1 ∧
      ∃ errors, (c.compile n host).2.2 = Host.ended errors (handOver c.options g).2 := by
  simp only [Compiler.compile, handOver]
  generalize generate c.options n (Host.started c.options.debug host) = g
  generalize (if Compiler.fails c.options g.reports = true then ((none : Option Diagnostic), g.host)
    else deliverAll g.host g.functions) = d
  rw [verdict]
  cases g.root with
  | none => exact ⟨rfl, _, rfl⟩
  | some root =>
    simp only
    split
    · exact ⟨rfl, _, rfl⟩
    · exact ⟨rfl, _, rfl⟩

/-- A host together with the functions it was handed, accepted or not. -/
structure Recorded (σ : Type) where
  host : σ
  handed : List CompiledFunction := []

namespace Recorded

variable {σ : Type} [Host σ]

instance : Host (Recorded σ) where
  started debug r := { r with host := Host.started debug r.host }
  ended errors r := { r with host := Host.ended errors r.host }
  functionId r := ((Host.functionId r.host).1, { r with host := (Host.functionId r.host).2 })
  symbolId name r :=
    ((Host.symbolId name r.host).1, { r with host := (Host.symbolId name r.host).2 })
  stringId text r :=
    ((Host.stringId text r.host).1, { r with host := (Host.stringId text r.host).2 })
  deliver f r :=
    ((Host.deliver f r.host).1,
      { host := (Host.deliver f r.host).2, handed := r.handed ++ [f] })

theorem mem_deliverAll {r : Recorded σ} {fs : List CompiledFunction} {f : CompiledFunction}
    (h : f ∈ (deliverAll r fs).2.handed) : f ∈ r.handed ∨ f ∈ fs := by
  induction fs generalizing r with
  | nil => exact .inl h
  | cons g rest ih =>
    have hfirst {r' : Recorded σ} (hr : r'.handed = r.handed ++ [g])
        (h : f ∈ r'.handed ∨ f ∈ rest) : f ∈ r.handed ∨ f ∈ g :: rest := by
      rw [hr, List.mem_append, List.mem_singleton, or_assoc] at h
      rwa [List.mem_cons]
    rw [deliverAll] at h
    split at h
    · rename_i r' hdeliver
      exact hfirst (congrArg (·.2.handed) hdeliver).symm (ih h)
    · rename_i reason r' hdeliver
      exact hfirst (congrArg (·.2.handed) hdeliver).symm (.inl h)

/-- A record that still has these functions stands for the host in it. -/
def Holds (fs : List CompiledFunction) (r : Recorded σ) (host : σ) : Prop :=
  r.host = host ∧ r.handed = fs

theorem sameIds (fs : List CompiledFunction) : SameIds (Holds (σ := σ) fs) where
  functionId := by rintro a _ ⟨rfl, rfl⟩; exact ⟨rfl, rfl, rfl⟩
  symbolId := by rintro a _ name ⟨rfl, rfl⟩; exact ⟨rfl, rfl, rfl⟩
  stringId := by rintro a _ text ⟨rfl, rfl⟩; exact ⟨rfl, rfl, rfl⟩

/-- What a compilation hands over was generated. -/
theorem mem_generate {c : Compiler} {n : Node} {host : σ} {f : CompiledFunction}
    (h : f ∈ (c.compile n ({ host } : Recorded σ)).2.2.handed) :
    f ∈ (generate c.options n (Host.started c.options.debug ({ host } : Recorded σ))).functions := by
  have hstart : Holds [] (Host.started c.options.debug ({ host } : Recorded σ))
      (Host.started c.options.debug host) := ⟨rfl, rfl⟩
  obtain ⟨⟨-, hempty⟩, -⟩ := generate_plan (sameIds []) c.options n hstart
  obtain ⟨-, errors, hhost⟩ := compile_eq c n ({ host } : Recorded σ)
  rw [hhost] at h
  change f ∈ Recorded.handed (handOver _ _).2 at h
  rw [handOver] at h
  split at h
  · rw [hempty] at h
    cases h
  · rcases mem_deliverAll h with h | h
    · rw [hempty] at h
      cases h
    · exact h

end Recorded

end ScriptToolchain.Compile
