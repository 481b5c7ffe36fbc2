import ScriptToolchain.Compile.Program
import ScriptToolchain.Compile.ScriptedHost
import ScriptToolchain.Proofs.Delivery
import ScriptToolchain.Tree.Build

/-!
# What a failed unit leaves behind

`Ledger` puts the functions that a host has accepted beside it. A unit that
generation gives up, or that its reports fail, leaves nothing with the host. A
unit that fails because the host refuses a function leaves all functions that
come before it: handing over stops at the refusal and takes nothing back.
-/

namespace ScriptToolchain.Compile

/-- A host together with the functions that it has accepted. -/
structure Ledger (σ : Type) where
  host : σ
  accepted : List CompiledFunction := []

namespace Ledger

variable {σ : Type} [Host σ]

/-- The functions that are accepted once the host has answered to one more. -/
def enter (l : Ledger σ) (f : CompiledFunction) : Except String Unit → List CompiledFunction
  | .ok () => l.accepted ++ [f]
  | .error _ => l.accepted

instance : Host (Ledger σ) where
  started debug l := { l with host := Host.started debug l.host }
  ended errors l := { l with host := Host.ended errors l.host }
  functionId l := ((Host.functionId l.host).1, { l with host := (Host.functionId l.host).2 })
  symbolId name l :=
    ((Host.symbolId name l.host).1, { l with host := (Host.symbolId name l.host).2 })
  stringId text l :=
    ((Host.stringId text l.host).1, { l with host := (Host.stringId text l.host).2 })
  deliver f l :=
    ((Host.deliver f l.host).1,
      { host := (Host.deliver f l.host).2, accepted := l.enter f (Host.deliver f l.host).1 })

/-- A ledger with these functions stands for the host in it. -/
def Holds (fs : List CompiledFunction) (l : Ledger σ) (host : σ) : Prop :=
  l.host = host ∧ l.accepted = fs

theorem sameIds (fs : List CompiledFunction) : SameIds (Holds (σ := σ) fs) where
  functionId := by rintro a _ ⟨rfl, rfl⟩; exact ⟨rfl, rfl, rfl⟩
  symbolId := by rintro a _ name ⟨rfl, rfl⟩; exact ⟨rfl, rfl, rfl⟩
  stringId := by rintro a _ text ⟨rfl, rfl⟩; exact ⟨rfl, rfl, rfl⟩

theorem deliverAll_cons (l : Ledger σ) (f : CompiledFunction) (rest : List CompiledFunction) :
    deliverAll l (f :: rest) =
      match Host.deliver f l.host with
      | (.ok (), host) => deliverAll { host, accepted := l.accepted ++ [f] } rest
      | (.error reason, host) =>
        (some ((Finding.rejected f.id reason).report 0), { l with host }) := by
  have hdeliver : Host.deliver f l = ((Host.deliver f l.host).1,
      { host := (Host.deliver f l.host).2, accepted := l.enter f (Host.deliver f l.host).1 }) := rfl
  rw [deliverAll, hdeliver]
  rcases Host.deliver f l.host with ⟨_ | _, host⟩ <;> rfl

/-- A refusal comes behind the functions that are accepted. -/
theorem deliverAll_refused {l : Ledger σ} {fs : List CompiledFunction} {d : Diagnostic}
    (h : (deliverAll l fs).1 = some d) :
    ∃ taken f rest reason, fs = taken ++ f :: rest ∧
      (deliverAll l fs).2.accepted = l.accepted ++ taken ∧
      d = (Finding.rejected f.id reason).report 0 := by
  induction fs generalizing l with
  | nil => cases h
  | cons f rest ih =>
    rw [deliverAll_cons] at h ⊢
    rcases hanswer : Host.deliver f l.host with ⟨reason | _, host⟩
    · rw [hanswer] at h
      cases h
      exact ⟨[], f, rest, reason, rfl, (List.append_nil _).symm, rfl⟩
    · rw [hanswer] at h
      obtain ⟨taken, g, tail, reason, rfl, htaken, hd⟩ := ih h
      refine ⟨f :: taken, g, tail, reason, rfl, ?_, hd⟩
      rw [htaken, List.append_assoc, List.singleton_append]

end Ledger

/-- Generation that gives up makes no function. -/
theorem generate_gaveUp {σ : Type} [Host σ] {o : Options} {n : Node} {host : σ}
    (h : (generate o n host).root = none) : (generate o n host).functions = [] := by
  rw [generate] at h ⊢
  dsimp only at h ⊢
  split at h
  · cases h
  · rfl

variable {σ : Type} [Host σ]

/--
A unit that does not compile has either been given up or failed by its reports, and then the host
has accepted nothing; or the host has refused a function, and then it has accepted all functions
before that one.
-/
theorem accepted_of_error {c : Compiler} {n : Node} {host : σ} {e : CompileError}
    (h : (c.compile n ({ host } : Ledger σ)).1 = .error e) :
    let g := generate c.options n (Host.started c.options.debug ({ host } : Ledger σ))
    let accepted := (c.compile n ({ host } : Ledger σ)).2.2.accepted
    (g.root = none ∨ Compiler.fails c.options g.reports) ∧ accepted = [] ∨
      ∃ f rest reason, g.functions = accepted ++ f :: rest ∧
        e.diagnostics = g.reports ++ [(Finding.rejected f.id reason).report 0] := by
  intro g accepted
  have hstart : Ledger.Holds [] (Host.started c.options.debug ({ host } : Ledger σ))
      (Host.started c.options.debug host) := ⟨rfl, rfl⟩
  have hempty : g.host.accepted = [] :=
    (generate_plan (Ledger.sameIds []) c.options n hstart).1.2
  obtain ⟨hverdict, errors, hended⟩ := compile_eq c n ({ host } : Ledger σ)
  have haccepted : accepted = (handOver c.options g).2.accepted := by
    show (c.compile n ({ host } : Ledger σ)).2.2.accepted = _
    rw [hended]
    rfl
  have hanswer : (verdict c.options g (handOver c.options g).1).1 = .error e := by
    rw [← hverdict]
    exact h
  by_cases hfails : Compiler.fails c.options g.reports = true
  · refine .inl ⟨.inr hfails, ?_⟩
    rw [haccepted, handOver, if_pos hfails, hempty]
  rw [handOver, if_neg hfails] at haccepted hanswer
  rw [verdict] at hanswer
  cases hroot : g.root with
  | none =>
    refine .inl ⟨.inl rfl, ?_⟩
    rw [haccepted, generate_gaveUp hroot]
    exact hempty
  | some root =>
    rcases hrefused : (deliverAll g.host g.functions).1 with _ | d
    · rw [hroot, hrefused] at hanswer
      simp [hfails] at hanswer
    obtain ⟨taken, f, rest, reason, hfunctions, htaken, rfl⟩ := Ledger.deliverAll_refused hrefused
    rw [hempty, List.nil_append] at htaken
    refine .inr ⟨f, rest, reason, ?_, ?_⟩
    · rw [haccepted, htaken, hfunctions]
    · rw [hroot, hrefused] at hanswer
      simp only [hfails, Option.isSome_some, Bool.or_true, if_true] at hanswer
      cases hanswer
      rfl

/-- A program whose first two function ids are the same. -/
def repeatedIds : ScriptedHost ProgramBuilder :=
  { inner := {}, ids := [5, 5] }

/-- A unit that stores a function literal. -/
def literalUnit : Node :=
  Node.Build.statement
    (Node.Build.assign (Node.Build.ident "f") (Node.Build.function [] []))

/-- The refusal of the root function, which has the id of the literal. -/
def literalUnitError : CompileError :=
  { diagnostics := [(Finding.rejected 5 "duplicate function id 5").report 0] }

theorem literalUnit_refused :
    (Compiler.compile { options := {} } literalUnit ({ host := repeatedIds } : Ledger _)).1 =
        .error literalUnitError ∧
      (Compiler.compile { options := {} } literalUnit
        ({ host := repeatedIds } : Ledger _)).2.2.accepted.length = 1 := by
  decide +kernel

theorem accepted_of_error_literal :
    let c : Compiler := { options := {} }
    let g := generate c.options literalUnit
      (Host.started c.options.debug ({ host := repeatedIds } : Ledger _))
    let accepted := (c.compile literalUnit ({ host := repeatedIds } : Ledger _)).2.2.accepted
    (g.root = none ∨ Compiler.fails c.options g.reports) ∧ accepted = [] ∨
      ∃ f rest reason, g.functions = accepted ++ f :: rest ∧
        literalUnitError.diagnostics = g.reports ++ [(Finding.rejected f.id reason).report 0] :=
  accepted_of_error literalUnit_refused.1

/-- A unit that does not compile may leave functions with the host. -/
theorem failed_unit_leaves_functions :
    ¬ ∀ (c : Compiler) (n : Node) (host : ScriptedHost ProgramBuilder) (e : CompileError),
      (c.compile n ({ host } : Ledger _)).1 = .error e →
        (c.compile n ({ host } : Ledger _)).2.2.accepted = [] := by
  intro leavesNone
  have hempty := leavesNone { options := {} } literalUnit repeatedIds _ literalUnit_refused.1
  have hone := literalUnit_refused.2
  rw [hempty] at hone
  cases hone

end ScriptToolchain.Compile
