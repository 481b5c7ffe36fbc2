import ScriptToolchain.Compile.Program
import ScriptToolchain.Proofs.Delivery

/-!
# Collecting a program

A builder takes the functions that are handed to it, unless their id is taken,
and gives out ids that do not depend on what it has taken. A unit that compiles
leaves all its functions, made from its plan, in the program.
-/

namespace ScriptToolchain.Compile

/-! ## Handing over to a program -/

/-- The builder behind a function that it takes. -/
def taken (b : ProgramBuilder) (f : CompiledFunction) : ProgramBuilder :=
  { b with program := { b.program with
      functions := b.program.functions ++ [f]
      root := if f.root then some f.id else b.program.root } }

theorem deliverAll_cons (b : ProgramBuilder) (f : CompiledFunction)
    (rest : List CompiledFunction) :
    deliverAll b (f :: rest) =
      if b.program.functions.any (·.id = f.id) then
        (some ((Finding.rejected f.id s!"duplicate function id {f.id}").report 0), b)
      else deliverAll (taken b f) rest := by
  have hdeliver : Host.deliver f b = b.deliver f := rfl
  rw [deliverAll, hdeliver, ProgramBuilder.deliver]
  by_cases h : b.program.functions.any (·.id = f.id)
  · rw [if_pos h, if_pos h]
  · rw [if_neg h, if_neg h]
    rfl

/-- Taking functions does not touch symbols and strings. -/
theorem deliverAll_names (b : ProgramBuilder) (fs : List CompiledFunction) :
    (deliverAll b fs).2.symbols = b.symbols ∧ (deliverAll b fs).2.strings = b.strings := by
  induction fs generalizing b with
  | nil => exact ⟨rfl, rfl⟩
  | cons f rest ih =>
    rw [deliverAll_cons]
    split
    · exact ⟨rfl, rfl⟩
    · exact ih (taken b f)

/-- Where no function is refused, all are taken. -/
theorem functions_deliverAll {b : ProgramBuilder} {fs : List CompiledFunction}
    (h : (deliverAll b fs).1 = none) :
    (deliverAll b fs).2.program.functions = b.program.functions ++ fs := by
  induction fs generalizing b with
  | nil => exact (List.append_nil _).symm
  | cons f rest ih =>
    rw [deliverAll_cons] at h ⊢
    split at h
    · cases h
    · rename_i hnew
      rw [if_neg hnew, ih h, taken, List.append_assoc, List.singleton_append]

/-! ## Builds -/

/-- A builder with this program gives the same ids as `b`. -/
structure Alike (p : Program) (a b : ProgramBuilder) : Prop where
  program : a.program = p
  nextFunction : a.nextFunction = b.nextFunction
  symbols : a.symbols = b.symbols
  strings : a.strings = b.strings

theorem sameIds_alike (p : Program) : SameIds (Alike p) where
  functionId := by
    rintro a b ⟨hp, hf, hs, ht⟩
    exact ⟨hf, hp, congrArg (· + 1) hf, hs, ht⟩
  symbolId := by
    rintro a b name ⟨hp, hf, hs, ht⟩
    exact ⟨congrArg (fun i : Interner => (i.intern name).1.toUInt64) hs, hp, hf,
      congrArg (fun i : Interner => (i.intern name).2) hs, ht⟩
  stringId := by
    rintro a b text ⟨hp, hf, hs, ht⟩
    exact ⟨congrArg (fun i : Interner => (i.intern text).1.toUInt64) ht, hp, hf, hs,
      congrArg (fun i : Interner => (i.intern text).2) ht⟩

/-- A build starts with an empty program. -/
theorem alike_started (debug : Bool) (source : Option PendingSource) :
    Alike (Host.started debug ({ pending := source } : ProgramBuilder)).program
      (Host.started debug ({ pending := source } : ProgramBuilder)) {} := by
  cases debug <;> cases source <;> exact ⟨rfl, rfl, rfl, rfl⟩

theorem functions_started (debug : Bool) (source : Option PendingSource) :
    (Host.started debug ({ pending := source } : ProgramBuilder)).program.functions = [] := by
  cases debug <;> cases source <;> rfl

/-- Compiles a unit with an empty program, as a debug build or as a release build. -/
def build (o : Options) (source : Option PendingSource) (n : Node) (debug : Bool) :
    Except CompileError UInt64 × Compiler × ProgramBuilder :=
  Compiler.compile { options := { o with debug } } n { pending := source }

/-- The program that a build collects. -/
def program (o : Options) (source : Option PendingSource) (n : Node) (debug : Bool) : Program :=
  (build o source n debug).2.2.finish

/--
A unit that compiles has a plan, and its program has what the plan comes to: the root function
behind the inner ones, and the texts that the plan has asked for.
-/
theorem exists_plan {o : Options} {source : Option PendingSource} {n : Node} {debug : Bool}
    {root : UInt64} (h : (build o source n debug).1 = .ok root) :
    ∃ inner outer fs f, (plan o.receiver o.rootName n ({} : ProgramBuilder)).functions =
        some (inner, outer) ∧
      List.Forall₂ (fun f (l : Outline) => l.code.Closed ∧ l.Makes false debug f) fs inner ∧
      outer.code.Closed ∧ outer.Makes true debug f ∧ f.id = root ∧
      (program o source n debug).functions = fs ++ [f] ∧
      (program o source n debug).symbols =
        (plan o.receiver o.rootName n ({} : ProgramBuilder)).host.symbols.toList ∧
      (program o source n debug).strings =
        (plan o.receiver o.rootName n ({} : ProgramBuilder)).host.strings.toList := by
  obtain ⟨hhost, -, hmakes⟩ :=
    generate_plan (sameIds_alike _) { o with debug } n (alike_started debug source)
  obtain ⟨hverdict, errors, hended⟩ := compile_eq { options := { o with debug } } n
    ({ pending := source } : ProgramBuilder)
  rw [program]
  rw [build] at h ⊢
  rw [hended]
  simp only at h hverdict ⊢
  generalize generate { o with debug } n
    (Host.started debug ({ pending := source } : ProgramBuilder)) = g at *
  obtain ⟨hroot, hfails, hrefused⟩ := verdict_ok (hverdict.symm.trans (Prod.ext h rfl))
  have htaken : handOver { o with debug } g = deliverAll g.host g.functions := by
    rw [handOver, hfails, if_neg Bool.false_ne_true]
  rw [htaken] at hrefused ⊢
  rcases hplan : (plan o.receiver o.rootName n ({} : ProgramBuilder)).functions with
    _ | ⟨inner, outer⟩
  · rw [(hmakes.failed hplan).1] at hroot
    cases hroot
  obtain ⟨houter, fs, f, hfs, hinner, hclosed, hmake⟩ := hmakes.made inner outer hplan
  refine ⟨inner, outer, fs, f, rfl, hinner, hclosed, hmake, ?_, ?_, ?_, ?_⟩
  · rw [hmake.id]
    exact Option.some.inj (houter.symm.trans hroot)
  · show (deliverAll g.host g.functions).2.program.functions = fs ++ [f]
    rw [functions_deliverAll hrefused, hhost.program, functions_started, hfs, List.nil_append]
  · show (deliverAll g.host g.functions).2.symbols.toList = _
    rw [(deliverAll_names _ _).1, hhost.symbols]
  · show (deliverAll g.host g.functions).2.strings.toList = _
    rw [(deliverAll_names _ _).2, hhost.strings]

end ScriptToolchain.Compile
