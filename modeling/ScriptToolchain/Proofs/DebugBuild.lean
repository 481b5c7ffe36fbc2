import ScriptToolchain.Proofs.Collection
import ScriptToolchain.Proofs.Stripping
import ScriptToolchain.Proofs.Validity

/-!
# Debug builds and release builds

A unit is lowered the same way for both builds, so that both come from one
plan: the reports, the ids and the names are the same, and the code of the
release build is the code of the debug build without its marks.
-/

namespace ScriptToolchain

/-- The function `g` is `f` without its marks. -/
structure CompiledFunction.StripsTo (f g : CompiledFunction) : Prop where
  id : f.id = g.id
  root : f.root = g.root
  params : f.params = g.params
  locals : f.locals = g.locals
  maxStack : f.maxStack = g.maxStack
  name : f.name = g.name
  code : ∃ is, Code.decode f.code = .ok is ∧ g.code = Code.assemble (Code.strip is) ∧
    Code.decode g.code = .ok (Code.strip is)

namespace Compile

/-- The instructions of the release build are those of the debug build without marks. -/
theorem Outline.strip_instructions {l : Outline} (hl : l.code.WellFormed)
    (hlt : Code.length (l.instructions true) < 2 ^ 32) :
    Code.strip (l.instructions true) = l.instructions false := by
  have hsize : l.code.size < 2 ^ 32 := by rwa [Outline.instructions, Block.length_place] at hlt
  have hplaced : Code.Placed 0 (l.instructions true) := Block.placed_place hl 0 0 (by omega)
  have hzero : Code.relocate (l.instructions true) 0 = 0 := Nat.zero_sub _
  have hmove := Block.move_place hl (by omega) (by decide) (by decide)
    (Code.tracks_relocate hplaced hlt)
  change _ = Block.place (Code.relocate (l.instructions true) 0)
    (Code.relocate (l.instructions true) 0) (Code.relocate (l.instructions true) 0) _ at hmove
  rw [hzero] at hmove
  exact hmove

/-- Two functions that one outline gives in the two builds. -/
def Twins (f g : CompiledFunction) : Prop :=
  ∃ (l : Outline) (root : Bool), l.code.WellFormed ∧ l.Makes root true f ∧ l.Makes root false g

namespace Twins

variable {f g : CompiledFunction}

theorem id_eq (h : Twins f g) : f.id = g.id := by
  obtain ⟨l, root, -, hf, hg⟩ := h
  rw [hf.id, hg.id]

theorem stripsTo (h : Twins f g) (hltf : f.code.size < 2 ^ 32) (hltg : g.code.size < 2 ^ 32) :
    f.StripsTo g := by
  obtain ⟨l, root, hl, hf, hg⟩ := h
  obtain ⟨hdecode, -, -, hsize⟩ := hf.placed hl hltf
  have hstrip := Outline.strip_instructions hl (hsize ▸ hltf)
  have hstack : l.stack false = l.stack true := Block.climb_unmark (Int.le_refl _) l.code
  refine ⟨by rw [hf.id, hg.id], by rw [hf.root, hg.root], by rw [hf.params, hg.params],
    by rw [hf.locals, hg.locals], ?_, by rw [hf.name, hg.name], _, hdecode, ?_, ?_⟩
  · rw [hf.maxStack, hg.maxStack, hstack]
  · rw [hstrip, hg.code hltg]
  · rw [hstrip, (hg.placed hl hltg).1]

end Twins

theorem any_id {fs gs : List CompiledFunction} (h : List.Forall₂ Twins fs gs) (id : UInt64) :
    fs.any (·.id = id) = gs.any (·.id = id) := by
  induction h with
  | nil => rfl
  | cons hfg _ ih => rw [List.any_cons, List.any_cons, ih, hfg.id_eq]

/-- Programs take twins alike. -/
theorem deliverAll_twins {a b : ProgramBuilder} {fs gs : List CompiledFunction}
    (h : List.Forall₂ Twins fs gs)
    (hab : List.Forall₂ Twins a.program.functions b.program.functions) :
    (deliverAll a fs).1 = (deliverAll b gs).1 ∧
      List.Forall₂ Twins (deliverAll a fs).2.program.functions
        (deliverAll b gs).2.program.functions := by
  induction h generalizing a b with
  | nil => exact ⟨rfl, hab⟩
  | @cons f g fs gs hfg _ ih =>
    rw [deliverAll_cons, deliverAll_cons, any_id hab, hfg.id_eq]
    split
    · exact ⟨rfl, hab⟩
    · exact ih (List.rel_append hab (.cons hfg .nil))

/-! ## Units -/

/-- What two builds make of the same outlines are twins. -/
theorem twins_of_makes {fs gs : List CompiledFunction} {ls : List Outline} {root : Bool}
    (hfs : List.Forall₂ (fun f (l : Outline) => l.code.Closed ∧ l.Makes root true f) fs ls)
    (hgs : List.Forall₂ (fun g (l : Outline) => l.code.Closed ∧ l.Makes root false g) gs ls)
    (hls : ∀ l ∈ ls, l.code.WellFormed) : List.Forall₂ Twins fs gs := by
  induction hfs generalizing gs with
  | nil =>
    cases hgs
    exact .nil
  | cons hf _ ih =>
    cases hgs with
    | cons hg hrest =>
      exact .cons ⟨_, root, hls _ (List.mem_cons_self ..), hf.2, hg.2⟩
        (ih hrest fun l hl => hls l (List.mem_cons_of_mem _ hl))

/-- The generated functions of two builds of a unit are twins, all else is the same. -/
theorem generate_twins (o : Options) (n : Node) {p q : Program} {a a' b : ProgramBuilder}
    (ha : Alike p a b) (ha' : Alike q a' b) :
    let x := generate { o with debug := true } n a
    let y := generate { o with debug := false } n a'
    x.reports = y.reports ∧ x.root = y.root ∧ List.Forall₂ Twins x.functions y.functions ∧
      x.host.program = p ∧ y.host.program = q ∧ x.host.symbols = y.host.symbols ∧
      x.host.strings = y.host.strings := by
  intro x y
  obtain ⟨hx, hxreports, hxmakes⟩ :=
    generate_plan (sameIds_alike p) { o with debug := true } n ha
  obtain ⟨hy, hyreports, hymakes⟩ :=
    generate_plan (sameIds_alike q) { o with debug := false } n ha'
  refine ⟨hxreports.trans hyreports.symm, ?_, ?_, hx.program, hy.program,
    hx.symbols.trans hy.symbols.symm, hx.strings.trans hy.strings.symm⟩
  all_goals
    rcases hplan : (plan o.receiver o.rootName n b).functions with _ | ⟨inner, outer⟩
  · exact (hxmakes.failed hplan).1.trans (hymakes.failed hplan).1.symm
  · exact (hxmakes.made inner outer hplan).1.trans (hymakes.made inner outer hplan).1.symm
  · rw [(hxmakes.failed hplan).2, (hymakes.failed hplan).2]
    exact .nil
  · obtain ⟨-, fs, f, hfs, hinner, -, houter⟩ := hxmakes.made inner outer hplan
    obtain ⟨-, gs, g, hgs, hinner', -, houter'⟩ := hymakes.made inner outer hplan
    obtain ⟨hfine, hall⟩ := plan_fine False (fun _ => True) o.rootName
      ⟨False.elim, fun _ => trivial⟩ False.elim trivial b hplan
    rw [hfs, hgs]
    exact List.rel_append (twins_of_makes hinner hinner' fun l hl => (hall l hl).wellFormed)
      (.cons ⟨outer, true, hfine.wellFormed, houter, houter'⟩ .nil)

/-- Handing over the functions of two builds comes to the same. -/
theorem handOver_twins (o : Options) {x y : Generated ProgramBuilder}
    (hreports : x.reports = y.reports) (hfs : List.Forall₂ Twins x.functions y.functions)
    (hx : x.host.program.functions = []) (hy : y.host.program.functions = [])
    (hsymbols : x.host.symbols = y.host.symbols) (hstrings : x.host.strings = y.host.strings) :
    let d := handOver { o with debug := true } x
    let r := handOver { o with debug := false } y
    d.1 = r.1 ∧ List.Forall₂ Twins d.2.program.functions r.2.program.functions ∧
      d.2.symbols = r.2.symbols ∧ d.2.strings = r.2.strings := by
  have hempty : List.Forall₂ Twins x.host.program.functions y.host.program.functions := by
    rw [hx, hy]
    exact .nil
  have hfails : Compiler.fails { o with debug := true } x.reports =
      Compiler.fails { o with debug := false } y.reports := by
    rw [hreports]
    rfl
  simp only [handOver, hfails]
  split
  · exact ⟨rfl, hempty, hsymbols, hstrings⟩
  · obtain ⟨hrefused, hfunctions⟩ := deliverAll_twins hfs hempty
    refine ⟨hrefused, hfunctions, ?_, ?_⟩
    · rw [(deliverAll_names _ _).1, (deliverAll_names _ _).1, hsymbols]
    · rw [(deliverAll_names _ _).2, (deliverAll_names _ _).2, hstrings]

/-- Both builds end alike and take twins in the same order. -/
theorem build_twins (o : Options) (source : Option PendingSource) (n : Node) :
    (build o source n true).1 = (build o source n false).1 ∧
      (build o source n true).2.1.pending = (build o source n false).2.1.pending ∧
      List.Forall₂ Twins (program o source n true).functions
        (program o source n false).functions ∧
      (program o source n true).symbols = (program o source n false).symbols ∧
      (program o source n true).strings = (program o source n false).strings := by
  have hstart (debug : Bool) := alike_started debug source
  have hnone (debug : Bool) := functions_started debug source
  obtain ⟨hreports, hroot, htwins, hp, hq, hsymbols, hstrings⟩ :=
    generate_twins o n (hstart true) (hstart false)
  obtain ⟨hanswer, errors, hhost⟩ := compile_eq { options := { o with debug := true } } n
    ({ pending := source } : ProgramBuilder)
  obtain ⟨hanswer', errors', hhost'⟩ := compile_eq { options := { o with debug := false } } n
    ({ pending := source } : ProgramBuilder)
  simp only at hanswer hanswer' hhost hhost'
  obtain ⟨hrefused, hfunctions, hd, hr⟩ := handOver_twins o hreports htwins (by rw [hp, hnone])
    (by rw [hq, hnone]) hsymbols hstrings
  have hverdict : ((build o source n true).1, (build o source n true).2.1.pending) =
      ((build o source n false).1, (build o source n false).2.1.pending) := by
    rw [build, build, hanswer, hanswer', verdict, verdict, hrefused, hreports, hroot]
    rfl
  obtain ⟨hfirst, hsecond⟩ := Prod.mk.inj hverdict
  refine ⟨hfirst, hsecond, ?_⟩
  rw [program, program, build, build, hhost, hhost']
  exact ⟨hfunctions, congrArg Interner.toList hd, congrArg Interner.toList hr⟩

/--
A debug build and a release build of a unit answer alike, with the same reports. Their programs
have the same symbols and strings and the same functions in the same order, where the code of the
release build is that of the debug build without its marks: from every branch target four bytes are
taken for each mark below it.
-/
theorem debug_strips_to_release (o : Options) (source : Option PendingSource) (n : Node)
    (hsize : ∀ debug, ∀ f ∈ (program o source n debug).functions, f.code.size < 2 ^ 32) :
    (build o source n true).1 = (build o source n false).1 ∧
      (build o source n true).2.1.pending = (build o source n false).2.1.pending ∧
      List.Forall₂ CompiledFunction.StripsTo (program o source n true).functions
        (program o source n false).functions ∧
      (program o source n true).symbols = (program o source n false).symbols ∧
      (program o source n true).strings = (program o source n false).strings := by
  obtain ⟨hanswer, hpending, htwins, hsymbols, hstrings⟩ := build_twins o source n
  refine ⟨hanswer, hpending, ?_, hsymbols, hstrings⟩
  rw [List.forall₂_iff_get] at htwins ⊢
  refine ⟨htwins.1, fun i hi hi' => ?_⟩
  exact (htwins.2 i hi hi').stripsTo (hsize true _ (List.get_mem _ _))
    (hsize false _ (List.get_mem _ _))

theorem debug_strips_to_release_sample :
    List.Forall₂ CompiledFunction.StripsTo (program {} none sampleUnit true).functions
        (program {} none sampleUnit false).functions := by
  have hsize : ∀ debug, ∀ f ∈ (program {} none sampleUnit debug).functions,
      f.code.size < 2 ^ 32 := by
    decide +kernel
  exact (debug_strips_to_release {} none sampleUnit hsize).2.2.1

end Compile

end ScriptToolchain
