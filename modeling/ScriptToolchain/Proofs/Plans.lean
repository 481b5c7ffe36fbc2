import ScriptToolchain.Compile.Compiler
import ScriptToolchain.Proofs.Agreement

/-!
# Plans of units

Lowering a unit gives a plan: the outlines of its functions, or nothing. The
functions that the generator makes are what the outlines come to, in the same
order, and the reports are those of the plan. The plan knows nothing of the
kind of the build.
-/

namespace ScriptToolchain.Compile

variable {σ₁ σ₂ : Type} {H : σ₁ → σ₂ → Prop} [Host σ₁] [Host σ₂]

/-- Compiled functions are what the functions of a plan come to. -/
structure Plan.Makes {σ : Type} (p : Plan σ) (debug : Bool) (root : Option UInt64)
    (functions : List CompiledFunction) : Prop where
  failed : p.functions = none → root = none ∧ functions = []
  made : ∀ inner outer, p.functions = some (inner, outer) → root = some outer.id ∧
    ∃ fs f, functions = fs ++ [f] ∧
      List.Forall₂ (fun f (o : Outline) => o.code.Closed ∧ o.Makes false debug f) fs inner ∧
      outer.code.Closed ∧ outer.Makes true debug f

/-- Generating a unit gives what its plan comes to. -/
theorem generate_plan (hids : SameIds H) (o : Options) (n : Node) {a : σ₁} {b : σ₂}
    (h : H a b) :
    H (generate o n a).host (plan o.receiver o.rootName n b).host ∧
      (generate o n a).reports = (plan o.receiver o.rootName n b).reports ∧
      (plan o.receiver o.rootName n b).Makes o.debug (generate o n a).root
        (generate o n a).functions := by
  obtain ⟨hid, hhost⟩ := hids.functionId h
  let id := (Host.functionId b).1
  let s : State σ₁ := { host := (Host.functionId a).2, frame := { id, name := some o.rootName } }
  let c : Scope σ₂ := { host := (Host.functionId b).2 }
  have hs : Matches H o.debug s c :=
    ⟨hhost, rfl, by cases o.debug <;> rfl, .nil, rfl⟩
  have hbody := ((agrees_node (o := o) hids n).statement false).bind fun _ =>
    Follows.emit (H := H) .ret
  have hunit : Gen.unit o n s = ((do Gen.node o .statement n; Gen.emit .ret) >>= fun _ => do
      Gen.close (← Gen.read fun f => f) true o n.line) s := by
    rw [Gen.unit, bind_assoc]
    rfl
  rcases hbody s c hs ⟨rfl, by rintro _ _ ⟨⟩, Int.le_refl 0⟩ with
    ⟨_, code, s', c', hgen, hlow, hs', hframe, hclosed⟩ |
    ⟨e, s', c', hgen, hlow, hhost, hreports⟩
  · let root : Outline := { id, name := some o.rootName, names := c'.names, code }
    obtain ⟨f, hf, hmakes⟩ := Outline.exists_finish (o := root) (hclosed rfl) true o.debug
    have hfinish : s'.frame.finish true o.debug = .ok f := by
      rw [hframe, Follows.finish_after, hf]
    have hclose : Gen.close s'.frame true o n.line s' = .ok f s' := by
      simp only [Gen.close, hfinish]
      rfl
    have hread : Gen.read (fun f => f) s' = .ok s'.frame s' := rfl
    have hrun : Gen.unit o n s = .ok f s' := by
      rw [hunit]
      simp only [Bind.bind, EStateM.bind] at hgen ⊢
      simp only [hgen, hread, hclose]
    have hgenerate : generate o n a =
        { host := s'.host, root := some id, functions := s'.latest.reverse ++ [f]
          reports := s'.reports.reverse } := by
      simp only [s, id] at hrun
      simp only [generate, hid, hrun, id]
    have hplan : plan o.receiver o.rootName n b =
        { host := c'.host, functions := some (c'.outlines.reverse, root)
          reports := c'.reports.reverse } := by
      rw [plan]
      simp only [c] at hlow
      simp only [hlow, root, id]
    rw [hgenerate, hplan]
    refine ⟨hs'.host, congrArg List.reverse hs'.reports, ?_, ?_⟩
    · exact fun h => absurd h (Option.some_ne_none _)
    rintro inner outer ⟨⟩
    exact ⟨rfl, _, f, rfl, List.rel_reverse hs'.outlines, hclosed rfl, hmakes⟩
  · have hrun : Gen.unit o n s = .error e s' := by
      rw [hunit]
      simp only [Bind.bind, EStateM.bind] at hgen ⊢
      simp only [hgen]
    have hgenerate : generate o n a =
        { host := s'.host, root := none, functions := [], reports := s'.reports.reverse } := by
      simp only [s, id] at hrun
      simp only [generate, hid, hrun]
    have hplan : plan o.receiver o.rootName n b =
        { host := c'.host, functions := none, reports := c'.reports.reverse } := by
      rw [plan]
      simp only [c] at hlow
      simp only [hlow]
    rw [hgenerate, hplan]
    exact ⟨hhost, congrArg List.reverse hreports, ⟨fun _ => ⟨rfl, rfl⟩, by rintro _ _ ⟨⟩⟩⟩

/-! ## Outlines of units -/

section Outlines

variable {σ : Type} [Host σ] {policy : ReceiverPolicy}

/-- All functions of a plan are fine. -/
theorem plan_fine (popped : Prop) (fit : Nat → Prop) (rootName : String) {n : Node}
    (hn : n.Meets popped fit)
    (hself : popped → n.Discards) (hfit : fit 0) (host : σ) {inner : List Outline}
    {outer : Outline} (h : (plan policy rootName n host).functions = some (inner, outer)) :
    outer.Fine popped fit ∧ ∀ o ∈ inner, o.Fine popped fit := by
  obtain ⟨code, c, hrun, -, rfl, rfl⟩ := plan_eq_some h
  obtain ⟨hfine, hall⟩ := Lowering.Yields.fine ((lowers_node n hn).statement hself false) hrun
    VariableTable.begun_empty hfit (Host.functionId host).1 (some rootName)
  exact ⟨hfine, fun o ho => hall nofun o (List.mem_reverse.mp ho)⟩

/-- Every function that is generated comes from a closed and fine outline. -/
theorem exists_outline (popped : Prop) (fit : Nat → Prop) (o : Options) {n : Node}
    (hn : n.Meets popped fit)
    (hself : popped → n.Discards) (hfit : fit 0) (host : σ) {f : CompiledFunction}
    (hf : f ∈ (generate o n host).functions) :
    ∃ (l : Outline) (root : Bool),
      l.Fine popped fit ∧ l.code.Closed ∧ l.Makes root o.debug f := by
  obtain ⟨-, -, hmakes⟩ := generate_plan sameIds_eq o n (rfl : host = host)
  rcases hplan : (plan o.receiver o.rootName n host).functions with _ | ⟨inner, outer⟩
  · rw [(hmakes.failed hplan).2] at hf
    cases hf
  · obtain ⟨-, fs, g, hfs, hinner, hclosed, houter⟩ := hmakes.made inner outer hplan
    obtain ⟨hfine, hall⟩ := plan_fine popped fit o.rootName hn hself hfit host hplan
    rw [hfs] at hf
    rcases List.mem_append.mp hf with hf | hf
    · obtain ⟨i, hi, rfl⟩ := List.getElem_of_mem hf
      obtain ⟨hlclosed, hlmakes⟩ := hinner.get hi (hinner.length_eq ▸ hi)
      exact ⟨_, false, hall _ (List.get_mem _ _), hlclosed, hlmakes⟩
    · obtain rfl := List.mem_singleton.mp hf
      exact ⟨outer, true, hfine, hclosed, houter⟩

end Outlines

end ScriptToolchain.Compile
