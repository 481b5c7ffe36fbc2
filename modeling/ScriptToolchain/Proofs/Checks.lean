import ScriptToolchain.Proofs.CodeRoundTrip
import ScriptToolchain.Proofs.Positions

/-!
# What the validator accepts

Each check of the validator passes exactly when a plain statement about the
function holds, and a function is valid when all of them do. `Sound` puts these
statements together without the decoder and the replay: instructions with their
addresses, the depths behind their prefixes, targets, lines and names. The
validator accepts the sound functions and no others
(`CompiledFunction.validates_iff_sound`), and reports the greatest and the last
depth.

The replay is computed in words and its effects saturate at large argument
counts, where `Opcode.change` is a whole number. Code below the largest address
has no room for as many values, so both refuse such a call.
-/

namespace ScriptToolchain

theorem Instruction.target?_eq_some_iff {i : Instruction} {t : UInt64} :
    i.target? = some t ↔ i.opcode.isBranch = true ∧ i.operand = .word t := by
  rw [target?]
  cases i.operand with
  | word v =>
    by_cases hbranch : i.opcode.isBranch = true
    · simp [hbranch]
    · simp [hbranch]
  | _ => simp

/-! ## Depths -/

/-- A climb is told by its prefixes. -/
theorem Climbs.iff_prefixes {d d' : Int} {xs : List Int} (hd : 0 ≤ d) :
    Climbs d xs d' ↔ (∀ ys, ys <+: xs → 0 ≤ d + ys.sum) ∧ d' = d + xs.sum := by
  induction xs generalizing d with
  | nil =>
    refine ⟨fun h => ⟨fun ys hys => ?_, h.eq_add_sum⟩, fun h => ?_⟩
    · rw [List.prefix_nil.mp hys]
      simpa using hd
    · show d' = d
      simpa using h.2
  | cons e rest ih =>
    constructor
    · rintro ⟨hfirst, hrest⟩
      obtain ⟨hall, hend⟩ := (ih hfirst).mp hrest
      refine ⟨fun ys hys => ?_, ?_⟩
      · rcases List.prefix_cons_iff.mp hys with rfl | ⟨zs, rfl, hzs⟩
        · simpa using hd
        · rw [List.sum_cons, ← Int.add_assoc]
          exact hall zs hzs
      · rw [hend, List.sum_cons, Int.add_assoc]
    · rintro ⟨hall, hend⟩
      have hfirst : 0 ≤ d + e := by simpa using hall [e] ⟨rest, rfl⟩
      refine ⟨hfirst, (ih hfirst).mpr ⟨fun ys hys => ?_, ?_⟩⟩
      · have hcons := hall (e :: ys) ((List.prefix_cons_inj e).mpr hys)
        rwa [List.sum_cons, ← Int.add_assoc] at hcons
      · rw [hend, List.sum_cons, Int.add_assoc]

namespace Code

/-- The depths of the stack in code: one behind each prefix, the empty one included. -/
def depths (is : List Instruction) : Set Int :=
  {d | ∃ xs, xs <+: is ∧ net xs = d}

theorem climbs_iff_depths {is : List Instruction} {d : Int} :
    Climbs 0 (is.map (·.change)) d ↔ (∀ e ∈ depths is, 0 ≤ e) ∧ d = net is := by
  rw [Climbs.iff_prefixes (Int.le_refl 0), Int.zero_add, ← net]
  refine and_congr_left' ⟨fun h => ?_, fun h => ?_⟩
  · rintro _ ⟨xs, hxs, rfl⟩
    have hmapped := h _ (hxs.map (·.change))
    rwa [Int.zero_add] at hmapped
  · intro ys hys
    obtain ⟨xs, hxs, rfl⟩ := List.prefix_map_iff.mp hys
    rw [Int.zero_add]
    exact h _ ⟨xs, hxs, rfl⟩

/-- The greatest depth is that of a prefix, or that of the report before. -/
theorem maxDepth_climb (r : StackReport) (is : List Instruction) :
    r.maxDepth ≤ (climb r is).maxDepth ∧
      (∀ xs ys, is = xs ++ ys → xs ≠ [] →
        r.finalDepth + (xs.map (·.effect)).sum ≤ (climb r is).maxDepth) ∧
      ((climb r is).maxDepth = r.maxDepth ∨ ∃ xs ys, is = xs ++ ys ∧
        (climb r is).maxDepth = r.finalDepth + (xs.map (·.effect)).sum) := by
  induction is generalizing r with
  | nil =>
    refine ⟨Int.le_refl _, fun xs ys h hne => ?_, .inl rfl⟩
    exact absurd (List.append_eq_nil_iff.mp h.symm).1 hne
  | cons i rest ih =>
    rw [climb]
    obtain ⟨hle, hall, hone⟩ := ih (r.add i.effect)
    simp only [StackReport.maxDepth_add, StackReport.finalDepth_add] at hle hall hone
    refine ⟨by omega, fun xs ys h hne => ?_, ?_⟩
    · rcases xs with _ | ⟨j, xs⟩
      · exact absurd rfl hne
      obtain ⟨rfl, rfl⟩ := List.cons.inj h
      rw [List.map_cons, List.sum_cons]
      rcases xs with _ | ⟨k, xs⟩
      · rw [List.map_nil, List.sum_nil]
        omega
      · have := hall (k :: xs) ys rfl (List.cons_ne_nil k xs)
        omega
    · rcases hone with hone | ⟨xs, ys, rfl, hone⟩
      · rcases Int.le_total r.maxDepth (r.finalDepth + i.effect) with h | h
        · refine .inr ⟨[i], rest, rfl, ?_⟩
          rw [List.map_singleton, List.sum_singleton]
          omega
        · exact .inl (by omega)
      · refine .inr ⟨i :: xs, ys, rfl, ?_⟩
        rw [List.map_cons, List.sum_cons]
        omega

/-- From an empty stack, the greatest depth is that of a prefix. -/
theorem maxDepth_climb_empty (is : List Instruction) :
    (∀ xs ys, is = xs ++ ys → (xs.map (·.effect)).sum ≤ (climb {} is).maxDepth) ∧
      ∃ xs ys, is = xs ++ ys ∧ (xs.map (·.effect)).sum = (climb {} is).maxDepth := by
  obtain ⟨hlow, hall, hone⟩ := maxDepth_climb {} is
  simp only [Int.zero_add] at hlow hall hone
  refine ⟨fun xs ys h => ?_, ?_⟩
  · by_cases hne : xs = []
    · subst hne
      exact hlow
    · exact hall xs ys h hne
  · rcases hone with hone | ⟨xs, ys, h, hone⟩
    · exact ⟨[], is, rfl, hone.symm⟩
    · exact ⟨xs, ys, h, hone.symm⟩

theorem isGreatest_climb {is : List Instruction} (h : ∀ i ∈ is, i.effect = i.change) :
    IsGreatest (depths is) (climb {} is).maxDepth := by
  obtain ⟨hall, xs, ys, rfl, hone⟩ := maxDepth_climb_empty is
  constructor
  · rw [sum_effect fun i hi => h i (List.mem_append_left _ hi)] at hone
    exact ⟨xs, List.prefix_append xs ys, hone⟩
  · rintro _ ⟨zs, ⟨rest, hsplit⟩, rfl⟩
    rw [← sum_effect fun i hi => h i (hsplit ▸ List.mem_append_left rest hi)]
    exact hall zs rest hsplit.symm

end Code

/-! ## The checks one by one -/

namespace Validation

theorem instructions_eq_ok_iff {code : Bytes} {is : List Instruction} :
    instructions code = .ok is ↔ Code.decode code = .ok is := by
  rw [instructions]
  cases Code.decode code with
  | ok js => simp
  | error e => simp

/-- Where the depth before is bounded by the code left, the replay is the climb. -/
theorem replay_eq_ok_iff {r r' : StackReport} {is : List Instruction} (hdepth : 0 ≤ r.finalDepth)
    (hlow : 2 * r.finalDepth + Code.length is < 2 ^ 32) :
    replay r is = .ok r' ↔
      Climbs r.finalDepth (is.map (·.change)) r'.finalDepth ∧ r' = Code.climb r is := by
  constructor
  · intro h
    induction is generalizing r with
    | nil =>
      cases h
      exact ⟨rfl, rfl⟩
    | cons i rest ih =>
      rw [Code.length_cons] at hlow
      have hsize := i.size_pos
      rw [replay] at h
      split at h
      · cases h
      rename_i report hstep
      obtain ⟨-, -, rfl⟩ := StackReport.step?_eq_some_iff.mp hstep
      rw [StackReport.finalDepth_add] at h
      split at h
      · cases h
      rename_i hnonneg
      -- a call that saturates would take more than the code before it can have pushed
      have heffect : i.effect = i.change := by
        refine Opcode.effect_eq_change fun hcall => ?_
        by_contra hcount
        rw [hcall, Opcode.effect_call, Opcode.argumentCount, if_neg hcount,
          Opcode.maxArguments] at hnonneg
        omega
      have hchange : i.effect ≤ 2 := heffect.trans_le (i.opcode.change_le i.operand)
      rw [← Instruction.effect] at hnonneg h
      have hnext : 0 ≤ r.finalDepth + i.effect := by omega
      have hleft : 2 * (r.finalDepth + i.effect) + Code.length rest < 2 ^ 32 := by omega
      obtain ⟨hclimb, hreport⟩ := ih hnext hleft h
      refine ⟨?_, hreport⟩
      rw [List.map_cons, ← heffect]
      exact ⟨hnext, hclimb⟩
  · rintro ⟨hclimb, rfl⟩
    exact (Code.replay_of_climbs hclimb hlow).1

theorem replayStack_eq_ok_iff_replay {code : Bytes} {r : StackReport} :
    replayStack code = .ok r ↔ ∃ is, Code.decode code = .ok is ∧ replay {} is = .ok r := by
  rw [replayStack, Code.decode]
  obtain ⟨is, stop⟩ := Code.scan code 0
  simp only [Bind.bind, Except.bind]
  cases hreplay : replay {} is with
  | error d =>
    cases stop with
    | none => simp [hreplay]
    | some e => simp
  | ok r' =>
    cases stop with
    | none => simp [hreplay, pure, Except.pure]
    | some e => simp [throw, throwThe, MonadExceptOf.throw]

/-- The replay passes over code that can be read and whose depths are not negative. -/
theorem replayStack_eq_ok_iff {code : Bytes} {r : StackReport} (hlt : code.size < 2 ^ 32) :
    replayStack code = .ok r ↔ ∃ is, Code.decode code = .ok is ∧ (∀ d ∈ Code.depths is, 0 ≤ d) ∧
      IsGreatest (Code.depths is) r.maxDepth ∧ r.finalDepth = Code.net is := by
  rw [replayStack_eq_ok_iff_replay]
  refine exists_congr fun is => and_congr_right fun hdecode => ?_
  obtain ⟨-, hcode, -⟩ := Code.decode_eq_ok_iff.mp hdecode
  have hlow : 2 * (0 : Int) + Code.length is < 2 ^ 32 := by
    rw [hcode, Code.size_assemble] at hlt
    omega
  rw [replay_eq_ok_iff (r := {}) (Int.le_refl 0) hlow, Code.climbs_iff_depths, and_assoc]
  refine and_congr_right fun hdepths => ?_
  have hclimb := Code.climbs_iff_depths.mpr ⟨hdepths, rfl⟩
  obtain ⟨-, hfinal, heffects⟩ := Code.replay_of_climbs (r := {}) hclimb hlow
  have hgreatest := Code.isGreatest_climb heffects
  constructor
  · rintro ⟨hnet, rfl⟩
    exact ⟨hgreatest, hnet⟩
  · rintro ⟨hmax, hnet⟩
    refine ⟨hnet, ?_⟩
    obtain ⟨maxDepth, finalDepth⟩ := r
    obtain rfl := hmax.unique hgreatest
    obtain rfl := hnet
    rw [← hfinal]

theorem badBranch?_eq_none_iff {is : List Instruction} {size : Nat} :
    badBranch? is size = none ↔ ∀ i ∈ is, ∀ t, i.target? = some t →
      t.toNat = size ∨ ∃ j ∈ is, j.address.toNat = t.toNat := by
  have hboundary (t : UInt64) : isBoundary is size t = true ↔
      t.toNat = size ∨ ∃ j ∈ is, j.address.toNat = t.toNat := by
    rw [isBoundary, Bool.or_eq_true, List.any_eq_true, decide_eq_true_iff]
    simp only [decide_eq_true_iff, ← UInt64.toNat_inj, UInt32.toNat_toUInt64]
  rw [badBranch?, List.findSome?_eq_none_iff]
  refine forall₂_congr fun i _ => ?_
  cases i.target? with
  | none => simp
  | some t =>
    by_cases h : isBoundary is size t = true
    · simpa [h] using (hboundary t).mp h
    · simpa [h] using mt (hboundary t).mpr h

theorem badOrder?_eq_none_iff {entries : List LineEntry} :
    badOrder? entries = none ↔ entries.Pairwise fun a b => a.address < b.address := by
  rw [← List.isChain_iff_pairwise]
  fun_induction badOrder? entries with
  | case1 a b rest hlt ih => rw [ih, List.isChain_cons_cons, and_iff_right hlt]
  | case2 a b rest hlt => simp [hlt]
  | case3 entries hshort =>
    rcases entries with _ | ⟨a, _ | ⟨b, rest⟩⟩
    · simp
    · simp
    · exact absurd rfl (hshort a b rest)

theorem badEntry?_eq_none_iff {is : List Instruction} {entries : List LineEntry} :
    badEntry? is entries = none ↔ ∀ l ∈ entries, ∃ i ∈ is, i.address = l.address := by
  unfold badEntry?
  rw [Option.map_eq_none_iff, List.find?_eq_none]
  refine forall₂_congr fun l _ => ?_
  rw [Bool.not_eq_true, Bool.not_eq_false', List.any_eq_true]
  simp only [decide_eq_true_iff]

theorem checkBranches_eq_ok_iff {code : Bytes} {is : List Instruction}
    (h : Code.decode code = .ok is) :
    checkBranches code = .ok () ↔ ∀ i ∈ is, ∀ t, i.target? = some t →
      t.toNat = code.size ∨ ∃ j ∈ is, j.address.toNat = t.toNat := by
  rw [← badBranch?_eq_none_iff]
  simp only [checkBranches, instructions_eq_ok_iff.mpr h, Bind.bind, Except.bind]
  cases badBranch? is code.size with
  | none => simp [pure, Except.pure]
  | some d => simp [throw, throwThe, MonadExceptOf.throw]

theorem checkLines_eq_ok_iff {f : CompiledFunction} {is : List Instruction}
    (h : Code.decode f.code = .ok is) :
    checkLines f = .ok () ↔ ∀ entries, f.lines = some entries →
      entries.Pairwise (fun a b => a.address < b.address) ∧
        ∀ l ∈ entries, ∃ i ∈ is, i.address = l.address := by
  rw [checkLines]
  cases f.lines with
  | none => simp
  | some entries =>
    simp only [Option.some.injEq, forall_eq', ← badOrder?_eq_none_iff, ← badEntry?_eq_none_iff,
      instructions_eq_ok_iff.mpr h, Bind.bind, Except.bind]
    cases badOrder? entries with
    | some d => simp [throw, throwThe, MonadExceptOf.throw]
    | none =>
      cases badEntry? is entries with
      | some d => simp [throw, throwThe, MonadExceptOf.throw]
      | none => simp [pure, Except.pure]

theorem checkSymbols_eq_ok_iff {f : CompiledFunction} :
    checkSymbols f = .ok () ↔
      ∀ names, f.symbols = some names →
        names.length = f.params.toNat + f.locals.toNat ∧ names.length < 2 ^ 32 := by
  rw [checkSymbols]
  cases f.symbols with
  | none => simp
  | some names =>
    simp only [Option.some.injEq, forall_eq']
    by_cases hlt : f.params.toNat + f.locals.toNat < 2 ^ 32
    · by_cases h : names.length = f.params.toNat + f.locals.toNat
      · simp only [Word.unsigned?_of_lt hlt, h, hlt, if_true, and_self]
      · simp [Word.unsigned?_of_lt hlt, h]
    · have hnone := Word.unsigned?_of_le (not_lt.mp hlt)
      simp only [hnone, reduceCtorEq, false_iff, not_and]
      omega

end Validation

namespace CompiledFunction

theorem validate_eq_ok_iff {f : CompiledFunction} {report : StackReport} :
    f.validate = .ok report ↔ Validation.replayStack f.code = .ok report ∧
      report.maxDepth = f.maxStack.toNat ∧ Validation.checkBranches f.code = .ok () ∧
      Validation.checkLines f = .ok () ∧ Validation.checkSymbols f = .ok () := by
  rw [validate]
  simp only [Bind.bind, Except.bind, pure, Except.pure, throw, throwThe, MonadExceptOf.throw]
  cases Validation.replayStack f.code with
  | error d => simp
  | ok r =>
    constructor
    · intro h
      dsimp only at h
      split at h
      · cases h
      rename_i hmax
      split at h
      · cases h
      rename_i hbranches
      split at h
      · cases h
      rename_i hlines
      split at h
      · cases h
      rename_i hsymbols
      cases h
      exact ⟨rfl, not_not.mp hmax, hbranches, hlines, hsymbols⟩
    · rintro ⟨⟨⟩, hmax, hbranches, hlines, hsymbols⟩
      simp only [hmax, hbranches, hlines, hsymbols, ne_eq, not_true_eq_false, if_false]

/-! ## Sound functions -/

/--
What is asked of a function, where `is` are its instructions. Nothing is said of reading the code
or of replaying its effects.
-/
structure Sound (f : CompiledFunction) (is : List Instruction) : Prop where
  /-- Each instruction has an immediate of its kind and stands behind those before it. -/
  placed : Code.Placed 0 is
  /-- The code holds the instructions and nothing else. -/
  code : f.code = Code.assemble is
  depths : ∀ d ∈ Code.depths is, 0 ≤ d
  deepest : IsGreatest (Code.depths is) f.maxStack.toNat
  /-- A branch goes to an instruction or to the end of the code. -/
  targets : ∀ i ∈ is, i.opcode.isBranch = true → ∀ t, i.operand = .word t →
    t.toNat = f.code.size ∨ ∃ j ∈ is, j.address.toNat = t.toNat
  lines : ∀ entries, f.lines = some entries →
    entries.Pairwise (fun a b => a.address < b.address) ∧
      ∀ l ∈ entries, ∃ i ∈ is, i.address = l.address
  symbols : ∀ names, f.symbols = some names →
    names.length = f.params.toNat + f.locals.toNat

variable {f : CompiledFunction} {is js : List Instruction} {report : StackReport}

/-- The code tells the instructions. -/
theorem Sound.unique (hlt : f.code.size < 2 ^ 32) (h : f.Sound is) (h' : f.Sound js) :
    is = js := by
  have hdecode := Code.decode_eq_ok_iff.mpr ⟨h.placed, h.code, hlt⟩
  rw [Code.decode_eq_ok_iff.mpr ⟨h'.placed, h'.code, hlt⟩] at hdecode
  exact (Except.ok.inj hdecode).symm

/-- The validator reports on the sound functions and on no others. -/
theorem validate_eq_ok_iff_sound (hlt : f.code.size < 2 ^ 32)
    (hslots : f.params.toNat + f.locals.toNat < 2 ^ 32) :
    f.validate = .ok report ↔ ∃ is, f.Sound is ∧
      IsGreatest (Code.depths is) report.maxDepth ∧ report.finalDepth = Code.net is := by
  rw [validate_eq_ok_iff, Validation.replayStack_eq_ok_iff hlt, Validation.checkSymbols_eq_ok_iff]
  constructor
  · rintro ⟨⟨is, hdecode, hdepths, hgreatest, hfinal⟩, hmax, hbranches, hlines, hsymbols⟩
    obtain ⟨hplaced, hcode, -⟩ := Code.decode_eq_ok_iff.mp hdecode
    have htargets := (Validation.checkBranches_eq_ok_iff hdecode).mp hbranches
    refine ⟨is, ⟨hplaced, hcode, hdepths, hmax ▸ hgreatest, fun i hi hbranch t ht => ?_,
      (Validation.checkLines_eq_ok_iff hdecode).mp hlines, fun names hnames =>
        (hsymbols names hnames).1⟩, hgreatest, hfinal⟩
    exact htargets i hi t (Instruction.target?_eq_some_iff.mpr ⟨hbranch, ht⟩)
  · rintro ⟨is, hsound, hgreatest, hfinal⟩
    have hdecode := Code.decode_eq_ok_iff.mpr ⟨hsound.placed, hsound.code, hlt⟩
    refine ⟨⟨is, hdecode, hsound.depths, hgreatest, hfinal⟩, hgreatest.unique hsound.deepest,
      (Validation.checkBranches_eq_ok_iff hdecode).mpr fun i hi t ht => ?_,
      (Validation.checkLines_eq_ok_iff hdecode).mpr hsound.lines, fun names hnames => ?_⟩
    · obtain ⟨hbranch, hword⟩ := Instruction.target?_eq_some_iff.mp ht
      exact hsound.targets i hi hbranch t hword
    · have hlength := hsound.symbols names hnames
      exact ⟨hlength, hlength ▸ hslots⟩

/--
The validator accepts the functions that are sound, as long as addresses and slots can be counted,
and reports the greatest and the last depth behind a prefix of their code.
-/
theorem validates_iff_sound (hlt : f.code.size < 2 ^ 32)
    (hslots : f.params.toNat + f.locals.toNat < 2 ^ 32) :
    ((∃ report, f.validate = .ok report) ↔ ∃ is, f.Sound is) ∧
      ∀ report is, f.validate = .ok report → f.Sound is →
        IsGreatest (Code.depths is) report.maxDepth ∧ report.finalDepth = Code.net is := by
  constructor
  · constructor
    · rintro ⟨report, hreport⟩
      obtain ⟨is, hsound, -⟩ := (validate_eq_ok_iff_sound hlt hslots).mp hreport
      exact ⟨is, hsound⟩
    · rintro ⟨is, hsound⟩
      let report : StackReport := { maxDepth := f.maxStack.toNat, finalDepth := Code.net is }
      exact ⟨report, (validate_eq_ok_iff_sound hlt hslots).mpr ⟨is, hsound, hsound.deepest, rfl⟩⟩
  · intro report is hreport hsound
    obtain ⟨js, hsound', hdepths⟩ := (validate_eq_ok_iff_sound hlt hslots).mp hreport
    rwa [hsound.unique hlt hsound']

/-- A function that calls a global with one argument, and then branches to its end or returns. -/
def branchingCall : CompiledFunction :=
  { code := Code.assemble (Code.place 0 [
      (.pushThis, .none), (.getGlobal, .word 0), (.getLocal, .int 0), (.call, .int 1),
      (.branchZero, .word 48), (.ret, .none)])
    params := 1
    maxStack := 3
    symbols := some ["x"]
    lines := some [{ address := 0, line := 1 }, { address := 32, line := 2 }] }

/-- That the validator reports on the function shows that it is sound. -/
theorem validates_iff_sound_call :
    branchingCall.code.size < 2 ^ 32 ∧
      branchingCall.params.toNat + branchingCall.locals.toNat < 2 ^ 32 ∧
      ∃ is, branchingCall.Sound is ∧ IsGreatest (Code.depths is) 3 ∧ Code.net is = 0 := by
  have hlt : branchingCall.code.size < 2 ^ 32 := by decide +kernel
  have hslots : branchingCall.params.toNat + branchingCall.locals.toNat < 2 ^ 32 := by decide
  have hreport : branchingCall.validate = .ok { maxDepth := 3, finalDepth := 0 } := by
    decide +kernel
  obtain ⟨hiff, hdepths⟩ := validates_iff_sound hlt hslots
  obtain ⟨is, hsound⟩ := hiff.mp ⟨_, hreport⟩
  obtain ⟨hgreatest, hfinal⟩ := hdepths _ is hreport hsound
  exact ⟨hlt, hslots, is, hsound, hgreatest, hfinal.symm⟩

end CompiledFunction

end ScriptToolchain
