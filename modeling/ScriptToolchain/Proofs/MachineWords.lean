import ScriptToolchain.Proofs.Checks
import ScriptToolchain.Proofs.FunctionRoundTrip

/-!
# Where validation overflows

Validation breaks off where an address, the effect of a call, a depth or the
number of slots is no word. Code below the largest address leaves two places
for that. One is a call with the greatest argument count that a signed word
holds, if the replay comes to it; the other is the number of slots of a function
with names that passes every other check (`CompiledFunction.overflows_iff`).
-/

namespace ScriptToolchain

/-- The replay comes to a wide call. -/
def Code.ReachesWideCall (r : StackReport) (is : List Instruction) : Prop :=
  ∃ before i after report, is = before ++ i :: after ∧
    Validation.replay r before = .ok report ∧ i.opcode.IsWide i.operand.count

namespace Validation

open Code (ReachesWideCall)

/-! ## The replay -/

theorem reachesWideCall_cons {r report : StackReport} {i : Instruction} {rest : List Instruction}
    (hstep : r.step? i.opcode i.operand.count = some report) :
    ReachesWideCall r (i :: rest) ↔ 0 ≤ report.finalDepth ∧ ReachesWideCall report rest := by
  constructor
  · rintro ⟨before, j, after, last, hsplit, hreplay, hj⟩
    rcases before with _ | ⟨k, before⟩
    · cases hsplit
      exact absurd hj (StackReport.step?_eq_some_iff.mp hstep).1
    · obtain ⟨rfl, rfl⟩ := List.cons.inj hsplit
      rw [replay, hstep] at hreplay
      dsimp only at hreplay
      split at hreplay
      · cases hreplay
      · exact ⟨not_lt.mp ‹_›, before, j, after, last, rfl, hreplay, hj⟩
  · rintro ⟨hdepth, before, j, after, last, rfl, hreplay, hj⟩
    refine ⟨i :: before, j, after, last, rfl, ?_, hj⟩
    rw [replay, hstep]
    simp only [not_lt.mpr hdepth, if_false]
    exact hreplay

/-- Where the depth before is bounded by the code left, the replay overflows at wide calls only. -/
theorem replay_eq_overflow_iff {r : StackReport} {is : List Instruction} (hdepth : 0 ≤ r.finalDepth)
    (hlow : 2 * r.finalDepth + Code.length is < 2 ^ 32) :
    replay r is = .error .overflow ↔ ReachesWideCall r is := by
  induction is generalizing r with
  | nil =>
    constructor
    · rintro ⟨⟩
    · rintro ⟨before, i, after, -, hsplit, -⟩
      simp at hsplit
  | cons i rest ih =>
    rw [Code.length_cons] at hlow
    have hsize := i.size_pos
    obtain ⟨hleast, hmost⟩ := i.opcode.effect_bounds i.operand.count
    by_cases hwide : i.opcode.IsWide i.operand.count
    · have hreaches : ReachesWideCall r (i :: rest) := ⟨[], i, rest, r, rfl, rfl, hwide⟩
      rw [replay, StackReport.step?_eq_none_iff.mpr (.inl hwide), iff_true_right hreaches]
    · have hstep : r.step? i.opcode i.operand.count = some (r.add i.effect) :=
        StackReport.step?_eq_some_iff.mpr ⟨hwide, ⟨by omega, by omega⟩, rfl⟩
      have hnext : (r.add i.effect).finalDepth ≤ r.finalDepth + 2 := Int.add_le_add_left hmost _
      rw [replay, hstep, reachesWideCall_cons hstep]
      dsimp only
      split
      · rename_i hunder
        constructor
        · rintro ⟨⟩
        · exact fun h => absurd h.1 (not_le.mpr hunder)
      · rename_i hover
        rw [and_iff_right (not_lt.mp hover)]
        exact ih (not_lt.mp hover) (by omega)

theorem replayStack_eq_overflow_iff {code : Bytes} (hlt : code.size < 2 ^ 32) :
    replayStack code = .error .overflow ↔ ReachesWideCall {} (Code.scan code 0).1 := by
  rcases hscan : Code.scan code 0 with ⟨is, stop⟩
  obtain ⟨-, hend, -⟩ := Code.scan_reads (Nat.zero_le _) hscan
  have hlow : 2 * (0 : Int) + Code.length is < 2 ^ 32 := by omega
  rw [← replay_eq_overflow_iff (r := {}) (Int.le_refl 0) hlow, replayStack, hscan]
  simp only [Bind.bind, Except.bind]
  cases replay {} is with
  | error d => rfl
  | ok report => cases stop <;> constructor <;> rintro ⟨⟩

end Validation

/-- The verdict is none: a result does not fit its word. -/
def Defect.IsOverflow (d : Defect) : Prop :=
  d = .overflow ∨ d = .decode .overflow

namespace Validation

variable {code : Bytes} {d : Defect}

theorem replay_ne_decode {r : StackReport} {is : List Instruction} {e : DecodeError} :
    replay r is ≠ .error (.decode e) := by
  induction is generalizing r with
  | nil => rintro ⟨⟩
  | cons i rest ih =>
    rw [replay]
    split
    · rintro ⟨⟩
    · split
      · rintro ⟨⟩
      · exact ih

/-! ## The other checks -/

theorem instructions_not_overflow (hlt : code.size < 2 ^ 32) (h : instructions code = .error d) :
    ¬d.IsOverflow := by
  rw [instructions] at h
  split at h
  · cases h
  · rename_i e hdecode
    cases h
    rintro (hd | hd)
    · cases hd
    · cases hd
      exact Code.decode_ne_overflow hlt hdecode

theorem replayStack_ne_decode (hlt : code.size < 2 ^ 32) :
    replayStack code ≠ .error (.decode .overflow) := by
  have hstop := Code.scan_ne_overflow hlt (Nat.zero_le _)
  rw [replayStack]
  rcases hscan : Code.scan code 0 with ⟨is, stop⟩
  rw [hscan] at hstop
  simp only [Bind.bind, Except.bind]
  cases hreplay : replay {} is with
  | error d =>
    rintro ⟨⟩
    exact replay_ne_decode hreplay
  | ok report =>
    cases stop with
    | none => rintro ⟨⟩
    | some e =>
      rintro ⟨⟩
      exact hstop rfl

theorem badBranch?_not_overflow {is : List Instruction} {size : Nat}
    (h : badBranch? is size = some d) : ¬d.IsOverflow := by
  obtain ⟨i, -, hi⟩ := List.exists_of_findSome?_eq_some h
  split at hi
  · split at hi
    · cases hi
    · cases hi
      rintro (hd | hd) <;> cases hd
  · cases hi

theorem checkBranches_not_overflow (hlt : code.size < 2 ^ 32)
    (h : checkBranches code = .error d) : ¬d.IsOverflow := by
  rw [checkBranches] at h
  cases his : instructions code with
  | error e =>
    rw [his] at h
    cases h
    exact instructions_not_overflow hlt his
  | ok is =>
    rw [his] at h
    simp only [Bind.bind, Except.bind] at h
    split at h
    · rename_i hbad
      cases h
      exact badBranch?_not_overflow hbad
    · cases h

theorem badOrder?_not_overflow {entries : List LineEntry} (h : badOrder? entries = some d) :
    ¬d.IsOverflow := by
  fun_induction badOrder? entries with
  | case1 a b rest hlt ih => exact ih h
  | case2 a b rest hlt =>
    cases h
    rintro (hd | hd) <;> cases hd
  | case3 => cases h

theorem checkLines_not_overflow {f : CompiledFunction} (hlt : f.code.size < 2 ^ 32)
    (h : checkLines f = .error d) : ¬d.IsOverflow := by
  rw [checkLines] at h
  split at h
  · cases h
  cases his : instructions f.code with
  | error e =>
    rw [his] at h
    cases h
    exact instructions_not_overflow hlt his
  | ok is =>
    rw [his] at h
    simp only [Bind.bind, Except.bind] at h
    split at h
    · rename_i hbad
      cases h
      exact badOrder?_not_overflow hbad
    split at h
    · rename_i hbad
      cases h
      obtain ⟨l, -, rfl⟩ := Option.map_eq_some_iff.mp hbad
      rintro (hd | hd) <;> cases hd
    · cases h

theorem checkSymbols_eq_overflow_iff {f : CompiledFunction} :
    checkSymbols f = .error .overflow ↔
      2 ^ 32 ≤ f.params.toNat + f.locals.toNat ∧ f.symbols ≠ none := by
  rw [checkSymbols]
  cases f.symbols with
  | none => simp
  | some names =>
    by_cases hlt : f.params.toNat + f.locals.toNat < 2 ^ 32
    · rw [Word.unsigned?_of_lt hlt]
      simp only [not_le.mpr hlt, false_and, iff_false]
      split <;> rintro ⟨⟩
    · rw [Word.unsigned?_of_le (not_lt.mp hlt)]
      simp only [not_lt.mp hlt, ne_eq, reduceCtorEq, not_false_eq_true, and_self]

theorem checkSymbols_ne_decode {f : CompiledFunction} {e : DecodeError} :
    checkSymbols f ≠ .error (.decode e) := by
  rw [checkSymbols]
  split
  · rintro ⟨⟩
  · split
    · rintro ⟨⟩
    · split <;> rintro ⟨⟩

end Validation

/-! ## Whole functions -/

namespace CompiledFunction

variable {f : CompiledFunction}

/-- The function without the names of its slots, which are looked at last. -/
def nameless (f : CompiledFunction) : CompiledFunction :=
  { f with symbols := none }

/-- Of checks made in turn, the last one can as well be made behind all others. -/
theorem checks_last {ε : Type} (replay : Except ε StackReport) (wrong : StackReport → Prop)
    [DecidablePred wrong] (defect : StackReport → ε) (branches lines symbols : Except ε Unit) :
    (do
      let report ← replay
      if wrong report then
        throw (defect report)
      branches
      lines
      symbols
      return report) = (do
      let report ← (do
        let report ← replay
        if wrong report then
          throw (defect report)
        branches
        lines
        .ok ()
        return report)
      symbols
      return report) := by
  cases replay with
  | error e => rfl
  | ok report =>
    simp only [Bind.bind, Except.bind]
    split
    · rfl
    cases branches with
    | error e => rfl
    | ok _ => cases lines <;> rfl

theorem validate_eq_nameless (f : CompiledFunction) : f.validate = (do
    let report ← f.nameless.validate
    Validation.checkSymbols f
    return report) :=
  checks_last _ _ _ _ _ _

/-- Without names, only the replay can overflow. -/
theorem nameless_eq_error_iff (hlt : f.code.size < 2 ^ 32) {d : Defect} (hd : d.IsOverflow) :
    f.nameless.validate = .error d ↔ Validation.replayStack f.code = .error d := by
  have hsymbols : Validation.checkSymbols f.nameless = .ok () := rfl
  have hcode : f.nameless.code = f.code := rfl
  rw [validate, hsymbols, hcode]
  cases Validation.replayStack f.code with
  | error d' => rfl
  | ok report =>
    refine ⟨fun h => absurd hd ?_, by rintro ⟨⟩⟩
    simp only [Bind.bind, Except.bind] at h
    split at h
    · cases h
      rintro (hd | hd) <;> cases hd
    split at h
    · rename_i hbranches
      cases h
      exact Validation.checkBranches_not_overflow hlt hbranches
    split at h
    · rename_i hlines
      cases h
      exact Validation.checkLines_not_overflow (f := f.nameless) hlt hlines
    · cases h

/--
Validation breaks off at two places only: at a wide call that the replay comes to, and at the slots
of a function that has more of them than can be counted, and names, and passes all other checks. No
address overflows.
-/
theorem overflows_iff (hlt : f.code.size < 2 ^ 32) :
    (f.validate = .error .overflow ↔
      Code.ReachesWideCall {} (Code.scan f.code 0).1 ∨
        (∃ report, f.nameless.validate = .ok report) ∧
          2 ^ 32 ≤ f.params.toNat + f.locals.toNat ∧ f.symbols ≠ none) ∧
      f.validate ≠ .error (.decode .overflow) := by
  have hreplay : f.nameless.validate = .error .overflow ↔ _ :=
    (nameless_eq_error_iff hlt (.inl rfl)).trans (Validation.replayStack_eq_overflow_iff hlt)
  have hdecode : f.nameless.validate ≠ .error (.decode .overflow) := fun h =>
    Validation.replayStack_ne_decode hlt ((nameless_eq_error_iff hlt (.inr rfl)).mp h)
  rw [← hreplay, ← Validation.checkSymbols_eq_overflow_iff, validate_eq_nameless]
  cases hnameless : f.nameless.validate with
  | error d =>
    rw [hnameless] at hdecode
    refine ⟨⟨.inl, ?_⟩, hdecode⟩
    rintro (h | ⟨⟨report, ⟨⟩⟩, -⟩)
    exact h
  | ok report =>
    have hsymbols := Validation.checkSymbols_ne_decode (f := f) (e := .overflow)
    simp only [Bind.bind, Except.bind]
    cases hcheck : Validation.checkSymbols f with
    | error d =>
      rw [hcheck] at hsymbols
      dsimp only
      refine ⟨⟨fun h => .inr ⟨⟨report, rfl⟩, ?_⟩, ?_⟩, ?_⟩
      · rw [Except.error.inj h]
      · rintro (⟨⟨⟩⟩ | ⟨-, h⟩)
        rw [Except.error.inj h]
      · exact fun h => hsymbols (congrArg Except.error (Except.error.inj h))
    | ok _ =>
      refine ⟨⟨?_, ?_⟩, ?_⟩
      · rintro ⟨⟩
      · rintro (⟨⟨⟩⟩ | ⟨-, ⟨⟩⟩)
      · rintro ⟨⟩

/-- A function that does nothing but call with the greatest argument count of a signed word. -/
def wideCall : CompiledFunction :=
  { code := Code.assemble (Code.place 0 [(.call, .int 0x7FFFFFFF)]) }

/-- Its effect is no signed word. -/
theorem overflows_iff_wideCall :
    wideCall.code.size < 2 ^ 32 ∧ wideCall.validate = .error .overflow := by
  have hlt : wideCall.code.size < 2 ^ 32 := by decide +kernel
  have hscan : Code.scan wideCall.code 0 = (Code.place 0 [(.call, .int 0x7FFFFFFF)], none) :=
    Code.scan_of_placed (Code.placed_place (by decide)) (by decide +kernel)
  have hreaches : Code.ReachesWideCall {} (Code.scan wideCall.code 0).1 := by
    rw [hscan]
    exact ⟨[], ⟨0, .call, .int 0x7FFFFFFF⟩, [], {}, rfl, rfl, by decide⟩
  exact ⟨hlt, (overflows_iff hlt).1.mpr (.inl hreaches)⟩

/-- A function with an empty list of names, and more slots than can be counted. -/
def crowded : CompiledFunction :=
  { code := Bytes.ofWord32 Opcode.ret.tag, params := 0xFFFFFFFF, locals := 1, symbols := some [] }

theorem fits_crowded : crowded.Fits where
  code := by decide
  name := by simp [crowded]
  symbols := by simp [crowded, Bytes.ListFits]
  lines := by simp [crowded]

/-- An image can hold a function whose slots overflow. -/
theorem image_slots_overflow :
    ¬∀ (image : Bytes) (f : CompiledFunction), ofBytes image = .ok f → f.code.size < 2 ^ 32 →
      f.validate ≠ .error .overflow := by
  intro fits
  exact fits crowded.toBytes crowded (ofBytes_toBytes fits_crowded) (by decide) (by decide +kernel)

end CompiledFunction

end ScriptToolchain
