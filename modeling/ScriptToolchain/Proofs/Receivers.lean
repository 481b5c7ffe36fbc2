import ScriptToolchain.Proofs.Storage
import ScriptToolchain.Tree.Equality

/-!
# Receivers of calls that name none

Where only members get a receiver, the name of the callee is looked up twice:
for the receiver, where its flag counts before its class, and for the load, where
a local is found before the flag counts. So `this` is pushed for every callee
that is loaded as a member, but also for a flagged one that is a local.
-/

namespace ScriptToolchain

namespace Cell

/-- The place is a member of `this`. -/
def isMember : Cell → Bool
  | .member _ => true
  | _ => false

/-- The place is that of a local. -/
def isSlot : Cell → Bool
  | .slot _ => true
  | _ => false

end Cell

namespace VariableTable

/-- What decides on the receiver, and what decides on the place of the callee. -/
theorem receiver_iff {t : VariableTable} {symbols : Interner} {flagged : Bool} {name : String}
    {cell : Cell} (h : (t.variable flagged name).cell? symbols = some cell) :
    (flagged || t.class? name = some .member) = true ↔
      cell.isMember = true ∨ flagged = true ∧ cell.isSlot = true := by
  have hmember {symbol : String} (h : (Variable.member symbol).cell? symbols = some cell) :
      cell.isMember = true := by
    obtain ⟨i, -, rfl⟩ := Option.map_eq_some_iff.mp h
    rfl
  have hglobal {symbol : String} (h : (Variable.global symbol).cell? symbols = some cell) :
      cell.isMember = false ∧ cell.isSlot = false := by
    obtain ⟨i, -, rfl⟩ := Option.map_eq_some_iff.mp h
    exact ⟨rfl, rfl⟩
  -- for a name that is neither local nor member the flag decides on both
  have hunknown (hclass : t.class? name ≠ some .member)
      (h : (if flagged then Variable.member name else .global name).cell? symbols = some cell) :
      (flagged || decide (t.class? name = some .member)) = true ↔
        cell.isMember = true ∨ flagged = true ∧ cell.isSlot = true := by
    cases flagged with
    | true => simp [hmember h]
    | false => simp [hclass, hglobal h]
  rw [VariableTable.variable] at h
  rcases hclass : t.class? name with _ | (_ | _ | _) <;> rw [hclass] at h hunknown
  · exact hunknown (by decide) h
  · cases h
    simp [Cell.isMember, Cell.isSlot]
  · simp [hmember h]
  · exact hunknown (by decide) h

end VariableTable

namespace Footprint

/-- `this` is pushed exactly for a callee that is loaded as a member, and null for all others. -/
structure SelectsMembers (trail : List Footprint) : Prop where
  named : ∀ flagged name this cell, ⟨.callee flagged name, [.push this, .get cell]⟩ ∈ trail →
    (this = true ↔ cell.isMember = true)
  other : ∀ accesses, ⟨.receiver, accesses⟩ ∈ trail → accesses = [.push false]

variable {symbols : Interner} {t : VariableTable} {trail : List Footprint}

/-- The receiver of a call where only members get one. -/
theorem Trail.callee (h : Trail .memberOnly symbols t trail) {flagged this : Bool} {name : String}
    {cell : Cell} (hmem : ⟨.callee flagged name, [.push this, .get cell]⟩ ∈ trail) :
    this = true ↔ cell.isMember = true ∨ flagged = true ∧ cell.isSlot = true := by
  obtain ⟨before, after, rfl⟩ := List.append_of_mem hmem
  have hcell := (Finds.callee.cell h.split).2
  have hpush := (List.forall₂_cons.mp h.split).1.eq_of_push
  rw [← hpush]
  exact VariableTable.receiver_iff hcell

theorem Trail.receiver (h : Trail .memberOnly symbols t trail) {accesses : List (Access Cell)}
    (hmem : ⟨.receiver, accesses⟩ ∈ trail) : accesses = [.push false] := by
  obtain ⟨before, after, rfl⟩ := List.append_of_mem hmem
  cases h.split with
  | cons hpush hrest =>
    cases hpush
    cases hrest
    rfl

end Footprint

namespace Compile

/--
Where only members get a receiver, a call that names none pushes `this` for a callee that is loaded
as a member and for a flagged callee that is loaded from a slot, and null for any other callee.
Calls by dot push their object. Symbols have the ids of a host that collects a program, the code
stays below the largest address, and no function literal has too many parameters to count its slots.
-/
theorem receivers_of_calls (c : Compiler) (n : Node) (host : ProgramBuilder)
    (hpolicy : c.options.receiver = .memberOnly) (hparams : n.ParamsFit (· < 2 ^ 31)) {k : Nat}
    {f : CompiledFunction}
    (hf : (c.compile n ({ host } : Watched ProgramBuilder)).2.2.delivered[k]? = some f)
    (hsize : f.code.size < 2 ^ 32) :
    ∃ params body trail, n.functions[k]? = some (params, body) ∧ f.Leaves params body trail ∧
      (∀ e ∈ trail, e.Fits) ∧
      (∀ flagged name this cell, ⟨.callee flagged name, [.push this, .get cell]⟩ ∈ trail →
        (this = true ↔ cell.isMember = true ∨ flagged = true ∧ cell.isSlot = true)) ∧
      ∀ accesses, ⟨.receiver, accesses⟩ ∈ trail → accesses = [.push false] := by
  obtain ⟨params, body, symbols, trail, hfunction, h⟩ := delivered_trails c n host hparams hf hsize
  have hmade := h.made
  rw [hpolicy] at hmade
  exact ⟨params, body, trail, hfunction, h.leaves, fun _ he => hmade.fits he,
    fun _ _ _ _ hmem => hmade.callee hmem, fun _ hmem => hmade.receiver hmem⟩

/-- A unit that declares a local and calls it by its name with the flag of a member. -/
def localCalleeUnit : Node :=
  .block {} [
    .declaration {} .local "f",
    .call { flags := .popResult } (.identifier { flags := .isMember } "f") [] none]

/-- What a compilation of the unit answers where only members get a receiver. -/
def localCalleeCompiled : Except CompileError UInt64 × Compiler × Watched ProgramBuilder :=
  Compiler.compile { options := { receiver := .memberOnly } } localCalleeUnit { host := {} }

theorem receivers_of_calls_local :
    ∃ f params body trail, localCalleeCompiled.2.2.delivered[0]? = some f ∧
      localCalleeUnit.functions[0]? = some (params, body) ∧ f.Leaves params body trail ∧
      (∀ e ∈ trail, e.Fits) ∧
      (∀ flagged name this cell, ⟨.callee flagged name, [.push this, .get cell]⟩ ∈ trail →
        (this = true ↔ cell.isMember = true ∨ flagged = true ∧ cell.isSlot = true)) ∧
      ∀ accesses, ⟨.receiver, accesses⟩ ∈ trail → accesses = [.push false] := by
  have hparams : localCalleeUnit.ParamsFit (· < 2 ^ 31) := by decide +kernel
  have hlength : 0 < localCalleeCompiled.2.2.delivered.length := by decide +kernel
  have hsize : ∀ f ∈ localCalleeCompiled.2.2.delivered, f.code.size < 2 ^ 32 := by decide +kernel
  have hf := List.getElem?_eq_getElem hlength
  obtain ⟨params, body, trail, h⟩ := receivers_of_calls { options := { receiver := .memberOnly } }
    localCalleeUnit {} rfl hparams hf (hsize _ (List.getElem_mem hlength))
  exact ⟨_, params, body, trail, hf, h⟩

/-- The unit compiles, and `this` is pushed for its local although only members are to get it. -/
theorem local_callee_gets_this :
    localCalleeCompiled.1 = .ok 0 ∧ localCalleeUnit.functions = [([], localCalleeUnit)] ∧
      ∃ f, localCalleeCompiled.2.2.delivered = [f] ∧
        ∀ trail, f.Leaves [] localCalleeUnit trail → (∀ e ∈ trail, e.Fits) →
          ¬ Footprint.SelectsMembers trail := by
  obtain ⟨f, hf⟩ := List.length_eq_one_iff.mp
    (show localCalleeCompiled.2.2.delivered.length = 1 by decide +kernel)
  have hcode : ∀ f ∈ localCalleeCompiled.2.2.delivered,
      (Code.decode f.code).toOption.map (·.filterMap Instruction.access?) =
        some [.push true, .get (.slot 0)] := by decide +kernel
  refine ⟨by decide +kernel, by decide +kernel, f, hf, fun trail hleaves hfits hselects => ?_⟩
  have huses : trail.map (·.use) = [.declare .local "f", .callee true "f"] := hleaves.uses
  obtain ⟨⟨_, _⟩, _, rfl, rfl, hrest⟩ := List.map_eq_cons_iff.mp huses
  obtain ⟨⟨_, _⟩, _, rfl, rfl, hnil⟩ := List.map_eq_cons_iff.mp hrest
  obtain rfl := List.map_eq_nil_iff.mp hnil
  obtain ⟨is, hdecode, haccesses⟩ := hleaves.code
  have hshown := hcode f (hf ▸ List.mem_singleton_self f)
  rw [hdecode] at hshown
  have hboth := haccesses.symm.trans (Option.some.inj hshown)
  have hcallee {x y : Footprint} : y ∈ [x, y] := List.mem_cons_of_mem _ (List.mem_singleton_self y)
  -- the footprints of the declaration and of the call have the shapes that fit
  cases hfits _ (List.mem_cons_self ..)
  cases hfits _ hcallee
  cases hboth
  cases (hselects.named _ _ _ _ hcallee).mp rfl

end Compile

end ScriptToolchain
