import ScriptToolchain.Code.Validation
import ScriptToolchain.Compile.Program
import ScriptToolchain.Proofs.Checks
import ScriptToolchain.Proofs.Delivery
import ScriptToolchain.Proofs.Soundness

/-!
# Generated functions are valid

Every function that the generator makes passes the checks of the validator. A
fine outline gives placed instructions, which are read back as they are; their
effects climb, their branches land on positions, and the recorded lines keep
the order of the addresses.
-/

namespace ScriptToolchain

/-- What the validator asks of a function, where `is` are its instructions. -/
structure CompiledFunction.Valid (f : CompiledFunction) (is : List Instruction) : Prop where
  decode : Code.decode f.code = .ok is
  /-- No prefix of the code takes from an empty stack or goes above the declared depth. -/
  depth : ∀ xs ys, is = xs ++ ys →
    0 ≤ (xs.map (·.effect)).sum ∧ (xs.map (·.effect)).sum ≤ f.maxStack.toNat
  /-- Some prefix reaches the declared depth. -/
  maxStack : ∃ xs ys, is = xs ++ ys ∧ (xs.map (·.effect)).sum = f.maxStack.toNat
  /-- A branch goes to an instruction or to the end of the code. -/
  targets : ∀ i ∈ is, ∀ t, i.target? = some t →
    t.toNat = f.code.size ∨ ∃ j ∈ is, j.address.toUInt64 = t
  lines : ∀ entries, f.lines = some entries →
    entries.Pairwise (fun a b => a.address < b.address) ∧
      ∀ l ∈ entries, ∃ i ∈ is, i.address = l.address
  /-- Every slot has a name, and the slots can be counted. -/
  symbols : ∀ names, f.symbols = some names →
    names.length = f.params.toNat + f.locals.toNat ∧ names.length < 2 ^ 32

/-- A valid function passes every check once its code is read and its stack is replayed. -/
theorem CompiledFunction.Valid.validate {f : CompiledFunction} {is : List Instruction}
    (h : f.Valid is) {report : StackReport} (hreplay : Validation.replayStack f.code = .ok report)
    (hmax : report.maxDepth = f.maxStack.toNat) : f.validate = .ok report := by
  refine CompiledFunction.validate_eq_ok_iff.mpr ⟨hreplay, hmax,
    (Validation.checkBranches_eq_ok_iff h.decode).mpr fun i hi t ht => ?_,
    (Validation.checkLines_eq_ok_iff h.decode).mpr h.lines,
    Validation.checkSymbols_eq_ok_iff.mpr h.symbols⟩
  rcases h.targets i hi t ht with hend | ⟨j, hj, rfl⟩
  · exact .inl hend
  · exact .inr ⟨j, hj, (UInt32.toNat_toUInt64 _).symm⟩

/-! ## Lines -/

namespace LineRecorder

/-- Reducing runs only leaves entries out. -/
theorem collapse_sublist (kept rest : List LineEntry) :
    (collapse kept rest).Sublist (kept.reverse ++ rest) := by
  fun_induction collapse kept rest with
  | case1 kept => rw [List.append_nil]
  | case2 e rest ih => exact ih
  | case3 last kept e rest h ih =>
    exact ih.trans (List.Sublist.append_left (List.sublist_cons_self e rest) _)
  | case4 last kept e rest h ih => simpa using ih

/-- Entries that were noted in order are not sorted anew. -/
theorem mergeSort_of_rises {r : LineRecorder}
    (h : r.entries.toList.Pairwise fun a b => a.address < b.address) :
    r.entries.toList.mergeSort (fun a b => a.address ≤ b.address) = r.entries.toList := by
  refine List.mergeSort_of_pairwise (h.imp fun {a b} hab => ?_)
  exact decide_eq_true (UInt32.le_of_lt hab)

/-- A table of entries in order keeps the order. -/
theorem table_sublist {r : LineRecorder}
    (h : r.entries.toList.Pairwise fun a b => a.address < b.address) :
    r.table.Sublist r.entries.toList := by
  have hsub := collapse_sublist [] (r.entries.toList.mergeSort fun a b => a.address ≤ b.address)
  rw [mergeSort_of_rises h] at hsub
  rw [table, mergeSort_of_rises h]
  exact hsub

end LineRecorder

namespace Compile.Block

/-- The linked directives stand where the block has its instructions, with the same operations. -/
theorem sites_link (target : LabelId → UInt32) (b : Block) (start n exit next : Nat) :
    (Directive.link target start n (b.directives start n)).map (fun i => (i.address, i.opcode)) =
      (b.place start exit next).map fun i => (i.address, i.opcode) := by
  induction b generalizing start n exit next with
  | empty | instr | mark => rfl
  | jump op j => cases j <;> rfl
  | seq a b iha ihb =>
    rw [directives, Directive.link_append, length_directives, labelCount_directives, place,
      List.map_append, List.map_append, iha, ihb]
  | skip op body ih =>
    rw [directives, link_branch, Directive.link_append, link_resolve, place, Directive.link,
      List.append_nil, List.map_cons, List.map_cons, ih]
    rfl
  | either yes no ihy ihn =>
    rw [directives, link_branch, Directive.link_append, link_branch, link_resolve,
      Directive.link_append, link_resolve, length_directives, labelCount_directives, place,
      Directive.link, List.append_nil]
    simp only [List.map_cons, List.map_append]
    rw [ihy _ _ exit next]
    exact congrArg _ (congrArg _ (congrArg _ (ihn _ _ exit next)))
  | loop body tail back resume ihb iht =>
    rw [directives, Directive.link_append, Directive.link_append, length_directives,
      length_directives, labelCount_directives, labelCount_directives, Directive.link,
      Directive.link_append, link_resolves, link_resolves, place]
    simp only [List.map_append]
    rw [ihb _ _ (start + body.size + tail.size + branchSize)
      (resume.address start (start + body.size)), iht _ _ exit next]
    rfl

theorem address_link (target : LabelId → UInt32) (b : Block) (start n exit next : Nat) :
    (Directive.link target start n (b.directives start n)).map (·.address) =
      (b.place start exit next).map (·.address) := by
  have h := congrArg (List.map Prod.fst) (b.sites_link target start n exit next)
  rwa [List.map_map, List.map_map] at h

theorem opcode_link (target : LabelId → UInt32) (b : Block) (start n exit next : Nat) :
    (Directive.link target start n (b.directives start n)).map (·.opcode) =
      (b.place start exit next).map (·.opcode) := by
  have h := congrArg (List.map Prod.snd) (b.sites_link target start n exit next)
  rwa [List.map_map, List.map_map] at h

end Compile.Block

/-! ## Outlines -/

namespace Compile

variable {popped : Prop} {fit : Nat → Prop} {root debug : Bool} {l : Outline}
  {f : CompiledFunction}

theorem Block.WellFormed.shown {b : Block} (h : b.WellFormed) (debug : Bool) :
    (b.shown debug).WellFormed := by
  cases debug with
  | true => exact h
  | false => exact h.unmark

theorem Block.Returns.shown {b : Block} (h : b.Returns) (debug : Bool) :
    (b.shown debug).Returns := by
  cases debug with
  | true => exact h
  | false => exact h.unmark

theorem Block.Level.shown {b : Block} {around d : Int} (h : b.Level around d) (debug : Bool) :
    (b.shown debug).Level around d := by
  cases debug with
  | true => exact h
  | false => exact h.unmark

theorem Block.climbs_shown {b : Block} {d d' : Int} (h : Climbs d b.changes d') (debug : Bool) :
    Climbs d (b.shown debug).changes d' := by
  cases debug with
  | true => exact h
  | false => exact climbs_unmark h

/-- The code of a function is that of its outline, at its addresses. -/
theorem Outline.Makes.placed (hm : l.Makes root debug f) (hl : l.code.WellFormed)
    (hlt : f.code.size < 2 ^ 32) :
    Code.decode f.code = .ok (l.instructions debug) ∧
      Code.scan f.code 0 = (l.instructions debug, none) ∧
      Code.Placed 0 (l.instructions debug) ∧
      f.code.size = Code.length (l.instructions debug) := by
  have hcode := hm.code hlt
  have hsize : f.code.size = Code.length (l.instructions debug) := by
    rw [hcode, Code.size_assemble]
  have hplaced : Code.Placed 0 (l.instructions debug) := by
    refine Block.placed_place (hl.shown debug) 0 0 ?_
    rw [hsize, Outline.instructions, Block.length_place] at hlt
    omega
  have hlength : Code.length (l.instructions debug) < 2 ^ 32 := hsize ▸ hlt
  rw [hcode]
  exact ⟨Code.decode_of_placed hplaced hlength, Code.scan_of_placed hplaced hlength, hplaced, by
    rw [Code.size_assemble]⟩

/-- The stack of a function never underflows, and its greatest depth is the one declared. -/
theorem Outline.Makes.replay (hm : l.Makes root debug f) (hl : l.Fine popped fit)
    (hlt : f.code.size < 2 ^ 32) :
    (∀ i ∈ l.instructions debug, i.effect = i.change) ∧
      Climbs 0 ((l.instructions debug).map (·.change)) (l.code.net) ∧
      Validation.replay {} (l.instructions debug) = .ok (Code.climb {} (l.instructions debug)) ∧
      (Code.climb {} (l.instructions debug)).maxDepth = f.maxStack.toNat := by
  obtain ⟨k, hk, hclimb, -⟩ := hl.keeps
  obtain ⟨-, -, -, hsize⟩ := hm.placed hl.wellFormed hlt
  have hnet : l.code.net = k := by rw [Block.net_of_climbs hclimb, Int.sub_zero]
  have hchanges : Climbs 0 ((l.instructions debug).map (·.change)) k := by
    rw [Outline.instructions, Block.change_place]
    exact Block.climbs_shown hclimb debug
  obtain ⟨hreplay, -, heffects⟩ := Code.replay_of_climbs (r := {}) hchanges
    (by simp only; omega)
  obtain ⟨hlow, hhigh⟩ := Code.climb_bounds (r := {}) (2 ^ 32) hchanges heffects
    (by decide) (by simp only; omega)
  have hstack : l.stack debug = Code.climb {} (l.instructions debug) :=
    (Block.climb_place heffects {}).symm
  refine ⟨heffects, hnet ▸ hchanges, hreplay, ?_⟩
  rw [hm.maxStack, hstack]
  simp only at hlow
  generalize (Code.climb {} (l.instructions debug)).maxDepth = m at hlow hhigh
  have hm : m.toNat < UInt32.size := by
    show m.toNat < 2 ^ 32
    omega
  rw [UInt32.toNat_ofNat_of_lt' hm]
  omega

/-- No effect and no depth in the code of a function leaves its word. -/
theorem Outline.Makes.not_overflows (hm : l.Makes root debug f) (hl : l.Fine popped fit)
    (hlt : f.code.size < 2 ^ 32) :
    ¬Code.Overflows 0 ((l.instructions debug).map Instruction.operation) := by
  obtain ⟨-, -, -, hsize⟩ := hm.placed hl.wellFormed hlt
  obtain ⟨-, hclimb, -⟩ := hm.replay hl hlt
  exact Code.not_overflows_of_climbs hclimb (Int.le_refl 0) (by omega)

/-- A branch of a function goes to an instruction of it, which carries that address. -/
theorem Outline.Makes.exists_target (hm : l.Makes root debug f) (hl : l.Fine popped fit)
    (hclosed : l.code.Closed) (hlt : f.code.size < 2 ^ 32) {p : Nat} {e : Int} {i : Instruction}
    {rest : List Instruction} (h : Code.At 0 (l.instructions debug) p e (i :: rest)) {t : UInt64}
    (ht : i.target? = some t) :
    ∃ e' j rest', j.address.toNat = t.toNat ∧
      Code.At 0 (l.instructions debug) t.toNat e' (j :: rest') ∧
      ∀ around, l.code.Level around 0 → e' = e + i.change := by
  obtain ⟨-, -, hplaced, hsize⟩ := hm.placed hl.wellFormed hlt
  obtain ⟨q, e', j, rest', hq, hat, hlevel⟩ := Block.exists_target (hl.wellFormed.shown debug)
    (hclosed.shown debug) (hl.returns.shown debug) h ht
  have haddress := hplaced.address_toNat (by omega) hat
  have hbound : q < UInt32.size := by
    rw [← haddress]
    exact j.address.toNat_lt
  have htarget : t.toNat = q := by
    rw [hq, saturate32, if_pos hbound, UInt32.toNat_toUInt64, UInt32.toNat_ofNat_of_lt' hbound]
  exact ⟨e', j, rest', haddress.trans htarget.symm, htarget ▸ hat, fun around hl =>
    hlevel around 0 (hl.shown debug)⟩

/-- What the recorder notes of a function stands where its instructions stand, and rises. -/
theorem Outline.Makes.entries_rise (hm : l.Makes root debug f) (hl : l.code.WellFormed)
    (hlt : f.code.size < 2 ^ 32) :
    (Directive.entries 0 0 (l.directives debug)).map (·.address) =
        (l.instructions debug).map (·.address) ∧
      (Directive.entries 0 0 (l.directives debug)).Pairwise fun a b => a.address < b.address := by
  obtain ⟨-, -, hplaced, hsize⟩ := hm.placed hl hlt
  have haddress : (Directive.entries 0 0 (l.directives debug)).map (·.address) =
      (l.instructions debug).map (·.address) :=
    (Directive.address_entries (fun _ => 0) 0 0 0 _).trans
      (Block.address_link (fun _ => 0) _ 0 0 0 0)
  refine ⟨haddress, ?_⟩
  rw [← List.pairwise_map (R := (· < ·)) (f := fun a : LineEntry => a.address), haddress,
    List.pairwise_map]
  exact hplaced.pairwise_address (by omega)

/-- The line table of a function rises along its instructions. -/
theorem Outline.Makes.lines_rise (hm : l.Makes root debug f) (hl : l.code.WellFormed)
    (hlt : f.code.size < 2 ^ 32) {entries : List LineEntry} (h : f.lines = some entries) :
    entries.Pairwise (fun a b => a.address < b.address) ∧
      ∀ e ∈ entries, ∃ i ∈ l.instructions debug, i.address = e.address := by
  obtain ⟨haddress, hrise⟩ := hm.entries_rise hl hlt
  rw [hm.lines hlt] at h
  split at h
  · obtain rfl := Option.some.inj h
    have hsub := LineRecorder.table_sublist
      (r := { entries := (Directive.entries 0 0 (l.directives debug)).toArray }) hrise
    refine ⟨hrise.sublist hsub, fun e he => ?_⟩
    have hmem := List.mem_map_of_mem (f := fun a : LineEntry => a.address) (hsub.subset he)
    rw [haddress] at hmem
    obtain ⟨i, hi, heq⟩ := List.mem_map.mp hmem
    exact ⟨i, hi, heq⟩
  · cases h

/-- The slots of a function are its parameters and locals, and can be counted. -/
theorem Outline.Makes.length_slots (hm : l.Makes root debug f)
    (hl : l.Fine popped (· < 2 ^ 31)) (hlt : f.code.size < 2 ^ 32) :
    l.names.symbols.length = f.params.toNat + f.locals.toNat ∧
      l.names.symbols.length < 2 ^ 32 := by
  obtain ⟨-, -, -, hsize⟩ := hm.placed hl.wellFormed hlt
  have hslots := hl.slots
  have hparams := hl.params
  have hcount := hl.names.params
  have hweight := l.code.weight_le_shown debug
  rw [Outline.instructions, Block.length_place] at hsize
  rw [hm.params, hm.locals, VariableTable.symbols, Interner.toList, List.length_reverse,
    hl.names.counted, VariableTable.locals]
  have hp : l.names.params < UInt32.size := by
    show _ < 2 ^ 32
    omega
  have hs : l.names.slots.size - l.names.params < UInt32.size := by
    show _ < 2 ^ 32
    omega
  rw [UInt32.toNat_ofNat_of_lt' hp, UInt32.toNat_ofNat_of_lt' hs]
  omega

/-- Every slot of a function has a name. -/
theorem Outline.Makes.length_symbols (hm : l.Makes root debug f)
    (hl : l.Fine popped (· < 2 ^ 31)) (hlt : f.code.size < 2 ^ 32) {names : List String}
    (h : f.symbols = some names) :
    names.length = f.params.toNat + f.locals.toNat ∧ names.length < 2 ^ 32 := by
  rw [hm.symbols] at h
  split at h
  · obtain rfl := Option.some.inj h
    exact hm.length_slots hl hlt
  · cases h

/-- The function that a fine outline gives passes every check. -/
theorem Outline.Makes.valid (hm : l.Makes root debug f) (hl : l.Fine popped (· < 2 ^ 31))
    (hclosed : l.code.Closed) (hlt : f.code.size < 2 ^ 32) :
    f.Valid (l.instructions debug) ∧ ∃ report, f.validate = .ok report := by
  obtain ⟨hdecode, hscan, hplaced, hsize⟩ := hm.placed hl.wellFormed hlt
  obtain ⟨heffects, hclimb, hreplay, hmax⟩ := hm.replay hl hlt
  obtain ⟨hall, hone⟩ := Code.maxDepth_climb_empty (l.instructions debug)
  rw [hmax] at hall hone
  have hvalid : f.Valid (l.instructions debug) := by
    refine ⟨hdecode, fun xs ys h => ⟨?_, hall xs ys h⟩, hone, fun i hi t ht => ?_,
      fun entries h => hm.lines_rise hl.wellFormed hlt h, fun names h => hm.length_symbols hl hlt h⟩
    · have hat : Code.At 0 (l.instructions debug) _ _ ys := ⟨xs, h, rfl, rfl⟩
      rw [Code.sum_effect fun i hi => heffects i (h ▸ List.mem_append_left _ hi)]
      exact hat.nonneg hclimb
    · obtain ⟨p, e, rest, hat⟩ := Code.exists_at 0 hi
      obtain ⟨e', j, rest', haddress, hin, -⟩ := hm.exists_target hl hclosed hlt hat ht
      exact .inr ⟨j, hin.mem, UInt64.toNat_inj.mp (by rw [UInt32.toNat_toUInt64, haddress])⟩
  refine ⟨hvalid, _, hvalid.validate ?_ hmax⟩
  simp only [Validation.replayStack, hscan, hreplay, Bind.bind, Except.bind]
  rfl

/--
Every function that a compilation hands to its host passes the validator, whatever the tree, the
options and the host, if its code stays below the largest address and no function literal has too
many parameters to count its slots. A debug build brings lines and names.
-/
theorem handed_functions_valid {σ : Type} [Host σ] (c : Compiler) (n : Node) (host : σ)
    (hparams : n.ParamsFit (· < 2 ^ 31)) {f : CompiledFunction}
    (hf : f ∈ (c.compile n ({ host } : Recorded σ)).2.2.handed) (hlt : f.code.size < 2 ^ 32) :
    (∃ report, f.validate = .ok report) ∧ (∃ is, f.Valid is) ∧
      f.lines.isSome = c.options.debug ∧ f.symbols.isSome = c.options.debug := by
  obtain ⟨l, root, hfine, hclosed, hmakes⟩ := exists_outline False (· < 2 ^ 31) c.options
    ⟨False.elim, fun h => hparams h⟩ False.elim (by decide) _ (Recorded.mem_generate hf)
  obtain ⟨hvalid, hvalidate⟩ := hmakes.valid hfine hclosed hlt
  refine ⟨hvalidate, ⟨_, hvalid⟩, ?_, ?_⟩
  · rw [hmakes.lines hlt]
    cases c.options.debug <;> rfl
  · rw [hmakes.symbols]
    cases c.options.debug <;> rfl

/-- The depths that the generator counts stay in signed words: an emitter that stops at the first
one beyond them makes the same code of every function below the largest address. -/
theorem handed_functions_emit {σ : Type} [Host σ] (c : Compiler) (n : Node) (host : σ)
    (r : LineRecorder) {f : CompiledFunction}
    (hf : f ∈ (c.compile n ({ host } : Recorded σ)).2.2.handed) (hlt : f.code.size < 2 ^ 32) :
    ∃ is, Code.decode f.code = .ok is ∧
      (Emitter.emitAll { recorder := r } (is.map Instruction.operation)).stopped = false ∧
      (Emitter.emitAll { recorder := r } (is.map Instruction.operation)).code = f.code := by
  obtain ⟨l, root, hfine, -, hmakes⟩ := exists_outline False (fun _ => True) c.options
    ⟨False.elim, fun _ => trivial⟩ False.elim trivial _ (Recorded.mem_generate hf)
  obtain ⟨hdecode, -, hplaced, -⟩ := hmakes.placed hfine.wellFormed hlt
  have hkinds : ∀ op ∈ (l.instructions c.options.debug).map Instruction.operation,
      op.2.kind = op.1.operand := by
    rw [List.forall_mem_map]
    exact hplaced.fits
  refine ⟨_, hdecode, ?_, ?_⟩
  · rw [← Bool.not_eq_true, Emitter.stopped_emitAll_iff r hkinds]
    exact hmakes.not_overflows hfine hlt
  · rw [Emitter.code_emitAll, hmakes.code hlt]
    exact Code.assemble_congr (Code.operation_place 0 _)

/-- A unit with a function literal, and a loop that is left. -/
def sampleUnit : Node :=
  .block {} [
    .operation { line := 1 } .assign [.identifier {} "f",
      .function {} [.parameter {} "a"] (.ret { line := 2 } (some (.identifier {} "a")))],
    .whileLoop { line := 3 } (.identifier {} "f") (.breakLoop { line := 4 })]

/-- The functions of the unit in a debug build. -/
def sampleFunctions : List CompiledFunction :=
  (Compiler.compile { options := { debug := true } } sampleUnit
    ({ host := {} } : Recorded ProgramBuilder)).2.2.handed

theorem handed_functions_valid_sample :
    ∃ f ∈ sampleFunctions, (∃ report, f.validate = .ok report) ∧ (∃ is, f.Valid is) ∧
      f.lines.isSome = true ∧ f.symbols.isSome = true := by
  have hparams : sampleUnit.ParamsFit (· < 2 ^ 31) := by decide +kernel
  have hsome : sampleFunctions ≠ [] := by decide +kernel
  have hsize : ∀ f ∈ sampleFunctions, f.code.size < 2 ^ 32 := by decide +kernel
  have hmem := List.head_mem hsome
  exact ⟨_, hmem, handed_functions_valid _ _ _ hparams hmem (hsize _ hmem)⟩

end Compile

end ScriptToolchain
