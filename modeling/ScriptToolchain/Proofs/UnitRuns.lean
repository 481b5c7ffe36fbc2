import ScriptToolchain.Proofs.Collection
import ScriptToolchain.Proofs.Correctness
import ScriptToolchain.Proofs.Simulation
import ScriptToolchain.Proofs.Validity

/-!
# Compiled units run as they mean

A unit of plain nodes gives one function. Its block performs the command of the
unit and returns, and the machine carries out its bytes as the block says.
-/

namespace ScriptToolchain

namespace Compile

open Machine

variable {V S : Type} {p : Program} {D : Domain V S} {policy : ReceiverPolicy} {n : Node}

/-! ## Blocks of units -/

/-- Code that performs a command and then a `return` is left with what the command ends with. -/
theorem Block.Performs.halts {b : Block} {c : Cmd} (h : b.Performs p D (.seq c (.ret none)))
    {stack : List V} {s t : S} {v : V} : b.Exec p D stack s (.halt v t) ↔ c.Ends D s v t := by
  rw [h]
  constructor
  · rintro ⟨f, u, hrun, hout⟩
    cases f with
    | next => cases hout
    | jump j => cases hout
    | ret w =>
      cases hout
      rcases Cmd.run_seq.mp hrun with ⟨u, hc, hret⟩ | ⟨hc, -⟩
      · obtain ⟨hw, rfl⟩ := Cmd.run_ret.mp hret
        cases hw
        exact .inr ⟨hc, rfl⟩
      · exact .inl hc
  · rintro (hc | ⟨hc, rfl⟩)
    · exact ⟨.ret v, t, .seq_left hc nofun, rfl⟩
    · exact ⟨.ret D.null, t, .seq hc .ret, rfl⟩

theorem Block.Performs.not_fall {b : Block} {c : Cmd} (h : b.Performs p D (.seq c (.ret none)))
    (stack stack' : List V) (s t : S) : ¬b.Exec p D stack s (.fall stack' t) := by
  rw [h]
  rintro ⟨f, u, hrun, hout⟩
  cases f with
  | next =>
    rcases Cmd.run_seq.mp hrun with ⟨_, _, hret⟩ | ⟨_, hf⟩
    · cases (Cmd.run_ret.mp hret).1
    · exact hf rfl
  | jump j => cases hout
  | ret w => cases hout

/-- Where both builds have few bytes, all texts of a new program are within it. -/
theorem Scope.Extends.within_of_weight {c c' : Scope ProgramBuilder} {b : Block}
    (h : c.Extends b c') (hc : c.Sound) (hsymbolCount : c.host.symbols.size = 0)
    (hstringCount : c.host.strings.size = 0) (hlt : b.weight < 2 ^ 32)
    (hsymbols : p.symbols = c'.host.symbols.toList) (hstrings : p.strings = c'.host.strings.toList)
    (hslots : 4 * c'.names.slots.size ≤ b.weight) : c'.Within p := by
  have hc' := h.sound hc
  have hlength {t : Interner} (ht : t.Sound) (hle : t.size ≤ b.weight) :
      t.toList.length ≤ UInt64.size := by
    rw [Interner.toList, List.length_reverse, ht.counted]
    show _ ≤ 2 ^ 64
    omega
  have hsymbolsLe := h.symbolCount
  have hstringsLe := h.stringCount
  refine ⟨?_, ?_, ?_, ?_, ?_⟩
  · rw [hsymbols]
  · rw [hstrings]
  · rw [hsymbols]
    exact hlength hc'.symbols (by omega)
  · rw [hstrings]
    exact hlength hc'.strings (by omega)
  · show _ ≤ 2 ^ 32
    omega

theorem Outline.Makes.weight_lt {l : Outline} {root debug : Bool} {f : CompiledFunction}
    (hm : l.Makes root debug f) (hl : l.code.WellFormed) (hlt : f.code.size < 2 ^ 32) :
    l.code.weight < 2 ^ 32 := by
  obtain ⟨-, -, -, hsize⟩ := hm.placed hl hlt
  rw [Outline.instructions, Block.length_place] at hsize
  exact Nat.lt_of_le_of_lt (l.code.weight_le_shown debug) (hsize ▸ hlt)

/-- The function of an outline runs as its block does. -/
theorem Outline.Makes.halts_iff {l : Outline} {root debug : Bool} {f : CompiledFunction}
    (hm : l.Makes root debug f) (hl : l.code.WellFormed) (hclosed : l.code.Closed)
    (hlt : f.code.size < 2 ^ 32) {c : Cmd} (hc : l.code.Performs p D (.seq c (.ret none)))
    (s t : S) (v : V) : c.Ends D s v t ↔ Halts p D f.code ⟨0, [], s⟩ v t := by
  obtain ⟨-, -, hplaced, hsize⟩ := hm.placed hl hlt
  have hlength : Code.length (l.instructions debug) < 2 ^ 32 := hsize ▸ hlt
  have hsits : Block.Sits f.code (l.code.shown debug) 0 0 0 := by
    refine ⟨hl.shown debug, ?_, ?_, by decide, by decide⟩
    · rw [hm.code hlt]
      exact Code.hosts_assemble hplaced hlength
    · rwa [Outline.instructions, Block.length_place, ← Nat.zero_add (Block.size _)] at hlength
  have hexec : (l.code.shown debug).Exec p D = l.code.Exec p D := Block.exec_shown _ _
  rw [Block.halts_iff hsits (hclosed.shown debug), hexec, hc.halts]
  intro stack' t' hfall
  rw [hexec] at hfall
  exact hc.not_fall _ _ _ _ hfall

/-- Lowering a unit makes no inner function, and code that performs its command. -/
theorem plan_performs (rootName : String) (hplain : n.Plain) (hpopped : n.Popped)
    {host : ProgramBuilder} (hsymbols : host.symbols.Sound) (hstrings : host.strings.Sound)
    {inner : List Outline} {outer : Outline}
    (h : (plan policy rootName n host).functions = some (inner, outer)) :
    let c : Scope ProgramBuilder := { host := (Host.functionId host).2 }
    ∃ c', (plan policy rootName n host).host = c'.host ∧ inner = [] ∧ outer.names = c'.names ∧
      c.Sound ∧ c.Extends outer.code c' ∧ ∀ p, c'.Within p → ∃ cmd,
        Cmd.ofNode? {} n = some (cmd, outer.names) ∧
          ∀ {V S : Type} (D : Domain V S), outer.code.Performs p D (.seq cmd (.ret none)) := by
  intro c
  have hc : c.Sound := ⟨hsymbols, hstrings, Interner.sound_empty⟩
  have hunit (p : Program) : (do
      Lowering.node policy false .statement n
      Lowering.emit .ret : Lowering ProgramBuilder Unit).Realizes p
        fun t _ x t' => ∃ cmd, Cmd.ofNode? t n = some (cmd, t') ∧
          ∀ {V S : Type} (D : Domain V S), x.Performs p D (.seq cmd (.ret none)) := by
    have hnode : Realizable p policy n := realizes_node n hplain
    have hbody := hnode.statement hpopped false
    refine (hbody.bind fun _ => Lowering.Realizes.put _).mono ?_
    rintro t _ _ t' ⟨_, _, x, _, rfl, ⟨cmd, hcmd, hx⟩, rfl, rfl⟩
    exact ⟨cmd, hcmd, fun D => (hx D).seq Block.performs_ret⟩
  obtain ⟨code, c', hrun, hhost, rfl, rfl⟩ := plan_eq_some h
  have hext := (hunit {} c () code c' hrun hc).1
  refine ⟨c', hhost, ?_, rfl, hc, hext, fun p hw => ?_⟩
  · rw [hext.outlines]
    rfl
  · exact (hunit p c () code c' hrun hc).2 hw

/--
A unit of plain nodes that compiles runs as it means. Its reference run ends with a value and a
store if and only if the machine, started at the first byte of the root function with an empty
stack, halts with them.
-/
theorem compiled_runs_as_meant (o : Options) (source : Option PendingSource) (n : Node)
    (debug : Bool) (hplain : n.Plain) (hpopped : n.Popped) {root : UInt64}
    (hroot : (build o source n debug).1 = .ok root)
    (hsize : ∀ f ∈ (program o source n debug).functions, f.code.size < 2 ^ 32) :
    ∃ f cmd names, (program o source n debug).function? root = some f ∧
      Cmd.ofNode? {} n = some (cmd, names) ∧
      ∀ {V S : Type} (D : Domain V S) (s t : S) (v : V),
        cmd.Ends D s v t ↔ Halts (program o source n debug) D f.code ⟨0, [], s⟩ v t := by
  obtain ⟨inner, outer, fs, f, hplan, hinner, hclosed, hmake, hid, hfunctions, hsymbols,
    hstrings⟩ := exists_plan hroot
  obtain ⟨c, hhost, rfl, hnames, hsound, hext, hmeans⟩ := plan_performs o.rootName hplain hpopped
    Interner.sound_empty Interner.sound_empty hplan
  cases hinner
  have hlt := hsize f (by rw [hfunctions]; exact List.mem_singleton_self f)
  obtain ⟨hfine, -⟩ := plan_fine False (· = 0) o.rootName
    ⟨False.elim, fun hm => nomatch hplain _ hm⟩ False.elim rfl ({} : ProgramBuilder) hplan
  have hwithin : c.Within (program o source n debug) := by
    refine hext.within_of_weight hsound rfl rfl (hmake.weight_lt hfine.wellFormed hlt) ?_ ?_ ?_
    · rw [hsymbols, hhost]
    · rw [hstrings, hhost]
    · have hslots := hfine.slots
      have hparams : outer.names.params = 0 := hfine.params
      rw [← hnames]
      omega
  obtain ⟨cmd, hcmd, hperforms⟩ := hmeans _ hwithin
  refine ⟨f, cmd, outer.names, ?_, hcmd, fun D s t v => ?_⟩
  · rw [Program.function?, hfunctions, List.nil_append, List.find?_singleton, hid,
      if_pos (decide_eq_true rfl)]
  · exact hmake.halts_iff hfine.wellFormed hclosed hlt (hperforms D) s t v

/-- A unit that counts down, with a loop that is left and one that goes on. -/
def countdownUnit : Node :=
  .block {} [
    .operation { line := 1 } .assign [.identifier {} "n", .constant {} (.int 3)],
    .whileLoop { line := 2 } (.identifier {} "n") (.block {} [
      .operation { line := 3 } .assign [.identifier {} "n",
        .operation {} .sub [.identifier {} "n", .constant {} (.int 1)]],
      .ifElse { line := 4 } (.operation {} .and [.identifier {} "n", .identifier {} "m"])
        (.breakLoop {}) (some (.continueLoop {}))]),
    .ret { line := 6 } (some (.identifier {} "n"))]

theorem compiled_runs_as_meant_countdown :
    ∃ f cmd names, (program {} none countdownUnit false).function? 0 = some f ∧
      Cmd.ofNode? {} countdownUnit = some (cmd, names) ∧
      ∀ {V S : Type} (D : Domain V S) (s t : S) (v : V), cmd.Ends D s v t ↔
        Halts (program {} none countdownUnit false) D f.code ⟨0, [], s⟩ v t := by
  have hplain : countdownUnit.Plain := by decide +kernel
  have hpopped : countdownUnit.Popped := by decide +kernel
  have hroot : (build {} none countdownUnit false).1 = .ok 0 := by decide +kernel
  have hsize : ∀ f ∈ (program {} none countdownUnit false).functions,
      f.code.size < 2 ^ 32 := by decide +kernel
  exact compiled_runs_as_meant {} none countdownUnit false hplain hpopped hroot hsize

end Compile

end ScriptToolchain
