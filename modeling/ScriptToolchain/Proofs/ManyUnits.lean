import ScriptToolchain.Proofs.Collection
import ScriptToolchain.Proofs.Interning
import ScriptToolchain.Proofs.Parallel
import ScriptToolchain.Proofs.Protocol
import ScriptToolchain.Proofs.Refusal

/-!
# Many units in one program

A compiler and a builder may be used for units one after the other. `Collected`
says how a builder looks then, with the number of function ids that it has given
out: a failed unit has taken ids and texts as well, so the number may be past
the functions. Every unit keeps it (`Job.adds`). The reports on a unit are those
that it gets alone, since lowering does not depend on the ids.
-/

namespace ScriptToolchain.Interner

/-- The text is listed under the id. -/
def Lists (t : Interner) (text : String) (id : UInt64) : Prop :=
  ∃ i : Nat, id = i.toUInt64 ∧ t.toList[i]? = some text

theorem Lists.mono {t t' : Interner} {text : String} {id : UInt64} (h : t.Lists text id)
    (ht : t.Extends t') : t'.Lists text id := by
  obtain ⟨i, rfl, hi⟩ := h
  obtain ⟨hlt, rfl⟩ := List.getElem?_eq_some_iff.mp hi
  exact ⟨i, rfl, List.prefix_iff_getElem?.mp ht.listed i hlt⟩

/-- Where there are enough ids, a text is found under its id. -/
theorem Lists.getElem?_id {t : Interner} {text : String} {id : UInt64}
    (h : t.Lists text id) (hlength : t.toList.length ≤ 2 ^ 64) :
    t.toList[id.toNat]? = some text := by
  obtain ⟨i, rfl, hi⟩ := h
  obtain ⟨hlt, -⟩ := List.getElem?_eq_some_iff.mp hi
  rw [show i.toUInt64.toNat = i from UInt64.toNat_ofNat_of_lt' (by simp [UInt64.size]; omega)]
  exact hi

end ScriptToolchain.Interner

namespace ScriptToolchain.Compile

/-! ## Uses of a compiler -/

/-- A unit for a compiler that is used again. -/
structure Job where
  options : Options
  unit : Node
  /-- The reports are taken from the compiler behind the unit. -/
  takes : Bool := true

/-- The function that is handed over, if one is. -/
def Call.function? : Call → Option CompiledFunction
  | .deliver f => some f
  | _ => none

/-- What came of a unit: the answer, the reports that the compiler holds, the calls of the host. -/
structure Outcome where
  answer : Except CompileError UInt64
  held : List Diagnostic
  calls : List Call

namespace Outcome

/-- The id of the root function of a unit that compiled. -/
def root? (o : Outcome) : Option UInt64 :=
  o.answer.toOption

/-- The reports on the unit. -/
def reports (o : Outcome) : List Diagnostic :=
  match o.answer with
  | .ok _ => o.held
  | .error e => e.diagnostics

/-- The functions that were handed over. -/
def handed (o : Outcome) : List CompiledFunction :=
  o.calls.filterMap Call.function?

/-- The function ids that were given out. -/
def ids (o : Outcome) : List UInt64 :=
  o.calls.filterMap Call.id?

end Outcome

namespace Job

/-- Compiles the unit, for a builder that is watched. -/
def run (j : Job) (c : Compiler) (b : ProgramBuilder) :
    Except CompileError UInt64 × Compiler × Watched ProgramBuilder :=
  Compiler.compile { c with options := j.options } j.unit { host := b }

/-- What comes of the unit. -/
def outcome (j : Job) (c : Compiler) (b : ProgramBuilder) : Outcome where
  answer := (j.run c b).1
  held := (j.run c b).2.1.pending
  calls := (j.run c b).2.2.calls

/-- The compiler behind the unit. -/
def compiler (j : Job) (c : Compiler) (b : ProgramBuilder) : Compiler :=
  if j.takes then (j.run c b).2.1.takeDiagnostics.2 else (j.run c b).2.1

/-- The builder behind the unit. -/
def builder (j : Job) (c : Compiler) (b : ProgramBuilder) : ProgramBuilder :=
  (j.run c b).2.2.host

/-- What comes of the unit with a compiler and a builder of its own. -/
def alone (j : Job) : Outcome :=
  j.outcome { options := j.options } {}

end Job

/-- Compiles units one after the other. -/
def compileAll (c : Compiler) (b : ProgramBuilder) : List Job → List Outcome × ProgramBuilder
  | [] => ([], b)
  | j :: rest =>
    let later := compileAll (j.compiler c b) (j.builder c b) rest
    (j.outcome c b :: later.1, later.2)

/-! ## Builders behind units -/

/-- A builder that has given out `given` function ids, and takes functions with these ids only. -/
structure Collected (given : Nat) (b : ProgramBuilder) : Prop where
  next : b.nextFunction = given.toUInt64
  below : ∀ f ∈ b.program.functions, f.id.toNat < given
  distinct : (b.program.functions.map (·.id)).Nodup
  symbols : b.symbols.Sound
  strings : b.strings.Sound
  root : ∀ root, b.program.root = some root →
    ∃ f ∈ b.program.functions, f.id = root ∧ f.root = true

theorem collected_empty (source : Option PendingSource) :
    Collected 0 { pending := source } where
  next := rfl
  below := nofun
  distinct := List.nodup_nil
  symbols := Interner.sound_empty
  strings := Interner.sound_empty
  root := nofun

/-- A name or a text that was asked for is listed under the id that was answered. -/
def Call.Listed (b : ProgramBuilder) : Call → Prop
  | .symbolId name id => b.symbols.Lists name id
  | .stringId text id => b.strings.Lists text id
  | _ => True

theorem Call.Listed.mono {q : Call} {b b' : ProgramBuilder} (h : q.Listed b)
    (hsymbols : b.symbols.Extends b'.symbols) (hstrings : b.strings.Extends b'.strings) :
    q.Listed b' := by
  cases q with
  | symbolId name id => exact Interner.Lists.mono h hsymbols
  | stringId text id => exact Interner.Lists.mono h hstrings
  | _ => trivial

/-! ## Questions -/

section

variable {σ : Type} [Host σ] (w : Watched σ)

@[simp]
theorem Watched.ids_functionId :
    (Host.functionId w).2.ids = w.ids ++ [(Host.functionId w.host).1] := by
  simp [ids, Host.functionId, Call.id?]

@[simp]
theorem Watched.ids_symbolId (name : String) : (Host.symbolId name w).2.ids = w.ids := by
  simp [ids, Host.symbolId, Call.id?]

@[simp]
theorem Watched.ids_stringId (text : String) : (Host.stringId text w).2.ids = w.ids := by
  simp [ids, Host.stringId, Call.id?]

end

/-- What no question changes is as before behind the generation of a unit. -/
theorem generate_keeps {σ : Type} [Host σ] {P : σ → Prop}
    (hfunction : ∀ s, P s → P (Host.functionId s).2)
    (hsymbol : ∀ name s, P s → P (Host.symbolId name s).2)
    (hstring : ∀ text s, P s → P (Host.stringId text s).2) (o : Options) (n : Node) {host : σ}
    (h : P host) : P (generate o n host).host := by
  have hids : SameIds fun a b : σ => a = b ∧ P b :=
    ⟨by rintro a _ ⟨rfl, ha⟩; exact ⟨rfl, rfl, hfunction a ha⟩,
      by rintro a _ name ⟨rfl, ha⟩; exact ⟨rfl, rfl, hsymbol name a ha⟩,
      by rintro a _ text ⟨rfl, ha⟩; exact ⟨rfl, rfl, hstring text a ha⟩⟩
  obtain ⟨⟨hsame, hplan⟩, -⟩ := generate_plan hids o n (⟨rfl, h⟩ : host = host ∧ P host)
  rwa [hsame]

/-- The watched builder comes from `b`, which had given out `given` function ids, by questions. -/
structure Answered (given : Nat) (b : ProgramBuilder) (w : Watched ProgramBuilder) : Prop where
  functions : w.host.program.functions = b.program.functions
  root : w.host.program.root = b.program.root
  next : w.host.nextFunction = (given + w.ids.length).toUInt64
  ids : w.ids = (List.range' given w.ids.length).map Nat.toUInt64
  symbols : b.symbols.Extends w.host.symbols
  strings : b.strings.Extends w.host.strings
  sound : w.host.symbols.Sound ∧ w.host.strings.Sound
  listed : ∀ q ∈ w.calls, q.Listed w.host

namespace Answered

variable {given : Nat} {b : ProgramBuilder} {w : Watched ProgramBuilder}

theorem start (h : Collected given b) (debug : Bool) :
    Answered given b (Host.started debug ({ host := b } : Watched ProgramBuilder)) := by
  have hstart : Answered given b
      { host := { b with program := { b.program with
          sources := (b.start debug).program.sources, source := (b.start debug).program.source } }
        calls := [.started debug] } :=
    ⟨rfl, rfl, h.next, rfl, b.symbols.extends_refl, b.strings.extends_refl,
      ⟨h.symbols, h.strings⟩, fun q hq => by rw [List.mem_singleton.mp hq]; trivial⟩
  rcases b with ⟨next, symbols, strings, pending, program⟩
  cases debug <;> cases pending <;> exact hstart

/-- One more call, with an answer that is listed. -/
theorem listed_concat {w : Watched ProgramBuilder} (h : Answered given b w) {q : Call}
    {host : ProgramBuilder} (hq : q.Listed host) (hsymbols : w.host.symbols.Extends host.symbols)
    (hstrings : w.host.strings.Extends host.strings) : ∀ k ∈ w.calls ++ [q], k.Listed host := by
  intro k hk
  rcases List.mem_append.mp hk with hk | hk
  · exact (h.listed k hk).mono hsymbols hstrings
  · rwa [List.mem_singleton.mp hk]

theorem functionId (h : Answered given b w) : Answered given b (Host.functionId w).2 := by
  have hids : (Host.functionId w).2.ids = w.ids ++ [w.host.nextFunction] := w.ids_functionId
  refine ⟨h.functions, h.root, ?_, ?_, h.symbols, h.strings, h.sound, ?_⟩
  · rw [hids, List.length_append, ← Nat.add_assoc]
    show w.host.nextFunction + 1 = _
    rw [h.next]
    exact (UInt64.ofNat_add _ 1).symm
  · rw [hids, List.length_append, List.length_singleton, List.range'_1_concat, List.map_append,
      ← h.ids, List.map_singleton, h.next]
  · exact h.listed_concat trivial (Interner.extends_refl _) (Interner.extends_refl _)

theorem symbolId (h : Answered given b w) (name : String) :
    Answered given b (Host.symbolId name w).2 := by
  have hids := w.ids_symbolId name
  have hextends := w.host.symbols.extends_intern name
  have hlisted : (w.host.symbols.intern name).2.Lists name
      (w.host.symbols.intern name).1.toUInt64 := ⟨_, rfl, h.sound.1.intern_listed name⟩
  refine ⟨h.functions, h.root, hids ▸ h.next, hids ▸ h.ids, h.symbols.trans hextends, h.strings,
    ⟨hextends.sound h.sound.1, h.sound.2⟩, ?_⟩
  exact h.listed_concat hlisted hextends (Interner.extends_refl _)

theorem stringId (h : Answered given b w) (text : String) :
    Answered given b (Host.stringId text w).2 := by
  have hids := w.ids_stringId text
  have hextends := w.host.strings.extends_intern text
  have hlisted : (w.host.strings.intern text).2.Lists text
      (w.host.strings.intern text).1.toUInt64 := ⟨_, rfl, h.sound.2.intern_listed text⟩
  refine ⟨h.functions, h.root, hids ▸ h.next, hids ▸ h.ids, h.symbols, h.strings.trans hextends,
    ⟨h.sound.1, hextends.sound h.sound.2⟩, ?_⟩
  exact h.listed_concat hlisted (Interner.extends_refl _) hextends

theorem generate (h : Answered given b w) (o : Options) (n : Node) :
    Answered given b (generate o n w).host :=
  generate_keeps (fun _ h => h.functionId) (fun name _ h => h.symbolId name)
    (fun text _ h => h.stringId text) o n h

/-- All ids come behind those that were given out before, and no id comes twice. -/
theorem fresh (h : Answered given b w) (hids : given + w.ids.length ≤ 2 ^ 64) :
    w.ids.Nodup ∧ ∀ id ∈ w.ids, given ≤ id.toNat ∧ id.toNat < given + w.ids.length := by
  have hnat {i : Nat} (hi : i ∈ List.range' given w.ids.length) :
      i.toUInt64.toNat = i ∧ given ≤ i ∧ i < given + w.ids.length := by
    obtain ⟨hle, hlt⟩ := List.mem_range'_1.mp hi
    exact ⟨UInt64.toNat_ofNat_of_lt' (by simp [UInt64.size]; omega), hle, hlt⟩
  constructor
  · rw [h.ids]
    refine List.Nodup.map_on (fun i hi k hk heq => ?_) (List.nodup_range' 1)
    rw [← (hnat hi).1, heq, (hnat hk).1]
  · intro id hid
    rw [h.ids] at hid
    obtain ⟨i, hi, rfl⟩ := List.mem_map.mp hid
    rw [(hnat hi).1]
    exact (hnat hi).2

end Answered

/-! ## Functions -/

/-- A record of the calls does not change what a host does with functions. -/
theorem Watched.deliverAll_host {σ : Type} [Host σ] (w : Watched σ) (fs : List CompiledFunction) :
    (deliverAll w fs).1 = (deliverAll w.host fs).1 ∧
      (deliverAll w fs).2.host = (deliverAll w.host fs).2 := by
  induction fs generalizing w with
  | nil => exact ⟨rfl, rfl⟩
  | cons f rest ih =>
    have hdeliver : Host.deliver f w = ((Host.deliver f w.host).1,
        { host := (Host.deliver f w.host).2, calls := w.calls ++ [.deliver f] }) := rfl
    rw [deliverAll, deliverAll, hdeliver]
    rcases Host.deliver f w.host with ⟨_ | _, host⟩
    · exact ⟨rfl, rfl⟩
    · exact ih _

/-- A builder takes functions whose ids it does not have. -/
theorem deliverAll_distinct {b : ProgramBuilder} {fs : List CompiledFunction}
    (h : ((b.program.functions ++ fs).map (·.id)).Nodup) :
    deliverAll b fs = (none, fs.foldl taken b) := by
  induction fs generalizing b with
  | nil => rfl
  | cons f rest ih =>
    have hnew : ¬ b.program.functions.any (·.id = f.id) = true := by
      rw [List.any_eq_true]
      rintro ⟨g, hg, hid⟩
      rw [List.map_append, List.nodup_append] at h
      exact h.2.2 g.id (List.mem_map_of_mem hg) f.id (by simp) (of_decide_eq_true hid)
    rw [deliverAll_cons, if_neg hnew, List.foldl_cons]
    refine ih ?_
    rwa [taken, List.append_assoc, List.singleton_append]

/-- Functions come to the others, and nothing but the root changes beside them. -/
theorem foldl_taken (b : ProgramBuilder) (fs : List CompiledFunction) :
    ∃ root, fs.foldl taken b = { b with program := { b.program with
      functions := b.program.functions ++ fs, root } } := by
  induction fs generalizing b with
  | nil => exact ⟨b.program.root, by rw [List.append_nil]; rfl⟩
  | cons f rest ih =>
    obtain ⟨root, hrest⟩ := ih (taken b f)
    refine ⟨root, ?_⟩
    rw [List.foldl_cons, hrest, taken, List.append_assoc, List.singleton_append]

/-- Functions whose last one is a root. -/
theorem deliverAll_root {b : ProgramBuilder} {fs : List CompiledFunction} {last : CompiledFunction}
    (h : ((b.program.functions ++ (fs ++ [last])).map (·.id)).Nodup) (hroot : last.root = true) :
    deliverAll b (fs ++ [last]) = (none, { b with program := { b.program with
      functions := b.program.functions ++ (fs ++ [last]), root := some last.id } }) := by
  obtain ⟨root, hfs⟩ := foldl_taken b fs
  rw [deliverAll_distinct h, List.foldl_append, List.foldl_cons, List.foldl_nil, hfs, taken,
    hroot, if_pos rfl, List.append_assoc]

/-- The functions of a unit have the ids that were given out for it, and the last is its root. -/
theorem generate_ids {σ : Type} [Host σ] {o : Options} {n : Node} {w : Watched σ} {root : UInt64}
    (hroot : (generate o n w).root = some root) :
    ∃ fs last, (generate o n w).functions = fs ++ [last] ∧ last.root = true ∧ last.id = root ∧
      (w.ids ++ (generate o n w).functions.map (·.id)).Perm (generate o n w).host.ids := by
  obtain ⟨asked, made, last, hdelivery, hfunctions, hids⟩ := generate_delivers hroot
  refine ⟨made.map Prod.snd, last, hfunctions, hdelivery.rootFlag, hdelivery.rootId, ?_⟩
  have hmade := hdelivery.ids.map Prod.snd
  rw [List.map_map] at hmade
  rw [hids, hfunctions, List.map_append, List.map_map, List.map_singleton, hdelivery.rootId]
  exact (List.perm_append_singleton _ _).trans (hmade.cons root) |>.append_left w.ids

/-! ## One unit -/

namespace Job

variable (j : Job) (c : Compiler) (b : ProgramBuilder) {given : Nat}

/-- What the unit is generated to. -/
def generated : Generated (Watched ProgramBuilder) :=
  generate j.options j.unit (Host.started j.options.debug { host := b })

/-- The functions that the unit comes to, none if it fails. -/
def made : List CompiledFunction :=
  if Compiler.fails j.options (j.generated b).reports then [] else (j.generated b).functions

/-- The root that the unit comes to, none if it fails. -/
def root? : Option UInt64 :=
  if Compiler.fails j.options (j.generated b).reports then none else (j.generated b).root

/-- A unit comes to nothing, or to functions with a root behind the others. -/
theorem made_cases :
    j.root? b = none ∧ j.made b = [] ∨
      ∃ fs last, j.made b = fs ++ [last] ∧ j.root? b = some last.id ∧ last.root = true ∧
        ((j.made b).map (·.id)).Perm (j.generated b).host.ids := by
  rw [root?, made]
  split
  · exact .inl ⟨rfl, rfl⟩
  · cases hroot : (j.generated b).root with
    | none => exact .inl ⟨rfl, generate_gaveUp hroot⟩
    | some root =>
      obtain ⟨fs, last, hfs, hlast, hid, hperm⟩ := generate_ids hroot
      exact .inr ⟨fs, last, hfs, congrArg some hid.symm, hlast, hperm⟩

theorem answered (h : Collected given b) : Answered given b (j.generated b).host :=
  (Answered.start h _).generate _ _

variable {b}

/-- The functions of a unit have other ids than those before them. -/
theorem made_distinct (h : Collected given b)
    (hids : given + (j.generated b).host.ids.length ≤ 2 ^ 64) :
    ((b.program.functions ++ j.made b).map (·.id)).Nodup ∧
      ∀ f ∈ j.made b, f.id.toNat < given + (j.generated b).host.ids.length := by
  obtain ⟨hnodup, hfresh⟩ := (j.answered b h).fresh hids
  rcases j.made_cases b with ⟨-, hmade⟩ | ⟨-, -, -, -, -, hperm⟩
  · rw [hmade, List.append_nil]
    exact ⟨h.distinct, nofun⟩
  · have hmem {f : CompiledFunction} (hf : f ∈ j.made b) : f.id ∈ (j.generated b).host.ids :=
      hperm.mem_iff.mp (List.mem_map_of_mem hf)
    refine ⟨?_, fun f hf => (hfresh f.id (hmem hf)).2⟩
    rw [List.map_append]
    refine List.nodup_append.mpr ⟨h.distinct, hperm.nodup_iff.mpr hnodup, ?_⟩
    intro id hold id' hnew heq
    obtain ⟨f, hf, rfl⟩ := List.mem_map.mp hold
    obtain ⟨f', hf', rfl⟩ := List.mem_map.mp hnew
    have hbelow := h.below f hf
    have habove := (hfresh f'.id (hmem hf')).1
    rw [heq] at hbelow
    exact Nat.not_lt.mpr habove hbelow

/-- No function of a unit is refused. -/
theorem handOver_generated (h : Collected given b)
    (hids : given + (j.generated b).host.ids.length ≤ 2 ^ 64) :
    (handOver j.options (j.generated b)).1 = none ∧
      (handOver j.options (j.generated b)).2.host =
        { (j.generated b).host.host with program := { (j.generated b).host.host.program with
          functions := b.program.functions ++ j.made b
          root := (j.root? b).or b.program.root } } := by
  have hanswered := j.answered b h
  have hdistinct := (j.made_distinct h hids).1
  have hcases := j.made_cases b
  -- a unit that adds nothing leaves functions and root as they were
  have hsame : (j.generated b).host.host = { (j.generated b).host.host with
      program := { (j.generated b).host.host.program with
        functions := b.program.functions ++ []
        root := (none : Option UInt64).or b.program.root } } := by
    rw [List.append_nil, Option.none_or, ← hanswered.functions, ← hanswered.root]
  rw [handOver]
  by_cases hfails : Compiler.fails j.options (j.generated b).reports = true
  · rw [if_pos hfails, made, root?, if_pos hfails, if_pos hfails]
    exact ⟨rfl, hsame⟩
  rw [if_neg hfails]
  obtain ⟨hrefused, hhost⟩ := (j.generated b).host.deliverAll_host (j.generated b).functions
  have hmade : j.made b = (j.generated b).functions := if_neg hfails
  rw [hrefused, hhost, ← hmade]
  rcases hcases with ⟨hroot, hnone⟩ | ⟨fs, last, hfs, hroot, hlast, -⟩
  · rw [hroot, hnone]
    exact ⟨rfl, hsame⟩
  · rw [hroot, hfs]
    rw [hfs, ← hanswered.functions] at hdistinct
    rw [deliverAll_root hdistinct hlast, hanswered.functions]
    exact ⟨rfl, rfl⟩

/-- The builder behind a unit has its functions, and its root if there is one. -/
theorem builder_eq (h : Collected given b)
    (hids : given + (j.generated b).host.ids.length ≤ 2 ^ 64) :
    ∃ errors, j.builder c b =
      { (j.generated b).host.host with program := { (j.generated b).host.host.program with
        functions := b.program.functions ++ j.made b
        root := (j.root? b).or b.program.root
        errors } } := by
  obtain ⟨-, errors, hended⟩ := compile_eq { c with options := j.options } j.unit
    ({ host := b } : Watched ProgramBuilder)
  have hbuilder : j.builder c b =
      Host.ended errors (handOver j.options (j.generated b)).2.host :=
    congrArg Watched.host hended
  rw [(j.handOver_generated h hids).2] at hbuilder
  exact ⟨errors, hbuilder⟩

/-- The builder behind a unit has given out the ids that the unit has asked for. -/
theorem collected_builder (h : Collected given b)
    (hids : given + (j.generated b).host.ids.length ≤ 2 ^ 64) :
    Collected (given + (j.generated b).host.ids.length) (j.builder c b) := by
  have hanswered := j.answered b h
  obtain ⟨hdistinct, hbelow⟩ := j.made_distinct h hids
  obtain ⟨errors, hbuilder⟩ := j.builder_eq c h hids
  rw [hbuilder]
  refine ⟨hanswered.next, fun f hf => ?_, hdistinct, hanswered.sound.1, hanswered.sound.2,
    fun root hroot => ?_⟩
  · rcases List.mem_append.mp hf with hf | hf
    · exact Nat.lt_of_lt_of_le (h.below f hf) (Nat.le_add_right _ _)
    · exact hbelow f hf
  · change (j.root? b).or b.program.root = some root at hroot
    rcases j.made_cases b with ⟨hnone, -⟩ | ⟨fs, last, hmade, hsome, hlast, -⟩
    · rw [hnone, Option.none_or] at hroot
      obtain ⟨f, hf, hfound⟩ := h.root root hroot
      exact ⟨f, List.mem_append_left _ hf, hfound⟩
    · rw [hsome, Option.some_or] at hroot
      exact ⟨last, by simp [hmade], Option.some.inj hroot, hlast⟩

/-- The texts of a unit are listed behind it. -/
theorem listed_builder (h : Collected given b)
    (hids : given + (j.generated b).host.ids.length ≤ 2 ^ 64) :
    ∀ q ∈ (j.outcome c b).calls, q.Listed (j.builder c b) := by
  obtain ⟨questions, fs, hcalls, hasked, -⟩ :=
    compile_calls { c with options := j.options } j.unit b
  obtain ⟨errors, hbuilder⟩ := j.builder_eq c h hids
  change (j.outcome c b).calls = _ at hcalls
  intro q hq
  rw [hcalls, ← hasked] at hq
  rcases List.mem_append.mp hq with hq | hq
  · rcases List.mem_append.mp hq with hq | hq
    · rw [hbuilder]
      exact ((j.answered b h).listed q hq).mono (Interner.extends_refl _)
        (Interner.extends_refl _)
    · obtain ⟨f, -, rfl⟩ := List.mem_map.mp hq
      trivial
  · rw [List.mem_singleton.mp hq]
    trivial

/-- The ids are asked for while the unit is generated. -/
theorem outcome_ids : (j.outcome c b).ids = (j.generated b).host.ids := by
  obtain ⟨questions, given, hcalls, hasked, -⟩ :=
    compile_calls { c with options := j.options } j.unit b
  change (j.outcome c b).calls = _ at hcalls
  change (j.generated b).host.calls = _ at hasked
  have hdelivers : (given.map Call.deliver).filterMap Call.id? = [] := by
    refine List.filterMap_eq_nil_iff.mpr fun q hq => ?_
    obtain ⟨f, -, rfl⟩ := List.mem_map.mp hq
    rfl
  rw [Outcome.ids, Watched.ids, hcalls, hasked, List.filterMap_append, List.filterMap_append,
    hdelivers, List.append_nil]
  exact List.append_nil _

/-- What a unit hands over, if nothing is refused. -/
theorem outcome_handed (hrefused : (handOver j.options (j.generated b)).1 = none) :
    (j.outcome c b).handed = j.made b := by
  obtain ⟨questions, given, hcalls, -, hquestions, -, hnone, hall⟩ :=
    compile_calls { c with options := j.options } j.unit b
  change (j.outcome c b).calls = _ at hcalls
  have hgiven : given = j.made b := by
    rw [made]
    split
    · exact hnone ‹_›
    · exact hall (Bool.of_not_eq_true ‹_›) hrefused
  have hasks : questions.filterMap Call.function? = [] := by
    refine List.filterMap_eq_nil_iff.mpr fun q hq => ?_
    have hquestion := hquestions q hq
    cases q with
    | deliver f => cases hquestion
    | _ => rfl
  have hhanded : (given.map Call.deliver).filterMap Call.function? = given := by
    rw [List.filterMap_map]
    exact List.filterMap_some
  rw [Outcome.handed, hcalls, List.filterMap_append, List.filterMap_append, List.filterMap_cons,
    hhanded, ← hgiven]
  simp only [Call.function?, hasks, List.nil_append]
  exact List.append_nil _

/-- The answer of a unit and the reports on it, if nothing is refused. -/
theorem outcome_answer (hrefused : (handOver j.options (j.generated b)).1 = none) :
    (j.outcome c b).root? = j.root? b ∧ (j.outcome c b).reports = (j.generated b).reports ∧
      ((j.outcome c b).root? = none → (j.outcome c b).held = []) := by
  have hverdict := (compile_eq { c with options := j.options } j.unit
    ({ host := b } : Watched ProgramBuilder)).1
  change ((j.outcome c b).answer, (j.outcome c b).held) =
    verdict j.options (j.generated b) (handOver j.options (j.generated b)).1 at hverdict
  rw [hrefused, verdict, Option.toList_none, List.append_nil, Option.isSome_none,
    Bool.or_false] at hverdict
  rw [Outcome.root?, Outcome.reports, root?]
  cases hroot : (j.generated b).root with
  | none =>
    rw [hroot] at hverdict
    have hanswer : (j.outcome c b).answer = .error _ := congrArg Prod.fst hverdict
    rw [hanswer, ite_self]
    exact ⟨rfl, rfl, fun _ => congrArg Prod.snd hverdict⟩
  | some root =>
    simp only [hroot] at hverdict
    split at hverdict
    · have hanswer : (j.outcome c b).answer = .error _ := congrArg Prod.fst hverdict
      rw [hanswer, if_pos ‹_›]
      exact ⟨rfl, rfl, fun _ => congrArg Prod.snd hverdict⟩
    · have hanswer : (j.outcome c b).answer = .ok root := congrArg Prod.fst hverdict
      have hheld : (j.outcome c b).held = _ := congrArg Prod.snd hverdict
      rw [hanswer, hheld, if_neg ‹_›]
      exact ⟨rfl, rfl, fun hnone => absurd hnone (Option.some_ne_none root)⟩

/-- What comes of a unit does not depend on the builder, except for the ids. -/
theorem generated_alike (b b' : ProgramBuilder) :
    (j.generated b).host.ids.length = (j.generated b').host.ids.length ∧
      (j.generated b).reports = (j.generated b').reports ∧
      (j.root? b).isSome = (j.root? b').isSome := by
  have hH : Indifferent fun w w' : Watched ProgramBuilder => w.ids.length = w'.ids.length := by
    constructor
    · intro w w' h
      rw [Watched.ids_functionId, Watched.ids_functionId, List.length_append, List.length_append,
        h, List.length_singleton, List.length_singleton]
    · intro w w' name h
      rwa [Watched.ids_symbolId, Watched.ids_symbolId]
    · intro w w' text h
      rwa [Watched.ids_stringId, Watched.ids_stringId]
  have hstart : (Host.started j.options.debug ({ host := b } : Watched ProgramBuilder)).ids.length =
      (Host.started j.options.debug ({ host := b' } : Watched ProgramBuilder)).ids.length := rfl
  obtain ⟨hids, hreports, hroot⟩ := generate_parallel hH j.options j.unit hstart
  change (j.generated b).reports = (j.generated b').reports at hreports
  refine ⟨hids, hreports, ?_⟩
  rw [root?, root?, hreports]
  split
  · rfl
  · exact hroot

end Job

/-- A unit with the reports and the verdict that it gets alone; a failed one hands over nothing. -/
structure Job.Apart (j : Job) (o : Outcome) : Prop where
  reports : o.reports = j.alone.reports
  compiles : o.root?.isSome = j.alone.root?.isSome
  failed : o.root? = none → o.handed = [] ∧ o.held = []

/-- What units come to with a builder that has given out `given` function ids. -/
structure Gathers (given : Nat) (b : ProgramBuilder) (jobs : List Job) (outcomes : List Outcome)
    (b' : ProgramBuilder) : Prop where
  collected : Collected (given + (outcomes.flatMap Outcome.ids).length) b'
  functions : b'.program.functions = b.program.functions ++ outcomes.flatMap Outcome.handed
  root : b'.program.root = (outcomes.filterMap Outcome.root?).getLast?.or b.program.root
  symbols : b.symbols.Extends b'.symbols
  strings : b.strings.Extends b'.strings
  listed : ∀ o ∈ outcomes, ∀ q ∈ o.calls, q.Listed b'
  apart : List.Forall₂ Job.Apart jobs outcomes

namespace Gathers

variable {given : Nat} {b b' b'' : ProgramBuilder}

theorem nil (h : Collected given b) : Gathers given b [] [] b where
  collected := h
  functions := (List.append_nil _).symm
  root := rfl
  symbols := b.symbols.extends_refl
  strings := b.strings.extends_refl
  listed := nofun
  apart := .nil

theorem append {jobs jobs' : List Job} {outcomes outcomes' : List Outcome}
    (h : Gathers given b jobs outcomes b')
    (h' : Gathers (given + (outcomes.flatMap Outcome.ids).length) b' jobs' outcomes' b'') :
    Gathers given b (jobs ++ jobs') (outcomes ++ outcomes') b'' where
  collected := by
    rw [List.flatMap_append, List.length_append, ← Nat.add_assoc]
    exact h'.collected
  functions := by rw [h'.functions, h.functions, List.flatMap_append, List.append_assoc]
  root := by
    rw [h'.root, h.root, List.filterMap_append, List.getLast?_append, Option.or_assoc]
  symbols := h.symbols.trans h'.symbols
  strings := h.strings.trans h'.strings
  listed o ho q hq := by
    rcases List.mem_append.mp ho with ho | ho
    · exact (h.listed o ho q hq).mono h'.symbols h'.strings
    · exact h'.listed o ho q hq
  apart := List.rel_append h.apart h'.apart

end Gathers

/-- The reports on a unit and the verdict are those with a builder that has given out nothing. -/
theorem Job.apart (j : Job) (c : Compiler) {given : Nat} {b : ProgramBuilder}
    (h : Collected given b) (hids : given + (j.generated b).host.ids.length ≤ 2 ^ 64) :
    j.Apart (j.outcome c b) := by
  have hrefused := (j.handOver_generated h hids).1
  obtain ⟨hroot, hreports, hheld⟩ := j.outcome_answer c hrefused
  obtain ⟨hlength, hsame, hsome⟩ := j.generated_alike b {}
  have halone := (j.handOver_generated (collected_empty none) (by omega)).1
  obtain ⟨hroot', hreports', -⟩ := j.outcome_answer { options := j.options } halone
  refine ⟨?_, ?_, fun hnone => ⟨?_, hheld hnone⟩⟩
  · rw [alone, hreports, hreports', hsame]
  · rw [alone, hroot, hroot', hsome]
  · rw [j.outcome_handed c hrefused]
    rcases j.made_cases b with ⟨-, hmade⟩ | ⟨fs, last, -, hmade, -⟩
    · exact hmade
    · rw [hroot, hmade] at hnone
      cases hnone

/-- A unit with a builder that has ids for all its functions. -/
theorem Job.gathers (j : Job) (c : Compiler) {given : Nat} {b : ProgramBuilder}
    (h : Collected given b) (hids : given + (j.outcome c b).ids.length ≤ 2 ^ 64) :
    Gathers given b [j] [j.outcome c b] (j.builder c b) := by
  rw [j.outcome_ids c] at hids
  have hanswered := j.answered b h
  have hrefused := (j.handOver_generated h hids).1
  obtain ⟨errors, hbuilder⟩ := j.builder_eq c h hids
  constructor
  case collected =>
    rw [List.flatMap_singleton, j.outcome_ids c]
    exact j.collected_builder c h hids
  case functions => rw [hbuilder, List.flatMap_singleton, j.outcome_handed c hrefused]
  case root =>
    rw [hbuilder, List.filterMap_cons, (j.outcome_answer c hrefused).1]
    cases j.root? b <;> rfl
  case symbols =>
    rw [hbuilder]
    exact hanswered.symbols
  case strings =>
    rw [hbuilder]
    exact hanswered.strings
  case listed =>
    intro o ho
    rw [List.mem_singleton.mp ho]
    exact j.listed_builder c h hids
  case apart => exact .cons (j.apart c h hids) .nil

/-- Units one after the other. -/
theorem compileAll_gathers (c : Compiler) {given : Nat} {b : ProgramBuilder} (jobs : List Job)
    (h : Collected given b)
    (hids : given + ((compileAll c b jobs).1.flatMap Outcome.ids).length ≤ 2 ^ 64) :
    Gathers given b jobs (compileAll c b jobs).1 (compileAll c b jobs).2 := by
  induction jobs generalizing c given b with
  | nil => exact .nil h
  | cons j rest ih =>
    rw [compileAll, List.flatMap_cons, List.length_append] at hids
    have hfirst := j.gathers c h (by omega)
    have hlength : ([j.outcome c b].flatMap Outcome.ids).length = (j.outcome c b).ids.length := by
      rw [List.flatMap_singleton]
    exact hfirst.append (ih (j.compiler c b) hfirst.collected (by omega))

/-- The root of a collected program is found, and it is a root. -/
theorem Collected.rootFunction? {given : Nat} {b : ProgramBuilder} (h : Collected given b)
    {root : UInt64} (hroot : b.program.root = some root) :
    ∃ f, b.finish.rootFunction? = some f ∧ f.id = root ∧ f.root = true := by
  obtain ⟨f, hf, hid, hflag⟩ := h.root root hroot
  have hfind : ∃ g, b.program.functions.find? (·.id = root) = some g :=
    Option.isSome_iff_exists.mp (List.find?_isSome.mpr ⟨f, hf, decide_eq_true hid⟩)
  obtain ⟨g, hg⟩ := hfind
  have hgid : g.id = root := by simpa using List.find?_some hg
  obtain rfl : g = f :=
    List.inj_on_of_nodup_map h.distinct (List.mem_of_find?_eq_some hg) hf (hgid.trans hid.symm)
  refine ⟨g, ?_, hid, hflag⟩
  show b.program.root.bind _ = _
  rw [hroot]
  exact hg

/--
Units compiled with one compiler and one builder share a program. All functions that are handed
over are in it, in order, and no two of them have the same id. Its root is that of the last unit
that compiled, and is found. A failed unit hands over nothing. What a unit has asked an id for has
that id in the program, and the reports on a unit are those that it gets alone.
-/
theorem units_share_program (c : Compiler) (source : Option PendingSource) (jobs : List Job) :
    let outcomes := (compileAll c { pending := source } jobs).1
    let p := (compileAll c { pending := source } jobs).2.finish
    (outcomes.flatMap Outcome.ids).length ≤ 2 ^ 64 → p.symbols.length ≤ 2 ^ 64 →
      p.strings.length ≤ 2 ^ 64 →
    p.functions = outcomes.flatMap Outcome.handed ∧ (p.functions.map (·.id)).Nodup ∧
      p.root = (outcomes.filterMap Outcome.root?).getLast? ∧
      (∀ root, p.root = some root →
        ∃ f, p.rootFunction? = some f ∧ f.id = root ∧ f.root = true) ∧
      (∀ o ∈ outcomes, (∀ name id, .symbolId name id ∈ o.calls → p.symbol? id = some name) ∧
        ∀ text id, .stringId text id ∈ o.calls → p.string? id = some text) ∧
      List.Forall₂ Job.Apart jobs outcomes := by
  intro outcomes p hids hsymbols hstrings
  have hgathers := compileAll_gathers c jobs (collected_empty source) (by rwa [Nat.zero_add])
  refine ⟨hgathers.functions, hgathers.collected.distinct, ?_, fun root hroot => ?_,
    fun o ho => ⟨fun name id hq => ?_, fun text id hq => ?_⟩, hgathers.apart⟩
  · exact hgathers.root.trans (Option.or_none)
  · exact hgathers.collected.rootFunction? hroot
  · exact Interner.Lists.getElem?_id (hgathers.listed o ho _ hq) hsymbols
  · exact Interner.Lists.getElem?_id (hgathers.listed o ho _ hq) hstrings

open Node.Build in
/-- A unit with a warning, twice, the second time as an error; one that breaks out of nothing. -/
def mixedJobs : List Job :=
  let warned := block [.declaration {} .local "stock", .declaration {} .global "stock",
    assign (ident "sell") (function ["item"] [.ret {} (some (dot (ident "item") "price"))])]
  let broken := block [
    assign (ident "greet") (function [] [assign (ident "text") (str "welcome")]), .breakLoop {}]
  let last := block [statement (call (ident "greet") [str "goodbye", dot (ident "shop") "price"])]
  [{ options := {}, unit := warned, takes := false },
    { options := { denyWarnings := true }, unit := warned },
    { options := {}, unit := broken },
    { options := { debug := true }, unit := last }]

theorem units_share_program_mixed :
    let outcomes := (compileAll { options := {} } {} mixedJobs).1
    let p := (compileAll { options := {} } {} mixedJobs).2.finish
    outcomes.map Outcome.root? = [some 0, none, none, some 6] ∧ p.root = some 6 ∧
      p.functions = outcomes.flatMap Outcome.handed ∧ p.functions.map (·.id) = [1, 0, 6] ∧
      p.symbols = ["price", "greet", "shop"] ∧ p.strings = ["welcome", "goodbye"] ∧
      (∀ o ∈ outcomes, (∀ name id, .symbolId name id ∈ o.calls → p.symbol? id = some name) ∧
        ∀ text id, .stringId text id ∈ o.calls → p.string? id = some text) ∧
      List.Forall₂ Job.Apart mixedJobs outcomes := by
  intro outcomes p
  have hroots : outcomes.map Outcome.root? = [some 0, none, none, some 6] := by decide +kernel
  have hids : (outcomes.flatMap Outcome.ids).length ≤ 2 ^ 64 := by decide +kernel
  have hfunctions : p.functions.map (·.id) = [1, 0, 6] := by decide +kernel
  have hsymbols : p.symbols = ["price", "greet", "shop"] := by decide +kernel
  have hstrings : p.strings = ["welcome", "goodbye"] := by decide +kernel
  obtain ⟨hhanded, -, hroot, -, hnamed, hapart⟩ := units_share_program { options := {} } none
    mixedJobs hids (by rw [hsymbols]; decide) (by rw [hstrings]; decide)
  have hlast : p.root = some 6 := by
    have hlast := congrArg (fun roots => (roots.filterMap id).getLast?) hroots
    rw [List.filterMap_map] at hlast
    exact hroot.trans hlast
  exact ⟨hroots, hlast, hhanded, hfunctions, hsymbols, hstrings, hnamed, hapart⟩

end ScriptToolchain.Compile
