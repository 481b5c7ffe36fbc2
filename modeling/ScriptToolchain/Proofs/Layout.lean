import ScriptToolchain.Proofs.Block

/-!
# Laying out a block

The directives of a block are carried out on any draft whose next label is the
one that they count from: every label is open when it gets its target, and what
is left open are the jumps out of the block. A closed block therefore always
makes a function, and below the largest address the code of that function is
the placed block.
-/

namespace ScriptToolchain

namespace Draft

variable {d : Draft}

theorem isOpen_lt {label : Nat} (h : d.labels.IsOpen label) : label < d.labels.size := by
  obtain ⟨a, ha⟩ := h
  by_contra hge
  rw [Array.getElem?_eq_none (Nat.not_lt.mp hge)] at ha
  cases ha

/-- What a run of directives does to the labels: it gives out `count` and leaves `left` open. -/
def Labels (d d' : Draft) (count : Nat) (left : List Nat) : Prop :=
  d'.labels.size = d.labels.size + count ∧
    ∀ k, d'.labels.IsOpen k ↔ d.labels.IsOpen k ∨ k ∈ left

theorem labels_refl (d : Draft) : d.Labels d 0 [] :=
  ⟨rfl, fun k => by simp⟩

theorem Labels.trans {d₁ d₂ d₃ : Draft} {m n : Nat} {xs ys : List Nat}
    (h : d₁.Labels d₂ m xs) (h' : d₂.Labels d₃ n ys) : d₁.Labels d₃ (m + n) (xs ++ ys) := by
  refine ⟨by rw [h'.1, h.1, Nat.add_assoc], fun k => ?_⟩
  rw [h'.2, h.2, List.mem_append, or_assoc]

theorem labels_emit (d : Draft) (op : Opcode) (x : Operand) : d.Labels (d.emit op x) 0 [] := by
  have h : (d.emit op x).labels = d.labels := by rw [Draft.emit]
  rw [Labels, h]
  exact d.labels_refl

theorem labels_line (d : Draft) (n : UInt32) : d.Labels (d.markLine n) 0 [] := by
  rw [Labels, labels_markLine]
  exact d.labels_refl

theorem labels_branch (d : Draft) (op : Opcode) :
    d.Labels (d.reserve op) 1 [d.labels.size] := by
  rw [Labels, labels_reserve]
  refine ⟨?_, fun k => ?_⟩
  · rw [LabelTable.size, LabelTable.reserve_labels, Array.size_push, LabelTable.size]
  · rw [LabelTable.isOpen_reserve, List.mem_singleton]

/-- Open labels, each named once, can all be resolved. -/
theorem takes_resolves {labels : List Nat} (hnodup : labels.Nodup)
    (hopen : ∀ k ∈ labels, d.labels.IsOpen k) (t : UInt32) :
    ∃ d', d.Takes (labels.map (.resolve · t)) d' ∧ d'.labels.size = d.labels.size ∧
      ∀ k, d'.labels.IsOpen k ↔ d.labels.IsOpen k ∧ k ∉ labels := by
  induction labels generalizing d with
  | nil => exact ⟨d, takes_nil.mpr rfl, rfl, fun k => by simp⟩
  | cons label rest ih =>
    obtain ⟨hnew, hrest⟩ := List.nodup_cons.mp hnodup
    obtain ⟨a, ha⟩ := hopen label (List.mem_cons_self ..)
    have hclosed := isOpen_closed d label a t
    obtain ⟨d', hd', hsize, hleft⟩ := ih (d := d.closed label a t) hrest fun k hk =>
      (hclosed k).mpr ⟨hopen k (List.mem_cons_of_mem _ hk), by rintro rfl; exact hnew hk⟩
    refine ⟨d', takes_cons.mpr ⟨_, apply_resolve ha t, hd'⟩, ?_, fun k => ?_⟩
    · rw [hsize, LabelTable.size, Draft.closed, Array.size_setIfInBounds, LabelTable.size]
    · rw [hleft, hclosed, List.mem_cons, not_or, and_assoc]

/-- Labels that a run left open, each named once, can all be resolved behind it. -/
theorem Labels.resolve {m : Draft} {count : Nat} {labels left : List Nat}
    (h : d.Labels m count (labels ++ left)) (hnodup : labels.Nodup)
    (hnew : ∀ k ∈ labels, d.labels.size ≤ k) (hleft : ∀ k ∈ labels, k ∉ left) (t : UInt32) :
    ∃ d', m.Takes (labels.map (.resolve · t)) d' ∧ d.Labels d' count left := by
  obtain ⟨d', hd, hsize, hopen⟩ := takes_resolves hnodup
    (fun k hk => (h.2 k).mpr (.inr (List.mem_append_left _ hk))) t
  refine ⟨d', hd, hsize.trans h.1, fun k => ?_⟩
  rw [hopen, h.2, List.mem_append]
  constructor
  · rintro ⟨hk | hk | hk, hne⟩
    · exact .inl hk
    · exact absurd hk hne
    · exact .inr hk
  · rintro (hk | hk)
    · exact ⟨.inl hk, fun hmem => Nat.not_lt.mpr (hnew k hmem) (isOpen_lt hk)⟩
    · exact ⟨.inr (.inr hk), fun hmem => hleft k hmem hk⟩

/-- The labels in another order. -/
theorem Labels.perm {m : Draft} {count : Nat} {xs : List Nat} (ys : List Nat)
    (h : d.Labels m count xs) (hmem : ∀ k, k ∈ xs ↔ k ∈ ys) : d.Labels m count ys :=
  ⟨h.1, fun k => by rw [h.2, hmem]⟩

end Draft

namespace Compile

open Draft

namespace Block

/-- All labels of the jumps that leave a block. -/
def exits (n : Nat) (b : Block) : List Nat :=
  b.jumps .breakLoop n ++ b.jumps .continueLoop n

theorem mem_exits {b : Block} {n k : Nat} (h : k ∈ b.exits n) : n ≤ k ∧ k < n + b.labels :=
  (List.mem_append.mp h).elim mem_jumps mem_jumps

/-- The directives of the block are carried out on every draft; the jumps of the block stay open. -/
def Drawn (b : Block) : Prop :=
  ∀ ⦃d : Draft⦄ ⦃n : Nat⦄, d.labels.size = n → ∀ start,
    ∃ d', d.Takes (b.directives start n) d' ∧ d.Labels d' b.labels (b.exits n)

theorem drawn_jump (op : Opcode) (j : Jump) : Drawn (.jump op j) := by
  rintro d n rfl start
  refine ⟨d.reserve op, takes_cons.mpr ⟨_, rfl, takes_nil.mpr rfl⟩, ?_⟩
  have h := d.labels_branch op
  cases j <;> exact h

theorem Drawn.seq {a b : Block} (ha : Drawn a) (hb : Drawn b) : Drawn (.seq a b) := by
  intro d n hn start
  obtain ⟨m, hm, hla⟩ := ha hn start
  obtain ⟨d', hd', hlb⟩ := hb (hla.1.trans (by rw [hn])) (start + a.size)
  refine ⟨d', takes_append.mpr ⟨m, hm, hd'⟩, (hla.trans hlb).perm _ fun k => ?_⟩
  simp only [exits, jumps, List.mem_append]
  tauto

theorem Drawn.skip {op : Opcode} {body : Block} (hbody : Drawn body) : Drawn (.skip op body) := by
  intro d n hn start
  have hbranch := d.labels_branch op
  rw [hn] at hbranch
  obtain ⟨m, hm, hinside⟩ := hbody (hbranch.1.trans (by rw [hn])) (start + branchSize)
  have hapart : ∀ k ∈ [n], k ∉ body.exits (n + 1) := fun k hk hmem => by
    have hexit := (mem_exits hmem).1
    have hlabel := List.mem_singleton.mp hk
    omega
  obtain ⟨d', hd', hlabels⟩ := (hbranch.trans hinside).resolve (List.nodup_singleton n)
    (by simp [hn]) hapart (saturate32 (start + branchSize + body.size))
  exact ⟨d', takes_cons.mpr ⟨_, rfl, takes_append.mpr ⟨m, hm, hd'⟩⟩, hlabels⟩

theorem Drawn.either {yes no : Block} (hyes : Drawn yes) (hno : Drawn no) :
    Drawn (.either yes no) := by
  intro d n hn start
  have hbranch := d.labels_branch .branchZero
  rw [hn] at hbranch
  obtain ⟨m₁, hm₁, hthen⟩ := hyes (hbranch.1.trans (by rw [hn])) (start + branchSize)
  have hboth := hbranch.trans hthen
  have hjump := m₁.labels_branch .branch
  rw [hboth.1, hn, ← Nat.add_assoc] at hjump
  -- the label of the first branch gets its target before the other part is written
  have hapart : ∀ k ∈ [n], k ∉ yes.exits (n + 1) ++ [n + 1 + yes.labels] := fun k hk hmem => by
    have hlabel := List.mem_singleton.mp hk
    rcases List.mem_append.mp hmem with h | h
    · have hexit := (mem_exits h).1
      omega
    · have hover := List.mem_singleton.mp h
      omega
  obtain ⟨m₂, hm₂, hfirst⟩ := ((hboth.trans hjump).perm
    ([n] ++ (yes.exits (n + 1) ++ [n + 1 + yes.labels])) fun k => by
      simp only [List.mem_append]; tauto).resolve (List.nodup_singleton n) (by simp [hn]) hapart
    (saturate32 (start + branchSize + yes.size + branchSize))
  obtain ⟨m₃, hm₃, hother⟩ := @hno m₂ (n + 1 + yes.labels + 1)
    (hfirst.1.trans (by rw [hn]; omega)) (start + branchSize + yes.size + branchSize)
  -- that of the second one behind both parts
  have hapart₂ : ∀ k ∈ [n + 1 + yes.labels],
      k ∉ yes.exits (n + 1) ++ no.exits (n + 1 + yes.labels + 1) := fun k hk hmem => by
    have hlabel := List.mem_singleton.mp hk
    rcases List.mem_append.mp hmem with h | h
    · have hexit := (mem_exits h).2
      omega
    · have hexit := (mem_exits h).1
      omega
  obtain ⟨d', hd', hlabels⟩ := ((hfirst.trans hother).perm ([n + 1 + yes.labels] ++
    (yes.exits (n + 1) ++ no.exits (n + 1 + yes.labels + 1))) fun k => by
      simp only [List.mem_append]; tauto).resolve (List.nodup_singleton _)
    (by simp [hn, Nat.add_assoc]) hapart₂
    (saturate32 (start + branchSize + yes.size + branchSize + no.size))
  refine ⟨d', takes_cons.mpr ⟨_, rfl, takes_append.mpr ⟨m₁, hm₁, takes_cons.mpr ⟨_, rfl,
    takes_append.mpr ⟨m₂, hm₂, takes_append.mpr ⟨m₃, hm₃, hd'⟩⟩⟩⟩⟩, ?_⟩
  have hcount : d'.labels.size = d.labels.size + labels (.either yes no) := by
    rw [hlabels.1, labels]
    omega
  refine Draft.Labels.perm _ ⟨hcount, hlabels.2⟩ fun k => ?_
  simp only [exits, jumps, List.mem_append]
  tauto

theorem Drawn.loop {body tail : Block} {back : Opcode} {resume : Resume} (hbody : Drawn body)
    (htail : Drawn tail) : Drawn (.loop body tail back resume) := by
  intro d n hn start
  obtain ⟨m₁, hm₁, hround⟩ := hbody hn start
  obtain ⟨m₂, hm₂, hrest⟩ := htail (hround.1.trans (by rw [hn])) (start + body.size)
  have hback := m₂.labels_emit back (.word (saturate32 start).toUInt64)
  have hall := (hround.trans hrest).trans hback
  have hnodup := List.nodup_append.mp (nodup_jumps body n)
  have hapart : ∀ k ∈ body.exits n, k ∉ tail.exits (n + body.labels) := fun k hk hk' => by
    have hexit := (mem_exits hk).2
    have hexit' := (mem_exits hk').1
    omega
  have hnew : ∀ k ∈ body.exits n, d.labels.size ≤ k := fun k hk => by
    rw [hn]
    exact (mem_exits hk).1
  -- the jumps out of the body get their targets first, then those to the next round
  obtain ⟨m₃, hm₃, hbreaks⟩ := (hall.perm (body.jumps .breakLoop n ++
      (body.jumps .continueLoop n ++ tail.exits (n + body.labels))) fun k => by
        simp only [exits, List.mem_append, List.not_mem_nil, or_false]; tauto).resolve hnodup.1
    (fun k hk => hnew k (List.mem_append_left _ hk))
    (fun k hk hmem => by
      rcases List.mem_append.mp hmem with h | h
      · exact hnodup.2.2 k hk k h rfl
      · exact hapart k (List.mem_append_left _ hk) h)
    (saturate32 (start + body.size + tail.size + branchSize))
  obtain ⟨d', hd', hlabels⟩ := hbreaks.resolve hnodup.2.1
    (fun k hk => hnew k (List.mem_append_right _ hk))
    (fun k hk => hapart k (List.mem_append_right _ hk))
    (saturate32 (resume.address start (start + body.size)))
  exact ⟨d', takes_append.mpr ⟨m₁, hm₁, takes_append.mpr ⟨m₂, hm₂, takes_cons.mpr ⟨_, rfl,
    takes_append.mpr ⟨m₃, hm₃, hd'⟩⟩⟩⟩, hlabels⟩

theorem drawn (b : Block) : Drawn b := by
  induction b with
  | empty => exact fun d n _ _ => ⟨d, takes_nil.mpr rfl, d.labels_refl⟩
  | instr op x =>
    exact fun d n _ _ =>
      ⟨d.emit op x, takes_cons.mpr ⟨_, rfl, takes_nil.mpr rfl⟩, d.labels_emit op x⟩
  | mark line =>
    exact fun d n _ _ =>
      ⟨d.markLine line, takes_cons.mpr ⟨_, rfl, takes_nil.mpr rfl⟩, d.labels_line line⟩
  | jump op j => exact drawn_jump op j
  | seq a b iha ihb => exact iha.seq ihb
  | skip op body ih => exact ih.skip
  | either yes no ihy ihn => exact ihy.either ihn
  | loop body tail back resume ihb iht => exact ihb.loop iht

/-- The block without its marks. -/
def unmark : Block → Block
  | .empty | .mark _ => .empty
  | .instr op x => .instr op x
  | .seq a b => .seq a.unmark b.unmark
  | .skip op body => .skip op body.unmark
  | .either yes no => .either yes.unmark no.unmark
  | .loop body tail back resume => .loop body.unmark tail.unmark back resume
  | .jump op j => .jump op j

/-- The block as a build shows it: only a debug build has marks. -/
def shown (debug : Bool) (b : Block) : Block :=
  if debug then b else b.unmark

/-- The number of bytes that both builds have. -/
def weight (b : Block) : Nat :=
  b.unmark.size

theorem weight_empty : empty.weight = 0 :=
  rfl

theorem weight_seq (a b : Block) : (seq a b).weight = a.weight + b.weight :=
  rfl

theorem weight_skip (op : Opcode) (b : Block) : (skip op b).weight = branchSize + b.weight :=
  rfl

theorem weight_either (a b : Block) :
    (either a b).weight = branchSize + a.weight + (branchSize + b.weight) :=
  rfl

theorem weight_loop (a b : Block) (back : Opcode) (resume : Resume) :
    (loop a b back resume).weight = a.weight + b.weight + branchSize :=
  rfl

theorem weight_le_size (b : Block) : b.weight ≤ b.size := by
  induction b with
  | empty | instr | jump => exact Nat.le_refl _
  | mark => exact Nat.zero_le _
  | seq a b iha ihb =>
    rw [weight_seq, size]
    omega
  | skip op body ih =>
    rw [weight_skip, size]
    omega
  | either yes no ihy ihn =>
    rw [weight_either, size]
    omega
  | loop body tail back resume ihb iht =>
    rw [weight_loop, size]
    omega

theorem weight_le_shown (b : Block) (debug : Bool) : b.weight ≤ (b.shown debug).size := by
  cases debug with
  | true => exact b.weight_le_size
  | false => exact Nat.le_refl _

theorem Closed.unmark {b : Block} (h : b.Closed) : b.unmark.Closed := by
  induction b with
  | empty | instr | mark => trivial
  | jump => exact h.elim
  | seq a b iha ihb => exact ⟨iha h.1, ihb h.2⟩
  | skip op body ih => exact ih h
  | either yes no ihy ihn => exact ⟨ihy h.1, ihn h.2⟩
  | loop body tail back resume _ iht => exact iht h

theorem Closed.shown {b : Block} (h : b.Closed) (debug : Bool) : (b.shown debug).Closed := by
  cases debug with
  | true => exact h
  | false => exact h.unmark

end Block

/-! ## Functions without addresses -/

/-- A function whose code has no addresses yet. -/
structure Outline where
  id : UInt64
  name : Option String
  names : VariableTable
  code : Block

namespace Outline

/-- The directives of a function in a build. -/
def directives (o : Outline) (debug : Bool) : List Directive :=
  (o.code.shown debug).directives 0 0

/-- The instructions of a function in a build. -/
def instructions (o : Outline) (debug : Bool) : List Instruction :=
  (o.code.shown debug).place 0 0 0

/-- What is known of the stack of a function in a build. -/
def stack (o : Outline) (debug : Bool) : StackReport :=
  (o.code.shown debug).climb {}

/-- The function with its bytes. -/
def finish (o : Outline) (root debug : Bool) : Except Finding CompiledFunction :=
  Frame.finish
    { id := o.id, name := o.name, names := o.names, latest := (o.directives debug).reverse
      stack := o.stack debug }
    root debug

/-- The compiled function is what an outline comes to. -/
structure Makes (o : Outline) (root debug : Bool) (f : CompiledFunction) : Prop where
  id : f.id = o.id
  root : f.root = root
  name : f.name = o.name
  params : f.params = o.names.params.toUInt32
  locals : f.locals = o.names.locals.toUInt32
  symbols : f.symbols = if debug then some o.names.symbols else none
  code : f.code.size < 2 ^ 32 → f.code = Code.assemble (o.instructions debug)
  maxStack : f.maxStack = (o.stack debug).maxDepth.toNat.toUInt32
  lines : f.code.size < 2 ^ 32 → f.lines =
    if debug then
      some (LineRecorder.table { entries := (Directive.entries 0 0 (o.directives debug)).toArray })
    else none
  /-- Whatever the size of the code, a debug build brings a table that was recorded. -/
  table : debug = true → ∃ r : LineRecorder, f.lines = some r.table

/-- A closed outline always makes a function. -/
theorem exists_finish {o : Outline} (h : o.code.Closed) (root debug : Bool) :
    ∃ f, o.finish root debug = .ok f ∧ o.Makes root debug f := by
  have hclosed := h.shown debug
  obtain ⟨d, hd, hsize, hopen⟩ := @Block.drawn (o.code.shown debug)
    { Draft.empty o.id o.name debug with names := o.names } 0 rfl 0
  have hdone : d.labels.unresolved = 0 := by
    refine LabelTable.unresolved_eq_zero fun k hk => ?_
    rw [hopen, Block.exits, hclosed.jumps_eq_nil, hclosed.jumps_eq_nil] at hk
    rcases hk with ⟨a, ha⟩ | hk
    · cases ha
    · cases hk
  have hhead : d.id = o.id ∧ d.name = o.name ∧ d.names = o.names ∧
      d.emitter.recorder.enabled = debug := by
    have h := hd.head_eq
    simpa [Draft.head, Draft.empty] using h
  obtain ⟨hid, hname, hnames, henabled⟩ := hhead
  refine ⟨{ id := o.id, root, code := d.emitter.code, params := o.names.params.toUInt32
            locals := o.names.locals.toUInt32, maxStack := (o.stack debug).maxDepth.toNat.toUInt32
            name := o.name, symbols := if debug then some o.names.symbols else none
            lines := if debug then some d.emitter.recorder.table else none }, ?_, ?_⟩
  · rw [finish, Frame.finish]
    simp only [Frame.directives, List.reverse_reverse]
    rw [directives, show Directive.applyAll _ _ = _ from hd]
    simp only [Draft.finish, Draft.withStack, hdone, hid, hname, hnames, Nat.lt_irrefl, if_false]
    rfl
  · have hlinked (hlt : d.emitter.buffer.data.size < 2 ^ 32) :=
      (Draft.linked_empty o.id o.name o.names debug).takes hd hlt
    have hcode (hlt : d.emitter.buffer.data.size < 2 ^ 32) :
        d.emitter.Holds (o.instructions debug) := by
      have hl := hlinked hlt
      rw [List.nil_append] at hl
      have hset (k : Nat) (t : UInt32) (hk : .resolve k t ∈ o.directives debug) :
          d.labels.target k = t := by
        rw [LabelTable.target, hl.resolved k t hk]
        rfl
      have hplace := (o.code.shown debug).link_directives 0 0 0 0 hset
        (by simp [hclosed.jumps_eq_nil]) (by simp [hclosed.jumps_eq_nil])
      rw [instructions, ← hplace]
      exact hl.emitter
    refine ⟨rfl, rfl, rfl, rfl, rfl, rfl, fun hlt => (hcode hlt).data, rfl,
      fun hlt => ?_, fun hdebug => ⟨_, if_pos hdebug⟩⟩
    have hentries := (hlinked hlt).entries
    rw [henabled, List.nil_append] at hentries
    cases debug with
    | false => rfl
    | true =>
      rw [if_pos rfl] at hentries ⊢
      rw [LineRecorder.table, LineRecorder.table, hentries, directives]

end Outline

end Compile

end ScriptToolchain
