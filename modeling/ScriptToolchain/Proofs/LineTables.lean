import Mathlib.Data.List.Destutter
import ScriptToolchain.Proofs.Bisection
import ScriptToolchain.Proofs.Validity

/-!
# Line tables

The recorder notes one entry for each instruction: its address and the line of
the last mark at or before it. The table of these entries keeps the first entry
of each run of one line. It loses nothing: at every address that was noted, the
table gives the line that was noted, and what it has kept but for the first
entry is where a line was marked.
-/

namespace ScriptToolchain

namespace LineRecorder

/-! ## Runs of one line -/

/-- The second entry is kept behind the first one. -/
def Turns (a b : LineEntry) : Prop :=
  ¬ (b.line = a.line ∨ b.address = a.address)

instance : DecidableRel Turns := fun a b =>
  inferInstanceAs (Decidable (¬ (b.line = a.line ∨ b.address = a.address)))

theorem collapse_eq (last : LineEntry) (kept rest : List LineEntry) :
    collapse (last :: kept) rest = kept.reverse ++ rest.destutter' Turns last := by
  induction rest generalizing last kept with
  | nil => rw [collapse, List.destutter'_nil, List.reverse_cons]
  | cons e rest ih =>
    rw [collapse]
    split
    · rename_i h
      rw [ih, List.destutter'_cons_neg _ (not_not_intro h)]
    · rename_i h
      rw [ih, List.destutter'_cons_pos _ h, List.reverse_cons, List.append_assoc]
      rfl

/-- Of the entries by address, the table keeps the first ones of all runs of one line. -/
theorem table_eq (r : LineRecorder) :
    r.table = (r.entries.toList.mergeSort fun a b => a.address ≤ b.address).destutter Turns := by
  rw [table]
  cases r.entries.toList.mergeSort fun a b => a.address ≤ b.address with
  | nil => rfl
  | cons e rest =>
    rw [collapse, collapse_eq]
    rfl

/-- Of entries that were noted in order, the table keeps the first ones in this order. -/
theorem table_of_rises {r : LineRecorder}
    (h : r.entries.toList.Pairwise fun a b => a.address < b.address) :
    r.table = r.entries.toList.destutter Turns := by
  rw [table_eq, mergeSort_of_rises h]

/-- A table rises, whatever was noted. -/
theorem table_rises (r : LineRecorder) : r.table.Pairwise fun a b => a.address < b.address := by
  have hsorted : (r.entries.toList.mergeSort fun a b => a.address ≤ b.address).Pairwise
      fun a b => a.address ≤ b.address := by
    refine (List.pairwise_mergeSort ?_ ?_ _).imp fun {a b} h => of_decide_eq_true h
    · intro a b c hab hbc
      exact decide_eq_true (UInt32.le_trans (of_decide_eq_true hab) (of_decide_eq_true hbc))
    · intro a b
      simpa using UInt32.le_total a.address b.address
  have hweak : r.table.Pairwise fun a b => a.address ≤ b.address := by
    rw [table_eq]
    exact hsorted.sublist (List.destutter_sublist _ _)
  have hturns : r.table.IsChain Turns := by
    rw [table_eq]
    exact List.isChain_destutter _ _
  -- neighbours differ in their addresses, which never fall
  have hchain : r.table.IsChain fun a b => a.address < b.address := by
    rw [List.isChain_iff_getElem] at hturns ⊢
    intro k hk
    have hle := List.isChain_iff_getElem.mp hweak.isChain k hk
    exact UInt32.lt_of_le_of_ne hle fun heq => hturns k hk (.inr heq.symm)
  have : IsTrans LineEntry fun a b => a.address < b.address := ⟨fun _ _ _ => UInt32.lt_trans⟩
  exact hchain.pairwise

/-- In a table, neighbours have different lines. -/
theorem table_turns (r : LineRecorder) : r.table.IsChain fun a b => a.line ≠ b.line := by
  rw [table_eq]
  exact (List.isChain_destutter _ _).imp fun a b h heq => h (.inl heq.symm)

variable {a e : LineEntry} {l : List LineEntry}

/-- The first entry is kept, and all others are kept in order. -/
theorem exists_destutter' (a : LineEntry) (l : List LineEntry) :
    ∃ t, l.destutter' Turns a = a :: t ∧ t.Sublist l := by
  induction l generalizing a with
  | nil => exact ⟨[], rfl, .slnil⟩
  | cons b l ih =>
    by_cases h : Turns a b
    · refine ⟨l.destutter' Turns b, List.destutter'_cons_pos _ h, ?_⟩
      exact List.destutter'_sublist l Turns b
    · obtain ⟨t, ht, hsub⟩ := ih a
      exact ⟨t, by rw [List.destutter'_cons_neg _ h, ht], hsub.trans (List.sublist_cons_self b l)⟩

theorem line_eq_of_not_turns {b : LineEntry} (hab : a.address < b.address) (h : ¬ Turns a b) :
    b.line = a.line := by
  rcases not_not.mp h with hline | haddress
  · exact hline
  · rw [haddress] at hab
    exact absurd hab (UInt32.lt_irrefl _)

theorem pairwise_skip {R : LineEntry → LineEntry → Prop} {b : LineEntry}
    (h : (a :: b :: l).Pairwise R) : (a :: l).Pairwise R :=
  h.sublist (.cons_cons a (List.sublist_cons_self b l))

/-- Entries of greater addresses are not looked at. -/
theorem takeWhile_cons_of_lt {t : List LineEntry} (ha : a.address ≤ e.address)
    (ht : ∀ b ∈ t, e.address < b.address) :
    (a :: t).takeWhile (·.address ≤ e.address) = [a] := by
  have hrest : t.takeWhile (·.address ≤ e.address) = [] := by
    cases t with
    | nil => rfl
    | cons b t =>
      have hb := ht b (List.mem_cons_self ..)
      rw [List.takeWhile_cons_of_neg]
      simpa using hb
  rw [List.takeWhile_cons_of_pos (by simpa using ha), hrest]

/-- Among the kept entries, the last one at or before a noted address has the line noted there. -/
theorem line_destutter' (h : (a :: l).Pairwise fun x y => x.address < y.address)
    (he : e ∈ a :: l) :
    ((l.destutter' Turns a).takeWhile (·.address ≤ e.address)).getLast?.map (·.line) =
      some e.line := by
  induction l generalizing a with
  | nil =>
    obtain rfl := List.mem_singleton.mp he
    rw [List.destutter'_nil, takeWhile_cons_of_lt (UInt32.le_refl _) fun _ hb => absurd hb
      List.not_mem_nil]
    rfl
  | cons b l ih =>
    obtain ⟨hfirst, hrest⟩ := List.pairwise_cons.mp h
    have hab := hfirst b (List.mem_cons_self ..)
    by_cases hturn : Turns a b
    · rw [List.destutter'_cons_pos _ hturn]
      rcases List.mem_cons.mp he with rfl | he
      · -- the entries behind are those of greater addresses
        rw [takeWhile_cons_of_lt (UInt32.le_refl _) fun x hx =>
          hfirst x ((List.destutter'_sublist l Turns b).subset hx)]
        rfl
      · have hle : a.address ≤ e.address := UInt32.le_of_lt (hfirst e he)
        have hlast := ih hrest he
        rw [List.takeWhile_cons_of_pos (by simpa using hle), List.getLast?_cons]
        obtain ⟨x, hx, hline⟩ := Option.map_eq_some_iff.mp hlast
        rw [hx]
        exact congrArg some hline
    · have hskip := pairwise_skip h
      rw [List.destutter'_cons_neg _ hturn]
      rcases List.mem_cons.mp he with rfl | he
      · exact ih hskip (List.mem_cons_self ..)
      rcases List.mem_cons.mp he with rfl | he
      · obtain ⟨t, ht, hsub⟩ := exists_destutter' a l
        rw [ht, takeWhile_cons_of_lt (UInt32.le_of_lt hab) fun x hx =>
          (List.pairwise_cons.mp hrest).1 x (hsub.subset hx), line_eq_of_not_turns hab hturn]
        rfl
      · exact ih hskip (List.mem_cons_of_mem _ he)

/-- Where an entry goes on with the line before it or has a property, what is kept has it. -/
theorem turned_destutter' {P : LineEntry → Prop}
    (h : (a :: l).Pairwise fun x y => x.address < y.address)
    (hchain : (a :: l).IsChain fun x y => P y ∨ y.line = x.line) (he : e ∈ l.destutter' Turns a) :
    e = a ∨ P e := by
  induction l generalizing a with
  | nil => exact .inl (List.mem_singleton.mp he)
  | cons b l ih =>
    obtain ⟨hb, hrest⟩ := List.isChain_cons_cons.mp hchain
    obtain ⟨hfirst, hlater⟩ := List.pairwise_cons.mp h
    by_cases hturn : Turns a b
    · rw [List.destutter'_cons_pos _ hturn] at he
      rcases List.mem_cons.mp he with rfl | he
      · exact .inl rfl
      · have hp : P b := hb.resolve_right fun hline => hturn (.inl hline)
        rcases ih hlater hrest he with rfl | he
        · exact .inr hp
        · exact .inr he
    · have hline := line_eq_of_not_turns (hfirst b (List.mem_cons_self ..)) hturn
      rw [List.destutter'_cons_neg _ hturn] at he
      refine ih (pairwise_skip h) ?_ he
      cases l with
      | nil => exact .singleton a
      | cons c l =>
        rw [List.isChain_cons_cons, hline] at hrest
        exact List.isChain_cons_cons.mpr hrest

theorem line_destutter (h : l.Pairwise fun x y => x.address < y.address) (he : e ∈ l) :
    ((l.destutter Turns).takeWhile (·.address ≤ e.address)).getLast?.map (·.line) =
      some e.line := by
  cases l with
  | nil => cases he
  | cons a l => exact line_destutter' h he

/-- What is kept has the property, unless it is a first entry without a line. -/
theorem turned_destutter {P : LineEntry → Prop}
    (h : l.Pairwise fun x y => x.address < y.address)
    (hfirst : ∀ a ∈ l.head?, P a ∨ a.line = 0)
    (hchain : l.IsChain fun x y => P y ∨ y.line = x.line) (he : e ∈ l.destutter Turns) :
    P e ∨ e.line = 0 := by
  cases l with
  | nil => cases he
  | cons a l =>
    rcases turned_destutter' h hchain he with rfl | he
    · exact hfirst e rfl
    · exact .inl he

/-- A line that was noted is in the table. -/
theorem exists_destutter (h : l.Pairwise fun x y => x.address < y.address) (he : e ∈ l) :
    ∃ x ∈ l.destutter Turns, x.line = e.line := by
  obtain ⟨x, hx, hline⟩ := Option.map_eq_some_iff.mp (line_destutter h he)
  exact ⟨x, (List.takeWhile_sublist _).subset (List.mem_of_getLast? hx), hline⟩

end LineRecorder

/-! ## What is noted of directives -/

namespace Directive

/-- The line that is marked, if one is. -/
def mark? : Directive → Option UInt32
  | .line n => some n
  | _ => none

/-- The directive is a mark or makes no instruction that looks like one. -/
def Plain : Directive → Prop
  | .emit op _ | .branch op => op ≠ .line
  | _ => True

variable {ds : List Directive}

/--
The line noted of an instruction is that of the last mark up to it, the current line if there is
none; marks are counted by their instructions.
-/
theorem line_entries (target : LabelId → UInt32) (hplain : ∀ d ∈ ds, d.Plain) (current : UInt32)
    (address label : Nat) {k : Nat} {e : LineEntry}
    (h : (entries current address ds)[k]? = some e) :
    (current :: ds.filterMap mark?)[(((link target address label ds).map (·.opcode)).take
      (k + 1)).count .line]? = some e.line := by
  induction ds generalizing current address label k with
  | nil => cases h
  | cons d rest ih =>
    have hrest : ∀ d ∈ rest, d.Plain := fun d hd => hplain d (List.mem_cons_of_mem _ hd)
    have hd := hplain d (List.mem_cons_self ..)
    -- an instruction that is no mark has the current line
    have hinstr (op : Opcode) (hop : op ≠ .line) (next label : Nat)
        (h : (⟨saturate32 address, current⟩ :: entries current next rest)[k]? = some e) :
        (current :: rest.filterMap mark?)[((op :: (link target next label rest).map
          (·.opcode)).take (k + 1)).count .line]? = some e.line := by
      rw [List.take_succ_cons, List.count_cons_of_ne hop]
      cases k with
      | zero =>
        cases h
        rfl
      | succ k => exact ih hrest current next label h
    cases d with
    | line n =>
      show (current :: n :: rest.filterMap mark?)[((Opcode.line :: (link target _ _ rest).map
        (·.opcode)).take (k + 1)).count .line]? = some e.line
      rw [List.take_succ_cons, List.count_cons_self]
      cases k with
      | zero =>
        cases h
        rfl
      | succ k => exact ih hrest n _ _ h
    | emit op x => exact hinstr op hd _ _ h
    | branch op => exact hinstr op hd _ _ h
    | resolve l t => exact ih hrest current _ _ h

/-- A line that is marked is noted. -/
theorem exists_entry {line : UInt32} (current : UInt32) (address : Nat)
    (h : line ∈ ds.filterMap mark?) : ∃ e ∈ entries current address ds, e.line = line := by
  induction ds generalizing current address with
  | nil => cases h
  | cons d rest ih =>
    rw [List.mem_filterMap] at h
    obtain ⟨d', hd', hmark⟩ := h
    rw [entries]
    rcases List.mem_cons.mp hd' with rfl | hd'
    · cases d' <;> cases hmark
      exact ⟨_, List.mem_append_left _ (List.mem_singleton_self _), rfl⟩
    · obtain ⟨e, he, hline⟩ := ih (d.lineAfter current) (address + d.size)
        (List.mem_filterMap.mpr ⟨d', hd', hmark⟩)
      exact ⟨e, List.mem_append_right _ he, hline⟩

/-- As many instructions look like marks as there are marks. -/
theorem count_line (target : LabelId → UInt32) (hplain : ∀ d ∈ ds, d.Plain) (address label : Nat) :
    ((link target address label ds).map (·.opcode)).count .line =
      (ds.filterMap mark?).length := by
  induction ds generalizing address label with
  | nil => rfl
  | cons d rest ih =>
    have hrest := ih (fun d hd => hplain d (List.mem_cons_of_mem _ hd)) (address + d.size)
      (label + d.labels)
    have hd := hplain d (List.mem_cons_self ..)
    have hother {op : Opcode} (hop : op ≠ .line) : [op].count .line = 0 :=
      List.count_eq_zero.mpr fun h => hop (List.mem_singleton.mp h).symm
    rw [link, List.map_append, List.count_append, hrest]
    cases d with
    | line n => exact Nat.add_comm 1 _
    | emit op x =>
      show [op].count .line + _ = _
      rw [hother hd, Nat.zero_add]
      rfl
    | branch op =>
      show [op].count .line + _ = _
      rw [hother hd, Nat.zero_add]
      rfl
    | resolve l t => exact Nat.zero_add _

end Directive

theorem Compile.Block.plain_directives {b : Block} (hb : b.WellFormed) (start n : Nat) :
    ∀ d ∈ b.directives start n, d.Plain := by
  have hbranch {op : Opcode} (h : op.isBranch = true) : op ≠ .line := by
    rintro rfl
    cases h
  have hresolves (t : UInt32) (labels : List Nat) :
      ∀ d ∈ labels.map (Directive.resolve · t), d.Plain := by
    intro d hd
    obtain ⟨k, -, rfl⟩ := List.mem_map.mp hd
    trivial
  induction b generalizing start n with
  | empty => exact nofun
  | instr op x => exact List.forall_mem_singleton.mpr hb.2.2
  | mark line => exact List.forall_mem_singleton.mpr trivial
  | jump op j => exact List.forall_mem_singleton.mpr (hbranch hb)
  | seq a b iha ihb => exact List.forall_mem_append.mpr ⟨iha hb.1 _ _, ihb hb.2 _ _⟩
  | skip op body ih =>
    refine List.forall_mem_cons.mpr ⟨hbranch hb.1, List.forall_mem_append.mpr ⟨ih hb.2 _ _, ?_⟩⟩
    exact List.forall_mem_singleton.mpr trivial
  | either yes no ihy ihn =>
    refine List.forall_mem_cons.mpr ⟨hbranch rfl, List.forall_mem_append.mpr ⟨ihy hb.1 _ _, ?_⟩⟩
    refine List.forall_mem_cons.mpr ⟨hbranch rfl, List.forall_mem_cons.mpr ⟨trivial, ?_⟩⟩
    exact List.forall_mem_append.mpr ⟨ihn hb.2 _ _, List.forall_mem_singleton.mpr trivial⟩
  | loop body tail back resume ihb iht =>
    refine List.forall_mem_append.mpr ⟨ihb hb.2.1 _ _, List.forall_mem_append.mpr
      ⟨iht hb.2.2 _ _, List.forall_mem_cons.mpr ⟨hbranch hb.1, ?_⟩⟩⟩
    exact List.forall_mem_append.mpr ⟨hresolves _ _, hresolves _ _⟩

/-! ## Functions -/

/-- The line table of a function: its addresses rise, and neighbours have different lines. -/
structure CompiledFunction.Tabled (f : CompiledFunction) (entries : List LineEntry) : Prop where
  lines : f.lines = some entries
  rises : entries.Pairwise fun a b => a.address < b.address
  turns : entries.IsChain fun a b => a.line ≠ b.line

/--
What the line table of a function tells of its instructions: `marks` are the lines of its marks, in
order.
-/
structure CompiledFunction.Lined (f : CompiledFunction) (is : List Instruction)
    (entries : List LineEntry) (marks : List UInt32) : Prop where
  /-- There is one mark for each instruction `line`. -/
  marked : is.countP (·.opcode = .line) = marks.length
  /-- An instruction has the line of the last mark up to it, and zero before the first mark. -/
  lineAt : ∀ {k i}, is[k]? = some i →
    f.lineAt? i.address = (0 :: marks)[(is.take (k + 1)).countP (·.opcode = .line)]?
  /-- A line is found at a mark, with another instruction right behind it. -/
  marker : ∀ {line a}, line ≠ 0 → f.addressOfLine? line = some a →
    ∃ before i j after, is = before ++ i :: j :: after ∧ i.opcode = .line ∧ i.address = a ∧
      j.address = a + Opcode.tagSize.toUInt32
  listed : ∀ line ∈ marks, ∃ e ∈ entries, e.line = line

namespace Compile

variable {root : Bool} {l : Outline} {f : CompiledFunction}

/-- The lines that an outline marks in a debug build. -/
def Outline.marks (l : Outline) : List UInt32 :=
  (l.directives true).filterMap Directive.mark?

theorem Outline.plain_directives {l : Outline} (hl : l.code.WellFormed) :
    ∀ d ∈ l.directives true, d.Plain :=
  Block.plain_directives hl 0 0

theorem Outline.opcode_link (l : Outline) :
    (Directive.link (fun _ => 0) 0 0 (l.directives true)).map (·.opcode) =
      (l.instructions true).map (·.opcode) :=
  Block.opcode_link _ l.code 0 0 0 0

/-- The lines noted of a function are those of its marks. -/
theorem Outline.line_entries (l : Outline) (hl : l.code.WellFormed) {k : Nat} {e : LineEntry}
    (h : (Directive.entries 0 0 (l.directives true))[k]? = some e) :
    (0 :: l.marks)[((l.instructions true).take (k + 1)).countP (·.opcode = .line)]? =
      some e.line := by
  have hline : (0 :: l.marks)[(((Directive.link (fun _ => 0) 0 0 (l.directives true)).map
      (·.opcode)).take (k + 1)).count .line]? = some e.line :=
    Directive.line_entries _ (plain_directives hl) 0 0 0 h
  rw [l.opcode_link, ← List.map_take, List.count_eq_countP, List.countP_map] at hline
  exact hline

/-- The entry stands where the function has a mark. -/
def Outline.MarksAt (l : Outline) (e : LineEntry) : Prop :=
  ∃ i ∈ l.instructions true, i.opcode = .line ∧ i.address = e.address

/-- Where an instruction is no mark, the count of marks does not go on. -/
theorem countP_take_succ {is : List Instruction} {i : Instruction} {k : Nat} (hi : is[k]? = some i)
    (hop : i.opcode ≠ .line) :
    (is.take (k + 1)).countP (·.opcode = .line) = (is.take k).countP (·.opcode = .line) := by
  rw [List.take_add_one, hi, List.countP_append, Option.toList_some, List.countP_singleton,
    if_neg (by simpa using hop), Nat.add_zero]

/-- An entry that stands at no mark has the line noted before, or none. -/
theorem Outline.entries_turn (l : Outline) (hl : l.code.WellFormed)
    (haddress : (Directive.entries 0 0 (l.directives true)).map (·.address) =
      (l.instructions true).map (·.address)) :
    (∀ e ∈ (Directive.entries 0 0 (l.directives true)).head?, l.MarksAt e ∨ e.line = 0) ∧
      (Directive.entries 0 0 (l.directives true)).IsChain fun x y =>
        l.MarksAt y ∨ y.line = x.line := by
  have hnoted {k : Nat} {e : LineEntry} := l.line_entries hl (k := k) (e := e)
  have hcases {k : Nat} {e : LineEntry}
      (h : (Directive.entries 0 0 (l.directives true))[k]? = some e) : l.MarksAt e ∨
        (0 :: l.marks)[((l.instructions true).take k).countP (·.opcode = .line)]? =
          some e.line := by
    have hline := hnoted h
    have hsame : (l.instructions true)[k]?.map (·.address) = some e.address := by
      rw [← List.getElem?_map, ← haddress, List.getElem?_map, h, Option.map_some]
    obtain ⟨i, hi, hat⟩ := Option.map_eq_some_iff.mp hsame
    by_cases hop : i.opcode = .line
    · exact .inl ⟨i, List.mem_of_getElem? hi, hop, hat⟩
    · rw [countP_take_succ hi hop] at hline
      exact .inr hline
  generalize Directive.entries 0 0 (l.directives true) = entries at *
  constructor
  · intro e he
    rw [Option.mem_def, List.head?_eq_getElem?] at he
    refine (hcases he).imp_right fun hline => ?_
    exact (Option.some.inj hline).symm
  · rw [List.isChain_iff_getElem]
    intro k hk
    refine (hcases (List.getElem?_eq_getElem hk)).imp_right fun hline => ?_
    have hbefore := hnoted (List.getElem?_eq_getElem (Nat.lt_of_succ_lt hk))
    exact Option.some.inj (hline.symm.trans hbefore)

theorem Outline.countP_marks (l : Outline) (hl : l.code.WellFormed) :
    (l.instructions true).countP (·.opcode = .line) = l.marks.length := by
  have hcount := Directive.count_line (fun _ => 0) (plain_directives hl) 0 0
  rw [l.opcode_link, List.count_eq_countP, List.countP_map] at hcount
  exact hcount

/-- A mark is never the last instruction, and the next one stands right behind it. -/
theorem Outline.exists_behind (l : Outline) (hr : l.code.Returns)
    (hplaced : Code.Placed 0 (l.instructions true)) {i : Instruction}
    (hi : i ∈ l.instructions true) (hop : i.opcode = .line) :
    ∃ before j after, l.instructions true = before ++ i :: j :: after ∧
      j.address = i.address + Opcode.tagSize.toUInt32 := by
  obtain ⟨front, address, hlast⟩ := hr.place_eq 0 0 0
  obtain ⟨before, after, hsplit⟩ := List.append_of_mem hi
  cases after with
  | nil =>
    have hend : l.instructions true = front ++ [⟨address, .ret, .none⟩] := hlast
    rw [hsplit] at hend
    obtain ⟨-, hret⟩ := List.append_inj' hend rfl
    rw [List.singleton_inj.mp hret] at hop
    cases hop
  | cons j after =>
    refine ⟨before, j, after, hsplit, ?_⟩
    rw [hsplit] at hplaced
    obtain ⟨-, hat, hfits, hnext, -⟩ := Code.placed_append.mp hplaced
    have hsize : i.size = Opcode.tagSize := by
      rw [hfits.size_eq, hop]
      rfl
    rw [hnext, hat, hsize]
    exact UInt32.ofNat_add _ _

/-- A function of a debug build has a line table, whatever the size of its code. -/
theorem Outline.Makes.tabled (hm : l.Makes root true f) : ∃ entries, f.Tabled entries := by
  obtain ⟨r, hlines⟩ := hm.table rfl
  exact ⟨r.table, hlines, r.table_rises, r.table_turns⟩

/-- The line table of a function in a debug build tells where its outline marks lines. -/
theorem Outline.Makes.lined (hm : l.Makes root true f) (hl : l.code.WellFormed)
    (hr : l.code.Returns) (hlt : f.code.size < 2 ^ 32) {table : List LineEntry}
    (ht : f.Tabled table) : f.Lined (l.instructions true) table l.marks := by
  obtain ⟨haddress, hrise⟩ := hm.entries_rise hl hlt
  obtain ⟨hfirst, hchain⟩ := l.entries_turn hl haddress
  obtain ⟨-, -, hplaced, -⟩ := hm.placed hl hlt
  have hnoted {k : Nat} {e : LineEntry} := l.line_entries hl (k := k) (e := e)
  have hlisted {line : UInt32} (h : line ∈ l.marks) := Directive.exists_entry 0 0 h
  have hlines := hm.lines hlt
  rw [if_pos rfl, LineRecorder.table_of_rises hrise] at hlines
  obtain rfl := Option.some.inj (ht.lines.symm.trans hlines)
  generalize Directive.entries 0 0 (l.directives true) = entries at *
  refine ⟨l.countP_marks hl, ?_, ?_, ?_⟩
  · intro k i hi
    have hsame : entries[k]?.map (·.address) = some i.address := by
      rw [← List.getElem?_map, haddress, List.getElem?_map, hi, Option.map_some]
    obtain ⟨e, he, hat⟩ := Option.map_eq_some_iff.mp hsame
    rw [hnoted he, ← hat, CompiledFunction.lineAt?_of_rises hlines ht.rises]
    exact LineRecorder.line_destutter hrise (List.mem_of_getElem? he)
  · intro line a hne hfind
    rw [CompiledFunction.addressOfLine?, hlines] at hfind
    obtain ⟨e, he, rfl⟩ := Option.map_eq_some_iff.mp hfind
    have hline : e.line = line := by simpa using List.find?_some he
    -- what the table keeps is where the line turns, which it does at marks only
    have hmark := (LineRecorder.turned_destutter hrise hfirst hchain
      (List.mem_of_find?_eq_some he)).resolve_right fun h => hne (hline.symm.trans h)
    obtain ⟨i, hi, hop, hat⟩ := hmark
    obtain ⟨before, j, after, hsplit, hbehind⟩ := l.exists_behind hr hplaced hi hop
    exact ⟨before, i, j, after, hsplit, hop, hat, hat ▸ hbehind⟩
  · intro line hline
    obtain ⟨e, he, rfl⟩ := hlisted hline
    exact LineRecorder.exists_destutter hrise he

end Compile

end ScriptToolchain
