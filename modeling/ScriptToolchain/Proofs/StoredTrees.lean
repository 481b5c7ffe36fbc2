import ScriptToolchain.Proofs.FlagText
import ScriptToolchain.Proofs.JsonText
import ScriptToolchain.Proofs.Trees
import ScriptToolchain.Tree.Stored

/-!
# Stored trees are read back

The JSON text of a tree is read as the tree, unless it has floats or is nested
deeper than the reader goes. The reader counts down as it enters arrays and
objects; the induction over the tree keeps the nesting of what is left within
the count.
-/

namespace ScriptToolchain

namespace Json

/-! ## Nesting -/

mutual

/-- How deep arrays and objects are nested in the value. -/
def nesting : Json → Nat
  | .array items => nestingItems items + 1
  | .object fields => nestingFields fields + 1
  | _ => 0

/-- The deepest nesting of the items. -/
def nestingItems : List Json → Nat
  | [] => 0
  | v :: rest => max v.nesting (nestingItems rest)

/-- The deepest nesting of the fields. -/
def nestingFields : List (Option String × Json) → Nat
  | [] => 0
  | (_, v) :: rest => max v.nesting (nestingFields rest)

end

theorem nestingItems_le {items : List Json} {depth : Nat} :
    nestingItems items ≤ depth ↔ ∀ v ∈ items, v.nesting ≤ depth := by
  induction items with
  | nil => simp [nestingItems]
  | cons v rest ih => simp [nestingItems, ih]

theorem nestingFields_le {fields : List (Option String × Json)} {depth : Nat} :
    nestingFields fields ≤ depth ↔ ∀ x ∈ fields, x.2.nesting ≤ depth := by
  induction fields with
  | nil => simp [nestingFields]
  | cons x rest ih => simp [nestingFields, ih]

/-- An array takes one level, its items what is left. -/
theorem exists_of_nesting_array {items : List Json} {depth : Nat}
    (h : (array items).nesting ≤ depth) :
    ∃ left, depth = left + 1 ∧ ∀ v ∈ items, v.nesting ≤ left := by
  rw [nesting] at h
  exact ⟨depth - 1, by omega, nestingItems_le.mp (by omega)⟩

/-- An object takes one level, its fields what is left. -/
theorem exists_of_nesting_obj {fields : List (String × Json)} {depth : Nat}
    (h : (obj fields).nesting ≤ depth) :
    ∃ left, depth = left + 1 ∧ ∀ x ∈ fields, x.2.nesting ≤ left := by
  rw [obj, nesting] at h
  have hall := nestingFields_le.mp (Nat.le_sub_of_add_le h)
  exact ⟨depth - 1, by omega, fun x hx => hall (some x.1, x.2) (List.mem_map.mpr ⟨x, hx, rfl⟩)⟩

theorem exists_of_nesting_variant {name : String} {content : Json} {depth : Nat}
    (h : (variant name content).nesting ≤ depth) :
    ∃ left, depth = left + 1 ∧ content.nesting ≤ left := by
  obtain ⟨left, rfl, hall⟩ := exists_of_nesting_obj h
  exact ⟨left, rfl, hall (name, content) List.mem_cons_self⟩

/-- A variant with a record takes two levels. -/
theorem exists_of_nesting_record {name : String} {fields : List (String × Json)} {depth : Nat}
    (h : (variant name (obj fields)).nesting ≤ depth) :
    ∃ left, depth = left + 2 ∧ ∀ x ∈ fields, x.2.nesting ≤ left := by
  obtain ⟨depth, rfl, hrecord⟩ := exists_of_nesting_variant h
  obtain ⟨left, rfl, hall⟩ := exists_of_nesting_obj hrecord
  exact ⟨left, rfl, hall⟩

/-- A variant with a list takes two levels. -/
theorem exists_of_nesting_list {name : String} {items : List Json} {depth : Nat}
    (h : (variant name (array items)).nesting ≤ depth) :
    ∃ left, depth = left + 2 ∧ ∀ v ∈ items, v.nesting ≤ left := by
  obtain ⟨depth, rfl, hlist⟩ := exists_of_nesting_variant h
  obtain ⟨left, rfl, hall⟩ := exists_of_nesting_array hlist
  exact ⟨left, rfl, hall⟩

/-! ## Variants and records -/

@[simp]
theorem variant?_variant (name : String) (content : Json) :
    (variant name content).variant? = some (name, some content) :=
  rfl

@[simp]
theorem variant?_str (name : String) : (str name).variant? = some (name, none) :=
  rfl

@[simp]
theorem unit?_str (depth : Nat) (name : String) : (str name).unit? depth = some name :=
  rfl

@[simp]
theorem unit?_null (depth : Nat) (name : String) :
    (variant name null).unit? depth = if depth = 0 then none else some name :=
  rfl

/-- A variant with a content is no variant without one. -/
theorem unit?_variant {content : Json} (h : content ≠ .null) (depth : Nat) (name : String) :
    (variant name content).unit? depth = none := by
  rw [unit?, variant?_variant]
  cases content with
  | null => exact absurd rfl h
  | _ => rfl

@[simp]
theorem unit?_obj (depth : Nat) (name : String) (fields : List (String × Json)) :
    (variant name (obj fields)).unit? depth = none :=
  rfl

@[simp]
theorem unit?_array (depth : Nat) (name : String) (items : List Json) :
    (variant name (array items)).unit? depth = none :=
  rfl

@[simp]
theorem asString?_str (s : String) : (str s).asString? = some s :=
  rfl

/-! ## Fields -/

/-- A field whose name stands alone is found. -/
theorem valuesOf_obj {fields : List (String × Json)} (h : (fields.map Prod.fst).Nodup)
    {x : String × Json} (hx : x ∈ fields) :
    valuesOf x.1 (fields.map fun (name, v) => (some name, v)) = [x.2] := by
  induction fields with
  | nil => cases hx
  | cons y rest ih =>
    rw [List.map_cons, List.nodup_cons] at h
    rcases List.mem_cons.mp hx with rfl | hx
    · have hrest : valuesOf x.1 (rest.map fun (name, v) => (some name, v)) = [] := by
        rw [valuesOf, List.map_eq_nil_iff, List.filter_eq_nil_iff]
        intro z hz hname
        obtain ⟨y, hy, rfl⟩ := List.mem_map.mp hz
        have hsame : y.1 = x.1 := by simpa using hname
        exact h.1 (hsame ▸ List.mem_map_of_mem hy)
      simpa [valuesOf] using hrest
    · have hne : y.1 ≠ x.1 := fun heq => h.1 (heq ▸ List.mem_map_of_mem hx)
      have hrest := ih h.2 hx
      rw [valuesOf] at hrest ⊢
      rw [List.map_cons, List.filter_cons_of_neg (by simpa using hne)]
      exact hrest

/-- The values of a record whose fields have different names. -/
theorem fields?_obj {fields : List (String × Json)} (h : (fields.map Prod.fst).Nodup)
    (required : Nat) :
    (obj fields).fields? (fields.map Prod.fst) required =
      some (fields.map fun x => some x.2) := by
  have hsome : (fields.map fun (name, v) => (some name, v)).all (·.1.isSome) = true := by
    simp
  have honce : (fields.map Prod.fst).all (fun n =>
      (valuesOf n (fields.map fun (name, v) => (some name, v))).length ≤ 1) = true := by
    rw [List.all_eq_true]
    intro n hn
    obtain ⟨x, hx, rfl⟩ := List.mem_map.mp hn
    rw [valuesOf_obj h hx]
    rfl
  rw [obj, fields?, hsome, honce, Bool.and_true, if_pos rfl, List.map_map]
  refine congrArg some (List.map_congr_left fun x hx => ?_)
  rw [Function.comp_apply, valuesOf_obj h hx]
  rfl

/-! ## Readable values -/

@[simp]
theorem readable_str (s : String) : (str s).Readable :=
  trivial

@[simp]
theorem readable_int (i : Int) : (int i).Readable :=
  Digit.leads_ofNat _

@[simp]
theorem readable_null : Json.null.Readable :=
  trivial

@[simp]
theorem readable_array {items : List Json} :
    (array items).Readable ↔ ∀ v ∈ items, v.Readable := by
  rw [Readable]
  induction items with
  | nil => simp [ReadableItems]
  | cons v rest ih => simp [ReadableItems, ih]

@[simp]
theorem readable_obj {fields : List (String × Json)} :
    (obj fields).Readable ↔ ∀ x ∈ fields, x.2.Readable := by
  rw [obj, Readable]
  induction fields with
  | nil => simp [ReadableFields]
  | cons x rest ih => simp [ReadableFields, ih]

@[simp]
theorem readable_variant {name : String} {content : Json} :
    (variant name content).Readable ↔ content.Readable := by
  simp [variant]

end Json

namespace Node

open Json (required? optional?)

/-- No constant of the tree is a float. -/
def FloatFree (n : Node) : Prop :=
  ∀ {mark bits}, ¬ n.Contains (.constant mark (.float bits))

theorem FloatFree.child {n m : Node} (h : n.FloatFree) (hm : m ∈ n.children) : m.FloatFree :=
  fun hfloat => h (.child hm hfloat)

instance (n : Node) : Decidable n.FloatFree :=
  decidable_of_iff (holdsDown (fun
    | .constant _ (.float _) => false
    | _ => true) n.count n = true) <| by
  rw [holdsDown_iff (Nat.le_refl _)]
  constructor
  · intro h mark bits hfloat
    cases h _ hfloat
  · intro h m hm
    split
    · exact absurd hm h
    · rfl

/-! ## Marks -/

theorem asWord32?_word32 (w : UInt32) : (Json.word32 w).asWord32? = some w := by
  have hlt := w.toNat_lt
  rw [Json.asWord32?, Json.word32, Json.intBetween?_int (by omega) (by omega) (by omega)]
  simp

theorem mark?_stored (m : Mark) :
    mark? (some (.word32 m.line)) (some (.str m.flags.text)) = some m := by
  simp [mark?, asWord32?_word32, flagsOf?, Json.str, Json.asString?, NodeFlags.ofText?_text]

/-- A node is read by the content of its kind. -/
theorem ofJson?_marked (kind : String) (m : Mark) (content : Json) (depth : Nat) :
    ofJson? (depth + 1) (markedJson kind m content) =
      kind? depth m (Json.variant kind content) := by
  have hfields : (markedJson kind m content).fields? ["kind", "line", "flags"] 1 =
      some [some (Json.variant kind content), some (.word32 m.line), some (.str m.flags.text)] :=
    Json.fields?_obj (by simp) 1
  rw [ofJson?, hfields]
  simp [mark?_stored]

/-- A tree takes a level for the node and one for its kind. -/
theorem exists_of_nesting_marked {kind : String} {m : Mark} {content : Json} {depth : Nat}
    (h : (markedJson kind m content).nesting ≤ depth) :
    ∃ left, depth = left + 2 ∧ content.nesting ≤ left := by
  obtain ⟨depth, rfl, hfields⟩ := Json.exists_of_nesting_obj h
  obtain ⟨left, rfl, hcontent⟩ :=
    Json.exists_of_nesting_variant (hfields ("kind", Json.variant kind content) List.mem_cons_self)
  exact ⟨left, rfl, hcontent⟩

/-! ## Trees -/

/-- The tree is read back with any depth that its nesting stays within. -/
def ReadsBack (n : Node) : Prop :=
  ∀ depth, n.toJson.nesting ≤ depth → ofJson? depth n.toJson = some n

theorem kind?_declaration (depth : Nat) (m : Mark) (content : Json) :
    kind? (depth + 1) m (.variant "Declaration" content) = declaration? depth m content := by
  simp [kind?, Json.variant, Json.obj, Json.variant?]

theorem kind?_statement (depth : Nat) (m : Mark) (content : Json) :
    kind? (depth + 1) m (.variant "Statement" content) = statement? depth m content := by
  simp [kind?, Json.variant, Json.obj, Json.variant?]

theorem kind?_expression (depth : Nat) (m : Mark) (content : Json) :
    kind? (depth + 1) m (.variant "Expression" content) = expression? depth m content := by
  simp [kind?, Json.variant, Json.obj, Json.variant?]

namespace ReadsBack

variable {m : Mark}

theorem of_kind {n : Node} {kind : String} {content : Json}
    (hjson : n.toJson = markedJson kind m content)
    (h : ∀ depth, content.nesting ≤ depth →
      kind? (depth + 1) m (Json.variant kind content) = some n) : n.ReadsBack := by
  intro depth hdepth
  rw [hjson] at hdepth ⊢
  obtain ⟨left, rfl, hcontent⟩ := exists_of_nesting_marked hdepth
  rw [ofJson?_marked]
  exact h left hcontent

theorem of_declaration {n : Node} {content : Json}
    (hjson : n.toJson = markedJson "Declaration" m content)
    (h : ∀ depth, content.nesting ≤ depth → declaration? depth m content = some n) :
    n.ReadsBack :=
  of_kind hjson fun depth hdepth => (kind?_declaration depth m content).trans (h depth hdepth)

theorem of_statement {n : Node} {content : Json}
    (hjson : n.toJson = markedJson "Statement" m content)
    (h : ∀ depth, content.nesting ≤ depth → statement? depth m content = some n) :
    n.ReadsBack :=
  of_kind hjson fun depth hdepth => (kind?_statement depth m content).trans (h depth hdepth)

theorem of_expression {n : Node} {content : Json}
    (hjson : n.toJson = markedJson "Expression" m content)
    (h : ∀ depth, content.nesting ≤ depth → expression? depth m content = some n) :
    n.ReadsBack :=
  of_kind hjson fun depth hdepth => (kind?_expression depth m content).trans (h depth hdepth)

end ReadsBack

theorem toJsonAll_eq (items : List Node) : toJsonAll items = items.map toJson := by
  induction items with
  | nil => rw [toJsonAll, List.map_nil]
  | cons n rest ih => rw [toJsonAll, ih, List.map_cons]

/-- A tree is stored as an object, never as null. -/
theorem exists_toJson_eq (n : Node) : ∃ fields, n.toJson = .object fields := by
  cases n <;> rw [toJson] <;> exact ⟨_, rfl⟩

/-- Trees that are read back one by one are read back together. -/
theorem mapM_toJson {items : List Node} {depth : Nat} (h : ∀ n ∈ items, n.ReadsBack)
    (hdepth : ∀ v ∈ toJsonAll items, v.nesting ≤ depth) :
    (toJsonAll items).mapM (ofJson? depth) = some items := by
  induction items with
  | nil => rw [toJsonAll]; rfl
  | cons n rest ih =>
    rw [toJsonAll] at hdepth ⊢
    have hn := h n List.mem_cons_self depth (hdepth _ List.mem_cons_self)
    have hrest := ih (fun m hm => h m (List.mem_cons_of_mem _ hm))
      fun v hv => hdepth v (List.mem_cons_of_mem _ hv)
    simp [List.mapM_cons, hn, hrest]

/-- A tree that may be missing is read back. -/
theorem optional?_toJsonOption {o : Option Node} {depth : Nat}
    (h : ∀ n ∈ o.toList, n.ReadsBack) (hdepth : (toJsonOption o).nesting ≤ depth) :
    optional? (ofJson? depth) (some (toJsonOption o)) = some o := by
  cases o with
  | none => rw [toJsonOption]; rfl
  | some n =>
    rw [toJsonOption] at hdepth ⊢
    have hn := h n (by simp) depth hdepth
    obtain ⟨fields, hobject⟩ := n.exists_toJson_eq
    rw [hobject] at hn ⊢
    rw [optional?, hn]
    · rfl
    · exact nofun

theorem operator?_str (depth : Nat) (op : Operator) : operator? depth (.str op.name) = some op := by
  cases op <;> rfl

theorem storage?_str (depth : Nat) (storage : StorageClass) :
    storage? depth (.str storage.name) = some storage := by
  cases storage <;> rfl

theorem optional?_str (o : Option String) :
    optional? Json.asString? (some (.ofOption .str o)) = some o := by
  cases o <;> rfl

theorem constantJson_ne_null (value : Constant) : constantJson value ≠ .null := by
  cases value <;> exact nofun

/-- A constant that is no float is read back. -/
theorem constant?_constantJson {value : Constant} (hfloat : ∀ bits, value ≠ .float bits)
    {depth : Nat} (hdepth : (constantJson value).nesting ≤ depth) :
    constant? depth (constantJson value) = some value := by
  cases value with
  | null => simp [constant?, constantJson]
  | int v =>
    obtain ⟨left, rfl, -⟩ := Json.exists_of_nesting_variant hdepth
    have hle := v.le_toInt
    have hlt := v.toInt_lt
    have hunit : (Json.variant "Int" (.int v.toInt)).unit? (left + 1) = none := rfl
    have hint : (Json.int v.toInt).intBetween? (-0x80000000) 0x7FFFFFFF = some v.toInt :=
      Json.intBetween?_int (by omega) (by omega) (by omega)
    simp [constant?, constantJson, hunit, hint]
  | float bits => exact absurd rfl (hfloat bits)
  | str s =>
    obtain ⟨left, rfl, -⟩ := Json.exists_of_nesting_variant hdepth
    have hunit : (Json.variant "Str" (.str s)).unit? (left + 1) = none := rfl
    simp [constant?, constantJson, hunit]

namespace ReadsBack

variable {m : Mark}

-- a reader of contents calls the one of nodes, never itself, so unfolding it comes to an end
attribute [local simp] declaration?.eq_def statement?.eq_def expression?.eq_def

/-! ### Declarations -/

theorem declaration (storage : StorageClass) (name : String) :
    (Node.declaration m storage name).ReadsBack := by
  refine of_declaration (by rw [toJson]) fun depth hdepth => ?_
  obtain ⟨left, rfl, -⟩ := Json.exists_of_nesting_record hdepth
  have hrecord : (Json.obj [("class", .str storage.name), ("name", .str name)]).fields?
      ["class", "name"] 2 = some [some (.str storage.name), some (.str name)] :=
    Json.fields?_obj (by simp) 2
  simp [hrecord, required?, storage?_str, Json.asString?_str]

theorem parameter (name : String) : (Node.parameter m name).ReadsBack := by
  refine of_declaration (by rw [toJson]) fun depth hdepth => ?_
  obtain ⟨left, rfl, -⟩ := Json.exists_of_nesting_record hdepth
  have hrecord : (Json.obj [("name", .str name)]).fields? ["name"] 1 =
      some [some (.str name)] := Json.fields?_obj (by simp) 1
  simp [hrecord, required?, Json.asString?_str]

/-! ### Statements -/

theorem block {items : List Node} (hitems : ∀ n ∈ items, n.ReadsBack) :
    (Node.block m items).ReadsBack := by
  refine of_statement (by rw [toJson]) fun depth hdepth => ?_
  obtain ⟨left, rfl, hall⟩ := Json.exists_of_nesting_list hdepth
  have hread : (toJsonAll items).mapM (ofJson? left) = some items := mapM_toJson hitems hall
  simp [hread]

theorem ifElse {cond thenBranch : Node} {elseBranch : Option Node} (hcond : cond.ReadsBack)
    (hthen : thenBranch.ReadsBack) (helse : ∀ n ∈ elseBranch.toList, n.ReadsBack) :
    (Node.ifElse m cond thenBranch elseBranch).ReadsBack := by
  refine of_statement (by rw [toJson]) fun depth hdepth => ?_
  obtain ⟨left, rfl, hfields⟩ := Json.exists_of_nesting_record hdepth
  simp only [List.forall_mem_cons] at hfields
  obtain ⟨hcond', hthen', helse', -⟩ := hfields
  have hrecord : (Json.obj [("cond", toJson cond), ("then", toJson thenBranch),
      ("otherwise", toJsonOption elseBranch)]).fields? ["cond", "then", "otherwise"] 3 =
      some [some (toJson cond), some (toJson thenBranch), some (toJsonOption elseBranch)] :=
    Json.fields?_obj (by simp) 3
  simp [hrecord, required?, hcond left hcond', hthen left hthen',
    optional?_toJsonOption helse helse']

theorem whileLoop {cond body : Node} (hcond : cond.ReadsBack) (hbody : body.ReadsBack) :
    (Node.whileLoop m cond body).ReadsBack := by
  refine of_statement (by rw [toJson]) fun depth hdepth => ?_
  obtain ⟨left, rfl, hfields⟩ := Json.exists_of_nesting_record hdepth
  simp only [List.forall_mem_cons] at hfields
  obtain ⟨hcond', hbody', -⟩ := hfields
  have hrecord : (Json.obj [("cond", toJson cond), ("body", toJson body)]).fields?
      ["cond", "body"] 2 = some [some (toJson cond), some (toJson body)] :=
    Json.fields?_obj (by simp) 2
  simp [hrecord, required?, hcond left hcond', hbody left hbody']

theorem doLoop {body cond : Node} (hbody : body.ReadsBack) (hcond : cond.ReadsBack) :
    (Node.doLoop m body cond).ReadsBack := by
  refine of_statement (by rw [toJson]) fun depth hdepth => ?_
  obtain ⟨left, rfl, hfields⟩ := Json.exists_of_nesting_record hdepth
  simp only [List.forall_mem_cons] at hfields
  obtain ⟨hbody', hcond', -⟩ := hfields
  have hrecord : (Json.obj [("body", toJson body), ("cond", toJson cond)]).fields?
      ["body", "cond"] 2 = some [some (toJson body), some (toJson cond)] :=
    Json.fields?_obj (by simp) 2
  simp [hrecord, required?, hbody left hbody', hcond left hcond']

theorem forLoop {init cond step : Option Node} {body : Node}
    (hinit : ∀ n ∈ init.toList, n.ReadsBack) (hcond : ∀ n ∈ cond.toList, n.ReadsBack)
    (hstep : ∀ n ∈ step.toList, n.ReadsBack) (hbody : body.ReadsBack) :
    (Node.forLoop m init cond step body).ReadsBack := by
  refine of_statement (by rw [toJson]) fun depth hdepth => ?_
  obtain ⟨left, rfl, hfields⟩ := Json.exists_of_nesting_record hdepth
  simp only [List.forall_mem_cons] at hfields
  obtain ⟨hinit', hcond', hstep', hbody', -⟩ := hfields
  have hrecord : (Json.obj [("init", toJsonOption init), ("cond", toJsonOption cond),
      ("step", toJsonOption step), ("body", toJson body)]).fields?
      ["init", "cond", "step", "body"] 4 = some [some (toJsonOption init),
        some (toJsonOption cond), some (toJsonOption step), some (toJson body)] :=
    Json.fields?_obj (by simp) 4
  simp [hrecord, required?, optional?_toJsonOption hinit hinit',
    optional?_toJsonOption hcond hcond', optional?_toJsonOption hstep hstep', hbody left hbody']

theorem foreach {collection body : Node} (key : Option String) (value : String)
    (hcollection : collection.ReadsBack) (hbody : body.ReadsBack) :
    (Node.foreach m collection key value body).ReadsBack := by
  refine of_statement (by rw [toJson]) fun depth hdepth => ?_
  obtain ⟨left, rfl, hfields⟩ := Json.exists_of_nesting_record hdepth
  simp only [List.forall_mem_cons] at hfields
  obtain ⟨hcollection', -, -, hbody', -⟩ := hfields
  have hrecord : (Json.obj [("table", toJson collection), ("key", .ofOption .str key),
      ("value", .str value), ("body", toJson body)]).fields?
      ["table", "key", "value", "body"] 4 = some [some (toJson collection),
        some (.ofOption .str key), some (.str value), some (toJson body)] :=
    Json.fields?_obj (by simp) 4
  simp [hrecord, required?, Json.asString?_str, optional?_str,
    hcollection left hcollection', hbody left hbody']

theorem breakLoop : (Node.breakLoop m).ReadsBack := by
  refine of_statement (by rw [toJson]) fun depth _ => ?_
  simp

theorem continueLoop : (Node.continueLoop m).ReadsBack := by
  refine of_statement (by rw [toJson]) fun depth _ => ?_
  simp

theorem ret {value : Option Node} (hvalue : ∀ n ∈ value.toList, n.ReadsBack) :
    (Node.ret m value).ReadsBack := by
  refine of_statement (by rw [toJson]) fun depth hdepth => ?_
  obtain ⟨left, rfl, hnesting⟩ := Json.exists_of_nesting_variant hdepth
  cases value with
  | none =>
    rw [toJsonOption]
    simp
  | some value =>
    rw [toJsonOption] at hnesting ⊢
    have hread := hvalue value (by simp) left hnesting
    obtain ⟨fields, hobject⟩ := value.exists_toJson_eq
    rw [hobject] at hread ⊢
    have hunit : (Json.variant "Return" (.object fields)).unit? (left + 1) = none := rfl
    simp [hunit, hread]

/-! ### Expressions -/

theorem operation {op : Operator} {operands : List Node}
    (hoperands : ∀ n ∈ operands, n.ReadsBack) : (Node.operation m op operands).ReadsBack := by
  refine of_expression (by rw [toJson]) fun depth hdepth => ?_
  obtain ⟨left, rfl, hfields⟩ := Json.exists_of_nesting_record hdepth
  simp only [List.forall_mem_cons] at hfields
  obtain ⟨-, hnesting, -⟩ := hfields
  obtain ⟨left, rfl, hall⟩ := Json.exists_of_nesting_array hnesting
  have hrecord : (Json.obj [("op", .str op.name),
      ("operands", .array (toJsonAll operands))]).fields? ["op", "operands"] 2 =
      some [some (.str op.name), some (.array (toJsonAll operands))] :=
    Json.fields?_obj (by simp) 2
  have hread : (toJsonAll operands).mapM (ofJson? left) = some operands :=
    mapM_toJson hoperands hall
  simp [hrecord, required?, operator?_str, hread]

theorem constant {value : Constant} (hfloat : ∀ bits, value ≠ .float bits) :
    (Node.constant m value).ReadsBack := by
  refine of_expression (by rw [toJson]) fun depth hdepth => ?_
  obtain ⟨left, rfl, hvalue⟩ := Json.exists_of_nesting_variant hdepth
  have hread : constant? left (constantJson value) = some value :=
    constant?_constantJson hfloat hvalue
  have hunit := Json.unit?_variant (constantJson_ne_null value) (left + 1) "Constant"
  simp [hunit, hread]

theorem identifier (name : String) : (Node.identifier m name).ReadsBack := by
  refine of_expression (by rw [toJson]) fun depth hdepth => ?_
  obtain ⟨left, rfl, -⟩ := Json.exists_of_nesting_variant hdepth
  have hunit : (Json.variant "Identifier" (.str name)).unit? (left + 1) = none := rfl
  simp [hunit]

theorem call {callee : Node} {args : List Node} {receiver : Option Node}
    (hcallee : callee.ReadsBack) (hargs : ∀ n ∈ args, n.ReadsBack)
    (hreceiver : ∀ n ∈ receiver.toList, n.ReadsBack) :
    (Node.call m callee args receiver).ReadsBack := by
  refine of_expression (by rw [toJson]) fun depth hdepth => ?_
  obtain ⟨left, rfl, hfields⟩ := Json.exists_of_nesting_record hdepth
  simp only [List.forall_mem_cons] at hfields
  obtain ⟨hcallee', hargs', hreceiver', -⟩ := hfields
  obtain ⟨left, rfl, hall⟩ := Json.exists_of_nesting_array hargs'
  have hrecord : (Json.obj [("callee", toJson callee), ("args", .array (toJsonAll args)),
      ("receiver", toJsonOption receiver)]).fields? ["callee", "args", "receiver"] 3 =
      some [some (toJson callee), some (.array (toJsonAll args)),
        some (toJsonOption receiver)] := Json.fields?_obj (by simp) 3
  have hread : (toJsonAll args).mapM (ofJson? left) = some args := mapM_toJson hargs hall
  simp [hrecord, required?, hcallee (left + 1) hcallee',
    optional?_toJsonOption hreceiver hreceiver', hread]

theorem this : (Node.this m).ReadsBack := by
  refine of_expression (by rw [toJson]) fun depth _ => ?_
  simp

theorem function {params : List Node} {body : Node} (hparams : ∀ n ∈ params, n.ReadsBack)
    (hbody : body.ReadsBack) : (Node.function m params body).ReadsBack := by
  refine of_expression (by rw [toJson]) fun depth hdepth => ?_
  obtain ⟨left, rfl, hfields⟩ := Json.exists_of_nesting_record hdepth
  simp only [List.forall_mem_cons] at hfields
  obtain ⟨hparams', hbody', -⟩ := hfields
  obtain ⟨left, rfl, hall⟩ := Json.exists_of_nesting_array hparams'
  have hrecord : (Json.obj [("params", .array (toJsonAll params)),
      ("body", toJson body)]).fields? ["params", "body"] 2 =
      some [some (.array (toJsonAll params)), some (toJson body)] :=
    Json.fields?_obj (by simp) 2
  have hread : (toJsonAll params).mapM (ofJson? left) = some params := mapM_toJson hparams hall
  simp [hrecord, required?, hbody (left + 1) hbody', hread]

theorem table {fields : List Node} (hfields : ∀ n ∈ fields, n.ReadsBack) :
    (Node.table m fields).ReadsBack := by
  refine of_expression (by rw [toJson]) fun depth hdepth => ?_
  obtain ⟨left, rfl, hall⟩ := Json.exists_of_nesting_list hdepth
  have hread : (toJsonAll fields).mapM (ofJson? left) = some fields := mapM_toJson hfields hall
  simp [hread]

end ReadsBack

/-- A tree without floats is read back. -/
theorem readsBack (n : Node) (hfloat : n.FloatFree) : n.ReadsBack := by
  induction n using Node.induction_below with
  | h n ih =>
    have below {m : Node} (hm : m ∈ n.children) : m.ReadsBack := ih hm (hfloat.child hm)
    cases n with
    | declaration m storage name => exact .declaration storage name
    | parameter m name => exact .parameter name
    | block m items => exact .block fun n hn => below hn
    | ifElse m cond thenBranch elseBranch =>
      exact .ifElse (below (by simp [children])) (below (by simp [children]))
        fun n hn => below (by simp [children, hn])
    | whileLoop m cond body =>
      exact .whileLoop (below (by simp [children])) (below (by simp [children]))
    | doLoop m body cond =>
      exact .doLoop (below (by simp [children])) (below (by simp [children]))
    | forLoop m init cond step body =>
      exact .forLoop (fun n hn => below (by simp [children, hn]))
        (fun n hn => below (by simp [children, hn])) (fun n hn => below (by simp [children, hn]))
        (below (by simp [children]))
    | foreach m collection key value body =>
      exact .foreach key value (below (by simp [children])) (below (by simp [children]))
    | breakLoop m => exact .breakLoop
    | continueLoop m => exact .continueLoop
    | ret m value => exact .ret fun n hn => below hn
    | operation m op operands => exact .operation fun n hn => below hn
    | constant m value =>
      refine .constant ?_
      rintro bits rfl
      exact hfloat (.self _)
    | identifier m name => exact .identifier name
    | call m callee args receiver =>
      exact .call (below (by simp [children])) (fun n hn => below (by simp [children, hn]))
        fun n hn => below (by simp [children, hn])
    | this m => exact .this
    | function m params body =>
      exact .function (fun n hn => below (by simp [children, hn])) (below (by simp [children]))
    | table m fields => exact .table fun n hn => below hn

theorem readable_marked {kind : String} {m : Mark} {content : Json} :
    (markedJson kind m content).Readable ↔ content.Readable := by
  simp [markedJson, Json.word32]

theorem readable_toJsonAll {items : List Node} :
    (∀ v ∈ toJsonAll items, v.Readable) ↔ ∀ n ∈ items, n.toJson.Readable := by
  rw [toJsonAll_eq]
  simp

theorem readable_toJsonOption {o : Option Node} (h : ∀ n ∈ o.toList, n.toJson.Readable) :
    (toJsonOption o).Readable := by
  cases o with
  | none =>
    rw [toJsonOption]
    trivial
  | some n =>
    rw [toJsonOption]
    exact h n (by simp)

/-- The JSON form of a tree without floats is readable. -/
theorem readable_toJson (n : Node) (hfloat : n.FloatFree) : n.toJson.Readable := by
  induction n using Node.induction_below with
  | h n ih =>
    have below {m : Node} (hm : m ∈ n.children) : m.toJson.Readable := ih hm (hfloat.child hm)
    have all {items : List Node} (h : ∀ m ∈ items, m ∈ n.children) :
        ∀ v ∈ toJsonAll items, v.Readable :=
      readable_toJsonAll.mpr fun m hm => below (h m hm)
    have option {o : Option Node} (h : ∀ m ∈ o.toList, m ∈ n.children) :
        (toJsonOption o).Readable :=
      readable_toJsonOption fun m hm => below (h m hm)
    cases n with
    | declaration m storage name => simp [toJson, readable_marked]
    | parameter m name => simp [toJson, readable_marked]
    | block m items =>
      have hall : ∀ v ∈ toJsonAll items, v.Readable := all fun k hk => hk
      simpa [toJson, readable_marked] using hall
    | ifElse m cond thenBranch elseBranch =>
      have helse : (toJsonOption elseBranch).Readable := option fun k hk => by simp [children, hk]
      have hcond : cond.toJson.Readable := below (by simp [children])
      have hthen : thenBranch.toJson.Readable := below (by simp [children])
      simp [toJson, readable_marked, hcond, hthen, helse]
    | whileLoop m cond body =>
      have hcond : cond.toJson.Readable := below (by simp [children])
      have hbody : body.toJson.Readable := below (by simp [children])
      simp [toJson, readable_marked, hcond, hbody]
    | doLoop m body cond =>
      have hcond : cond.toJson.Readable := below (by simp [children])
      have hbody : body.toJson.Readable := below (by simp [children])
      simp [toJson, readable_marked, hcond, hbody]
    | forLoop m init cond step body =>
      have hinit : (toJsonOption init).Readable := option fun k hk => by simp [children, hk]
      have hcond : (toJsonOption cond).Readable := option fun k hk => by simp [children, hk]
      have hstep : (toJsonOption step).Readable := option fun k hk => by simp [children, hk]
      have hbody : body.toJson.Readable := below (by simp [children])
      simp [toJson, readable_marked, hinit, hcond, hstep, hbody]
    | foreach m collection key value body =>
      have hcollection : collection.toJson.Readable := below (by simp [children])
      have hkey : (Json.ofOption Json.str key).Readable := by cases key <;> trivial
      have hbody : body.toJson.Readable := below (by simp [children])
      simp [toJson, readable_marked, hcollection, hkey, hbody]
    | breakLoop m => simp [toJson, readable_marked]
    | continueLoop m => simp [toJson, readable_marked]
    | ret m value =>
      have hvalue : (toJsonOption value).Readable := option fun k hk => by simp [children, hk]
      simp [toJson, readable_marked, hvalue]
    | operation m op operands =>
      have hall : ∀ v ∈ toJsonAll operands, v.Readable := all fun k hk => hk
      simpa [toJson, readable_marked] using hall
    | constant m value =>
      have hvalue : (constantJson value).Readable := by
        cases value with
        | float bits => exact absurd (.self _) hfloat
        | _ => simp [constantJson]
      simp [toJson, readable_marked, hvalue]
    | identifier m name => simp [toJson, readable_marked]
    | call m callee args receiver =>
      have hcallee : callee.toJson.Readable := below (by simp [children])
      have hreceiver : (toJsonOption receiver).Readable := option fun k hk => by simp [children, hk]
      have hargs : ∀ v ∈ toJsonAll args, v.Readable := all fun k hk => by simp [children, hk]
      simpa [toJson, readable_marked, hcallee, hreceiver] using hargs
    | this m => simp [toJson, readable_marked]
    | function m params body =>
      have hbody : body.toJson.Readable := below (by simp [children])
      have hparams : ∀ v ∈ toJsonAll params, v.Readable := all fun k hk => by simp [children, hk]
      simpa [toJson, readable_marked, hbody] using hparams
    | table m fields =>
      have hall : ∀ v ∈ toJsonAll fields, v.Readable := all fun k hk => hk
      simpa [toJson, readable_marked] using hall

/--
The JSON text of a tree is read as the tree, whatever its strings, lines and flags, as long as it
has no float and nests arrays and objects no deeper than the reader goes.
-/
theorem trees_round_trip {n : Node} (hfloat : n.FloatFree) (hnesting : n.toJson.nesting ≤ 127) :
    ofText? n.toText = some n := by
  rw [ofText?, toText, Json.parse?_render (n.readable_toJson hfloat)]
  exact n.readsBack hfloat maxDepth hnesting

/-- A tree with escapes in its strings, flags without a name and parts that are missing. -/
def annotatedTree : Node :=
  .block { line := 4294967295, flags := ⟨0xA4⟩ } [
    .foreach { line := 1 } (.table {} [.operation { flags := ⟨3⟩ } .assignField [
        .identifier {} "a\x00\"\\\n", .constant {} .null]])
      (some "clé") "𝄞" (.block {} [.breakLoop {}]),
    .forLoop {} none none (some (.constant {} (.int (-2147483648)))) (.ret {} none),
    .operation { flags := .popResult } .add []]

theorem trees_round_trip_annotated : ofText? annotatedTree.toText = some annotatedTree :=
  have hfloat : annotatedTree.FloatFree := by decide +kernel
  have hnesting : annotatedTree.toJson.nesting ≤ 127 := by decide +kernel
  trees_round_trip hfloat hnesting

end Node

end ScriptToolchain
