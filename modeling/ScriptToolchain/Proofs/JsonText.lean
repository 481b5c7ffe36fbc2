import ScriptToolchain.Json.Printer
import ScriptToolchain.Proofs.Numerals

/-!
# JSON texts are read back

The text of a value is read as that value, strings with any characters
included. The reader is bounded by twice the length of the text; the induction
over the value shows that every level of it gets by with that.
-/

namespace ScriptToolchain.Json

/-! ## Strings -/

/-- A code unit that is no surrogate stands for a character alone. -/
theorem chars?_unit {u : Nat} (hleading : isLeading u = false) (htrailing : isTrailing u = false)
    (ps : List Piece) : chars? (.unit u :: ps) = (chars? ps).map (Char.ofNat u :: ·) := by
  rcases ps with _ | ⟨_ | _, ps⟩ <;> simp [chars?, hleading, htrailing]

/-- The number of a control character in base 16 is read back. -/
theorem hexUnit?_hexPadded : ∀ n < 32,
    (Text.hexPadded 4 n).toList = ['0', '0', (n / 16).digitChar, (n % 16).digitChar] ∧
      hexUnit? '0' '0' (n / 16).digitChar (n % 16).digitChar = some n := by
  decide +kernel

/-- A character is written as one piece, which stands for it. -/
theorem pieces?_escape (c : Char) : ∃ p : Piece,
    (∀ rest, pieces? ((escape c).toList ++ rest) =
      (pieces? rest).map fun (ps, rest) => (p :: ps, rest)) ∧
    ∀ ps, chars? (p :: ps) = (chars? ps).map (c :: ·) := by
  by_cases hletter : c ∈ ['"', '\\', '\x08', '\x0c', '\n', '\r', '\t']
  · refine ⟨.char c, fun rest => ?_, fun ps => rfl⟩
    simp only [List.mem_cons, List.not_mem_nil, or_false] at hletter
    rcases hletter with rfl | rfl | rfl | rfl | rfl | rfl | rfl <;>
      simp [escape, pieces?, escaped?] <;> cases pieces? rest <;> rfl
  simp only [List.mem_cons, List.not_mem_nil, or_false, not_or] at hletter
  obtain ⟨hquote, hslash, hbackspace, hfeed, hline, hreturn, htab⟩ := hletter
  by_cases hcontrol : c < ' '
  · have hlt : c.toNat < 32 := hcontrol
    obtain ⟨hdigits, hunit⟩ := hexUnit?_hexPadded c.toNat hlt
    have htext : (escape c).toList =
        ['\\', 'u', '0', '0', (c.toNat / 16).digitChar, (c.toNat % 16).digitChar] := by
      simp [escape, hquote, hslash, hbackspace, hfeed, hline, hreturn, htab, hcontrol, hdigits]
    refine ⟨.unit c.toNat, fun rest => ?_, fun ps => ?_⟩
    · rw [htext]
      simp [pieces?, hunit]
      cases pieces? rest <;> rfl
    · have hleading : isLeading c.toNat = false := by
        simp [isLeading]
        omega
      have htrailing : isTrailing c.toNat = false := by
        simp [isTrailing]
        omega
      rw [chars?_unit hleading htrailing, Char.ofNat_toNat]
  · have htext : (escape c).toList = [c] := by
      simp [escape, hquote, hslash, hbackspace, hfeed, hline, hreturn, htab, hcontrol]
    refine ⟨.char c, fun rest => ?_, fun ps => rfl⟩
    rw [htext, List.singleton_append, pieces?]
    · simp [hcontrol, hslash]
      cases pieces? rest <;> rfl
    all_goals simp [hquote, hslash]

/-- What stands between the quotes is read up to the quote that ends it. -/
theorem pieces?_escaped (cs : List Char) (rest : List Char) :
    ∃ ps, pieces? ((String.join (cs.map escape)).toList ++ '"' :: rest) = some (ps, rest) ∧
      chars? ps = some cs := by
  induction cs with
  | nil => exact ⟨[], rfl, rfl⟩
  | cons c cs ih =>
    obtain ⟨ps, hread, hchars⟩ := ih
    obtain ⟨p, hpiece, hstands⟩ := pieces?_escape c
    refine ⟨p :: ps, ?_, ?_⟩
    · rw [List.map_cons, String.join_cons, String.toList_append, List.append_assoc, hpiece, hread]
      rfl
    · rw [hstands, hchars]
      rfl

/-- The text of a string is a quote and what is read as the string. -/
theorem string?_quote (s : Option String) : ∃ text, (quote s).toList = '"' :: text ∧
    ∀ rest, string? (text ++ rest) = some (s, rest) := by
  cases s with
  | none =>
    refine ⟨['\\', 'u', 'd', '8', '0', '0', '"'], by simp [quote], fun rest => ?_⟩
    have hunit : hexUnit? 'd' '8' '0' '0' = some 0xD800 := by decide
    simp [string?, pieces?, hunit, chars?, isLeading]
  | some s =>
    refine ⟨(String.join (s.toList.map escape)).toList ++ ['"'], ?_, fun rest => ?_⟩
    · simp [quote]
    · obtain ⟨ps, hread, hchars⟩ := pieces?_escaped s.toList rest
      rw [List.append_assoc, List.singleton_append, string?, hread]
      simp [hchars]

/-! ## Values -/

mutual

/-- A reader takes every number of the value. -/
def Readable : Json → Prop
  | .number n => Digit.Leads n.whole
  | .array items => ReadableItems items
  | .object fields => ReadableFields fields
  | _ => True

/-- All items are readable. -/
def ReadableItems : List Json → Prop
  | [] => True
  | v :: rest => v.Readable ∧ ReadableItems rest

/-- All fields are readable. -/
def ReadableFields : List (Option String × Json) → Prop
  | [] => True
  | (_, v) :: rest => v.Readable ∧ ReadableFields rest

end

/-- The text starts with a character of a value, or of a field. -/
def Starts (s : List Char) : Prop :=
  ∃ c rest, s = c :: rest ∧ isBlank c = false ∧ c ≠ ']' ∧ c ≠ '\x7d'

theorem Starts.append {s : List Char} (h : Starts s) (rest : List Char) : Starts (s ++ rest) := by
  obtain ⟨c, s, rfl, hc⟩ := h
  exact ⟨c, s ++ rest, rfl, hc⟩

theorem skipBlanks_cons {c : Char} (h : isBlank c = false) (s : List Char) :
    skipBlanks (c :: s) = c :: s :=
  List.dropWhile_cons_of_neg (by rw [h]; exact Bool.false_ne_true)

theorem Starts.skipBlanks {s : List Char} (h : Starts s) : skipBlanks s = s := by
  obtain ⟨c, s, rfl, hc, -⟩ := h
  exact skipBlanks_cons hc s

/-- A numeral starts with a sign or a digit. -/
theorem text_eq_cons {n : Numeral} (h : Digit.Leads n.whole) :
    ∃ c s, n.text.toList = c :: s ∧ (c = '-' ∨ ∃ d : Digit, c = d.toChar) := by
  rw [toList_text]
  cases n.negative with
  | true => exact ⟨'-', _, rfl, .inl rfl⟩
  | false =>
    obtain ⟨d, ds, hds⟩ := List.exists_cons_of_ne_nil h.ne_nil
    rw [hds]
    exact ⟨d.toChar, _, rfl, .inr ⟨d, rfl⟩⟩

theorem toList_array (items : List Json) : (array items).render.toList =
    '[' :: ((",".intercalate (renderItems items)).toList ++ [']']) := by
  rw [render, String.toList_append, String.toList_append]
  rfl

theorem toList_object (fields : List (Option String × Json)) : (object fields).render.toList =
    '\x7b' :: ((",".intercalate (renderFields fields)).toList ++ ['\x7d']) := by
  rw [render, String.toList_append, String.toList_append]
  rfl

theorem starts_render {v : Json} (h : v.Readable) : Starts v.render.toList := by
  cases v with
  | null => exact ⟨'n', _, rfl, by decide⟩
  | bool b => cases b <;> exact ⟨_, _, rfl, by decide⟩
  | number n =>
    obtain ⟨c, s, htext, hc⟩ := text_eq_cons h
    refine ⟨c, s, htext, ?_⟩
    rcases hc with rfl | ⟨d, rfl⟩
    · decide
    · clear htext
      revert d
      decide
  | text s =>
    obtain ⟨text, hquote, -⟩ := string?_quote s
    exact ⟨'"', text, hquote, by decide⟩
  | array items => exact ⟨'[', _, toList_array items, by decide⟩
  | object fields => exact ⟨'\x7b', _, toList_object fields, by decide⟩

/-- A number is read where no other value starts. -/
theorem value?_number {n : Numeral} (h : Digit.Leads n.whole) {rest : List Char}
    (hrest : NumberEnds rest) (fuel : Nat) :
    value? (fuel + 1) (n.text.toList ++ rest) = some (.number n, rest) := by
  have hread := number?_text h hrest
  have hstarts : Starts n.text.toList := starts_render (v := .number n) h
  have hblanks := (hstarts.append rest).skipBlanks
  obtain ⟨c, s, htext, hc⟩ := text_eq_cons h
  rw [htext, List.cons_append] at hread hblanks ⊢
  have hother : c ≠ '\x7b' ∧ c ≠ '[' ∧ c ≠ '"' ∧ c ≠ 't' ∧ c ≠ 'f' ∧ c ≠ 'n' := by
    clear hstarts htext hread hblanks
    rcases hc with rfl | ⟨d, rfl⟩
    · decide
    · revert d
      decide
  rw [value?.eq_def]
  simp [hblanks, hother, hread]

/-- What stands behind a bracket is read as items. -/
theorem value?_array {s : List Char} (h : Starts s) (fuel : Nat) :
    value? (fuel + 1) ('[' :: s) =
      (elements? fuel s).map fun (items, rest) => (.array items, rest) := by
  obtain ⟨c, rest, rfl, hblank, hend, -⟩ := h
  rw [value?.eq_def]
  simp [skipBlanks_cons hblank, skipBlanks_cons (show isBlank '[' = false by decide), hend]

/-- What stands behind a brace is read as fields. -/
theorem value?_object {s : List Char} (h : Starts s) (fuel : Nat) :
    value? (fuel + 1) ('\x7b' :: s) =
      (members? fuel s).map fun (fields, rest) => (.object fields, rest) := by
  obtain ⟨c, rest, rfl, hblank, -, hend⟩ := h
  rw [value?.eq_def]
  simp [skipBlanks_cons hblank, skipBlanks_cons (show isBlank '\x7b' = false by decide), hend]

/-- Items end with a bracket or go on behind a comma. -/
theorem elements?_value {fuel : Nat} {s rest : List Char} {v : Json} {c : Char}
    (h : value? fuel s = some (v, c :: rest)) (hc : c = ']' ∨ c = ',') :
    elements? (fuel + 1) s =
      if c = ']' then some ([v], rest)
      else (elements? fuel rest).map fun (vs, rest) => (v :: vs, rest) := by
  rw [elements?, h]
  rcases hc with rfl | rfl
  · simp [skipBlanks_cons (show isBlank ']' = false by decide)]
  · simp [skipBlanks_cons (show isBlank ',' = false by decide)]
    cases elements? fuel rest <;> rfl

/-- Fields end with a brace or go on behind a comma. -/
theorem members?_value {fuel : Nat} {text s rest : List Char} {name : Option String} {v : Json}
    {c : Char} (hname : string? text = some (name, ':' :: s))
    (h : value? fuel s = some (v, c :: rest)) (hc : c = '\x7d' ∨ c = ',') :
    members? (fuel + 1) ('"' :: text) =
      if c = '\x7d' then some ([(name, v)], rest)
      else (members? fuel rest).map fun (fields, rest) => ((name, v) :: fields, rest) := by
  rw [members?, skipBlanks_cons (by decide)]
  simp only [hname, bind, Option.bind, skipBlanks_cons (show isBlank ':' = false by decide), h]
  rcases hc with rfl | rfl
  · simp [skipBlanks_cons (show isBlank '\x7d' = false by decide)]
  · simp [skipBlanks_cons (show isBlank ',' = false by decide)]
    cases members? fuel rest <;> rfl

/-- A number ends in front of what stands behind an item or a field. -/
theorem numberEnds_cons {c : Char} (h : c = ',' ∨ c = ']' ∨ c = '\x7d') (rest : List Char) :
    NumberEnds (c :: rest) := by
  rcases h with rfl | rfl | rfl <;>
    exact ⟨fun c hc => by cases hc; decide, nofun, nofun, nofun⟩

theorem toList_intercalate_cons (s t : String) (rest : List String) :
    (",".intercalate (s :: t :: rest)).toList =
      s.toList ++ ',' :: (",".intercalate (t :: rest)).toList := by
  rw [String.intercalate_cons_cons, String.toList_append, String.toList_append, List.append_assoc]
  rfl

theorem Starts.intercalate {s : String} (h : Starts s.toList) (rest : List String) :
    Starts (",".intercalate (s :: rest)).toList := by
  cases rest with
  | nil => rwa [String.intercalate_singleton]
  | cons t rest =>
    rw [toList_intercalate_cons]
    exact h.append _

/-- The text of a field is a name behind a quote, a colon and a value. -/
theorem toList_field (name : Option String) (v : Json) : ∃ text,
    (quote name ++ ":" ++ render v).toList = '"' :: (text ++ ':' :: v.render.toList) ∧
      ∀ rest, string? (text ++ rest) = some (name, rest) := by
  obtain ⟨text, hquote, hread⟩ := string?_quote name
  refine ⟨text, ?_, hread⟩
  rw [String.toList_append, String.toList_append, hquote, List.append_assoc]
  rfl

theorem word?_append (word : String) (rest : List Char) :
    word? word (word.toList ++ rest) = some rest := by
  rw [word?, if_pos (List.isPrefixOf_iff_prefix.mpr (List.prefix_append _ _)),
    ← String.length_toList, List.drop_left]

mutual

/-- The text of a value is read as the value, with fuel for twice its length. -/
theorem value?_render : (v : Json) → v.Readable → ∀ {fuel : Nat} {rest : List Char},
    2 * v.render.toList.length ≤ fuel → NumberEnds rest →
      value? fuel (v.render.toList ++ rest) = some (v, rest)
  | v, h, 0, rest, hfuel, _ => by
    obtain ⟨c, s, hs, -⟩ := starts_render h
    rw [hs, List.length_cons] at hfuel
    omega
  | .null, _, fuel + 1, rest, _, _ => by
    have htext : null.render.toList ++ rest = 'n' :: ("ull".toList ++ rest) := by
      rw [render]
      rfl
    rw [htext, value?, skipBlanks_cons (by decide)]
    simp only [word?_append, Option.map_some]
  | .bool true, _, fuel + 1, rest, _, _ => by
    have htext : (bool true).render.toList ++ rest = 't' :: ("rue".toList ++ rest) := by
      rw [render]
      rfl
    rw [htext, value?, skipBlanks_cons (by decide)]
    simp only [word?_append, Option.map_some]
  | .bool false, _, fuel + 1, rest, _, _ => by
    have htext : (bool false).render.toList ++ rest = 'f' :: ("alse".toList ++ rest) := by
      rw [render]
      rfl
    rw [htext, value?, skipBlanks_cons (by decide)]
    simp only [word?_append, Option.map_some]
  | .number n, h, fuel + 1, rest, _, hrest => value?_number h hrest fuel
  | .text s, _, fuel + 1, rest, _, _ => by
    obtain ⟨text, hquote, hread⟩ := string?_quote s
    rw [render, hquote, List.cons_append, value?, skipBlanks_cons (by decide)]
    simp [hread]
  | .array [], _, fuel + 1, rest, _, _ => by
    simp [render, renderItems, value?.eq_def, skipBlanks_cons (show isBlank '[' = false by decide),
      skipBlanks_cons (show isBlank ']' = false by decide)]
  | .array (v :: vs), h, fuel + 1, rest, hfuel, _ => by
    rw [toList_array, List.length_cons, List.length_append, List.length_singleton] at hfuel
    have hstarts : Starts (",".intercalate (renderItems (v :: vs))).toList :=
      (starts_render h.1).intercalate (renderItems vs)
    rw [toList_array, List.cons_append, List.append_assoc, value?_array (hstarts.append _),
      List.singleton_append, elements?_render (v :: vs) (List.cons_ne_nil _ _) h (by omega)]
    rfl
  | .object [], _, fuel + 1, rest, _, _ => by
    simp [render, renderFields, value?.eq_def,
      skipBlanks_cons (show isBlank '\x7b' = false by decide),
      skipBlanks_cons (show isBlank '\x7d' = false by decide)]
  | .object ((name, v) :: fields), h, fuel + 1, rest, hfuel, _ => by
    rw [toList_object, List.length_cons, List.length_append, List.length_singleton] at hfuel
    obtain ⟨text, hfield, -⟩ := toList_field name v
    have hstarts : Starts (quote name ++ ":" ++ render v).toList := ⟨'"', _, hfield, by decide⟩
    have hall : Starts (",".intercalate (renderFields ((name, v) :: fields))).toList :=
      hstarts.intercalate (renderFields fields)
    rw [toList_object, List.cons_append, List.append_assoc, value?_object (hall.append _),
      List.singleton_append,
      members?_render ((name, v) :: fields) (List.cons_ne_nil _ _) h (by omega)]
    rfl

theorem elements?_render : (items : List Json) → items ≠ [] → ReadableItems items →
    ∀ {fuel : Nat} {rest : List Char},
      2 * (",".intercalate (renderItems items)).toList.length + 1 ≤ fuel →
        elements? fuel ((",".intercalate (renderItems items)).toList ++ ']' :: rest) =
          some (items, rest)
  | [], hne, _, _, _, _ => absurd rfl hne
  | [v], _, h, fuel + 1, rest, hfuel => by
    rw [renderItems, renderItems, String.intercalate_singleton] at hfuel ⊢
    have hread := value?_render v h.1 (by omega : 2 * v.render.toList.length ≤ fuel)
      (numberEnds_cons (.inr (.inl rfl)) rest)
    rw [elements?_value hread (.inl rfl), if_pos rfl]
  | v :: w :: vs, _, h, fuel + 1, rest, hfuel => by
    have htext := toList_intercalate_cons v.render w.render (renderItems vs)
    rw [renderItems, renderItems, htext, List.length_append, List.length_cons] at hfuel
    rw [renderItems, renderItems, htext, List.append_assoc, List.cons_append]
    have hread := value?_render v h.1 (by omega : 2 * v.render.toList.length ≤ fuel)
      (numberEnds_cons (.inl rfl)
        ((",".intercalate (renderItems (w :: vs))).toList ++ ']' :: rest))
    have hfuel' : 2 * (",".intercalate (renderItems (w :: vs))).toList.length + 1 ≤ fuel := by
      rw [renderItems]
      omega
    have hrest : elements? fuel ((",".intercalate (renderItems (w :: vs))).toList ++ ']' :: rest) =
        some (w :: vs, rest) := elements?_render (w :: vs) (List.cons_ne_nil _ _) h.2 hfuel'
    rw [renderItems] at hread hrest
    rw [elements?_value hread (.inr rfl), if_neg (by decide), hrest]
    rfl

theorem members?_render : (fields : List (Option String × Json)) → fields ≠ [] →
    ReadableFields fields → ∀ {fuel : Nat} {rest : List Char},
      2 * (",".intercalate (renderFields fields)).toList.length + 1 ≤ fuel →
        members? fuel ((",".intercalate (renderFields fields)).toList ++ '\x7d' :: rest) =
          some (fields, rest)
  | [], hne, _, _, _, _ => absurd rfl hne
  | [(name, v)], _, h, fuel + 1, rest, hfuel => by
    obtain ⟨text, hfield, hname⟩ := toList_field name v
    rw [renderFields, renderFields, String.intercalate_singleton, hfield] at hfuel ⊢
    rw [List.length_cons, List.length_append, List.length_cons] at hfuel
    rw [List.cons_append, List.append_assoc, List.cons_append]
    have hread := value?_render v h.1 (by omega : 2 * v.render.toList.length ≤ fuel)
      (numberEnds_cons (.inr (.inr rfl)) rest)
    rw [members?_value (hname _) hread (.inl rfl), if_pos rfl]
  | (name, v) :: (name', w) :: fields, _, h, fuel + 1, rest, hfuel => by
    obtain ⟨text, hfield, hname⟩ := toList_field name v
    have htext := toList_intercalate_cons (quote name ++ ":" ++ render v)
      (quote name' ++ ":" ++ render w) (renderFields fields)
    rw [renderFields, renderFields, htext, hfield, List.length_append, List.length_cons,
      List.length_append, List.length_cons, List.length_cons] at hfuel
    rw [renderFields, renderFields, htext, hfield, List.append_assoc, List.cons_append,
      List.append_assoc, List.cons_append, List.cons_append]
    have hread := value?_render v h.1 (by omega : 2 * v.render.toList.length ≤ fuel)
      (numberEnds_cons (.inl rfl)
        ((",".intercalate (renderFields ((name', w) :: fields))).toList ++ '\x7d' :: rest))
    have hfuel' :
        2 * (",".intercalate (renderFields ((name', w) :: fields))).toList.length + 1 ≤ fuel := by
      rw [renderFields]
      omega
    have hrest : members? fuel
        ((",".intercalate (renderFields ((name', w) :: fields))).toList ++ '\x7d' :: rest) =
          some ((name', w) :: fields, rest) :=
      members?_render ((name', w) :: fields) (List.cons_ne_nil _ _) h.2 hfuel'
    rw [renderFields] at hread hrest
    rw [members?_value (hname _) hread (.inr rfl), if_neg (by decide), hrest]
    rfl

end

/-- The text of a value is read back. -/
theorem parse?_render {v : Json} (h : v.Readable) : parse? v.render = some v := by
  have hread := value?_render v h (Nat.le_succ (2 * v.render.toList.length)) numberEnds_nil
  rw [List.append_nil] at hread
  rw [parse?]
  simp only [hread]
  rfl

end ScriptToolchain.Json
