import ScriptToolchain.Json.Number

/-!
# Stored values

How values are stored as JSON: a record is an object, a choice between
variants is the name of the variant with its content, and a variant without
content is the name alone.
-/

namespace ScriptToolchain.Json

/-! ## Writing -/

/-- A 32-bit word. -/
def word32 (w : UInt32) : Json :=
  .int w.toNat

/-- A variant with its content. -/
def variant (name : String) (content : Json) : Json :=
  .obj [(name, content)]

/-- A variant whose content is a record. -/
def variantOf (name : String) (fields : List (String × Json)) : Json :=
  variant name (.obj fields)

/-! ## Reading -/

/-- The string of a value. -/
def asString? : Json → Option String
  | .text s => s
  | _ => none

/-- A truth value. -/
def asBool? : Json → Option Bool
  | .bool b => some b
  | _ => none

/-- A 32-bit word. -/
def asWord32? (v : Json) : Option UInt32 :=
  (v.intBetween? 0 0xFFFFFFFF).map fun i => i.toNat.toUInt32

/-- What stands in an optional field, which may be missing or null. -/
def optional? {α : Type} (read : Json → Option α) : Option Json → Option (Option α)
  | none | some .null => some none
  | some v => (read v).map some

/-- What stands in a field that has to be there. -/
def required? {α : Type} (read : Json → Option α) : Option Json → Option α
  | none => none
  | some v => read v

/-- The values of the named fields, all of which have to be there. -/
def record? (names : List String) (v : Json) : Option (List Json) :=
  (v.fields? names names.length).bind fun values => values.mapM id

/-- A variant without content. Its name may stand alone, or with null within one more level. -/
def unit? (depth : Nat) (v : Json) : Option String :=
  match v.variant? with
  | some (name, none) => some name
  | some (name, some .null) => if depth = 0 then none else some name
  | _ => none

end ScriptToolchain.Json
