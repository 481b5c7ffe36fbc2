import ScriptToolchain.Number.Numeral

/-!
# JSON values

A value keeps what its text says: numbers as numerals, the fields of an object
in their order and as often as they are written. A text whose escapes leave a
surrogate unpaired stands for no string; it is valid JSON all the same, and a
reader that skips the value may pass over it.
-/

namespace ScriptToolchain

/-- A JSON value; the string of a text or a field name is `none` if a surrogate is unpaired. -/
inductive Json where
  | null
  | bool (b : Bool)
  | number (n : Numeral)
  | text (s : Option String)
  | array (items : List Json)
  | object (fields : List (Option String × Json))
deriving Repr, Inhabited

namespace Json

/-- The value of a string. -/
def str (s : String) : Json :=
  .text (some s)

/-- The value of an integer. -/
def int (i : Int) : Json :=
  .number (.ofInt i)

/-- An object with these fields. -/
def obj (fields : List (String × Json)) : Json :=
  .object (fields.map fun (name, v) => (some name, v))

/-- The value under `none` is null. -/
def ofOption {α : Type} (f : α → Json) : Option α → Json
  | none => .null
  | some a => f a

/-- The values of the fields with this name. -/
def valuesOf (name : String) (fields : List (Option String × Json)) : List Json :=
  (fields.filter (·.1 = some name)).map (·.2)

/--
The values of the named fields, `none` for one that is missing. In an object every field name is a
string, a field of another name is passed over and none of the names is repeated. In place of an
object an array may hold the values in the order of the names, the first `required` of them at
least and nothing behind them.
-/
def fields? (names : List String) (required : Nat) : Json → Option (List (Option Json))
  | .object fields =>
    if fields.all (·.1.isSome) && names.all (fun n => (valuesOf n fields).length ≤ 1) then
      some (names.map fun n => (valuesOf n fields).head?)
    else none
  | .array items =>
    if required ≤ items.length && items.length ≤ names.length then
      some (items.map some ++ List.replicate (names.length - items.length) none)
    else none
  | _ => none

/-- The name of a variant and its content: a string alone, or an object with one field. -/
def variant? : Json → Option (String × Option Json)
  | .text (some name) => some (name, none)
  | .object [(some name, content)] => some (name, some content)
  | _ => none

end Json

end ScriptToolchain
