import ScriptToolchain.Json.Value
import ScriptToolchain.Text.Digits

/-!
# Writing JSON

The text of a value without blanks. In a string the quote, the backslash and
the control characters are escaped and all else stands for itself.
-/

namespace ScriptToolchain.Json

/-- A character of a string. -/
def escape (c : Char) : String :=
  if c = '"' then "\\\""
  else if c = '\\' then "\\\\"
  else if c = '\x08' then "\\b"
  else if c = '\x0c' then "\\f"
  else if c = '\n' then "\\n"
  else if c = '\r' then "\\r"
  else if c = '\t' then "\\t"
  else if c < ' ' then "\\u" ++ Text.hexPadded 4 c.toNat
  else String.singleton c

/-- A string; one with an unpaired surrogate is written as that surrogate. -/
def quote : Option String → String
  | some s => "\"" ++ String.join (s.toList.map escape) ++ "\""
  | none => "\"\\ud800\""

mutual

/-- The text of a value. -/
def render : Json → String
  | .null => "null"
  | .bool b => if b then "true" else "false"
  | .number n => n.text
  | .text s => quote s
  | .array items => "[" ++ ",".intercalate (renderItems items) ++ "]"
  | .object fields => "\x7b" ++ ",".intercalate (renderFields fields) ++ "\x7d"

/-- The texts of the items of an array. -/
def renderItems : List Json → List String
  | [] => []
  | v :: rest => render v :: renderItems rest

/-- The texts of the fields of an object. -/
def renderFields : List (Option String × Json) → List String
  | [] => []
  | (name, v) :: rest => (quote name ++ ":" ++ render v) :: renderFields rest

end

end ScriptToolchain.Json
