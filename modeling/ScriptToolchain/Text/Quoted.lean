import ScriptToolchain.Text.Digits
import ScriptToolchain.Text.Hidden

/-!
# Quoted texts

A text between quotes as it is shown to a reader: characters that cannot be
seen are written as escapes, and so are the quote and the backslash.
-/

namespace ScriptToolchain.Text

/-- A character by its number in base 16. -/
def escapeByNumber (c : Char) : String :=
  "\\u\x7b" ++ hex c.toNat ++ "\x7d"

/-- A character within quotes. -/
def escape (c : Char) : String :=
  if c = '\x00' then "\\0"
  else if c = '\t' then "\\t"
  else if c = '\r' then "\\r"
  else if c = '\n' then "\\n"
  else if c = '"' then "\\\""
  else if c = '\\' then "\\\\"
  else if isHidden c then escapeByNumber c
  else String.singleton c

/-- A text within quotes. -/
def quote (s : String) : String :=
  "\"" ++ String.join (s.toList.map escape) ++ "\""

/-- The number of lines; a text that ends with a line end has none behind it. -/
def lineCount (s : String) : Nat :=
  let ends := s.toList.countP (· = '\n')
  match s.toList.getLast? with
  | none => 0
  | some c => if c = '\n' then ends else ends + 1

end ScriptToolchain.Text
