import ScriptToolchain.Json.Value

/-!
# Reading JSON

A strict reader: one value with blanks around it, and nothing else. Each
parser takes a list of characters and answers what it read with the rest. The
parsers that call each other are bounded by a natural, which a call lowers; a
text never needs more than twice its length.
-/

namespace ScriptToolchain.Json

/-- The four characters that may stand between tokens. -/
def isBlank (c : Char) : Bool :=
  c = ' ' || c = '\t' || c = '\n' || c = '\r'

/-- The text from its first character on that is no blank. -/
def skipBlanks (s : List Char) : List Char :=
  s.dropWhile isBlank

/-- Reads this word. -/
def word? (word : String) (s : List Char) : Option (List Char) :=
  if word.toList.isPrefixOf s then some (s.drop word.length) else none

/-- The digits in front. -/
def digits : List Char → List Digit × List Char
  | [] => ([], [])
  | c :: rest =>
    match Digit.ofChar? c with
    | some d =>
      let (ds, rest) := digits rest
      (d :: ds, rest)
    | none => ([], c :: rest)

/-- Reads at least one digit. -/
def someDigits? (s : List Char) : Option (List Digit × List Char) :=
  match digits s with
  | ([], _) => none
  | found => some found

/-- Reads a sign, or none. -/
def sign (s : List Char) : Bool × List Char :=
  match s with
  | '-' :: rest => (true, rest)
  | rest => (false, rest)

/-- Reads the digits before the point: no zero stands before another digit. -/
def whole? (s : List Char) : Option (List Digit × List Char) :=
  match digits s with
  | ([], _) => none
  | (d :: e :: ds, rest) => if d = Digit.zero then none else some (d :: e :: ds, rest)
  | found => some found

/-- Reads a point with digits behind it, or nothing. -/
def fraction? (s : List Char) : Option (List Digit × List Char) :=
  match s with
  | '.' :: rest => someDigits? rest
  | rest => some ([], rest)

/-- Reads the exponent behind its letter. -/
def exponentBody? (s : List Char) : Option (Int × List Char) :=
  let (negative, rest) := match s with
    | '+' :: rest => (false, rest)
    | rest => sign rest
  (someDigits? rest).map fun (ds, rest) =>
    (if negative then -Digit.toNat ds else Digit.toNat ds, rest)

/-- Reads an exponent, or nothing. -/
def exponent? (s : List Char) : Option (Option Int × List Char) :=
  match s with
  | 'e' :: rest | 'E' :: rest => (exponentBody? rest).map fun (e, rest) => (some e, rest)
  | rest => some (none, rest)

/-- Reads a number. -/
def number? (s : List Char) : Option (Numeral × List Char) := do
  let (negative, s) := sign s
  let (whole, s) ← whole? s
  let (fraction, s) ← fraction? s
  let (exponent, s) ← exponent? s
  return ({ negative, whole, fraction, exponent }, s)

/-- What stands between the quotes of a string, item by item. -/
inductive Piece where
  | char (c : Char)
  /-- A code unit of 16 bits, written as an escape. -/
  | unit (u : Nat)
deriving Repr, DecidableEq

/-- The value of a hexadecimal digit. -/
def hexDigit? (c : Char) : Option Nat :=
  if '0' ≤ c ∧ c ≤ '9' then some (c.toNat - 48)
  else if 'a' ≤ c ∧ c ≤ 'f' then some (c.toNat - 87)
  else if 'A' ≤ c ∧ c ≤ 'F' then some (c.toNat - 55)
  else none

/-- The value of four hexadecimal digits. -/
def hexUnit? (a b c d : Char) : Option Nat := do
  let high := (← hexDigit? a) * 16 + (← hexDigit? b)
  let low := (← hexDigit? c) * 16 + (← hexDigit? d)
  return high * 256 + low

/-- The character that a letter behind a backslash stands for. -/
def escaped? (c : Char) : Option Char :=
  match c with
  | '"' => some '"'
  | '\\' => some '\\'
  | '/' => some '/'
  | 'b' => some '\x08'
  | 'f' => some '\x0c'
  | 'n' => some '\n'
  | 'r' => some '\r'
  | 't' => some '\t'
  | _ => none

/-- Reads the pieces of a string and the quote that ends it. -/
def pieces? : List Char → Option (List Piece × List Char)
  | [] => none
  | '"' :: rest => some ([], rest)
  | '\\' :: 'u' :: a :: b :: c :: d :: rest => do
    let u ← hexUnit? a b c d
    let (ps, rest) ← pieces? rest
    return (.unit u :: ps, rest)
  | '\\' :: c :: rest => do
    let c ← escaped? c
    let (ps, rest) ← pieces? rest
    return (.char c :: ps, rest)
  | c :: rest =>
    if c < ' ' ∨ c = '\\' then none
    else do
      let (ps, rest) ← pieces? rest
      return (.char c :: ps, rest)

/-- The code unit is the first of a surrogate pair. -/
def isLeading (u : Nat) : Bool := 0xD800 ≤ u && u < 0xDC00

/-- The code unit is the second of a surrogate pair. -/
def isTrailing (u : Nat) : Bool := 0xDC00 ≤ u && u < 0xE000

/-- The characters that pieces stand for; surrogates have to come in pairs. -/
def chars? : List Piece → Option (List Char)
  | [] => some []
  | .char c :: rest => (chars? rest).map (c :: ·)
  | .unit u :: .unit v :: rest =>
    if isLeading u then
      if isTrailing v then
        (chars? rest).map (Char.ofNat (0x10000 + (u - 0xD800) * 0x400 + (v - 0xDC00)) :: ·)
      else none
    else if isTrailing u then none
    else (chars? (.unit v :: rest)).map (Char.ofNat u :: ·)
  | .unit u :: rest =>
    if isLeading u || isTrailing u then none else (chars? rest).map (Char.ofNat u :: ·)

/-- Reads a string behind its first quote. -/
def string? (s : List Char) : Option (Option String × List Char) :=
  (pieces? s).map fun (ps, rest) => ((chars? ps).map String.ofList, rest)

mutual

/-- Reads a value; blanks may stand before it. -/
def value? : Nat → List Char → Option (Json × List Char)
  | 0, _ => none
  | fuel + 1, s =>
    match skipBlanks s with
    | '\x7b' :: rest =>
      match skipBlanks rest with
      | '\x7d' :: rest => some (.object [], rest)
      | rest => (members? fuel rest).map fun (fields, rest) => (.object fields, rest)
    | '[' :: rest =>
      match skipBlanks rest with
      | ']' :: rest => some (.array [], rest)
      | rest => (elements? fuel rest).map fun (items, rest) => (.array items, rest)
    | '"' :: rest => (string? rest).map fun (s, rest) => (.text s, rest)
    | 't' :: rest => (word? "rue" rest).map fun rest => (.bool true, rest)
    | 'f' :: rest => (word? "alse" rest).map fun rest => (.bool false, rest)
    | 'n' :: rest => (word? "ull" rest).map fun rest => (.null, rest)
    | s => (number? s).map fun (n, rest) => (.number n, rest)

/-- Reads the items of an array that is not empty, and its end. -/
def elements? : Nat → List Char → Option (List Json × List Char)
  | 0, _ => none
  | fuel + 1, s => do
    let (v, s) ← value? fuel s
    match skipBlanks s with
    | ']' :: rest => return ([v], rest)
    | ',' :: rest =>
      let (vs, rest) ← elements? fuel rest
      return (v :: vs, rest)
    | _ => none

/-- Reads the fields of an object that is not empty, and its end. -/
def members? : Nat → List Char → Option (List (Option String × Json) × List Char)
  | 0, _ => none
  | fuel + 1, s =>
    match skipBlanks s with
    | '"' :: rest => do
      let (name, rest) ← string? rest
      match skipBlanks rest with
      | ':' :: rest =>
        let (v, rest) ← value? fuel rest
        match skipBlanks rest with
        | '\x7d' :: rest => return ([(name, v)], rest)
        | ',' :: rest =>
          let (fields, rest) ← members? fuel rest
          return ((name, v) :: fields, rest)
        | _ => none
      | _ => none
    | _ => none

end

/-- Reads a text that holds one value. -/
def parse? (s : String) : Option Json :=
  let chars := s.toList
  match value? (2 * chars.length + 1) chars with
  | some (v, rest) => if (skipBlanks rest).isEmpty then some v else none
  | none => none

end ScriptToolchain.Json
