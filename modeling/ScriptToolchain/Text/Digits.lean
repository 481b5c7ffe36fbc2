/-!
# Numbers in fixed columns

Decimal and hexadecimal texts of naturals, filled on the left to a width.
-/

namespace ScriptToolchain.Text

/-- `s` with copies of `c` in front up to `width` characters. -/
def padLeft (c : Char) (width : Nat) (s : String) : String :=
  String.ofList (List.replicate (width - s.length) c) ++ s

/-- `s` with copies of `c` behind up to `width` characters. -/
def padRight (c : Char) (width : Nat) (s : String) : String :=
  s ++ String.ofList (List.replicate (width - s.length) c)

/-- `n` in base 16, lower case. -/
def hex (n : Nat) : String :=
  String.ofList (Nat.toDigits 16 n)

/-- `n` in base 16, lower case, with at least `width` digits. -/
def hexPadded (width n : Nat) : String :=
  padLeft '0' width (hex n)

/-- `n` in base 16, upper case, with at least `width` digits. -/
def hexPaddedUpper (width n : Nat) : String :=
  padLeft '0' width (String.ofList ((Nat.toDigits 16 n).map Char.toUpper))

/-- `n` in base 10 with at least `width` digits, zeros in front. -/
def zeroPadded (width n : Nat) : String :=
  padLeft '0' width (toString n)

end ScriptToolchain.Text
