/-!
# Byte strings and little-endian words

Code, images and messages are byte strings. A word is stored with its low
byte first; `ofWord32` and `toWord32` go back and forth, and so do the 16-bit
and 64-bit pairs.
-/

namespace ScriptToolchain

/-- A byte string. -/
abbrev Bytes := Array UInt8

namespace Bytes

/-- The two bytes of a word, low byte first. -/
def ofWord16 (v : UInt16) : Bytes :=
  #[v.toUInt8, (v >>> 8).toUInt8]

/-- The four bytes of a word, low byte first. -/
def ofWord32 (v : UInt32) : Bytes :=
  #[v.toUInt8, (v >>> 8).toUInt8, (v >>> 16).toUInt8, (v >>> 24).toUInt8]

/-- The eight bytes of a word, low byte first. -/
def ofWord64 (v : UInt64) : Bytes :=
  #[v.toUInt8, (v >>> 8).toUInt8, (v >>> 16).toUInt8, (v >>> 24).toUInt8,
    (v >>> 32).toUInt8, (v >>> 40).toUInt8, (v >>> 48).toUInt8, (v >>> 56).toUInt8]

/-- The word whose bytes these are, low byte first. -/
def toWord16 (b : Bytes) : UInt16 :=
  b.foldr (fun byte acc => acc <<< 8 ||| byte.toUInt16) 0

/-- The word whose bytes these are, low byte first. -/
def toWord32 (b : Bytes) : UInt32 :=
  b.foldr (fun byte acc => acc <<< 8 ||| byte.toUInt32) 0

/-- The word whose bytes these are, low byte first. -/
def toWord64 (b : Bytes) : UInt64 :=
  b.foldr (fun byte acc => acc <<< 8 ||| byte.toUInt64) 0

/-- The UTF-8 form of a text. -/
def ofText (s : String) : Bytes :=
  s.toUTF8.data

/-- The text that these bytes are the UTF-8 form of, if there is one. -/
def toText? (b : Bytes) : Option String :=
  String.fromUTF8? ⟨b⟩

/-- The bytes before the first zero byte, all of them when there is none. -/
def untilZero (b : Bytes) : Bytes :=
  b.takeWhile (· != 0)

/-- `b` from position `i` on, overwritten by `new`; what does not fit extends `b`. -/
def storeList (b : Bytes) (i : Nat) : List UInt8 → Bytes
  | [] => b
  | x :: rest => storeList (if i < b.size then b.setIfInBounds i x else b.push x) (i + 1) rest

/-- `b` extended by zero bytes to at least `n` bytes. -/
def padTo (b : Bytes) (n : Nat) : Bytes :=
  if b.size < n then b ++ Array.replicate (n - b.size) 0 else b

/-- `b` with `new` written at position `i`: zeros fill what lies between the end and `i`. -/
def store (b : Bytes) (i : Nat) (new : Bytes) : Bytes :=
  storeList (b.padTo i) i new.toList

end Bytes

/-- A count as a 32-bit word, the largest word when it does not fit. -/
def saturate32 (n : Nat) : UInt32 :=
  if n < UInt32.size then n.toUInt32 else 0xFFFFFFFF

end ScriptToolchain
