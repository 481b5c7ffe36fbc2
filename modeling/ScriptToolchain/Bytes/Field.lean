import ScriptToolchain.Bytes.Buffer
import ScriptToolchain.Bytes.Slot

/-!
# Fields of a message

What a message is made of on the wire: 32-bit words, texts that end with a
zero byte, raw bytes. A field is written as one or more puts, each of which
happens whole or not at all, so a slot that runs full keeps the puts before.
-/

namespace ScriptToolchain

/-- One item of a message. -/
inductive Field where
  /-- A word, low byte first. -/
  | word (v : UInt32)
  /-- A text up to its first zero character, and a zero byte behind it. -/
  | text (s : String)
  /-- Bytes as they are. -/
  | raw (bytes : Bytes)
deriving Repr, DecidableEq

namespace Field

/-- The puts that write the field: the zero byte behind a text is a put of its own. -/
def puts : Field → List Bytes
  | .word v => [Bytes.ofWord32 v]
  | .text s => [(Bytes.ofText s).untilZero, #[0]]
  | .raw bytes => [bytes]

/-- The bytes of the field. -/
def bytes (f : Field) : Bytes :=
  f.puts.foldl (· ++ ·) #[]

/-- The bytes of a list of fields. -/
def bytesOf (fields : List Field) : Bytes :=
  fields.foldl (fun acc f => acc ++ f.bytes) #[]

end Field

/-- Writes a field; a buffer takes every put. -/
def Buffer.putField (b : Buffer) (f : Field) : Buffer :=
  f.puts.foldl Buffer.write b

/-- Makes the puts in order and stops at the first that does not fit. -/
def Slot.putEach : List Bytes → EStateM Overflow Slot Unit
  | [] => pure ()
  | bytes :: rest => do
    Slot.put bytes
    Slot.putEach rest

/-- Writes a field. -/
def Slot.putField (f : Field) : EStateM Overflow Slot Unit :=
  Slot.putEach f.puts

/-- Writes the fields in order and stops at the first put that does not fit. -/
def Slot.putFields : List Field → EStateM Overflow Slot Unit
  | [] => pure ()
  | f :: rest => do
    Slot.putField f
    Slot.putFields rest

end ScriptToolchain
