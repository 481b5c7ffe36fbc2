import ScriptToolchain.Code.Function
import ScriptToolchain.Code.Listing
import ScriptToolchain.Code.Stack

/-!
# Validation of compiled functions

A function is sound when its code can be read to the end, replaying the stack
effects in order never takes from an empty stack and reaches `maxStack`, every
branch goes to an instruction or to the end of the code, the line table rises
strictly along instruction addresses and every slot has a name. The first
check that fails decides the defect. Addresses, depths and the number of slots
are words; validation breaks off at the first that is none.
-/

namespace ScriptToolchain

/-- What is wrong with a function. -/
inductive Defect where
  | decode (e : DecodeError)
  /-- The instruction takes more from the stack than there is. -/
  | stackUnderflow (address : UInt32) (opcode : Opcode)
  | maxStack (declared : UInt32) (reached : Int)
  | branchTarget (address : UInt32) (target : UInt64)
  /-- The entry at `address` does not lie behind the one before it. -/
  | lineOrder (address : UInt32)
  /-- The entry points between instructions. -/
  | lineInside (line address : UInt32)
  | symbolCount (found slots : Nat)
  /-- A depth or the number of slots is no word: no verdict. -/
  | overflow
deriving Repr, DecidableEq

/-- The defect in words. -/
def Defect.message : Defect → String
  | .decode e => e.message
  | .stackUnderflow address opcode =>
    s!"corrupted: stack underflow at {address} ({opcode.mnemonic})"
  | .maxStack declared reached =>
    s!"corrupted: max_stack {declared} but replay reaches {reached}"
  | .branchTarget address target =>
    s!"corrupted: branch at {address} targets {target}, not an instruction boundary"
  | .lineOrder address => s!"corrupted: line table not strictly increasing at address {address}"
  | .lineInside line address =>
    s!"corrupted: line {line} points inside an instruction ({address})"
  | .symbolCount found slots => s!"corrupted: {found} symbols for {slots} slots"
  | .overflow => Word.overflowMessage

namespace Validation

/-- Applies the effects in order, starting from a report of what came before. -/
def replay (before : StackReport) : List Instruction → Except Defect StackReport
  | [] => .ok before
  | i :: rest =>
    match before.step? i.opcode i.operand.count with
    | none => .error .overflow
    | some report =>
      if report.finalDepth < 0 then .error (.stackUnderflow i.address i.opcode)
      else replay report rest

/-- Replays a code buffer; an underflow counts before an instruction that cannot be read. -/
def replayStack (code : Bytes) : Except Defect StackReport := do
  let (is, stop) := Code.scan code 0
  let report ← replay {} is
  match stop with
  | some e => throw (.decode e)
  | none => return report

/-- The instructions of a code buffer. -/
def instructions (code : Bytes) : Except Defect (List Instruction) :=
  match Code.decode code with
  | .ok is => .ok is
  | .error e => .error (.decode e)

/-- `target` is the address of an instruction or the end of the code. -/
def isBoundary (is : List Instruction) (size : Nat) (target : UInt64) : Bool :=
  target.toNat = size || is.any (·.address.toUInt64 = target)

/-- The first branch that goes to no boundary. -/
def badBranch? (is : List Instruction) (size : Nat) : Option Defect :=
  is.findSome? fun i =>
    match i.target? with
    | some t => if isBoundary is size t then none else some (.branchTarget i.address t)
    | none => none

/-- Every branch goes to a boundary. -/
def checkBranches (code : Bytes) : Except Defect Unit := do
  let is ← instructions code
  match badBranch? is code.size with
  | some d => throw d
  | none => return ()

/-- The first entry that does not lie behind the one before it. -/
def badOrder? : List LineEntry → Option Defect
  | a :: b :: rest =>
    if a.address < b.address then badOrder? (b :: rest) else some (.lineOrder b.address)
  | _ => none

/-- The first entry that points between instructions. -/
def badEntry? (is : List Instruction) (entries : List LineEntry) : Option Defect :=
  (entries.find? fun l => !is.any (·.address = l.address)).map fun l =>
    .lineInside l.line l.address

/-- The line table rises strictly along instruction addresses. -/
def checkLines (f : CompiledFunction) : Except Defect Unit :=
  match f.lines with
  | none => .ok ()
  | some entries => do
    let is ← instructions f.code
    match badOrder? entries with
    | some d => throw d
    | none =>
      match badEntry? is entries with
      | some d => throw d
      | none => return ()

/-- Every slot has a name. -/
def checkSymbols (f : CompiledFunction) : Except Defect Unit :=
  match f.symbols with
  | none => .ok ()
  | some names =>
    match Word.unsigned? (f.params.toNat + f.locals.toNat) with
    | none => .error .overflow
    | some slots =>
      if names.length = slots then .ok () else .error (.symbolCount names.length slots)

end Validation

/-- Makes every check of a function and reports the depths of its stack. -/
def CompiledFunction.validate (f : CompiledFunction) : Except Defect StackReport := do
  let report ← Validation.replayStack f.code
  if report.maxDepth ≠ f.maxStack.toNat then
    throw (.maxStack f.maxStack report.maxDepth)
  Validation.checkBranches f.code
  Validation.checkLines f
  Validation.checkSymbols f
  return report

end ScriptToolchain
