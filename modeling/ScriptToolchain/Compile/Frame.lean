import ScriptToolchain.Compile.Diagnostic
import ScriptToolchain.Compile.Directive
import ScriptToolchain.Compile.Host

/-!
# State of the generator

A frame is the function that is being generated: its directives so far, its
names, the loops around the current place and the depth of the stack, which is
set behind a call and else what the effects of the instructions come to. A step
of generation reads and writes the frame, asks the host for ids, reports
findings, and may give up; a step that gives up has reported why.
-/

namespace ScriptToolchain.Compile

/-- What is pushed as receiver by a call that names none. -/
inductive ReceiverPolicy where
  /-- The receiver of the current function. -/
  | currentThis
  /-- The receiver of the current function for a member, null for all else. -/
  | memberOnly
deriving Repr, DecidableEq

namespace ReceiverPolicy

/-- All policies. -/
def all : List ReceiverPolicy :=
  [.currentThis, .memberOnly]

/-- The name of a policy. -/
def name : ReceiverPolicy → String
  | .currentThis => "CurrentThis"
  | .memberOnly => "MemberOnly"

/-- The policy with this name. -/
def ofName? (s : String) : Option ReceiverPolicy :=
  all.find? fun policy => policy.name = s

end ReceiverPolicy

/-- How a unit is compiled. -/
structure Options where
  /-- Mark lines, keep line tables and slot names. -/
  debug : Bool := false
  receiver : ReceiverPolicy := .currentThis
  /-- The name of the root function. -/
  rootName : String := "__main"
  /-- A warning fails the unit. -/
  denyWarnings : Bool := false
deriving Repr, DecidableEq

/-- The open branches that leave one loop. -/
structure LoopContext where
  /-- Branches to the exit. -/
  breaks : List LabelId := []
  /-- Branches to the next round. -/
  continues : List LabelId := []
deriving Repr, DecidableEq

/-- The open branch of a jump added. -/
def LoopContext.add (c : LoopContext) (label : LabelId) : Jump → LoopContext
  | .breakLoop => { c with breaks := c.breaks ++ [label] }
  | .continueLoop => { c with continues := c.continues ++ [label] }

/-- A function that is being generated. -/
structure Frame where
  id : UInt64
  name : Option String
  names : VariableTable := {}
  /-- The line that was marked last, zero for none. -/
  line : UInt32 := 0
  /-- The directives, the latest first. -/
  latest : List Directive := []
  /-- The number of bytes that the directives make. -/
  size : Nat := 0
  /-- The depth of the stack behind the directives as a whole number. In code below 2^32 bytes it is
  a signed word (`handed_functions_emit`). -/
  stack : StackReport := {}
  /-- The number of labels given out. -/
  labels : Nat := 0
  /-- The loops around the current place, the innermost first. -/
  loops : List LoopContext := []

namespace Frame

/-- The directives in order. -/
def directives (f : Frame) : List Directive :=
  f.latest.reverse

/-- The address behind the directives. -/
def here (f : Frame) : UInt32 :=
  saturate32 f.size

/-- A directive added. -/
def push (f : Frame) (d : Directive) : Frame :=
  { f with latest := d :: f.latest, size := f.size + d.size, stack := d.climb f.stack }

/-- The depth of the stack set. -/
def setDepth (f : Frame) (depth : Int) : Frame :=
  { f with stack := f.stack.set depth }

/-- A branch with an open target added; its label is the next one. -/
def reserve (f : Frame) (op : Opcode) : LabelId × Frame :=
  (f.labels, { f.push (.branch op) with labels := f.labels + 1 })

/-- The target that a label has got. -/
def target? (f : Frame) (label : LabelId) : Option UInt32 :=
  f.latest.findSome? fun
    | .resolve k target => if k = label then some target else none
    | _ => none

/-- The target of a label set; it is set once, and only if the label was given out. -/
def resolve (f : Frame) (label : LabelId) (target : UInt32) : Except LabelError Frame :=
  if label < f.labels then
    match f.target? label with
    | none => .ok (f.push (.resolve label target))
    | some first => .error (.alreadyResolved label first)
  else .error (.unknown label)

/-- The function that the directives make, with the depth that the frame has reached. -/
def finish (f : Frame) (root debug : Bool) : Except Finding CompiledFunction :=
  let draft := { Draft.empty f.id f.name debug with names := f.names }
  match Directive.applyAll f.directives draft with
  | .error e _ => .error (.label e)
  | .ok () done =>
    match (done.withStack f.stack).finish root debug with
    | .ok function => .ok function
    | .error e => .error (.openBranches e)

end Frame

/-- The state of the generator. -/
structure State (σ : Type) where
  host : σ
  frame : Frame
  /-- The finished functions of the unit, the latest first. -/
  latest : List CompiledFunction := []
  /-- The reports, the latest first. -/
  reports : List Diagnostic := []

/-- Generation gave up; the reports say why. -/
structure Abort where

/-- A step of generation with the host state `σ`. -/
abbrev Gen (σ : Type) := EStateM Abort (State σ)

namespace Gen

variable {σ : Type} [Host σ]

/-- Reports a finding. -/
def report (line : UInt32) (f : Finding) : Gen σ Unit :=
  modify fun s => { s with reports := f.report line :: s.reports }

/-- Reports a finding and gives up. -/
def fail {α : Type} (line : UInt32) (f : Finding) : Gen σ α := do
  report line f
  throw {}

/-- What stands in the frame. -/
def read {α : Type} (f : Frame → α) : Gen σ α :=
  return f (← get).frame

/-- Changes the frame. -/
def update (f : Frame → Frame) : Gen σ Unit :=
  modify fun s => { s with frame := f s.frame }

/-- Adds a directive. -/
def push (d : Directive) : Gen σ Unit :=
  update (·.push d)

/-- Adds an instruction without immediate. -/
def emit (op : Opcode) : Gen σ Unit :=
  push (.emit op .none)

/-- Adds an instruction with an id or an address. -/
def emitWord (op : Opcode) (v : UInt64) : Gen σ Unit :=
  push (.emit op (.word v))

/-- Adds an instruction with an integer. -/
def emitInt (op : Opcode) (v : UInt32) : Gen σ Unit :=
  push (.emit op (.int v.toInt32))

/-- Adds the push of an integer. -/
def pushInt (v : Int32) : Gen σ Unit :=
  let (op, operand) := Emitter.intPush v
  push (.emit op operand)

/-- The address of the next instruction. -/
def here : Gen σ UInt32 :=
  read Frame.here

/-- The depth of the stack. -/
def depth : Gen σ Int :=
  read (·.stack.finalDepth)

/-- Sets the depth of the stack. -/
def setDepth (depth : Int) : Gen σ Unit :=
  update (·.setDepth depth)

/-- Adds a branch with an open target and answers its label. -/
def reserve (op : Opcode) : Gen σ LabelId := do
  let (label, frame) ← read (·.reserve op)
  update fun _ => frame
  return label

/-- Sets the target of a label, for a construct on `line`. -/
def resolve (line target : UInt32) (label : LabelId) : Gen σ Unit := do
  match ← read (·.resolve label target) with
  | .ok frame => update fun _ => frame
  | .error e => fail line (.label e)

/-- Sets the target of a label to the next instruction. -/
def resolveHere (line : UInt32) (label : LabelId) : Gen σ Unit := do
  resolve line (← here) label

/-- Works on the variables of the function. -/
def names {α : Type} (f : VariableTable → α × VariableTable) : Gen σ α := do
  let (answer, names) ← read fun frame => f frame.names
  update fun frame => { frame with names }
  return answer

/-- Asks the host. -/
def ask {α : Type} (f : σ → α × σ) : Gen σ α := do
  let s ← get
  let (answer, host) := f s.host
  set { s with host }
  return answer

/-- Adds an instruction with the id of a symbol. -/
def emitSymbol (op : Opcode) (name : String) : Gen σ Unit := do
  emitWord op (← ask (Host.symbolId name))

/-- Marks a line in a debug build, unless it is unknown or current. -/
def markLine (o : Options) (line : UInt32) : Gen σ Unit := do
  if o.debug && line != 0 && line != (← read (·.line)) then
    update fun f => { f.push (.line line) with line }

/-- Starts a loop. -/
def enterLoop : Gen σ Unit :=
  update fun f => { f with loops := {} :: f.loops }

/-- Ends the innermost loop and answers the open branches that leave it. -/
def leaveLoop : Gen σ LoopContext := do
  match ← read (·.loops) with
  | c :: loops =>
    update fun f => { f with loops }
    return c
  | [] => fail 0 .noLoop

/-- Sets the targets of the branches that leave a loop on `line`. -/
def closeLoop (line : UInt32) (c : LoopContext) (exit next : UInt32) : Gen σ Unit := do
  c.breaks.forM (resolve line exit)
  c.continues.forM (resolve line next)

/-- Leaves the innermost loop by an open branch. -/
def jump (j : Jump) (line : UInt32) : Gen σ Unit := do
  if (← read (·.loops)).isEmpty then
    fail line (.strayJump j)
  let label ← reserve .branch
  update fun f =>
    match f.loops with
    | c :: loops => { f with loops := c.add label j :: loops }
    | [] => f

/-- Finishes a frame. -/
def close (frame : Frame) (root : Bool) (o : Options) (line : UInt32) : Gen σ CompiledFunction :=
  match frame.finish root o.debug with
  | .ok function => return function
  | .error f => fail line f

/-- Takes the frame out and puts another one in. -/
def swapFrame (frame : Frame) : Gen σ Frame := do
  let outer ← read id
  update fun _ => frame
  return outer

/-- Keeps a finished function. -/
def keep (f : CompiledFunction) : Gen σ Unit :=
  modify fun s => { s with latest := f :: s.latest }

end Gen

end ScriptToolchain.Compile
