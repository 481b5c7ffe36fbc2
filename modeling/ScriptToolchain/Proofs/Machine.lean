import ScriptToolchain.Compile.Program
import ScriptToolchain.Proofs.Encoding
import ScriptToolchain.Tree.Node

/-!
# The stack machine

The machine carries out code as the instruction set describes it, operation by
operation. What values and stores are stays open: a domain says what the
operators do, and each of them may change the store. The machine reads bytes,
and the ids in them are looked up in the program.
-/

namespace ScriptToolchain

/-- Where the value of a variable is kept. -/
inductive Variable where
  | slot (n : Nat)
  | member (name : String)
  | global (name : String)
deriving Repr, DecidableEq

/-- Values, stores and what the operations do with them. -/
structure Domain (V S : Type) where
  constant : Constant → V
  this : V
  isZero : V → Bool
  unary : Operator → V → S → V × S
  binary : Operator → V → V → S → V × S
  load : Variable → S → V × S
  save : Variable → V → S → S
  getField : String → V → S → V × S
  setField : String → V → V → S → S
  setElement : V → V → V → S → S
  newTable : S → V × S
  function : UInt64 → V
  /-- Calls a function with a receiver and arguments. -/
  call : V → V → List V → S → V × S
  /-- Moves an iteration over a table on; the second value tells whether there is more. -/
  advance : SlotPair → V → V → S → V × V × S

/-- The value of a `return` without value, and of the end of a function. -/
def Domain.null {V S : Type} (D : Domain V S) : V :=
  D.constant .null

namespace Machine

variable {V S : Type}

/-- What an instruction does: the stack, its top first, and the store behind it. -/
inductive Effect (V S : Type) where
  | next (stack : List V) (store : S)
  | goto (target : UInt64) (stack : List V) (store : S)
  | halt (value : V) (store : S)

/-! ## Operands -/

/-- The symbol that an operand names. -/
def symbol? (p : Program) : Operand → Option String
  | .word id => p.symbol? id
  | _ => none

/-- The string that an operand names. -/
def string? (p : Program) : Operand → Option String
  | .word id => p.string? id
  | _ => none

/-- The local slot that an operand names. -/
def slot? : Operand → Option Variable
  | .int v => some (.slot v.toUInt32.toNat)
  | _ => none

/-! ## Shapes of operations -/

/-- Pushes a value that is read from the store. -/
def push (f : S → V × S) (stack : List V) (s : S) : Option (Effect V S) :=
  some (.next ((f s).1 :: stack) (f s).2)

/-- Pushes a constant. -/
def pushValue (v : V) (stack : List V) (s : S) : Option (Effect V S) :=
  some (.next (v :: stack) s)

/-- Stack: `a → f a` -/
def one (f : V → S → V × S) (s : S) : List V → Option (Effect V S)
  | a :: stack => push (f a) stack s
  | _ => none

/-- Stack: `a b → f a b` -/
def two (f : V → V → S → V × S) (s : S) : List V → Option (Effect V S)
  | b :: a :: stack => push (f a b) stack s
  | _ => none

/-- Pops a value into the store. -/
def pop (f : V → S → S) (s : S) : List V → Option (Effect V S)
  | v :: stack => some (.next stack (f v s))
  | [] => none

/-- Whether a branch is taken, and the stack behind it. -/
def test (D : Domain V S) : Opcode → List V → Option (Bool × List V)
  | .branch, stack => some (true, stack)
  | .branchZero, v :: stack => some (D.isZero v, stack)
  | .branchNonZero, v :: stack => some (!D.isZero v, stack)
  | .branchZeroKeep, v :: stack => some (D.isZero v, v :: stack)
  | .branchNonZeroKeep, v :: stack => some (!D.isZero v, v :: stack)
  | _, _ => none

/-- Branches to the operand, or goes on. -/
def branch (D : Domain V S) (op : Opcode) (x : Operand) (stack : List V) (s : S) :
    Option (Effect V S) :=
  match x, test D op stack with
  | .word target, some (true, stack) => some (.goto target stack s)
  | .word _, some (false, stack) => some (.next stack s)
  | _, _ => none

/-- Carries out one operation; none if the stack or the operand does not suit it. -/
def act (p : Program) (D : Domain V S) (op : Opcode) (x : Operand) (stack : List V) (s : S) :
    Option (Effect V S) :=
  match op with
  | .nop | .line => some (.next stack s)
  | .getDot => (symbol? p x).bind fun name => one (D.getField name) s stack
  | .setDot =>
    match symbol? p x, stack with
    | some name, value :: object :: stack => some (.next stack (D.setField name object value s))
    | _, _ => none
  | .getIndex => two (D.binary .index) s stack
  | .setIndex =>
    match stack with
    | value :: key :: object :: stack => some (.next stack (D.setElement object key value s))
    | _ => none
  | .branch | .branchZero | .branchNonZero | .branchZeroKeep | .branchNonZeroKeep =>
    branch D op x stack s
  | .call =>
    match stack.drop x.count.toNat with
    | function :: receiver :: rest =>
      push (D.call receiver function (stack.take x.count.toNat).reverse) rest s
    | _ => none
  | .ret => some (.halt D.null s)
  | .retValue =>
    match stack with
    | v :: _ => some (.halt v s)
    | [] => none
  | .foreach =>
    match stack with
    | iter :: table :: stack =>
      let (iter, more, s) := D.advance (SlotPair.unpack x.count) table iter s
      some (.next (more :: iter :: table :: stack) s)
    | _ => none
  | .pop => pop (fun _ s => s) s stack
  | .pop2 =>
    match stack with
    | _ :: _ :: stack => some (.next stack s)
    | _ => none
  | .dup =>
    match stack with
    | a :: stack => some (.next (a :: a :: stack) s)
    | _ => none
  | .dup2 =>
    match stack with
    | b :: a :: stack => some (.next (b :: a :: b :: a :: stack) s)
    | _ => none
  | .swap =>
    match stack with
    | b :: a :: stack => some (.next (a :: b :: stack) s)
    | _ => none
  | .pushNull => pushValue D.null stack s
  | .pushInt =>
    match x with
    | .int v => pushValue (D.constant (.int v)) stack s
    | _ => none
  | .pushInt0 => pushValue (D.constant (.int 0)) stack s
  | .pushInt1 => pushValue (D.constant (.int 1)) stack s
  | .pushFloat =>
    match x with
    | .float bits => pushValue (D.constant (.float bits)) stack s
    | _ => none
  | .pushString => (string? p x).bind fun text => pushValue (D.constant (.str text)) stack s
  | .pushTable => push D.newTable stack s
  | .pushFunction =>
    match x with
    | .word id => pushValue (D.function id) stack s
    | _ => none
  | .pushThis => pushValue D.this stack s
  | .getLocal => (slot? x).bind fun a => push (D.load a) stack s
  | .setLocal => (slot? x).bind fun a => pop (D.save a) s stack
  | .getGlobal => (symbol? p x).bind fun name => push (D.load (.global name)) stack s
  | .setGlobal => (symbol? p x).bind fun name => pop (D.save (.global name)) s stack
  | .getThis => (symbol? p x).bind fun name => push (D.load (.member name)) stack s
  | .setThis => (symbol? p x).bind fun name => pop (D.save (.member name)) s stack
  | .add => two (D.binary .add) s stack
  | .sub => two (D.binary .sub) s stack
  | .mul => two (D.binary .mul) s stack
  | .div => two (D.binary .div) s stack
  | .rem => two (D.binary .rem) s stack
  | .bitOr => two (D.binary .bitOr) s stack
  | .bitXor => two (D.binary .bitXor) s stack
  | .bitAnd => two (D.binary .bitAnd) s stack
  | .shl => two (D.binary .shl) s stack
  | .shr => two (D.binary .shr) s stack
  | .lt => two (D.binary .lt) s stack
  | .gt => two (D.binary .gt) s stack
  | .lte => two (D.binary .lte) s stack
  | .gte => two (D.binary .gte) s stack
  | .eq => two (D.binary .eq) s stack
  | .neq => two (D.binary .neq) s stack
  | .bitInv => one (D.unary .complement) s stack
  | .neg => one (D.unary .neg) s stack
  | .pos => one (D.unary .pos) s stack
  | .not => one (D.unary .not) s stack

/-! ## Runs -/

/-- The machine between two instructions. -/
structure Config (V S : Type) where
  pc : Nat
  stack : List V
  store : S

/-- The result of the code from a configuration on, if it halts within so many instructions. -/
def run (p : Program) (D : Domain V S) (code : Bytes) : Nat → Config V S → Option (V × S)
  | 0, _ => none
  | k + 1, c =>
    match Instruction.decodeAt code c.pc with
    | .error _ => none
    | .ok i =>
      match act p D i.opcode i.operand c.stack c.store with
      | some (.next stack s) => run p D code k ⟨c.pc + i.opcode.size, stack, s⟩
      | some (.goto target stack s) => run p D code k ⟨target.toNat, stack, s⟩
      | some (.halt v s) => some (v, s)
      | none => none

/-- The machine halts with this value and this store. -/
def Halts (p : Program) (D : Domain V S) (code : Bytes) (c : Config V S) (v : V) (s : S) : Prop :=
  ∃ k, run p D code k c = some (v, s)

variable {p : Program} {D : Domain V S} {code : Bytes} {i : Instruction} {pc k : Nat}
  {stack : List V} {s : S}

/-- A run starts with the instruction that is read where it starts. -/
theorem run_succ (hi : Instruction.decodeAt code pc = .ok i) (hfit : i.Fits) :
    run p D code (k + 1) ⟨pc, stack, s⟩ =
      match act p D i.opcode i.operand stack s with
      | some (.next stack s) => run p D code k ⟨pc + i.size, stack, s⟩
      | some (.goto target stack s) => run p D code k ⟨target.toNat, stack, s⟩
      | some (.halt v s) => some (v, s)
      | none => none := by
  rw [run, hi, hfit.size_eq]

/-- An operation that is no branch does not go elsewhere. -/
theorem act_ne_goto {op : Opcode} (hop : op.isBranch = false) (x : Operand) (stack : List V)
    (s : S) (target : UInt64) (stack' : List V) (s' : S) :
    act p D op x stack s ≠ some (.goto target stack' s') := by
  intro h
  cases op <;> try contradiction
  all_goals
    simp only [act, one, two, pop, push, pushValue, Option.bind_eq_some_iff] at h
    grind

end Machine

end ScriptToolchain
