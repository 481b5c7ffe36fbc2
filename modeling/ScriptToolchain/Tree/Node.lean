import ScriptToolchain.Tree.Flags
import ScriptToolchain.Tree.Operator

/-!
# Syntax trees

A tree is one type: a node that stands where its kind does not belong is a
tree all the same, and the compiler is what refuses it. Every node carries a
source line, zero for none, and a set of flags.
-/

namespace ScriptToolchain

/-- What every node carries. -/
structure Mark where
  line : UInt32 := 0
  flags : NodeFlags := {}
deriving Repr, DecidableEq

/-- The mark with `line` in place of no line. -/
def Mark.fillLine (m : Mark) (line : UInt32) : Mark :=
  if m.line = 0 then { m with line } else m

/-- A literal value. -/
inductive Constant where
  | null
  | int (v : Int32)
  /-- A 32-bit float as its pattern of bits. -/
  | float (bits : UInt32)
  | str (s : String)
deriving Repr, DecidableEq

/-- A node of a tree: first declarations, then statements, then expressions. -/
inductive Node where
  | declaration (mark : Mark) (storage : StorageClass) (name : String)
  | parameter (mark : Mark) (name : String)
  | block (mark : Mark) (items : List Node)
  | ifElse (mark : Mark) (cond thenBranch : Node) (elseBranch : Option Node)
  | whileLoop (mark : Mark) (cond body : Node)
  | doLoop (mark : Mark) (body cond : Node)
  | forLoop (mark : Mark) (init cond step : Option Node) (body : Node)
  | foreach (mark : Mark) (collection : Node) (key : Option String) (value : String) (body : Node)
  | breakLoop (mark : Mark)
  | continueLoop (mark : Mark)
  | ret (mark : Mark) (value : Option Node)
  | operation (mark : Mark) (op : Operator) (operands : List Node)
  | constant (mark : Mark) (value : Constant)
  | identifier (mark : Mark) (name : String)
  | call (mark : Mark) (callee : Node) (args : List Node) (receiver : Option Node)
  | this (mark : Mark)
  | function (mark : Mark) (params : List Node) (body : Node)
  | table (mark : Mark) (fields : List Node)
deriving Repr

namespace Node

instance : Inhabited Node := ⟨.breakLoop {}⟩

/-- The mark of a node. -/
def mark : Node → Mark
  | .declaration m .. | .parameter m .. | .block m .. | .ifElse m .. | .whileLoop m ..
  | .doLoop m ..
  | .forLoop m .. | .foreach m .. | .breakLoop m | .continueLoop m | .ret m .. | .operation m ..
  | .constant m .. | .identifier m .. | .call m .. | .this m | .function m .. | .table m .. => m

/-- The source line, zero for none. -/
def line (n : Node) : UInt32 :=
  n.mark.line

/-- The flags of a node. -/
def flags (n : Node) : NodeFlags :=
  n.mark.flags

/-- The node with another mark. -/
def withMark (mark : Mark) : Node → Node
  | .declaration _ storage name => .declaration mark storage name
  | .parameter _ name => .parameter mark name
  | .block _ items => .block mark items
  | .ifElse _ cond thenBranch elseBranch => .ifElse mark cond thenBranch elseBranch
  | .whileLoop _ cond body => .whileLoop mark cond body
  | .doLoop _ body cond => .doLoop mark body cond
  | .forLoop _ init cond step body => .forLoop mark init cond step body
  | .foreach _ collection key value body => .foreach mark collection key value body
  | .breakLoop _ => .breakLoop mark
  | .continueLoop _ => .continueLoop mark
  | .ret _ value => .ret mark value
  | .operation _ op operands => .operation mark op operands
  | .constant _ value => .constant mark value
  | .identifier _ name => .identifier mark name
  | .call _ callee args receiver => .call mark callee args receiver
  | .this _ => .this mark
  | .function _ params body => .function mark params body
  | .table _ fields => .table mark fields

/-- The node on another line; its children stay where they are. -/
def withLine (n : Node) (line : UInt32) : Node :=
  n.withMark { n.mark with line }

/-- The node with these flags added. -/
def withFlags (n : Node) (flags : NodeFlags) : Node :=
  n.withMark { n.mark with flags := n.flags.union flags }

/-- The name of an identifier. -/
def identifier? : Node → Option String
  | .identifier _ name => some name
  | _ => none

/-- The node is a function literal. -/
def isFunction : Node → Bool
  | .function .. => true
  | _ => false

/-- The nodes right below, in the order of the source. -/
def children : Node → List Node
  | .block _ items => items
  | .ifElse _ cond thenBranch elseBranch => cond :: thenBranch :: elseBranch.toList
  | .whileLoop _ cond body => [cond, body]
  | .doLoop _ body cond => [body, cond]
  | .forLoop _ init cond step body => init.toList ++ cond.toList ++ step.toList ++ [body]
  | .foreach _ collection _ _ body => [collection, body]
  | .ret _ value => value.toList
  | .operation _ _ operands => operands
  | .call _ callee args receiver => receiver.toList ++ callee :: args
  | .function _ params body => params ++ [body]
  | .table _ fields => fields
  | _ => []

mutual

/-- The number of nodes of the tree. -/
def count : Node → Nat
  | .block _ items => 1 + countAll items
  | .ifElse _ cond thenBranch elseBranch =>
    1 + count cond + count thenBranch + countOption elseBranch
  | .whileLoop _ cond body => 1 + count cond + count body
  | .doLoop _ body cond => 1 + count body + count cond
  | .forLoop _ init cond step body =>
    1 + countOption init + countOption cond + countOption step + count body
  | .foreach _ collection _ _ body => 1 + count collection + count body
  | .ret _ value => 1 + countOption value
  | .operation _ _ operands => 1 + countAll operands
  | .call _ callee args receiver => 1 + countOption receiver + count callee + countAll args
  | .function _ params body => 1 + countAll params + count body
  | .table _ fields => 1 + countAll fields
  | _ => 1

/-- The number of nodes of some trees. -/
def countAll : List Node → Nat
  | [] => 0
  | n :: rest => count n + countAll rest

/-- The number of nodes of a tree that may be missing. -/
def countOption : Option Node → Nat
  | none => 0
  | some n => count n

end

mutual

/-- The tree with `line` in place of no line, in this node and in all below it. -/
def fillLine (line : UInt32) : Node → Node
  | .declaration m storage name => .declaration (m.fillLine line) storage name
  | .parameter m name => .parameter (m.fillLine line) name
  | .block m items => .block (m.fillLine line) (fillLineAll line items)
  | .ifElse m cond thenBranch elseBranch =>
    .ifElse (m.fillLine line) (fillLine line cond) (fillLine line thenBranch)
      (fillLineOption line elseBranch)
  | .whileLoop m cond body => .whileLoop (m.fillLine line) (fillLine line cond) (fillLine line body)
  | .doLoop m body cond => .doLoop (m.fillLine line) (fillLine line body) (fillLine line cond)
  | .forLoop m init cond step body =>
    .forLoop (m.fillLine line) (fillLineOption line init) (fillLineOption line cond)
      (fillLineOption line step) (fillLine line body)
  | .foreach m collection key value body =>
    .foreach (m.fillLine line) (fillLine line collection) key value (fillLine line body)
  | .breakLoop m => .breakLoop (m.fillLine line)
  | .continueLoop m => .continueLoop (m.fillLine line)
  | .ret m value => .ret (m.fillLine line) (fillLineOption line value)
  | .operation m op operands => .operation (m.fillLine line) op (fillLineAll line operands)
  | .constant m value => .constant (m.fillLine line) value
  | .identifier m name => .identifier (m.fillLine line) name
  | .call m callee args receiver =>
    .call (m.fillLine line) (fillLine line callee) (fillLineAll line args)
      (fillLineOption line receiver)
  | .this m => .this (m.fillLine line)
  | .function m params body =>
    .function (m.fillLine line) (fillLineAll line params) (fillLine line body)
  | .table m fields => .table (m.fillLine line) (fillLineAll line fields)

/-- `fillLine` for each of some trees. -/
def fillLineAll (line : UInt32) : List Node → List Node
  | [] => []
  | n :: rest => fillLine line n :: fillLineAll line rest

/-- `fillLine` for a tree that may be missing. -/
def fillLineOption (line : UInt32) : Option Node → Option Node
  | none => none
  | some n => some (fillLine line n)

end

end Node

end ScriptToolchain
