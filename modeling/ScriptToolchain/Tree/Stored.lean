import ScriptToolchain.Json.Field
import ScriptToolchain.Json.Parser
import ScriptToolchain.Json.Printer
import ScriptToolchain.Tree.Node

/-!
# Stored trees

The JSON form of a tree and the way back. A node is an object of kind, line
and flags; the kind is a variant within a variant. Arrays and objects may be
nested to a fixed depth, which the reader counts down as it enters them, so
the depth bounds its recursion too. Skipped fields are not counted.
-/

namespace ScriptToolchain

namespace Node

/-! ## Writing -/

/-- A constant. -/
def constantJson : Constant → Json
  | .null => .str "Null"
  | .int v => Json.variant "Int" (.int v.toInt)
  | .float bits => Json.variant "Float" (.ofFloat32 bits)
  | .str s => Json.variant "Str" (.str s)

/-- A node of the given kind. -/
def markedJson (kind : String) (m : Mark) (content : Json) : Json :=
  .obj [("kind", Json.variant kind content), ("line", .word32 m.line),
    ("flags", .str m.flags.text)]

mutual

/-- The JSON form of a tree. -/
def toJson : Node → Json
  | .declaration m storage name =>
    markedJson "Declaration" m <| Json.variant "Variable" <|
      .obj [("class", .str storage.name), ("name", .str name)]
  | .parameter m name =>
    markedJson "Declaration" m <| Json.variant "Parameter" <| .obj [("name", .str name)]
  | .block m items =>
    markedJson "Statement" m <| Json.variant "Compound" <| .array (toJsonAll items)
  | .ifElse m cond thenBranch elseBranch =>
    markedJson "Statement" m <| Json.variant "If" <|
      .obj [("cond", toJson cond), ("then", toJson thenBranch),
        ("otherwise", toJsonOption elseBranch)]
  | .whileLoop m cond body =>
    markedJson "Statement" m <| Json.variant "While" <|
      .obj [("cond", toJson cond), ("body", toJson body)]
  | .doLoop m body cond =>
    markedJson "Statement" m <| Json.variant "DoWhile" <|
      .obj [("body", toJson body), ("cond", toJson cond)]
  | .forLoop m init cond step body =>
    markedJson "Statement" m <| Json.variant "For" <|
      .obj [("init", toJsonOption init), ("cond", toJsonOption cond),
        ("step", toJsonOption step), ("body", toJson body)]
  | .foreach m collection key value body =>
    markedJson "Statement" m <| Json.variant "Foreach" <|
      .obj [("table", toJson collection), ("key", .ofOption .str key), ("value", .str value),
        ("body", toJson body)]
  | .breakLoop m => markedJson "Statement" m <| .str "Break"
  | .continueLoop m => markedJson "Statement" m <| .str "Continue"
  | .ret m value => markedJson "Statement" m <| Json.variant "Return" (toJsonOption value)
  | .operation m op operands =>
    markedJson "Expression" m <| Json.variant "Operation" <|
      .obj [("op", .str op.name), ("operands", .array (toJsonAll operands))]
  | .constant m value =>
    markedJson "Expression" m <| Json.variant "Constant" (constantJson value)
  | .identifier m name => markedJson "Expression" m <| Json.variant "Identifier" (.str name)
  | .call m callee args receiver =>
    markedJson "Expression" m <| Json.variant "Call" <|
      .obj [("callee", toJson callee), ("args", .array (toJsonAll args)),
        ("receiver", toJsonOption receiver)]
  | .this m => markedJson "Expression" m <| .str "This"
  | .function m params body =>
    markedJson "Expression" m <| Json.variant "Function" <|
      .obj [("params", .array (toJsonAll params)), ("body", toJson body)]
  | .table m fields =>
    markedJson "Expression" m <| Json.variant "Table" <| .array (toJsonAll fields)

/-- The JSON forms of some trees. -/
def toJsonAll : List Node → List Json
  | [] => []
  | n :: rest => toJson n :: toJsonAll rest

/-- The JSON form of a tree that may be missing. -/
def toJsonOption : Option Node → Json
  | none => .null
  | some n => toJson n

end

/-- The text of the JSON form. -/
def toText (n : Node) : String :=
  n.toJson.render

/-! ## Reading -/

open Json (required? optional?)

/-- A storage class. -/
def storage? (depth : Nat) (v : Json) : Option StorageClass :=
  (v.unit? depth).bind StorageClass.ofName?

/-- An operator. -/
def operator? (depth : Nat) (v : Json) : Option Operator :=
  (v.unit? depth).bind Operator.ofName?

/-- The set of flags that a string lists. -/
def flagsOf? (v : Json) : Option NodeFlags :=
  v.asString?.bind NodeFlags.ofText?

/-- The mark that the values of line and flags make; each may be missing. -/
def mark? (line flags : Option Json) : Option Mark := do
  let line ← match line with
    | none => some 0
    | some v => v.asWord32?
  let flags ← match flags with
    | none => some {}
    | some v => flagsOf? v
  return { line, flags }

/-- A constant. -/
def constant? (depth : Nat) (v : Json) : Option Constant :=
  match v.unit? depth, depth, v.variant? with
  | some "Null", _, _ => some .null
  | _, _ + 1, some ("Int", some v) =>
    (v.intBetween? (-0x80000000) 0x7FFFFFFF).map fun i => .int i.toInt32
  | _, _ + 1, some ("Float", some v) => v.float32?.map .float
  | _, _ + 1, some ("Str", some v) => v.asString?.map .str
  | _, _, _ => none

/-- The content of a declaration. -/
def declaration? (depth : Nat) (m : Mark) (v : Json) : Option Node :=
  match depth, v.variant? with
  | depth + 2, some ("Variable", some content) =>
    match content.fields? ["class", "name"] 2 with
    | some [storage, name] => do
      return .declaration m (← required? (storage? depth) storage)
        (← required? Json.asString? name)
    | _ => none
  | _ + 2, some ("Parameter", some content) =>
    match content.fields? ["name"] 1 with
    | some [name] => (required? Json.asString? name).map (.parameter m)
    | _ => none
  | _, _ => none

mutual

/-- Reads a tree whose arrays and objects are nested at most `depth` deep. -/
def ofJson? : Nat → Json → Option Node
  | 0, _ => none
  | depth + 1, v =>
    match v.fields? ["kind", "line", "flags"] 1 with
    | some [some kind, line, flags] => do
      let m ← mark? line flags
      kind? depth m kind
    | _ => none

/-- Reads the kind of a node. -/
def kind? : Nat → Mark → Json → Option Node
  | 0, _, _ => none
  | depth + 1, m, v =>
    match v.variant? with
    | some ("Declaration", some content) => declaration? depth m content
    | some ("Statement", some content) => statement? depth m content
    | some ("Expression", some content) => expression? depth m content
    | _ => none

/-- Reads the content of a statement. -/
def statement? : Nat → Mark → Json → Option Node
  | depth, m, v =>
    match v.unit? depth with
    | some "Break" => some (.breakLoop m)
    | some "Continue" => some (.continueLoop m)
    | _ =>
      match depth, v.variant? with
      | _ + 1, some ("Return", some .null) => some (.ret m none)
      | depth + 1, some ("Return", some content) =>
        (ofJson? depth content).map fun n => .ret m (some n)
      | depth + 2, some ("Compound", some (.array items)) =>
        (items.mapM (ofJson? depth)).map (.block m)
      | depth + 2, some ("If", some content) =>
        match content.fields? ["cond", "then", "otherwise"] 3 with
        | some [cond, thenBranch, elseBranch] => do
          return .ifElse m (← required? (ofJson? depth) cond)
            (← required? (ofJson? depth) thenBranch) (← optional? (ofJson? depth) elseBranch)
        | _ => none
      | depth + 2, some ("While", some content) =>
        match content.fields? ["cond", "body"] 2 with
        | some [cond, body] => do
          return .whileLoop m (← required? (ofJson? depth) cond)
            (← required? (ofJson? depth) body)
        | _ => none
      | depth + 2, some ("DoWhile", some content) =>
        match content.fields? ["body", "cond"] 2 with
        | some [body, cond] => do
          return .doLoop m (← required? (ofJson? depth) body)
            (← required? (ofJson? depth) cond)
        | _ => none
      | depth + 2, some ("For", some content) =>
        match content.fields? ["init", "cond", "step", "body"] 4 with
        | some [init, cond, step, body] => do
          return .forLoop m (← optional? (ofJson? depth) init)
            (← optional? (ofJson? depth) cond) (← optional? (ofJson? depth) step)
            (← required? (ofJson? depth) body)
        | _ => none
      | depth + 2, some ("Foreach", some content) =>
        match content.fields? ["table", "key", "value", "body"] 4 with
        | some [collection, key, value, body] => do
          return .foreach m (← required? (ofJson? depth) collection)
            (← optional? Json.asString? key) (← required? Json.asString? value)
            (← required? (ofJson? depth) body)
        | _ => none
      | _, _ => none

/-- Reads the content of an expression. -/
def expression? : Nat → Mark → Json → Option Node
  | depth, m, v =>
    match v.unit? depth with
    | some "This" => some (.this m)
    | _ =>
      match depth, v.variant? with
      | depth + 1, some ("Constant", some content) => (constant? depth content).map (.constant m)
      | _ + 1, some ("Identifier", some content) => content.asString?.map (.identifier m)
      | depth + 2, some ("Operation", some content) =>
        match depth, content.fields? ["op", "operands"] 2 with
        | depth, some [op, operands] => do
          let op ← required? (operator? depth) op
          match depth, operands with
          | depth + 1, some (.array items) =>
            return .operation m op (← items.mapM (ofJson? depth))
          | _, _ => none
        | _, _ => none
      | depth + 2, some ("Call", some content) =>
        match content.fields? ["callee", "args", "receiver"] 3 with
        | some [callee, args, receiver] => do
          let callee ← required? (ofJson? depth) callee
          let receiver ← optional? (ofJson? depth) receiver
          match depth, args with
          | depth + 1, some (.array items) =>
            return .call m callee (← items.mapM (ofJson? depth)) receiver
          | _, _ => none
        | _ => none
      | depth + 2, some ("Function", some content) =>
        match content.fields? ["params", "body"] 2 with
        | some [params, body] => do
          let body ← required? (ofJson? depth) body
          match depth, params with
          | depth + 1, some (.array items) =>
            return .function m (← items.mapM (ofJson? depth)) body
          | _, _ => none
        | _ => none
      | depth + 2, some ("Table", some (.array items)) =>
        (items.mapM (ofJson? depth)).map (.table m)
      | _, _ => none

end

/-- The greatest nesting of arrays and objects in a stored tree. -/
def maxDepth : Nat := 127

/-- Reads a stored tree. -/
def ofText? (s : String) : Option Node :=
  (Json.parse? s).bind (ofJson? maxDepth)

/-- What is said of a text that is no stored tree. -/
def unreadableMessage : String :=
  "arbre JSON invalide"

end Node

end ScriptToolchain
