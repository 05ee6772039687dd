import ScriptLang.Token.Stored
import ScriptLang.Tree.Render

/-!
# Trees in documents

Every node is stored as an object whose field `type` names its kind and whose other fields hold its
parts.

## Main Definitions

* `Document`: what a document can describe: a program, a statement, an expression, a list of these,
  or nothing.
* `Document.toJson`: the document of it.
* `Document.exprs`, `Document.render?`: the expressions described, and their prefix forms.
* `Document.load`: what a document describes.
* `Document.store`: the document of it, unless it is nested too deeply.

## Design Notes

Loading recurses on the number of levels that may still be opened. What stands in the place of an
expression or a statement and is none is loaded all the same and kept in its stored form.
-/

namespace ScriptLang

/-! ### Storing -/

/-- The document of a node of some kind. -/
def nodeJson (kind : String) (fields : List (String × Json)) : Json :=
  .obj (("type", .str kind) :: fields)

/-- The document of an expression. -/
def Expr.toJson : Expr → Json
  | .literal value => nodeJson "Literal" [("value", value)]
  | .group inner => nodeJson "Grouping" [("expression", inner.toJson)]
  | .unary op operand => nodeJson "UnaryOp" [("op", op.toJson), ("operand", operand.toJson)]
  | .binary left op right =>
    nodeJson "BinaryOp" [("left", left.toJson), ("op", op.toJson), ("right", right.toJson)]
  | .logical left op right =>
    nodeJson "LogicalOp" [("left", left.toJson), ("op", op.toJson), ("right", right.toJson)]
  | .ref name => nodeJson "Variable" [("name", name.toJson)]
  | .assign name value => nodeJson "Assign" [("name", name.toJson), ("value", value.toJson)]
  | .misplaced document => document

mutual

/-- The document of a statement. -/
def Stmt.toJson : Stmt → Json
  | .expr value => nodeJson "ExprStmt" [("expr", value.toJson)]
  | .print value => nodeJson "PrintStmt" [("expr", value.toJson)]
  | .declare name none => nodeJson "VarDecl" [("name", name.toJson), ("initializer", .null)]
  | .declare name (some initial) =>
    nodeJson "VarDecl" [("name", name.toJson), ("initializer", initial.toJson)]
  | .block body => nodeJson "Block" [("statements", .arr (jsonOfAll body))]
  | .branch condition whenTrue none =>
    nodeJson "IfStmt" [("condition", condition.toJson), ("then_branch", whenTrue.toJson),
      ("else_branch", .null)]
  | .branch condition whenTrue (some whenFalse) =>
    nodeJson "IfStmt" [("condition", condition.toJson), ("then_branch", whenTrue.toJson),
      ("else_branch", whenFalse.toJson)]
  | .loop condition body =>
    nodeJson "WhileStmt" [("condition", condition.toJson), ("body", body.toJson)]
  | .misplaced document _ => document

/-- The documents of statements. -/
def jsonOfAll : List Stmt → List Json
  | [] => []
  | stmt :: stmts => stmt.toJson :: jsonOfAll stmts

end

/-- What a document can describe. -/
inductive Document where
  | absent
  | list (items : List Document)
  | program (body : List Stmt)
  | stmt (node : Stmt)
  | expr (node : Expr)
deriving Inhabited

namespace Document

mutual

/-- The document of what is described. -/
def toJson : Document → Json
  | absent => .null
  | list items => .arr (toJsonAll items)
  | program body => nodeJson "Program" [("body", .arr (jsonOfAll body))]
  | stmt node => node.toJson
  | expr node => node.toJson

/-- The documents of what is described. -/
def toJsonAll : List Document → List Json
  | [] => []
  | item :: items => item.toJson :: toJsonAll items

end

/-- The kind of what is described. -/
def kind : Document → String
  | absent => "NoneType"
  | list _ => "list"
  | program _ => "Program"
  | stmt node => node.kind
  | expr node => node.kind

mutual

/-- The length of the longest path through what is described. -/
def height : Document → Nat
  | absent => 0
  | list items => heightAll items + 1
  | program body => heightOfAll body + 1
  | stmt node => node.height
  | expr node => node.height

/-- The length of the longest path through any of these. -/
def heightAll : List Document → Nat
  | [] => 0
  | item :: items => max item.height (heightAll items)

end

mutual

/-- The expressions described, those of statements and lists included. -/
def exprs : Document → List Expr
  | absent => []
  | list items => exprsAll items
  | program body => exprsOfAll body
  | stmt node => node.exprs
  | expr node => [node]

/-- The expressions described by any of these, in order. -/
def exprsAll : List Document → List Expr
  | [] => []
  | item :: items => item.exprs ++ exprsAll items

end

/-- The prefix forms of the expressions described. -/
def render? (document : Document) : Option (List String) :=
  document.exprs.mapM Expr.render?

/-- The document, unless it is nested more deeply than `limit`. -/
def store (limit : Nat) (document : Document) : Option Json :=
  if document.height ≤ limit then some document.toJson else none

/-! ### Loading -/

/-- What stands in the place of an expression. -/
def asExpr : Document → Expr
  | expr node => node
  | document => .misplaced document.toJson

/-- What stands in the place of a statement. -/
def asStmt : Document → Stmt
  | stmt node => node
  | document => .misplaced document.toJson document.exprs

/-- What stands in the place of an expression that may be left out. -/
def asExpr? : Document → Option Expr
  | absent => none
  | document => some document.asExpr

/-- What stands in the place of a statement that may be left out. -/
def asStmt? : Document → Option Stmt
  | absent => none
  | document => some document.asStmt

/-- The value of a literal: whole numbers become doubles. -/
def literalValue : Json → Except LoadError Json
  | .int n =>
    let x := Float.ofInt n
    if x.isInf then .error .overflow else .ok (.num x)
  | value => .ok value

/-- Loads the members of a list in order. -/
def loadAll (load : Json → Except LoadError Document) :
    List Json → Except LoadError (List Document)
  | [] => .ok []
  | item :: items => do
    let first ← load item
    let others ← loadAll load items
    return first :: others

/-- Loads the statements of a program or a block. An empty object or text counts as an empty list;
any other begins with something that is no node. -/
def loadBody (load : Json → Except LoadError Document) : Json → Except LoadError (List Stmt)
  | .arr items => return (← loadAll load items).map asStmt
  | .obj [] => .ok []
  | .obj (_ :: _) => .error .notANode
  | .str text => if text.isEmpty then .ok [] else .error .notANode
  | _ => .error .wrongShape

/-- Loads a node from the fields of its object. -/
def loadNode (load : Json → Except LoadError Document) (fields : List (String × Json)) :
    Except LoadError Document :=
  let part (key : String) := do load (← required key fields)
  let optional (key : String) := load ((Json.field? key fields).getD .null)
  let token (key : String) := do Token.load (← required key fields)
  match (Json.field? "type" fields).getD .null with
  | .str "Program" => do
    return program (← loadBody load (← required "body" fields))
  | .str "ExprStmt" => do
    return stmt (.expr (← part "expr").asExpr)
  | .str "PrintStmt" => do
    return stmt (.print (← part "expr").asExpr)
  | .str "VarDecl" => do
    let name ← token "name"
    return stmt (.declare name (← optional "initializer").asExpr?)
  | .str "Block" => do
    return stmt (.block (← loadBody load (← required "statements" fields)))
  | .str "IfStmt" => do
    let condition ← part "condition"
    let whenTrue ← part "then_branch"
    let whenFalse ← optional "else_branch"
    return stmt (.branch condition.asExpr whenTrue.asStmt whenFalse.asStmt?)
  | .str "WhileStmt" => do
    let condition ← part "condition"
    let body ← part "body"
    return stmt (.loop condition.asExpr body.asStmt)
  | .str "Literal" => do
    return expr (.literal (← literalValue (← required "value" fields)))
  | .str "Grouping" => do
    return expr (.group (← part "expression").asExpr)
  | .str "UnaryOp" => do
    let op ← token "op"
    let operand ← part "operand"
    return expr (.unary op operand.asExpr)
  | .str "BinaryOp" => do
    let left ← part "left"
    let op ← token "op"
    let right ← part "right"
    return expr (.binary left.asExpr op right.asExpr)
  | .str "LogicalOp" => do
    let left ← part "left"
    let op ← token "op"
    let right ← part "right"
    return expr (.logical left.asExpr op right.asExpr)
  | .str "Variable" => do
    return expr (.ref (← token "name"))
  | .str "Assign" => do
    let name ← token "name"
    let value ← part "value"
    return expr (.assign name value.asExpr)
  | name => .error (.unknownNode name)

/-- What a document describes, if it opens at most `n` levels. -/
def load : Nat → Json → Except LoadError Document
  | _, .null => .ok absent
  | 0, _ => .error .tooDeep
  | n + 1, .arr items => return list (← loadAll (load n) items)
  | n + 1, .obj fields => loadNode (load n) fields
  | _ + 1, _ => .error .notANode

/-! ### Statements and values -/

/-- The statements to run: those of a program or the members of a list. Nothing else can be run. -/
def stmts? : Document → Option (List Stmt)
  | program body => some body
  | list items => some (items.map asStmt)
  | _ => none

/-- A value handed in from outside where a tree is to be stored: only the absence of one can be. -/
def ofValue? : Value → Option Document
  | .unset => some absent
  | _ => none

end Document

end ScriptLang
