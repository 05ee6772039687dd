import ScriptLang.Token.Basic

/-!
# Syntax trees

Expressions and statements. Names and operators keep their tokens, so that a run can name variables
and report lines.

## Main Definitions

* `Expr`, `Stmt`: the trees.
* `Expr.kind`, `Stmt.kind`: the name of a node's kind in traces and documents.
* `Expr.height`, `Stmt.height`: how deeply a tree is nested.
* `Expr.WellFormed`, `Stmt.WellFormed`: trees of the kind that a parse builds.

## Design Notes

Trees also come from documents, and a document may put any node, a list or nothing at all where an
expression or a statement belongs. Such a tree can be stored again and fails when it is run. The
constructor `misplaced` holds the document that stands there; in the place of a statement also the
expressions that are found in it, which have a prefix form like all others.
-/

namespace ScriptLang

/-- An expression. -/
inductive Expr where
  | literal (value : Json)
  | group (inner : Expr)
  | unary (op : Token) (operand : Expr)
  | binary (left : Expr) (op : Token) (right : Expr)
  | logical (left : Expr) (op : Token) (right : Expr)
  | ref (name : Token)
  | assign (name : Token) (value : Expr)
  /-- The document of something that is no expression. -/
  | misplaced (document : Json)
deriving Inhabited

/-- A statement. -/
inductive Stmt where
  | expr (value : Expr)
  | print (value : Expr)
  /-- Without an initial value the variable starts as `nil`. -/
  | declare (name : Token) (initial : Option Expr)
  | block (body : List Stmt)
  | branch (condition : Expr) (whenTrue : Stmt) (whenFalse : Option Stmt)
  | loop (condition : Expr) (body : Stmt)
  /-- The document of something that is no statement, and the expressions in it. -/
  | misplaced (document : Json) (inner : List Expr)
deriving Inhabited

/-- The statements that have a condition. -/
inductive Conditional where
  | branch
  | loop
deriving Repr, DecidableEq

/-! ### Kinds -/

/-- The kind of node that a stored document shows. -/
def documentKind : Json → String
  | .arr _ => "list"
  | .obj fields =>
    match Json.field? "type" fields with
    | some (.str kind) => kind
    | _ => "NoneType"
  | _ => "NoneType"

/-- The name of an expression's kind. -/
def Expr.kind : Expr → String
  | .literal _ => "Literal"
  | .group _ => "Grouping"
  | .unary .. => "UnaryOp"
  | .binary .. => "BinaryOp"
  | .logical .. => "LogicalOp"
  | .ref _ => "Variable"
  | .assign .. => "Assign"
  | .misplaced document => documentKind document

/-- The name of a statement's kind. -/
def Stmt.kind : Stmt → String
  | .expr _ => "ExprStmt"
  | .print _ => "PrintStmt"
  | .declare .. => "VarDecl"
  | .block _ => "Block"
  | .branch .. => "IfStmt"
  | .loop .. => "WhileStmt"
  | .misplaced document _ => documentKind document

/-! ### Heights -/

/-- The length of the longest path through an expression. -/
def Expr.height : Expr → Nat
  | .literal _ => 1
  | .group inner => inner.height + 1
  | .unary _ operand => operand.height + 1
  | .binary left _ right => max left.height right.height + 1
  | .logical left _ right => max left.height right.height + 1
  | .ref _ => 1
  | .assign _ value => value.height + 1
  | .misplaced _ => 1

mutual

/-- The length of the longest path through a statement. -/
def Stmt.height : Stmt → Nat
  | .expr value => value.height + 1
  | .print value => value.height + 1
  | .declare _ none => 1
  | .declare _ (some initial) => initial.height + 1
  | .block body => heightOfAll body + 1
  | .branch condition whenTrue none => max condition.height whenTrue.height + 1
  | .branch condition whenTrue (some whenFalse) =>
    max condition.height (max whenTrue.height whenFalse.height) + 1
  | .loop condition body => max condition.height body.height + 1
  | .misplaced .. => 1

/-- The length of the longest path through any of the statements. -/
def heightOfAll : List Stmt → Nat
  | [] => 0
  | stmt :: stmts => max stmt.height (heightOfAll stmts)

end

/-! ### Trees without misplaced nodes -/

/-- No node of the expression is misplaced. -/
def Expr.WellFormed : Expr → Prop
  | .literal _ => True
  | .group inner => inner.WellFormed
  | .unary _ operand => operand.WellFormed
  | .binary left _ right => left.WellFormed ∧ right.WellFormed
  | .logical left _ right => left.WellFormed ∧ right.WellFormed
  | .ref _ => True
  | .assign _ value => value.WellFormed
  | .misplaced _ => False

mutual

/-- No node of the statement is misplaced. -/
def Stmt.WellFormed : Stmt → Prop
  | .expr value => value.WellFormed
  | .print value => value.WellFormed
  | .declare _ none => True
  | .declare _ (some initial) => initial.WellFormed
  | .block body => allWellFormed body
  | .branch condition whenTrue none => condition.WellFormed ∧ whenTrue.WellFormed
  | .branch condition whenTrue (some whenFalse) =>
    condition.WellFormed ∧ whenTrue.WellFormed ∧ whenFalse.WellFormed
  | .loop condition body => condition.WellFormed ∧ body.WellFormed
  | .misplaced .. => False

/-- No node of any of the statements is misplaced. -/
def allWellFormed : List Stmt → Prop
  | [] => True
  | stmt :: stmts => stmt.WellFormed ∧ allWellFormed stmts

end

end ScriptLang
