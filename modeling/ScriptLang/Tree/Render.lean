import ScriptLang.Tree.Basic
import ScriptLang.Value.Basic

/-!
# Prefix form

An expression as a line of text with every operator in front of its operands and in parentheses:
`1 + 2 * x` is `(+ 1 (* 2 (var x)))`.

## Main Definitions

* `Expr.render?`: the prefix form. A literal that has no value has none.
* `Stmt.exprs`: the expressions that stand directly in a statement and its parts.
-/

namespace ScriptLang

/-- A row of texts in parentheses with blanks between them. -/
def parenthesized (texts : List String) : String :=
  "(" ++ String.intercalate " " texts ++ ")"

/-- The prefix form of an expression. -/
def Expr.render? : Expr → Option String
  | .literal value => (Value.ofLiteral? value).map Value.text
  | .group inner => inner.render?.map fun text => parenthesized ["group", text]
  | .unary op operand => operand.render?.map fun text => parenthesized [op.lexeme.shown, text]
  | .binary left op right => do
    let first ← left.render?
    let second ← right.render?
    return parenthesized [op.lexeme.shown, first, second]
  | .logical left op right => do
    let first ← left.render?
    let second ← right.render?
    return parenthesized [op.lexeme.shown, first, second]
  | .ref name => some (parenthesized ["var", name.lexeme.shown])
  | .assign name value =>
    value.render?.map fun text => parenthesized ["=", name.lexeme.shown, text]
  | .misplaced document => some document.listed

mutual

/-- The expressions of a statement from left to right, those of its parts included. -/
def Stmt.exprs : Stmt → List Expr
  | .expr value => [value]
  | .print value => [value]
  | .declare _ initial => initial.toList
  | .block body => exprsOfAll body
  | .branch condition whenTrue none => condition :: whenTrue.exprs
  | .branch condition whenTrue (some whenFalse) => condition :: whenTrue.exprs ++ whenFalse.exprs
  | .loop condition body => condition :: body.exprs
  | .misplaced _ inner => inner

/-- The expressions of statements, in order. -/
def exprsOfAll : List Stmt → List Expr
  | [] => []
  | stmt :: stmts => stmt.exprs ++ exprsOfAll stmts

end

end ScriptLang
