import ScriptLang.Parse.Parser

/-!
# Parsing expressions

Assignment binds loosest and to the right. Below it stand six levels of operators that bind to the
left, from `or` to multiplication, then the two prefix operators, then names, literals and
parentheses.

## Main Definitions

* `leftChain`: operands of one level with operators between them, folded to the left.
* `operation`: the six levels above the prefix operators.
* `expression`, `unary`: whole expressions, and operands with their prefix operators.

## Design Notes

The two recursive parsers take the number of levels that the expression may still open. A chain of
operators is a loop and opens none. What stands left of an equals sign is parsed as an operation and
looked at afterwards: if it is no name, the error is noted and the parse goes on behind the value.
-/

namespace ScriptLang.Parse

/-- The rest of a chain after the operand `left`, of at most `n` operators. -/
def chainTail (ops : TokenKind → Bool) (node : Expr → Token → Expr → Expr) (operand : Parser Expr) :
    Nat → Expr → Parser Expr
  | 0, left => return left
  | n + 1, left => do
    match ← accept? ops with
    | none => return left
    | some op =>
      let right ← operand
      chainTail ops node operand n (node left op right)

/-- Operands with operators of one level between them, folded to the left. -/
def leftChain (ops : TokenKind → Bool) (node : Expr → Token → Expr → Expr) (operand : Parser Expr) :
    Parser Expr := do
  let first ← operand
  chainTail ops node operand (← remaining) first

/-! ### The levels of operators, from the one that binds tightest -/

/-- The kinds of operator on a level. -/
def isFactorOp (kind : TokenKind) : Bool := kind = .star || kind = .slash

@[inherit_doc isFactorOp]
def isTermOp (kind : TokenKind) : Bool := kind = .minus || kind = .plus

@[inherit_doc isFactorOp]
def isComparisonOp (kind : TokenKind) : Bool :=
  kind = .greater || kind = .greaterEqual || kind = .less || kind = .lessEqual

@[inherit_doc isFactorOp]
def isEqualityOp (kind : TokenKind) : Bool := kind = .bangEqual || kind = .equalEqual

@[inherit_doc isFactorOp]
def isAndOp (kind : TokenKind) : Bool := kind = .andWord

@[inherit_doc isFactorOp]
def isOrOp (kind : TokenKind) : Bool := kind = .orWord

/-- The operators that stand in front of their operand. -/
def isUnaryOp (kind : TokenKind) : Bool := kind = .bang || kind = .minus

/-- Operands with operators of any level between them. -/
def operation (operand : Parser Expr) : Parser Expr :=
  leftChain isOrOp .logical <|
  leftChain isAndOp .logical <|
  leftChain isEqualityOp .binary <|
  leftChain isComparisonOp .binary <|
  leftChain isTermOp .binary <|
  leftChain isFactorOp .binary operand

/-! ### Expressions -/

/-- A literal, a name, or an expression in parentheses. -/
def primary (expression : Parser Expr) : Parser Expr := do
  let token ← peek
  match token.kind with
  | .falseWord => advance; return .literal (.bool false)
  | .trueWord => advance; return .literal (.bool true)
  | .nilWord => advance; return .literal .null
  | .number => advance; return .literal token.literal
  | .string => advance; return .literal token.literal
  | .identifier => advance; return .ref token
  | .leftParen =>
    advance
    let inner ← expression
    let _ ← expect .rightParen .parenAfterExpression
    return .group inner
  | _ => fail .expression

/-- The assignment that a target, its equals sign and a value make, if the target is a name. -/
def assignment (target : Expr) (equals : Token) (index : Nat) (value : Expr) : Parser Expr :=
  match target with
  | .ref name => return .assign name value
  | _ => do
    note { fault := .assignmentTarget, token := equals, index }
    return target

mutual

/-- An expression that opens at most `n` levels. -/
def expression : Nat → Parser Expr
  | 0 => halt .tooDeep
  | n + 1 => do
    let target ← operation (unary n)
    let index ← here
    match ← accept? (· = .equal) with
    | none => return target
    | some equals =>
      let value ← expression n
      assignment target equals index value

/-- An operand with its prefix operators that opens at most `n` levels. -/
def unary : Nat → Parser Expr
  | 0 => halt .tooDeep
  | n + 1 => do
    match ← accept? isUnaryOp with
    | some op =>
      let operand ← unary n
      return .unary op operand
    | none => primary (expression n)

end

end ScriptLang.Parse
