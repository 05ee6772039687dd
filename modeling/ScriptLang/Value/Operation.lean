import ScriptLang.Run.Failure

/-!
# Operations on values

Which values count as true, and what the operators do.

## Main Definitions

* `Truthiness`: the two rules for what counts as true.
* `Truthiness.holds`, `Truthiness.negate`: the rule itself, and the operator `!` under it.
* `applyUnary`, `applyBinary`: an operator, given by its token, on its operands.

## Design Notes

Under the legacy rule a number counts as true when it is zero and a string when it is not empty, and
`!` follows the same tests except that it turns booleans round. Under the standard rule everything
counts as true but `false` and `nil`, and `!` is plain negation. Calculation and comparison,
equality included, are for numbers only.
-/

namespace ScriptLang

/-- The rules for what counts as true. -/
inductive Truthiness where
  | legacy
  | standard
deriving Repr, DecidableEq, Inhabited

namespace Truthiness

/-- The rule of a given name. -/
def ofName? (name : String) : Option Truthiness :=
  if name = "legacy" then some legacy
  else if name = "standard" then some standard
  else none

/-- The message for something that names no rule, as a listing shows it. -/
def expectedMessage (listed : String) : String :=
  "unknown truthiness mode " ++ listed ++ "; expected one of ('legacy', 'standard')"

/-- The message for a name that no rule has. -/
def unknownMessage (name : String) : String :=
  expectedMessage (Text.quoted name)

/-- The message where a name is called for and none is given. -/
def unnamedMessage : String :=
  expectedMessage "[]"

/-- Does a value count as true? -/
def holds : Truthiness → Value → Bool
  | standard, .bool false => false
  | standard, .nil => false
  | standard, _ => true
  | legacy, .bool b => b
  | legacy, .num x => x == 0
  | legacy, .str text => !text.isEmpty
  | legacy, .nil => false
  | legacy, .unset => false

/-- The operator `!`. -/
def negate : Truthiness → Value → Bool
  | standard, value => !standard.holds value
  | legacy, .bool b => !b
  | legacy, value => legacy.holds value

end Truthiness

/-! ### Operators -/

/-- A prefix operator on its operand. -/
def applyUnary (rule : Truthiness) (op : Token) (operand : Value) : Except Failure Value :=
  match op.kind, operand with
  | .minus, .num x => .ok (.num (-x))
  | .minus, _ => .error (.notANumber operand op.line)
  | .bang, _ => .ok (.bool (rule.negate operand))
  | _, _ => .error (.noUnaryOperator op.lexeme operand op.line)

/-- The operators that calculate. -/
def isArithmetic (kind : TokenKind) : Bool :=
  kind = .minus || kind = .plus || kind = .star || kind = .slash

/-- The operators that compare. -/
def isComparison (kind : TokenKind) : Bool :=
  kind = .less || kind = .lessEqual || kind = .greater || kind = .greaterEqual
    || kind = .equalEqual || kind = .bangEqual

/-- Calculates with two numbers. -/
def calculate (kind : TokenKind) (line : Json) (x y : Float) : Except Failure Value :=
  match kind with
  | .minus => .ok (.num (x - y))
  | .plus => .ok (.num (x + y))
  | .star => .ok (.num (x * y))
  | _ => if y == 0 then .error (.divisionByZero line) else .ok (.num (x / y))

/-- Compares two numbers. -/
def compareNumbers (kind : TokenKind) (x y : Float) : Bool :=
  match kind with
  | .less => decide (x < y)
  | .lessEqual => decide (x ≤ y)
  | .greater => decide (x > y)
  | .greaterEqual => decide (x ≥ y)
  | .equalEqual => x == y
  | _ => x != y

/-- An operator on its two operands. -/
def applyBinary (op : Token) (left right : Value) : Except Failure Value :=
  if isArithmetic op.kind then
    match left, right with
    | .num x, .num y => calculate op.kind op.line x y
    | _, _ => .error (.notNumbers op.lexeme left right op.line)
  else if isComparison op.kind then
    match left, right with
    | .num x, .num y => .ok (.bool (compareNumbers op.kind x y))
    | _, _ => .error (.notComparable op.line)
  else .error (.noBinaryOperator op.lexeme op.line)

end ScriptLang
