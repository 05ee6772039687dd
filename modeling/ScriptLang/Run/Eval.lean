import ScriptLang.Run.State

/-!
# Evaluating expressions

Operands are evaluated from left to right. `and` and `or` evaluate their second operand only if the
first does not decide, and yield the operand itself. An assignment yields `nil`.

## Main Definitions

* `eval`: the value of an expression nested at most so many levels.
* `evaluate`: the same with the limit of the configuration.
-/

namespace ScriptLang

/-- Does the first operand decide a logical operation? An `or` is decided by a value that counts as
true, every other operator by one that does not. -/
def decides (rule : Truthiness) (op : Token) (left : Value) : Bool :=
  if op.kind = .orWord then rule.holds left else !rule.holds left

/-- Evaluates an expression nested at most `n` levels. -/
def eval (config : Config) : Nat → Expr → State → Result Value
  | 0, _, s => .failed .tooDeep s
  | n + 1, e, s =>
    match e with
    | .literal value =>
      match Value.ofLiteral? value with
      | some value => .done value s
      | none => .failed .noValue s
    | .group inner => eval config n inner s
    | .ref name => s.read name
    | .assign name value =>
      (eval config n value s).andThen fun v s =>
      (s.assign name v).andThen fun _ s =>
      .done .nil (s.trace config (.assign name.lexeme v))
    | .unary op operand =>
      (eval config n operand s).andThen fun v s =>
      .ofExcept s (applyUnary config.truthiness op v)
    | .binary left op right =>
      (eval config n left s).andThen fun a s =>
      (eval config n right s).andThen fun b s =>
      .ofExcept s (applyBinary op a b)
    | .logical left op right =>
      (eval config n left s).andThen fun a s =>
      if decides config.truthiness op a then .done a s else eval config n right s
    | .misplaced document => .failed (.notAnExpression (documentKind document)) s

@[simp] theorem eval_zero (config : Config) (e : Expr) (s : State) :
    eval config 0 e s = .failed .tooDeep s := rfl

/-- Evaluates an expression within the limit of the configuration. -/
def evaluate (config : Config) (e : Expr) (s : State) : Result Value :=
  eval config config.limit e s

end ScriptLang
