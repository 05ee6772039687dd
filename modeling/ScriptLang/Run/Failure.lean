import ScriptLang.Diagnostic
import ScriptLang.Value.Basic

/-!
# Failures at run time

Why a run stops. Most failures are reported as diagnostics with a class, a message and the line of
the name or operator at fault. The others concern trees that no parse builds, or nesting that is too
deep, and have no diagnostic of their own.

## Main Definitions

* `Failure`: the causes.
* `Failure.diagnostic?`: the report, for the causes that have one.
-/

namespace ScriptLang

/-- Why a run stops. -/
inductive Failure where
  /-- A name is read that no scope has. -/
  | undefined (name : Json) (line : Json)
  /-- A name is assigned to that no scope has. -/
  | unassignable (name : Json) (line : Json)
  /-- Something other than a number is negated. -/
  | notANumber (operand : Value) (line : Json)
  /-- Something other than two numbers is calculated with. -/
  | notNumbers (op : Json) (left right : Value) (line : Json)
  /-- Something other than two numbers is compared. -/
  | notComparable (line : Json)
  | divisionByZero (line : Json)
  /-- A token that is no prefix operator is applied to an operand. -/
  | noUnaryOperator (op : Json) (operand : Value) (line : Json)
  /-- A token that is no operator is applied to two operands. -/
  | noBinaryOperator (op : Json) (line : Json)
  /-- An expression is nested more deeply than evaluation goes. -/
  | tooDeep
  /-- The nesting that stopped a statement, as the run of a program reports it. -/
  | statementTooDeep
  /-- A node that is no statement is executed. -/
  | notAStatement (kind : String)
  /-- A node that is no expression is evaluated. -/
  | notAnExpression (kind : String)
  /-- A literal is evaluated that has no value. -/
  | noValue
  /-- A variable is used whose token has a list or an object for its text. -/
  | noName

namespace Failure

/-- The report of a failure. -/
def diagnostic? : Failure → Option Diagnostic
  | undefined name line => some
    { stage := .run "NameError", line
      message := "Cannot find the variable '" ++ name.shown ++ "' in the scope" }
  | unassignable name line => some
    { stage := .run "NameError", line
      message := "Cannot assign to undefined variable '" ++ name.shown ++ "'" }
  | notANumber operand line => some
    { stage := .run "TypeError", line
      message := "Cannot apply - to a non-number '" ++ operand.text ++ "'" }
  | notNumbers op left right line => some
    { stage := .run "TypeError", line
      message := "Cannot apply " ++ op.shown ++ " to '" ++ left.text ++ "' and '" ++ right.text
        ++ "'" }
  | notComparable line => some
    { stage := .run "TypeError", line, message := "Cannot compare non-numbers." }
  | divisionByZero line => some
    { stage := .run "ZeroDivisionError", line, message := "Cannot divide by zero" }
  | noUnaryOperator op operand line => some
    { stage := .run "OperatorError", line
      message := "Cannot apply " ++ op.shown ++ " to '" ++ operand.text ++ "'" }
  | noBinaryOperator op line => some
    { stage := .run "OperatorError", line, message := "No such operator as " ++ op.shown }
  | statementTooDeep => some { stage := .run "RecursionError", message := "Too much nesting." }
  | tooDeep => none
  | notAStatement _ => none
  | notAnExpression _ => none
  | noValue => none
  | noName => none

end Failure

end ScriptLang
