import ScriptLang.Json.Basic

/-!
# Values

What expressions evaluate to and variables hold.

## Main Definitions

* `Value`: numbers, strings, booleans and `nil`.
* `Value.text`: the text that `print` shows.
* `Value.typeName`: the name of a value's type in traces.
* `Value.ofLiteral?`: the value of a literal.

## Design Notes

`unset` is what a caller from outside may hand in where a value is expected. It prints like `nil`
but is not `nil`, and no literal and no operation yields it.
-/

namespace ScriptLang

/-- A value. -/
inductive Value where
  | num (x : Float)
  | str (text : String)
  | bool (b : Bool)
  | nil
  | unset
deriving DecidableEq, Inhabited

namespace Value

/-- The text that `print` shows. -/
def text : Value → String
  | num x => Number.printed x
  | str text => text
  | bool true => "true"
  | bool false => "false"
  | nil => "nil"
  | unset => "nil"

/-- The name of a value's type. -/
def typeName : Value → String
  | num _ => "Number"
  | str _ => "String"
  | bool _ => "Bool"
  | nil => "Nil"
  | unset => "NoneType"

/-- Is the value a number? -/
def isNumber : Value → Bool
  | num _ => true
  | _ => false

/-- The value of a literal. Lists and objects, which only a document can put in a literal's place,
have none. -/
def ofLiteral? : Json → Option Value
  | .null => some nil
  | .bool b => some (bool b)
  | .int n => some (num (Float.ofInt n))
  | .num x => some (num x)
  | .str text => some (str text)
  | .arr _ => none
  | .obj _ => none

end Value

end ScriptLang
