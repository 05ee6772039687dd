import ScriptLang.Json.Basic

/-!
# Names of variables

A variable goes by the text of its token. A token from a document may carry something else in the
place of its text; numbers, booleans and nothing serve as names too. Two numbers that are equal are
the same name however they are written, and the booleans are the numbers one and zero.

## Main Definitions

* `Name`: a name, with the key that it is compared by and the way it is written.
* `Name.ofLexeme?`: the name that a token's text is. Lists and objects are none.
* `Name.le`: the order in which names are listed.
-/

namespace ScriptLang

/-- What a name is compared by. -/
inductive Key where
  | nothing
  | whole (n : Int)
  /-- A double that is no whole number. -/
  | real (x : Float)
  | text (chars : String)
deriving DecidableEq

namespace Key

/-- The key of a double: a whole number has that number for its key. -/
def ofFloat (x : Float) : Key :=
  if x.isFinite then
    match (Number.Binary.ofFloat x).whole? with
    | some n => whole (if Number.isNegative x then -(n : Int) else n)
    | none => real x
  else real x

/-- The key of what stands in the place of a token's text. -/
def ofLexeme? : Json → Option Key
  | .null => some nothing
  | .bool b => some (whole (if b then 1 else 0))
  | .int n => some (whole n)
  | .num x => some (ofFloat x)
  | .str chars => some (text chars)
  | .arr _ => none
  | .obj _ => none

/-- The order of keys: nothing, numbers by their value, texts by their characters. -/
def le : Key → Key → Bool
  | nothing, _ => true
  | _, nothing => false
  | whole m, whole n => decide (m ≤ n)
  | whole m, real y => decide (Float.ofInt m ≤ y)
  | real x, whole n => decide (x ≤ Float.ofInt n)
  | real x, real y => decide (x ≤ y)
  | text s, text t => decide (s ≤ t)
  | _, text _ => true
  | text _, _ => false

end Key

/-- The name of a variable. Two names are the same if they have the same key. -/
structure Name where
  key : Key
  /-- The name as it is written. -/
  written : Json

namespace Name

/-- The name that a text is. -/
def ofText (chars : String) : Name :=
  { key := .text chars, written := .str chars }

/-- The name that a token's text is. -/
def ofLexeme? (lexeme : Json) : Option Name :=
  (Key.ofLexeme? lexeme).map fun key => { key, written := lexeme }

@[simp] theorem key_ofText (chars : String) : (ofText chars).key = .text chars := rfl

@[simp] theorem ofLexeme?_str (chars : String) : ofLexeme? (.str chars) = some (ofText chars) := rfl

/-- The order in which names are listed. -/
def le (a b : Name) : Bool :=
  a.key.le b.key

end Name

end ScriptLang
