import ScriptLang.Json.Basic

/-!
# Writing documents

A document as text: two blanks of indentation a level, one member or field a line, no line for an
empty list or object. Only quotes, backslashes and control characters are escaped.

## Main Definitions

* `Json.escape`: what one character of a text becomes.
* `Json.write`: the text of a document.
-/

namespace ScriptLang.Json

/-- What one character of a text becomes between its quotes. -/
def escape (c : Char) : List Char :=
  if c = '"' || c = '\\' then ['\\', c]
  else if c = '\n' then ['\\', 'n']
  else if c = '\r' then ['\\', 'r']
  else if c = '\t' then ['\\', 't']
  else if c = '\x0c' then ['\\', 'f']
  else if c = '\x08' then ['\\', 'b']
  else if c.toNat < 0x20 then '\\' :: 'u' :: Text.hex 4 c.toNat
  else [c]

/-- A text between its quotes. -/
def writeText (text : String) : List Char :=
  '"' :: text.toList.flatMap escape ++ ['"']

/-- A new line, indented to a depth. -/
def newLine (depth : Nat) : List Char :=
  '\n' :: List.replicate (2 * depth) ' '

/-- A number in a document. -/
def writeNumber (x : Float) : List Char :=
  Number.exactText { infinity := "Infinity", nan := "NaN" } x

mutual

/-- The text of a document that stands at a depth. -/
def writeAt (depth : Nat) : Json → List Char
  | null => ['n', 'u', 'l', 'l']
  | bool true => ['t', 'r', 'u', 'e']
  | bool false => ['f', 'a', 'l', 's', 'e']
  | int n => (Number.wholeText n).toList
  | num x => writeNumber x
  | str text => writeText text
  | arr [] => ['[', ']']
  | arr (item :: items) =>
    '[' :: newLine (depth + 1) ++ writeAt (depth + 1) item ++ writeItems (depth + 1) items
      ++ newLine depth ++ [']']
  | obj [] => ['\x7b', '\x7d']
  | obj ((key, value) :: fields) =>
    '\x7b' :: newLine (depth + 1) ++ writeText key ++ ':' :: ' ' :: writeAt (depth + 1) value
      ++ writeFields (depth + 1) fields ++ newLine depth ++ ['\x7d']

/-- The members of a list after its first. -/
def writeItems (depth : Nat) : List Json → List Char
  | [] => []
  | item :: items => ',' :: newLine depth ++ writeAt depth item ++ writeItems depth items

/-- The fields of an object after its first. -/
def writeFields (depth : Nat) : List (String × Json) → List Char
  | [] => []
  | (key, value) :: fields =>
    ',' :: newLine depth ++ writeText key ++ ':' :: ' ' :: writeAt depth value
      ++ writeFields depth fields

end

/-- The text of a document. -/
def write (document : Json) : String :=
  String.ofList (writeAt 0 document)

end ScriptLang.Json
