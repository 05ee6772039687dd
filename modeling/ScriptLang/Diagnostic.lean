import ScriptLang.Token.Basic

/-!
# Diagnostics

What is reported when a program cannot be read or run: the stage that failed, a message, and where
it happened as far as that is known.

## Main Definitions

* `Diagnostic`: one report.
* `Diagnostic.text`: its text.
* `Diagnostic.group`: several reports of one parse as a single one, headed by the first.
-/

namespace ScriptLang

/-- The stage that a report comes from. A failure at run time also has a class. -/
inductive Stage where
  | general
  | scan
  | parse
  | run (failure : String)
deriving Repr, DecidableEq

/-- The word that a report of this stage begins with. -/
def Stage.title : Stage → String
  | .general => "Error"
  | .scan => "ScanError"
  | .parse => "ParseError"
  | .run _ => "RuntimeError"

/-- One report. No line is `null`, and no place is the empty text. -/
structure Diagnostic where
  stage : Stage
  message : String
  line : Json := .null
  place : String := ""

namespace Diagnostic

/-- The line of a report, in words. -/
def lineText : Json → String
  | .null => "unknown line"
  | line => "line " ++ line.shown

/-- The text of a report. -/
def text (d : Diagnostic) : String :=
  let place := if d.place = "" then "" else " " ++ d.place
  match d.stage with
  | .run failure =>
    d.stage.title ++ " at " ++ lineText d.line ++ ": " ++ failure ++ ": " ++ d.message
  | _ => d.stage.title ++ " at " ++ lineText d.line ++ place ++ ": " ++ d.message

/-- Where a token stands, for a report that blames it. -/
def placeOf (token : Token) : String :=
  if token.isEnd then "at end" else "at '" ++ token.lexeme.shown ++ "'"

/-- A report of the parser that blames a token. -/
def blaming (token : Token) (message : String) : Diagnostic :=
  { stage := .parse, message, line := token.line, place := placeOf token }

/-- The reports of one parse as one: the first of them, and how many more there are. -/
def group : List Diagnostic → Option Diagnostic
  | [] => none
  | [first] => some { first with stage := .parse }
  | first :: more =>
    some { first with
      stage := .parse
      message := first.message ++ " (and " ++ Number.wholeText more.length ++ " more)" }

end Diagnostic

end ScriptLang
