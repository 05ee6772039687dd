import ScriptLang.Token.Basic

/-!
# Tokens in documents

A token is stored as an object with the fields `kind`, `lexeme`, `line` and `literal`.

## Main Definitions

* `LoadError`: why a document cannot be loaded, and `LoadError.message?`, what is said of it.
* `Token.toJson`, `Token.load`: storing a token and loading one.

## Design Notes

Loading is lenient: only the kind has to make sense, and a token without a value may leave the last
field out.
-/

namespace ScriptLang

/-- Why a document cannot be loaded. -/
inductive LoadError where
  /-- Neither an object nor a list nor nothing stands where a node belongs. -/
  | notANode
  /-- An object lacks a field. -/
  | missing (key : String)
  /-- There is no kind of node of this name. -/
  | unknownNode (name : Json)
  /-- There is no kind of token of this name. -/
  | unknownKind (name : Json)
  /-- A document of another shape stands where an object or a list belongs. -/
  | wrongShape
  /-- A whole number is larger than every double. -/
  | overflow
  /-- The nodes are nested more deeply than the loader goes. -/
  | tooDeep

/-- What is said of an error, for the causes that have something to say. A field and a kind of token
are shown as a listing shows them. -/
def LoadError.message? : LoadError → Option String
  | notANode => some "Invalid AST object"
  | missing key => some (Text.quoted key)
  | unknownNode name => some ("Unknown AST node type: " ++ name.shown)
  | unknownKind name => some name.listed
  | wrongShape => none
  | overflow => none
  | tooDeep => none

/-- A field that an object must have. -/
def required (key : String) (fields : List (String × Json)) : Except LoadError Json :=
  match Json.field? key fields with
  | some value => .ok value
  | none => .error (.missing key)

namespace Token

/-- The document of a token. -/
def toJson (token : Token) : Json :=
  .obj [("kind", .str token.kind.name), ("lexeme", token.lexeme), ("line", token.line),
    ("literal", token.literal)]

/-- The kind that a document names. -/
def loadKind : Json → Except LoadError TokenKind
  | .str name =>
    match TokenKind.ofName? name with
    | some kind => .ok kind
    | none => .error (.unknownKind (.str name))
  | .arr _ => .error .wrongShape
  | .obj _ => .error .wrongShape
  | name => .error (.unknownKind name)

/-- The token that a document describes. -/
def load : Json → Except LoadError Token
  | .obj fields => do
    let kind ← loadKind (← required "kind" fields)
    let lexeme ← required "lexeme" fields
    let line ← required "line" fields
    return { kind, lexeme, line, literal := (Json.field? "literal" fields).getD .null }
  | _ => .error .wrongShape

end Token

end ScriptLang
