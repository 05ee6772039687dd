import ScriptLang.Source.Scan

/-!
# Lexing by position

The reference grammar has no words of its own: what the next lexeme is depends on what may stand at
its position. A word is a reserved word only where that one is accepted, and an identifier
otherwise; where no identifier is accepted, an accepted word need not even end where it ends.

## Main Definitions

* `Position`: the kinds of place in a program.
* `Position.accepts`: the kinds of token that may stand there.
* `layout`: the blanks and comments in front of a text.
* `lexAt`: the lexeme in front of a text, given what is accepted.
-/

namespace ScriptLang.Grammar

/-! ### Positions -/

/-- The kinds of place in a program. -/
inductive Position where
  | start
  | afterLeftBrace
  /-- After the semicolon of a declaration. -/
  | afterDeclaration
  /-- After the semicolon of any other statement, or after a block. -/
  | afterStatement
  /-- After the parenthesis of a condition, or after `else`. -/
  | body
  | afterVar
  /-- After the name in a declaration. -/
  | afterDeclaredName
  /-- After `if` or `while`. -/
  | beforeCondition
  | operand
  /-- After an operand; in some places an assignment to it could begin. -/
  | afterOperand (assignable : Bool)
deriving Repr, DecidableEq

/-- What an operand begins with. -/
def beginsOperand : TokenKind → Bool
  | .bang | .minus | .leftParen | .trueWord | .falseWord | .nilWord => true
  | .number | .string | .identifier => true
  | _ => false

/-- What a statement begins with. -/
def beginsStatement (kind : TokenKind) : Bool :=
  beginsOperand kind || kind = .leftBrace || kind = .ifWord || kind = .whileWord
    || kind = .printWord

/-- What follows an operand, an assignment apart. -/
def followsOperand : TokenKind → Bool
  | .orWord | .andWord | .bangEqual | .equalEqual | .less | .lessEqual | .greater => true
  | .greaterEqual | .plus | .minus | .star | .slash | .rightParen | .semicolon => true
  | _ => false

/-- The kinds of token that may stand at a position. -/
def Position.accepts : Position → TokenKind → Bool
  | start, kind => beginsStatement kind || kind = .varWord
  | afterLeftBrace, kind => beginsStatement kind || kind = .varWord || kind = .rightBrace
  | afterDeclaration, kind => beginsStatement kind || kind = .varWord || kind = .rightBrace
  | afterStatement, kind =>
    beginsStatement kind || kind = .varWord || kind = .rightBrace || kind = .elseWord
  | body, kind => beginsStatement kind
  | afterVar, kind => kind = .identifier
  | afterDeclaredName, kind => kind = .equal || kind = .semicolon
  | beforeCondition, kind => kind = .leftParen
  | operand, kind => beginsOperand kind
  | afterOperand assignable, kind => followsOperand kind || (assignable && kind = .equal)

/-! ### Layout -/

/-- The blanks between lexemes. -/
def isSpace (c : Char) : Bool :=
  c = ' ' || c = '\t' || c = '\x0c' || c = '\r' || c = '\n'

/-- One blank or comment in front of a text, and what follows it. A comment that is never closed is
none. -/
def layoutPiece? : List Char → Option (List Char × List Char)
  | [] => none
  | c :: rest =>
    if isSpace c then some ([c], rest)
    else if c = '/' then
      match Piece.nextSlash rest with
      | (.lineComment body, after) => some ('/' :: '/' :: body, after)
      | (.blockComment body, after) => some ('/' :: '*' :: body ++ ['*', '/'], after)
      | _ => none
    else none

/-- The blanks and comments in front of a text, at most `n` of them, and what follows. -/
def layout : Nat → List Char → List Char × List Char
  | 0, cs => ([], cs)
  | n + 1, cs =>
    match layoutPiece? cs with
    | none => ([], cs)
    | some (piece, rest) =>
      let (more, after) := layout n rest
      (piece ++ more, after)

/-! ### Lexemes -/

/-- A lexeme: its kind, its characters, and the value of a number or a string. -/
structure Lexeme where
  kind : TokenKind
  chars : List Char
  literal : Json := .null

/-- The token of a lexeme on a line. -/
def Lexeme.token (lexeme : Lexeme) (line : Nat) : Token :=
  { kind := lexeme.kind, lexeme := .str (String.ofList lexeme.chars), line := .int line
    literal := lexeme.literal }

/-- The marks, those of two characters first. -/
def marks : List (List Char × TokenKind) :=
  [(['!', '='], .bangEqual), (['=', '='], .equalEqual), (['<', '='], .lessEqual),
    (['>', '='], .greaterEqual), (['!'], .bang), (['='], .equal), (['<'], .less),
    (['>'], .greater), (['('], .leftParen), ([')'], .rightParen), (['\x7b'], .leftBrace),
    (['\x7d'], .rightBrace), ([';'], .semicolon), (['-'], .minus), (['+'], .plus),
    (['*'], .star), (['/'], .slash)]

/-- The first accepted entry of a table that the text begins with. -/
def fromTable (table : List (List Char × TokenKind)) (accepts : TokenKind → Bool)
    (cs : List Char) : Option (Lexeme × List Char) :=
  table.findSome? fun (chars, kind) =>
    if accepts kind && chars.isPrefixOf cs then some ({ kind, chars }, cs.drop chars.length)
    else none

/-- The word in front of a text: the reserved word that it is, if that is accepted, or else an
identifier. -/
def wordLexeme (accepts : TokenKind → Bool) (word : List Char) : Lexeme :=
  let kind := TokenKind.ofWord word
  { kind := if accepts kind then kind else .identifier, chars := word }

/-- The lexeme in front of a text, given what is accepted there, and what follows it. -/
def lexAt (accepts : TokenKind → Bool) (cs : List Char) : Option (Lexeme × List Char) :=
  match cs with
  | [] => none
  | c :: rest =>
    if isLetter c && accepts .identifier then
      some (wordLexeme accepts (c :: rest.takeWhile isWordChar), rest.dropWhile isWordChar)
    else if isDigit c && accepts .number then
      match Piece.nextDigit c rest with
      | (.number whole fraction, after) =>
        some ({ kind := .number, chars := whole ++ withPoint fraction
                literal := .num (Number.ofPointed whole fraction) }, after)
      | _ => none
    else if c = '"' && accepts .string then
      match Piece.nextQuote rest with
      | (.string body, after) =>
        some ({ kind := .string, chars := '"' :: body ++ ['"']
                literal := .str (String.ofList body) }, after)
      | _ => none
    else fromTable (TokenKind.reserved ++ marks) accepts cs

end ScriptLang.Grammar
