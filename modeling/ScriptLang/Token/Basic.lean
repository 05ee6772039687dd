import ScriptLang.Json.Basic
import ScriptLang.Text.Blank

/-!
# Tokens

A token has a kind, the text it was read from, the line it stands on, and, for numbers and strings,
the value it denotes.

## Main Definitions

* `TokenKind`: the kinds, with their names in listings and documents.
* `TokenKind.ofWord`: the kind of a word, a reserved one or an identifier.
* `Token`: a token, and `Token.text`, its line in a listing.

## Design Notes

A token need not come from a source: one that is read from a document carries whatever values its
fields had there. Text, line and value are therefore documents, and a token read from a source has
a text and a whole number in the first two.
-/

namespace ScriptLang

/-- The kinds of token. -/
inductive TokenKind where
  | leftParen | rightParen | leftBrace | rightBrace | comma | dot | minus | plus | semicolon
  | slash | star
  | bang | bangEqual | equal | equalEqual | greater | greaterEqual | less | lessEqual
  | identifier | string | number
  | andWord | classWord | elseWord | falseWord | funWord | forWord | ifWord | nilWord | orWord
  | printWord | returnWord | superWord | thisWord | trueWord | varWord | whileWord
  | endOfInput
deriving Repr, DecidableEq, Inhabited

namespace TokenKind

/-- All kinds. -/
def all : List TokenKind :=
  [leftParen, rightParen, leftBrace, rightBrace, comma, dot, minus, plus, semicolon, slash, star,
    bang, bangEqual, equal, equalEqual, greater, greaterEqual, less, lessEqual,
    identifier, string, number,
    andWord, classWord, elseWord, falseWord, funWord, forWord, ifWord, nilWord, orWord,
    printWord, returnWord, superWord, thisWord, trueWord, varWord, whileWord, endOfInput]

/-- The name of a kind in listings and documents. -/
def name : TokenKind → String
  | leftParen => "LEFT_PAREN"
  | rightParen => "RIGHT_PAREN"
  | leftBrace => "LEFT_BRACE"
  | rightBrace => "RIGHT_BRACE"
  | comma => "COMMA"
  | dot => "DOT"
  | minus => "MINUS"
  | plus => "PLUS"
  | semicolon => "SEMICOLON"
  | slash => "SLASH"
  | star => "STAR"
  | bang => "BANG"
  | bangEqual => "BANG_EQUAL"
  | equal => "EQUAL"
  | equalEqual => "EQUAL_EQUAL"
  | greater => "GREATER"
  | greaterEqual => "GREATER_EQUAL"
  | less => "LESS"
  | lessEqual => "LESS_EQUAL"
  | identifier => "IDENTIFIER"
  | string => "STRING"
  | number => "NUMBER"
  | andWord => "AND"
  | classWord => "CLASS"
  | elseWord => "ELSE"
  | falseWord => "FALSE"
  | funWord => "FUN"
  | forWord => "FOR"
  | ifWord => "IF"
  | nilWord => "NIL"
  | orWord => "OR"
  | printWord => "PRINT"
  | returnWord => "RETURN"
  | superWord => "SUPER"
  | thisWord => "THIS"
  | trueWord => "TRUE"
  | varWord => "VAR"
  | whileWord => "WHILE"
  | endOfInput => "EOF"

/-- The kind with a given name. -/
def ofName? (text : String) : Option TokenKind :=
  all.find? fun kind => kind.name == text

/-- The reserved words and their kinds. -/
def reserved : List (List Char × TokenKind) :=
  [(['a', 'n', 'd'], andWord),
    (['c', 'l', 'a', 's', 's'], classWord),
    (['e', 'l', 's', 'e'], elseWord),
    (['f', 'a', 'l', 's', 'e'], falseWord),
    (['f', 'o', 'r'], forWord),
    (['f', 'u', 'n'], funWord),
    (['i', 'f'], ifWord),
    (['n', 'i', 'l'], nilWord),
    (['o', 'r'], orWord),
    (['p', 'r', 'i', 'n', 't'], printWord),
    (['r', 'e', 't', 'u', 'r', 'n'], returnWord),
    (['s', 'u', 'p', 'e', 'r'], superWord),
    (['t', 'h', 'i', 's'], thisWord),
    (['t', 'r', 'u', 'e'], trueWord),
    (['v', 'a', 'r'], varWord),
    (['w', 'h', 'i', 'l', 'e'], whileWord)]

/-- The kind of a word: that of a reserved word, or an identifier. -/
def ofWord (word : List Char) : TokenKind :=
  (reserved.lookup word).getD identifier

end TokenKind

/-- A token. -/
structure Token where
  kind : TokenKind
  lexeme : Json
  line : Json
  literal : Json := .null
deriving Inhabited

namespace Token

/-- The token that ends a list of tokens. -/
def isEnd (token : Token) : Bool :=
  token.kind = .endOfInput

/-- The line of a token in a listing: kind and text, for a number or a string also its value. -/
def text (token : Token) : String :=
  let start := token.kind.name ++ " " ++ token.lexeme.shown
  if token.kind = .number || token.kind = .string then start ++ " " ++ token.literal.listed
  else Text.trimEnd start

end Token

end ScriptLang
