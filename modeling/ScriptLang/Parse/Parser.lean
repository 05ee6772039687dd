import ScriptLang.Diagnostic
import ScriptLang.Tree.Basic

/-!
# Parsers

A parser reads tokens from a cursor. It ends in one of three ways: it builds something, it fails at
a token, which the enclosing declaration recovers from, or it halts, which ends the whole parse. In
each case it may have noted errors on the way that did not stop it.

## Main Definitions

* `Fault`: what a parser expects and does not find; `Blame`: a fault, its token and its position.
* `Cursor`: the tokens that are left, and how many came before them.
* `Outcome`, `Parser`: the three endings, and the monad of parsers.
* `peek`, `accept?`, `expect`, `note`: the steps that parsers are made of.

## Design Notes

The noted errors of two steps are appended by `bind`, so what a parser notes can be read off its own
outcome. A list of tokens need not end in the token for the end of the input; a parser that needs a
token where there is none halts.
-/

namespace ScriptLang.Parse

/-! ### Errors -/

/-- What a parser expects and does not find. -/
inductive Fault where
  | variableName
  | semicolonAfterDeclaration
  | semicolonAfterValue
  | semicolonAfterExpression
  | parenAfterIf
  | parenAfterIfCondition
  | parenAfterWhile
  | parenAfterWhileCondition
  | parenAfterExpression
  | braceAfterBlock
  | expression
  | assignmentTarget
  | lessNesting
deriving Repr, DecidableEq

/-- The message for a fault. -/
def Fault.message : Fault → String
  | variableName => "Expect variable name."
  | semicolonAfterDeclaration => "Expect ';' after variable declaration."
  | semicolonAfterValue => "Expect ';' after value."
  | semicolonAfterExpression => "Expect ';' after expression."
  | parenAfterIf => "Expect '(' after 'if'."
  | parenAfterIfCondition => "Expect ')' after if condition."
  | parenAfterWhile => "Expect '(' after 'while'."
  | parenAfterWhileCondition => "Expect ')' after condition."
  | parenAfterExpression => "Expect ')' after expression."
  | braceAfterBlock => "Expect '\x7d' after block."
  | expression => "Expect expression."
  | assignmentTarget => "Invalid assignment target."
  | lessNesting => "Too much nesting."

/-- A fault, the token that is blamed for it, and the position of that token. -/
structure Blame where
  fault : Fault
  token : Token
  index : Nat

/-- The report of a blamed token. -/
def Blame.diagnostic (blame : Blame) : Diagnostic :=
  .blaming blame.token blame.fault.message

/-! ### Parsers -/

/-- The tokens that are left, and how many came before them. -/
structure Cursor where
  index : Nat
  rest : List Token

/-- Why a parse ends at once. -/
inductive Halt where
  /-- The tokens are nested more deeply than the parser goes. -/
  | tooDeep
  /-- There is no token left, not even one for the end of the input. -/
  | ranOff
deriving Repr, DecidableEq

/-- How a parser ends, with the cursor it leaves and the errors it noted. -/
inductive Outcome (α : Type) where
  | done (value : α) (next : Cursor) (noted : List Blame)
  | failed (blame : Blame) (next : Cursor) (noted : List Blame)
  | halted (cause : Halt) (next : Cursor) (noted : List Blame)

/-- The outcome with errors that were noted before it. -/
def Outcome.after {α : Type} (earlier : List Blame) : Outcome α → Outcome α
  | done value next noted => done value next (earlier ++ noted)
  | failed blame next noted => failed blame next (earlier ++ noted)
  | halted cause next noted => halted cause next (earlier ++ noted)

@[simp] theorem Outcome.after_nil {α : Type} (o : Outcome α) : o.after [] = o := by
  cases o <;> rfl

/-- A parser. -/
def Parser (α : Type) : Type := Cursor → Outcome α

namespace Parser

/-- Builds a value without reading. -/
protected def pure {α : Type} (value : α) : Parser α :=
  fun cursor => .done value cursor []

/-- Goes on with what the first parser built. -/
protected def bind {α β : Type} (p : Parser α) (f : α → Parser β) : Parser β :=
  fun cursor =>
    match p cursor with
    | .done value next noted => (f value next).after noted
    | .failed blame next noted => .failed blame next noted
    | .halted cause next noted => .halted cause next noted

instance : Monad Parser where
  pure := Parser.pure
  bind := Parser.bind

end Parser

/-! ### Steps -/

/-- The token at the cursor. -/
def peek : Parser Token := fun cursor =>
  match cursor.rest with
  | token :: _ => .done token cursor []
  | [] => .halted .ranOff cursor []

/-- The position of the cursor. -/
def here : Parser Nat := fun cursor => .done cursor.index cursor []

/-- How many tokens are left. -/
def remaining : Parser Nat := fun cursor => .done cursor.rest.length cursor []

/-- Moves past the token at the cursor. -/
def advance : Parser Unit := fun cursor =>
  match cursor.rest with
  | _ :: rest => .done () { index := cursor.index + 1, rest } []
  | [] => .halted .ranOff cursor []

/-- Ends the parse. -/
def halt {α : Type} (cause : Halt) : Parser α := fun cursor => .halted cause cursor []

/-- Fails at the token at the cursor. -/
def fail {α : Type} (fault : Fault) : Parser α := fun cursor =>
  match cursor.rest with
  | token :: _ => .failed { fault, token, index := cursor.index } cursor []
  | [] => .halted .ranOff cursor []

/-- Notes an error and goes on. -/
def note (blame : Blame) : Parser Unit := fun cursor => .done () cursor [blame]

/-- Moves past the token at the cursor if its kind is one of those asked for. -/
def accept? (kinds : TokenKind → Bool) : Parser (Option Token) := do
  let token ← peek
  if !token.isEnd && kinds token.kind then
    advance
    return some token
  else
    return none

/-- Moves past a token of the given kind, or fails. -/
def expect (kind : TokenKind) (fault : Fault) : Parser Token := do
  match ← accept? (· = kind) with
  | some token => return token
  | none => fail fault

end ScriptLang.Parse
