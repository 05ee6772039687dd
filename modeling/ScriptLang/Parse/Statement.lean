import ScriptLang.Parse.Expression

/-!
# Parsing statements

Statements, declarations and whole programs, with recovery: a failure inside a declaration is noted,
the tokens up to the next boundary are skipped, and the parse goes on. One parse thus reports every
independent error.

## Main Definitions

* `skip`: where the parse goes on after a failure.
* `recover`: a parser whose failure is noted and skipped.
* `statement`, `declaration`, `declarations`: the parsers.
* `parse`: a program from a list of tokens.

## Design Notes

A declaration that fails moves past at least one token unless it stands at the end, so a loop over
declarations is bounded by the number of tokens left. `statement` takes the number of levels that
may still be opened, which the bodies of branches, loops and blocks share with the expressions
inside them.
-/

namespace ScriptLang.Parse

/-! ### Recovery -/

/-- The words that begin a statement. Recovery stops in front of them. -/
def beginsStatement (kind : TokenKind) : Bool :=
  kind = .classWord || kind = .funWord || kind = .varWord || kind = .forWord || kind = .ifWord
    || kind = .whileWord || kind = .printWord || kind = .returnWord

/-- Skips tokens after one of kind `previous`: to the end, behind a semicolon, or in front of a word
that begins a statement. Without any of these the tokens run out. -/
def skip (previous : TokenKind) (index : Nat) : List Token → Option Cursor
  | [] => none
  | token :: rest =>
    if token.isEnd || previous = .semicolon || beginsStatement token.kind then
      some { index, rest := token :: rest }
    else skip token.kind (index + 1) rest

/-- Where the parse goes on after a failure: behind the token that it stopped at and what is skipped
after it. At the end it stays. -/
def synchronize (cursor : Cursor) : Option Cursor :=
  match cursor.rest with
  | [] => none
  | token :: rest => if token.isEnd then some cursor else skip token.kind (cursor.index + 1) rest

/-- Notes a failure of the parser and goes on at the next boundary. -/
def recover {α : Type} (p : Parser α) : Parser (Option α) := fun cursor =>
  match p cursor with
  | .done value next noted => .done (some value) next noted
  | .halted cause next noted => .halted cause next noted
  | .failed blame next noted =>
    match synchronize next with
    | some boundary => .done none boundary (noted ++ [blame])
    | none => .halted .ranOff next (noted ++ [blame])

/-! ### Declarations -/

/-- A variable declaration after its word. -/
def variableDeclaration (expression : Parser Expr) : Parser Stmt := do
  let name ← expect .identifier .variableName
  let initial ← match ← accept? (· = .equal) with
    | some _ => some <$> expression
    | none => pure none
  let _ ← expect .semicolon .semicolonAfterDeclaration
  return .declare name initial

/-- A declaration or a statement. What fails is noted and skipped. -/
def declaration (expression : Parser Expr) (statement : Parser Stmt) : Parser (Option Stmt) :=
  recover do
    match ← accept? (· = .varWord) with
    | some _ => variableDeclaration expression
    | none => statement

/-- At most `n` declarations, up to the end or a token of the kind `closing`. -/
def declarations (closing : TokenKind) (declaration : Parser (Option Stmt)) :
    Nat → Parser (List Stmt)
  | 0 => return []
  | n + 1 => do
    let token ← peek
    if token.isEnd || token.kind = closing then return []
    let first ← declaration
    let others ← declarations closing declaration n
    return first.toList ++ others

/-! ### Statements -/

/-- The rest of a block after its brace. -/
def blockBody (declaration : Parser (Option Stmt)) : Parser (List Stmt) := do
  let body ← declarations .rightBrace declaration ((← remaining) + 1)
  let _ ← expect .rightBrace .braceAfterBlock
  return body

/-- A condition in its parentheses. -/
def condition (expression : Parser Expr) (opening closing : Fault) : Parser Expr := do
  let _ ← expect .leftParen opening
  let value ← expression
  let _ ← expect .rightParen closing
  return value

/-- A statement that opens at most `n` levels. -/
def statement : Nat → Parser Stmt
  | 0 => halt .tooDeep
  | n + 1 => do
    let token ← peek
    match token.kind with
    | .printWord =>
      advance
      let value ← expression n
      let _ ← expect .semicolon .semicolonAfterValue
      return .print value
    | .ifWord =>
      advance
      let test ← condition (expression n) .parenAfterIf .parenAfterIfCondition
      let whenTrue ← statement n
      match ← accept? (· = .elseWord) with
      | some _ =>
        let whenFalse ← statement n
        return .branch test whenTrue (some whenFalse)
      | none => return .branch test whenTrue none
    | .whileWord =>
      advance
      let test ← condition (expression n) .parenAfterWhile .parenAfterWhileCondition
      let body ← statement n
      return .loop test body
    | .leftBrace =>
      advance
      let body ← blockBody (declaration (expression n) (statement n))
      return .block body
    | _ =>
      let value ← expression n
      let _ ← expect .semicolon .semicolonAfterExpression
      return .expr value

/-! ### Programs -/

/-- Why a list of tokens is no program. -/
inductive Failure where
  /-- The errors that were found, at least one. -/
  | rejected (first : Blame) (more : List Blame)
  /-- The tokens ran out before one for the end of the input. -/
  | ranOff

/-- The result of a parse in which these errors were noted. -/
def verdict (program : List Stmt) : List Blame → Except Failure (List Stmt)
  | [] => .ok program
  | first :: more => .error (.rejected first more)

/-- The program that a list of tokens is, if it opens at most `limit` levels. -/
def parse (limit : Nat) (tokens : List Token) : Except Failure (List Stmt) :=
  let program := declarations .endOfInput (declaration (expression limit) (statement limit))
    (tokens.length + 1)
  match program { index := 0, rest := tokens } with
  | .done stmts _ noted => verdict stmts noted
  | .failed blame _ noted => verdict [] (noted ++ [blame])
  | .halted .ranOff _ _ => .error .ranOff
  | .halted .tooDeep next noted =>
    match next.rest with
    | [] => .error .ranOff
    | token :: _ =>
      verdict [] (noted ++ [{ fault := .lessNesting, token, index := next.index }])

end ScriptLang.Parse
