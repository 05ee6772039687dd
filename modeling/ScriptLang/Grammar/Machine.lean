import ScriptLang.Grammar.Lexer
import ScriptLang.Tree.Basic

/-!
# The reference grammar

A second reading of programs, from the characters alone: one lexeme at a time is taken off the
source, according to what the position accepts, and moves a machine that keeps what is still open on
a stack. The machine never looks back and never recovers; the first thing that does not fit is the
only one reported.

## Main Definitions

* `Frame`: something that is open and waits for what comes next.
* `Mode`: what the machine has just read.
* `Machine.step`: one token.
* `GrammarError`: what is reported.
* `parseWithGrammar`: the program that a source is.

## Design Notes

An operator waits on the stack with its left operand until it is known that no tighter operator
takes its right one. A finished statement waits until the next token, because an `else` may follow
that belongs to the nearest branch still open. How deep the stack grows is how deeply the program is
nested; chains of operators of one level do not nest. Too deep a program is refused only after it
has been read to its end.
-/

namespace ScriptLang.Grammar

/-! ### Operators -/

/-- How tightly an operator binds. -/
def level : TokenKind → Nat
  | .orWord => 1
  | .andWord => 2
  | .bangEqual | .equalEqual => 3
  | .greater | .greaterEqual | .less | .lessEqual => 4
  | .minus | .plus => 5
  | .star | .slash => 6
  | _ => 0

/-- The node of an operator with its operands. -/
def operation (left : Expr) (op : Token) (right : Expr) : Expr :=
  if level op.kind ≤ 2 then .logical left op right else .binary left op right

/-! ### The machine -/

/-- Something that is open and waits for what comes next. -/
inductive Frame where
  /-- A parenthesis waits for an expression. -/
  | group
  /-- A prefix operator waits for its operand. -/
  | unary (op : Token)
  /-- An operator waits for its right operand. -/
  | operator (left : Expr) (op : Token)
  /-- An assignment waits for its value. -/
  | assign (name : Token)
  /-- A statement waits for its expression. -/
  | exprStmt
  | print
  | initial (name : Token)
  | test (statement : Conditional)
  /-- A branch waits for the statement after its condition. -/
  | branchBody (condition : Expr)
  /-- A branch waits for the statement after its `else`. -/
  | otherwise (condition : Expr) (whenTrue : Stmt)
  /-- A loop waits for its body. -/
  | loopBody (condition : Expr)
  /-- A block waits for its brace, the statements before it being kept newest first. -/
  | block (before : List Stmt)

/-- What the machine has just read. -/
inductive Mode where
  /-- The beginning of a list of statements, or a declaration in one. -/
  | list (position : Position)
  /-- A statement that an `else` may still follow. -/
  | statement (pending : Stmt)
  /-- A condition with its parentheses, or an `else`. -/
  | body
  | var
  | declared (name : Token)
  | conditional (statement : Conditional)
  /-- An operator, or whatever else an operand has to follow. -/
  | operand
  | operandRead (value : Expr)

/-- The machine: what it has just read, what is open, and the statements of the innermost open list,
newest first. -/
structure Machine where
  mode : Mode
  stack : List Frame
  stmts : List Stmt

namespace Machine

/-- The machine before the first token. -/
def initial : Machine := { mode := .list .start, stack := [], stmts := [] }

/-- Could an assignment to the operand just read begin? It has to be a name and must not be part of
an operation already. -/
def assignable (value : Expr) (stack : List Frame) : Bool :=
  match value, stack with
  | .ref _, .unary _ :: _ => false
  | .ref _, .operator .. :: _ => false
  | .ref _, _ => true
  | _, _ => false

/-- The position that the machine is at. -/
def position (m : Machine) : Position :=
  match m.mode with
  | .list position => position
  | .statement _ => .afterStatement
  | .body => .body
  | .var => .afterVar
  | .declared _ => .afterDeclaredName
  | .conditional _ => .beforeCondition
  | .operand => .operand
  | .operandRead value => .afterOperand (assignable value m.stack)

/-! ### Closing what is open -/

/-- Closes the operators that bind at least as tightly as `bound`, the prefix operators included. -/
def reduce (bound : Nat) (value : Expr) : List Frame → Expr × List Frame
  | .unary op :: stack => reduce bound (.unary op value) stack
  | .operator left op :: stack =>
    if bound ≤ level op.kind then reduce bound (operation left op value) stack
    else (value, .operator left op :: stack)
  | stack => (value, stack)

/-- Closes all operators and assignments: what is left is a whole expression. -/
def reduceAll (value : Expr) : List Frame → Expr × List Frame
  | .unary op :: stack => reduceAll (.unary op value) stack
  | .operator left op :: stack => reduceAll (operation left op value) stack
  | .assign name :: stack => reduceAll (.assign name value) stack
  | stack => (value, stack)

/-- Closes the loops and branches that a finished statement completes. -/
def complete (stmt : Stmt) : List Frame → Stmt × List Frame
  | .loopBody condition :: stack => complete (.loop condition stmt) stack
  | .branchBody condition :: stack => complete (.branch condition stmt none) stack
  | .otherwise condition whenTrue :: stack =>
    complete (.branch condition whenTrue (some stmt)) stack
  | stack => (stmt, stack)

/-- Finds the branch that an `else` after a finished statement belongs to. -/
def matchElse (stmt : Stmt) : List Frame → Option (List Frame)
  | .loopBody condition :: stack => matchElse (.loop condition stmt) stack
  | .otherwise condition whenTrue :: stack =>
    matchElse (.branch condition whenTrue (some stmt)) stack
  | .branchBody condition :: stack => some (.otherwise condition stmt :: stack)
  | _ => none

/-! ### Steps -/

/-- A token where an operand has to begin. -/
def readOperand (m : Machine) (token : Token) : Option Machine :=
  match token.kind with
  | .bang | .minus => some { m with mode := .operand, stack := .unary token :: m.stack }
  | .leftParen => some { m with mode := .operand, stack := .group :: m.stack }
  | .trueWord => some { m with mode := .operandRead (.literal (.bool true)) }
  | .falseWord => some { m with mode := .operandRead (.literal (.bool false)) }
  | .nilWord => some { m with mode := .operandRead (.literal .null) }
  | .number | .string => some { m with mode := .operandRead (.literal token.literal) }
  | .identifier => some { m with mode := .operandRead (.ref token) }
  | _ => none

/-- A token where a statement has to begin. -/
def readStatement (m : Machine) (token : Token) : Option Machine :=
  match token.kind with
  | .leftBrace =>
    some { mode := .list .afterLeftBrace, stack := .block m.stmts :: m.stack, stmts := [] }
  | .ifWord => some { m with mode := .conditional .branch }
  | .whileWord => some { m with mode := .conditional .loop }
  | .printWord => some { m with mode := .operand, stack := .print :: m.stack }
  | _ => readOperand { m with stack := .exprStmt :: m.stack } token

/-- A token where a list of statements goes on or ends. -/
def readList (m : Machine) (token : Token) : Option Machine :=
  match token.kind with
  | .varWord => some { m with mode := .var }
  | .rightBrace =>
    match m.stack with
    | .block before :: stack =>
      some { mode := .statement (.block m.stmts.reverse), stack, stmts := before }
    | _ => none
  | _ => readStatement m token

/-- The parenthesis that ends an expression. -/
def closeParen (m : Machine) (value : Expr) : Option Machine :=
  match reduceAll value m.stack with
  | (whole, .group :: stack) => some { m with mode := .operandRead (.group whole), stack }
  | (whole, .test .branch :: stack) =>
    some { m with mode := .body, stack := .branchBody whole :: stack }
  | (whole, .test .loop :: stack) =>
    some { m with mode := .body, stack := .loopBody whole :: stack }
  | _ => none

/-- The semicolon that ends a statement with an expression. -/
def endStatement (m : Machine) (value : Expr) : Option Machine :=
  match reduceAll value m.stack with
  | (whole, .exprStmt :: stack) => some { m with mode := .statement (.expr whole), stack }
  | (whole, .print :: stack) => some { m with mode := .statement (.print whole), stack }
  | (whole, .initial name :: stack) =>
    some { mode := .list .afterDeclaration, stack, stmts := .declare name (some whole) :: m.stmts }
  | _ => none

/-- A token after an operand. -/
def readAfterOperand (m : Machine) (value : Expr) (token : Token) : Option Machine :=
  match token.kind with
  | .rightParen => closeParen m value
  | .semicolon => endStatement m value
  | .equal =>
    match value with
    | .ref name => some { m with mode := .operand, stack := .assign name :: m.stack }
    | _ => none
  | kind =>
    let (left, stack) := reduce (level kind) value m.stack
    some { m with mode := .operand, stack := .operator left token :: stack }

/-- The machine with a finished statement put into its list. -/
def settle (m : Machine) (pending : Stmt) : Machine :=
  let (stmt, stack) := complete pending m.stack
  { mode := .list .afterStatement, stack, stmts := stmt :: m.stmts }

/-- One token that the position accepts. There is no next machine if it does not fit after all. -/
def step (m : Machine) (token : Token) : Option Machine :=
  match m.mode with
  | .list _ => readList m token
  | .statement pending =>
    if token.kind = .elseWord then
      (matchElse pending m.stack).map fun stack => { m with mode := .body, stack }
    else readList (m.settle pending) token
  | .body => readStatement m token
  | .var => some { m with mode := .declared token }
  | .declared name =>
    if token.kind = .equal then
      some { m with mode := .operand, stack := .initial name :: m.stack }
    else
      some { m with mode := .list .afterDeclaration, stmts := .declare name none :: m.stmts }
  | .conditional statement =>
    some { m with mode := .operand, stack := .test statement :: m.stack }
  | .operand => readOperand m token
  | .operandRead value => readAfterOperand m value token

/-- The program that has been read, if the source may end here. -/
def finish (m : Machine) : Option (List Stmt) :=
  let m := match m.mode with
    | .statement pending => m.settle pending
    | _ => m
  match m.mode, m.stack with
  | .list _, [] => some m.stmts.reverse
  | _, _ => none

end Machine

/-! ### Sources -/

/-- What is reported of a source that is no program. -/
inductive GrammarError where
  /-- A character with which no lexeme begins. -/
  | unidentified (c : Char) (line : Nat)
  /-- A lexeme that does not fit. -/
  | unexpected (chars : List Char) (line : Nat)
  /-- The source ends too early. -/
  | ended (line : Nat)
  /-- The program is nested too deeply. -/
  | tooDeep
deriving Repr, DecidableEq

/-- The report. -/
def GrammarError.diagnostic : GrammarError → Diagnostic
  | unidentified c line => ScanError.diagnostic { fault := .unidentified c, line }
  | unexpected chars line =>
    { stage := .parse, message := "Unexpected token.", line := .int line
      place := "at '" ++ String.ofList chars ++ "'" }
  | ended line =>
    { stage := .parse, message := "Unexpected end of input.", line := .int line, place := "at end" }
  | tooDeep => { stage := .parse, message := "Too much nesting." }

/-- The error for a text in front of which nothing is accepted. -/
def misfit (line : Nat) (c : Char) (rest : List Char) : GrammarError :=
  match lexAt (fun _ => true) (c :: rest) with
  | some (lexeme, _) => .unexpected lexeme.chars line
  | none => .unidentified c line

/-- Reads at most `n` lexemes from a text that begins on a line, and says how deep the stack
grew. -/
def readAll : Nat → Machine → Nat → Nat → List Char → Except GrammarError (List Stmt × Nat)
  | 0, _, line, _, _ => .error (.ended line)
  | n + 1, m, line, deepest, cs =>
    let (blanks, text) := layout cs.length cs
    let line := line + newlines blanks
    match text with
    | [] =>
      match m.finish with
      | some program => .ok (program, deepest)
      | none => .error (.ended line)
    | c :: rest =>
      match lexAt m.position.accepts (c :: rest) with
      | none => .error (misfit line c rest)
      | some (lexeme, after) =>
        match m.step (lexeme.token line) with
        | none => .error (.unexpected lexeme.chars line)
        | some next =>
          readAll n next (line + newlines lexeme.chars) (max deepest next.stack.length) after

/-- The program that a source is, if it is nested at most `limit` levels. -/
def parseWithGrammar (limit : Nat) (source : String) : Except GrammarError (List Stmt) :=
  let chars := source.toList
  match readAll (chars.length + 1) .initial 1 0 chars with
  | .error e => .error e
  | .ok (program, deepest) => if deepest ≤ limit then .ok program else .error .tooDeep

end ScriptLang.Grammar
