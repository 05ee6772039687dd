import ScriptLang.Run.Eval

/-!
# Executing statements

A block runs in a scope of its own, which is closed however the block ends. The condition of a loop
is evaluated again before every round.

## Main Definitions

* `sequence`: statements one after the other.
* `inScope`: a step inside a new scope.
* `rounds`: a loop.
* `exec`: a statement.
* `interpret`: a program.

## Design Notes

A loop may go on for ever, so `exec` takes fuel: a statement passes one unit less to its parts, and
a loop runs at most as many rounds as it has units. A run that does not end within its fuel is
`unfinished`, which is neither success nor failure; with more fuel it may still end.
-/

namespace ScriptLang

/-- Runs statements one after the other until one fails. -/
def sequence (run : Stmt → State → Result Unit) : List Stmt → State → Result Unit
  | [], s => .done () s
  | stmt :: stmts, s =>
    match run stmt s with
    | .done _ s => sequence run stmts s
    | .failed failure s => .failed failure s
    | .unfinished => .unfinished

@[simp] theorem sequence_nil (run : Stmt → State → Result Unit) (s : State) :
    sequence run [] s = .done () s := rfl

theorem sequence_cons (run : Stmt → State → Result Unit) (stmt : Stmt) (stmts : List Stmt)
    (s : State) :
    sequence run (stmt :: stmts) s = (run stmt s).andThen fun _ s => sequence run stmts s := by
  rw [sequence]
  cases run stmt s <;> rfl

/-- Runs a step inside a new scope and closes the scope however the step ends. -/
def inScope (config : Config) (step : State → Result Unit) (s : State) : Result Unit :=
  match step (s.openScope config) with
  | .done _ s => .done () (s.closeScope config)
  | .failed failure s => .failed failure (s.closeScope config)
  | .unfinished => .unfinished

/-- Runs at most `n` rounds of a loop: the test before each, the body while the test holds. -/
def rounds (test : State → Result Bool) (body : State → Result Unit) : Nat → State → Result Unit
  | 0, _ => .unfinished
  | n + 1, s =>
    match test s with
    | .done true s =>
      match body s with
      | .done _ s => rounds test body n s
      | .failed failure s => .failed failure s
      | .unfinished => .unfinished
    | .done false s => .done () s
    | .failed failure s => .failed failure s
    | .unfinished => .unfinished

/-- Evaluates a condition and decides whether it holds. -/
def test (config : Config) (statement : Conditional) (condition : Expr) (s : State) :
    Result Bool :=
  (evaluate config condition s).andThen fun value s =>
  let holds := config.truthiness.holds value
  .done holds (s.trace config (.condition statement value holds))

/-- The value that a declared variable starts with. -/
def initialValue (config : Config) (initial : Option Expr) (s : State) : Result Value :=
  match initial with
  | some e => evaluate config e s
  | none => .done .nil s

/-- What a statement does, its parts being run by `run` and a loop for at most `n` rounds. -/
def effect (config : Config) (run : Stmt → State → Result Unit) (n : Nat) (stmt : Stmt)
    (s : State) : Result Unit :=
  match stmt with
  | .expr value =>
    (evaluate config value s).andThen fun _ s => .done () s
  | .print value =>
    (evaluate config value s).andThen fun v s => .done () (s.print v.text)
  | .declare name initial =>
    (initialValue config initial s).andThen fun v s =>
    (s.define name v).andThen fun _ s =>
    .done () (s.trace config (.declare name.lexeme v))
  | .block body => inScope config (sequence run body) s
  | .branch condition whenTrue whenFalse =>
    (test config .branch condition s).andThen fun holds s =>
    if holds then run whenTrue s
    else match whenFalse with
      | some other => run other s
      | none => .done () s
  | .loop condition body => rounds (test config .loop condition) (run body) n s
  | .misplaced document _ => .failed (.notAStatement (documentKind document)) s

/-- Executes a statement with `n` units of fuel. -/
def exec (config : Config) : Nat → Stmt → State → Result Unit
  | 0, _, _ => .unfinished
  | n + 1, stmt, s =>
    (effect config (exec config n) n stmt (s.trace config (.execute stmt.kind))).andThen
      fun _ s => .done () (s.trace config (.finish stmt.kind))

@[simp] theorem exec_zero (config : Config) (stmt : Stmt) (s : State) :
    exec config 0 stmt s = .unfinished := rfl

theorem exec_succ (config : Config) (n : Nat) (stmt : Stmt) (s : State) :
    exec config (n + 1) stmt s =
      (effect config (exec config n) n stmt (s.trace config (.execute stmt.kind))).andThen
        fun _ s => .done () (s.trace config (.finish stmt.kind)) := rfl

/-- A statement that was stopped by its nesting fails with a report of that. -/
def reportNesting : Result Unit → Result Unit
  | .failed .tooDeep s => .failed .statementTooDeep s
  | result => result

/-- Runs the statements of a program. -/
def interpret (config : Config) (fuel : Nat) (program : List Stmt) (s : State) : Result Unit :=
  sequence (fun stmt s => reportNesting (exec config fuel stmt s)) program s

end ScriptLang
