import ScriptLang.Run.Exec

/-!
# Runs that note their look-ups

A run that notes every look-up of a variable as it is made: which occurrence makes it, the name, and
the state in which it is made. Each definition follows the one without notes line by line; nothing
is noted anywhere but where a variable is read or assigned to.

## Main Definitions

* `Place`: where a node stands in a tree.
* `Lookup`: one look-up.
* `Watched`: the result of a step with the look-ups made by it.
* `watchEval`, `watchExec`, `watchInterpret`: runs that note their look-ups.

## Main Statements

* `result_watchInterpret`: without its notes, the run is the run.

## Design Notes

The notes of a run are there also when it fails, and when it does not end within its fuel. The place
of a look-up is first noted by the occurrence itself and completed by the nodes around it.
-/

namespace ScriptLang

/-! ### Look-ups -/

/-- Where a node stands in a tree: which part of the root, which part of that, and so on. -/
abbrev Place : Type := List Nat

/-- One look-up: the occurrence that makes it, the name, and the state in which it is made. -/
structure Lookup where
  place : Place
  name : Token
  state : State

/-- The look-up as the node around sees it, in whose part `i` it is made. -/
def Lookup.within (i : Nat) (lookup : Lookup) : Lookup :=
  { lookup with place := i :: lookup.place }

/-- The result of a step with the look-ups made by it, oldest first. -/
structure Watched (α : Type) where
  seen : List Lookup
  result : Result α

namespace Watched

/-- A step that makes no look-up. -/
def quiet {α : Type} (result : Result α) : Watched α := { seen := [], result }

/-- A step of part `i` of a node. -/
def within {α : Type} (i : Nat) (w : Watched α) : Watched α :=
  { w with seen := w.seen.map (Lookup.within i) }

/-- Goes on from a step that was done. -/
def andThen {α β : Type} (w : Watched α) (next : α → State → Watched β) : Watched β :=
  match w.result with
  | .done value state => { next value state with seen := w.seen ++ (next value state).seen }
  | .failed failure state => { seen := w.seen, result := .failed failure state }
  | .unfinished => { seen := w.seen, result := .unfinished }

@[simp] theorem result_quiet {α : Type} (result : Result α) : (quiet result).result = result := rfl

@[simp] theorem result_within {α : Type} (i : Nat) (w : Watched α) :
    (w.within i).result = w.result := rfl

@[simp] theorem result_andThen {α β : Type} (w : Watched α) (next : α → State → Watched β) :
    (w.andThen next).result = w.result.andThen fun value state => (next value state).result := by
  unfold andThen
  cases w.result <;> rfl

end Watched

/-! ### Expressions -/

/-- Reads a variable. -/
def watchRead (s : State) (name : Token) : Watched Value :=
  { seen := [{ place := [], name, state := s }], result := s.read name }

/-- Assigns to a variable. -/
def watchAssign (s : State) (name : Token) (value : Value) : Watched Unit :=
  { seen := [{ place := [], name, state := s }], result := s.assign name value }

/-- Evaluates an expression nested at most `n` levels. -/
def watchEval (config : Config) : Nat → Expr → State → Watched Value
  | 0, _, s => .quiet (.failed .tooDeep s)
  | n + 1, e, s =>
    match e with
    | .literal value =>
      match Value.ofLiteral? value with
      | some value => .quiet (.done value s)
      | none => .quiet (.failed .noValue s)
    | .group inner => (watchEval config n inner s).within 0
    | .ref name => watchRead s name
    | .assign name value =>
      ((watchEval config n value s).within 0).andThen fun v s =>
      (watchAssign s name v).andThen fun _ s =>
      .quiet (.done .nil (s.trace config (.assign name.lexeme v)))
    | .unary op operand =>
      ((watchEval config n operand s).within 0).andThen fun v s =>
      .quiet (.ofExcept s (applyUnary config.truthiness op v))
    | .binary left op right =>
      ((watchEval config n left s).within 0).andThen fun a s =>
      ((watchEval config n right s).within 1).andThen fun b s =>
      .quiet (.ofExcept s (applyBinary op a b))
    | .logical left op right =>
      ((watchEval config n left s).within 0).andThen fun a s =>
      if decides config.truthiness op a then .quiet (.done a s)
      else (watchEval config n right s).within 1
    | .misplaced document => .quiet (.failed (.notAnExpression (documentKind document)) s)

theorem result_watchEval (config : Config) (n : Nat) (e : Expr) (s : State) :
    (watchEval config n e s).result = eval config n e s := by
  induction n generalizing e s with
  | zero => rfl
  | succ n ih =>
      cases e with
      | literal value =>
          simp only [watchEval, eval]
          cases Value.ofLiteral? value <;> rfl
      | logical left op right =>
          simp only [watchEval, eval, Watched.result_andThen, Watched.result_within, ih]
          congr 1
          funext a s
          split
          · rfl
          · exact ih right s
      | _ => simp [watchEval, eval, watchRead, watchAssign, ih]

/-- Evaluates an expression within the limit of the configuration. -/
def watchEvaluate (config : Config) (e : Expr) (s : State) : Watched Value :=
  watchEval config config.limit e s

@[simp] theorem result_watchEvaluate (config : Config) (e : Expr) (s : State) :
    (watchEvaluate config e s).result = evaluate config e s :=
  result_watchEval config config.limit e s

/-! ### Statements -/

/-- Runs statements one after the other until one fails, the first being part `i` of its list. -/
def watchSequence (run : Stmt → State → Watched Unit) : Nat → List Stmt → State → Watched Unit
  | _, [], s => .quiet (.done () s)
  | i, stmt :: stmts, s =>
    ((run stmt s).within i).andThen fun _ s => watchSequence run (i + 1) stmts s

theorem result_watchSequence (run : Stmt → State → Watched Unit) (i : Nat) (stmts : List Stmt)
    (s : State) :
    (watchSequence run i stmts s).result =
      sequence (fun stmt s => (run stmt s).result) stmts s := by
  induction stmts generalizing i s with
  | nil => rfl
  | cons stmt stmts ih => simp [watchSequence, sequence_cons, ih]

/-- Runs a step inside a new scope and closes the scope however the step ends. -/
def watchInScope (config : Config) (step : State → Watched Unit) (s : State) : Watched Unit :=
  { seen := (step (s.openScope config)).seen
    result := inScope config (fun s => (step s).result) s }

/-- Runs at most `n` rounds of a loop: the test before each, the body while the test holds. -/
def watchRounds (test : State → Watched Bool) (body : State → Watched Unit) :
    Nat → State → Watched Unit
  | 0, _ => .quiet .unfinished
  | n + 1, s =>
    (test s).andThen fun holds s =>
    if holds then (body s).andThen fun _ s => watchRounds test body n s
    else .quiet (.done () s)

theorem result_watchRounds (test : State → Watched Bool) (body : State → Watched Unit) (n : Nat)
    (s : State) :
    (watchRounds test body n s).result =
      rounds (fun s => (test s).result) (fun s => (body s).result) n s := by
  induction n generalizing s with
  | zero => rfl
  | succ n ih =>
      simp only [watchRounds, rounds, Watched.result_andThen]
      cases (test s).result with
      | done holds s =>
          cases holds with
          | false => rfl
          | true =>
              simp only [Result.andThen_done, if_true, Watched.result_andThen, ih]
              cases (body s).result <;> rfl
      | failed failure s => rfl
      | unfinished => rfl

/-- Evaluates a condition and decides whether it holds. -/
def watchTest (config : Config) (statement : Conditional) (condition : Expr) (s : State) :
    Watched Bool :=
  (watchEvaluate config condition s).andThen fun value s =>
  let holds := config.truthiness.holds value
  .quiet (.done holds (s.trace config (.condition statement value holds)))

@[simp] theorem result_watchTest (config : Config) (statement : Conditional) (condition : Expr)
    (s : State) :
    (watchTest config statement condition s).result = test config statement condition s := by
  simp [watchTest, test]

/-- The value that a declared variable starts with. -/
def watchInitial (config : Config) (initial : Option Expr) (s : State) : Watched Value :=
  match initial with
  | some e => watchEvaluate config e s
  | none => .quiet (.done .nil s)

@[simp] theorem result_watchInitial (config : Config) (initial : Option Expr) (s : State) :
    (watchInitial config initial s).result = initialValue config initial s := by
  cases initial <;> simp [watchInitial, initialValue]

/-- What a statement does, its parts being run by `run` and a loop for at most `n` rounds. -/
def watchEffect (config : Config) (run : Stmt → State → Watched Unit) (n : Nat) (stmt : Stmt)
    (s : State) : Watched Unit :=
  match stmt with
  | .expr value =>
    ((watchEvaluate config value s).within 0).andThen fun _ s => .quiet (.done () s)
  | .print value =>
    ((watchEvaluate config value s).within 0).andThen fun v s => .quiet (.done () (s.print v.text))
  | .declare name initial =>
    ((watchInitial config initial s).within 0).andThen fun v s =>
    .quiet ((s.define name v).andThen fun _ s =>
      .done () (s.trace config (.declare name.lexeme v)))
  | .block body => watchInScope config (watchSequence run 0 body) s
  | .branch condition whenTrue whenFalse =>
    ((watchTest config .branch condition s).within 0).andThen fun holds s =>
    if holds then (run whenTrue s).within 1
    else match whenFalse with
      | some other => (run other s).within 2
      | none => .quiet (.done () s)
  | .loop condition body =>
    watchRounds (fun s => (watchTest config .loop condition s).within 0)
      (fun s => (run body s).within 1) n s
  | .misplaced document _ => .quiet (.failed (.notAStatement (documentKind document)) s)

theorem result_watchEffect (config : Config) (run : Stmt → State → Watched Unit) (n : Nat)
    (stmt : Stmt) (s : State) :
    (watchEffect config run n stmt s).result =
      effect config (fun stmt s => (run stmt s).result) n stmt s := by
  cases stmt with
  | block body =>
      simp only [watchEffect, effect, watchInScope]
      congr 1
      funext s
      exact result_watchSequence run 0 body s
  | branch condition whenTrue whenFalse =>
      simp only [watchEffect, effect, Watched.result_andThen, Watched.result_within,
        result_watchTest]
      congr 1
      funext holds s
      cases holds with
      | true => rfl
      | false => cases whenFalse <;> rfl
  | loop condition body =>
      simp only [watchEffect, effect, result_watchRounds, Watched.result_within, result_watchTest]
  | _ => simp [watchEffect, effect]

/-- Executes a statement with `n` units of fuel. -/
def watchExec (config : Config) : Nat → Stmt → State → Watched Unit
  | 0, _, _ => .quiet .unfinished
  | n + 1, stmt, s =>
    (watchEffect config (watchExec config n) n stmt (s.trace config (.execute stmt.kind))).andThen
      fun _ s => .quiet (.done () (s.trace config (.finish stmt.kind)))

theorem result_watchExec (config : Config) (n : Nat) (stmt : Stmt) (s : State) :
    (watchExec config n stmt s).result = exec config n stmt s := by
  induction n generalizing stmt s with
  | zero => rfl
  | succ n ih =>
      simp only [watchExec, exec_succ, Watched.result_andThen, result_watchEffect, ih]
      rfl

/-- Runs the statements of a program. -/
def watchInterpret (config : Config) (fuel : Nat) (program : List Stmt) (s : State) :
    Watched Unit :=
  watchSequence
    (fun stmt s =>
      { seen := (watchExec config fuel stmt s).seen
        result := reportNesting (watchExec config fuel stmt s).result })
    0 program s

/-- **Without its notes, the run is the run.** -/
theorem result_watchInterpret (config : Config) (fuel : Nat) (program : List Stmt) (s : State) :
    (watchInterpret config fuel program s).result = interpret config fuel program s := by
  simp only [watchInterpret, interpret, result_watchSequence, result_watchExec]

end ScriptLang
