import ScriptLang.Parse.Statement
import ScriptLang.Run.Exec
import ScriptLang.Source.Scan
import ScriptLang.Tree.Document

/-!
# Sessions

A session is the life of one interpreter: programs are run in it one after the other, scopes are
opened and closed from outside, and what is printed and traced reaches the outside.

## Main Definitions

* `LoadFailure`: why a source or a document is no program.
* `programOf`: the program that a source is.
* `Session`: configuration, state and outside of an interpreter.
* `Session.interpret`, `Session.run`: running a program, the latter closing the trace file.
-/

namespace ScriptLang

/-! ### Loading programs -/

/-- Why something is no program. -/
inductive LoadFailure where
  | scan (error : ScanError)
  | parse (failure : Parse.Failure)

/-- The program that a source is, and what the scan left open. -/
structure Loaded where
  program : List Stmt
  recovered : Option ScanError

/-- The program that a source is, if it opens at most `limit` levels. -/
def programOf (limit : Nat) (source : String) : Except LoadFailure Loaded :=
  match scan source with
  | .error error => .error (.scan error)
  | .ok scanned =>
    match Parse.parse limit scanned.tokens with
    | .error failure => .error (.parse failure)
    | .ok program => .ok { program, recovered := scanned.recovered }

/-! ### Sessions -/

/-- The life of an interpreter. -/
structure Session where
  config : Config
  state : State
  outside : Outside

/-- How a run ends. -/
inductive Ending where
  | completed
  | failed (failure : Failure)
  | unfinished

namespace Session

/-- A fresh interpreter whose trace goes to `sink`. If the trace file exists, it holds
`contents`. -/
def fresh (config : Config) (sink : Sink) (contents : Option String) : Session :=
  { config, state := State.initial, outside := { sink, file := { contents } } }

/-- Lets the effects of the state reach the outside. -/
def flush (session : Session) : Session :=
  { session with
    state := { session.state with effects := [] }
    outside := session.outside.applyAll session.state.effects.reverse }

/-- Takes over the result of a step, its effects included. -/
def settle {α : Type} (session : Session) : Result α → Session × Except Ending α
  | .done value state => ({ session with state }.flush, .ok value)
  | .failed failure state => ({ session with state }.flush, .error (.failed failure))
  | .unfinished => (session, .error .unfinished)

/-- How a run ended, from what its last step gave. -/
def ending {α : Type} : Except Ending α → Ending
  | .ok _ => .completed
  | .error ending => ending

/-- Runs a program and leaves the trace file as it is. -/
def interpret (session : Session) (fuel : Nat) (program : List Stmt) : Session × Ending :=
  let (session, given) :=
    session.settle (ScriptLang.interpret session.config fuel program session.state)
  (session, ending given)

theorem interpret_of_done {session : Session} {fuel : Nat} {program : List Stmt} {t : State}
    (h : ScriptLang.interpret session.config fuel program session.state = .done () t) :
    session.interpret fuel program = ({ session with state := t }.flush, .completed) := by
  simp only [interpret, h, settle, ending]

theorem interpret_of_failed {session : Session} {fuel : Nat} {program : List Stmt} {t : State}
    {failure : Failure}
    (h : ScriptLang.interpret session.config fuel program session.state = .failed failure t) :
    session.interpret fuel program = ({ session with state := t }.flush, .failed failure) := by
  simp only [interpret, h, settle, ending]

theorem interpret_of_unfinished {session : Session} {fuel : Nat} {program : List Stmt}
    (h : ScriptLang.interpret session.config fuel program session.state = .unfinished) :
    session.interpret fuel program = (session, .unfinished) := by
  simp only [interpret, h, settle, ending]

/-- Closes the trace file. -/
def close (session : Session) : Session :=
  { session with outside := session.outside.close }

/-- Runs a program and closes the trace file, however the run ends. -/
def run (session : Session) (fuel : Nat) (program : List Stmt) : Session × Ending :=
  let (session, ending) := session.interpret fuel program
  (session.close, ending)

/-- Evaluates an expression in the innermost scope. -/
def evaluate (session : Session) (e : Expr) : Session × Except Ending Value :=
  session.settle (ScriptLang.evaluate session.config e session.state)

/-- Traces a line. -/
def message (session : Session) (text : String) : Session :=
  { session with state := session.state.trace session.config (.message text) }.flush

/-- Opens a scope inside the innermost one. -/
def openScope (session : Session) : Session :=
  { session with state := session.state.openScope session.config }.flush

/-- Closes the innermost scope. -/
def closeScope (session : Session) : Session :=
  { session with state := session.state.closeScope session.config }.flush

/-- How many scopes there are around the innermost one. -/
def depth (session : Session) : Nat :=
  session.state.forest.depth session.state.current

/-- Binds a variable in the innermost scope. -/
def define (session : Session) (name : Token) (value : Value) : Session × Except Ending Unit :=
  session.settle (session.state.define name value)

/-- Assigns to a variable, seen from the innermost scope. -/
def assign (session : Session) (name : Token) (value : Value) : Session × Except Ending Unit :=
  session.settle (session.state.assign name value)

/-- Reads a variable, seen from the innermost scope. -/
def read (session : Session) (name : Token) : Session × Except Ending Value :=
  session.settle (session.state.read name)

/-- The session with nothing printed yet. -/
def resetOut (session : Session) : Session :=
  { session with outside := { session.outside with out := "" } }

end Session

end ScriptLang
