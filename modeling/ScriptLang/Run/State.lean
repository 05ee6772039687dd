import ScriptLang.Limits
import ScriptLang.Run.Trace
import ScriptLang.Scope.Forest
import ScriptLang.Value.Operation

/-!
# The state of a run

A run works on a forest of scopes, of which some are open: the innermost one, where statements run,
and those around it. It also keeps what it has done to the outside.

## Main Definitions

* `Config`: the rule for truth, the level of the trace, the limit on nesting.
* `State`: scopes and effects, with the steps on them.
* `Result`: how a step ends: with a value, with a failure, or not at all within its fuel.

## Design Notes

The effects are kept newest first. A scope is dropped from the forest when it is closed: nothing can
reach it any more, since scopes are closed in the reverse of the order in which they are opened.
-/

namespace ScriptLang

/-- What a run is told beforehand. -/
structure Config where
  truthiness : Truthiness := .legacy
  /-- The level of the trace. Nothing is traced at level zero or below. -/
  level : Int := 0
  /-- How deeply an expression may be nested. -/
  limit : Nat := Limits.standard.nesting

/-- The state of a run. -/
structure State where
  forest : Forest
  /-- The open scopes, innermost first. -/
  stack : List Nat
  /-- What has been done to the outside, newest first. -/
  effects : List Effect

/-- How a step ends, with the state it leaves. -/
inductive Result (α : Type) where
  | done (value : α) (state : State)
  | failed (failure : Failure) (state : State)
  /-- The step has not ended within its fuel. -/
  | unfinished

namespace Result

/-- Goes on from a step that was done. -/
def andThen {α β : Type} (result : Result α) (next : α → State → Result β) : Result β :=
  match result with
  | done value state => next value state
  | failed failure state => failed failure state
  | unfinished => unfinished

@[simp] theorem andThen_done {α β : Type} (value : α) (state : State)
    (next : α → State → Result β) : (done value state).andThen next = next value state := rfl

@[simp] theorem andThen_failed {α β : Type} (failure : Failure) (state : State)
    (next : α → State → Result β) :
    (failed failure state : Result α).andThen next = failed failure state := rfl

@[simp] theorem andThen_unfinished {α β : Type} (next : α → State → Result β) :
    (unfinished : Result α).andThen next = unfinished := rfl

/-- A computation on values as a step that leaves the state as it is. -/
def ofExcept {α : Type} (state : State) : Except Failure α → Result α
  | .ok value => done value state
  | .error failure => failed failure state

end Result

namespace State

/-- The state before the first run: one scope, nothing done. -/
def initial : State :=
  { forest := Forest.empty.add none, stack := [0], effects := [] }

/-- The innermost open scope. -/
def current (s : State) : Nat := s.stack.headD 0

/-! ### Effects -/

/-- Prints a line. -/
def print (s : State) (text : String) : State :=
  { s with effects := .printed text :: s.effects }

/-- Traces an event, if the level of the trace is high enough for it. -/
def trace (s : State) (config : Config) (event : Event) : State :=
  if (event.level : Int) ≤ config.level then { s with effects := .traced event :: s.effects }
  else s

@[simp] theorem forest_print (s : State) (text : String) : (s.print text).forest = s.forest := rfl

@[simp] theorem stack_print (s : State) (text : String) : (s.print text).stack = s.stack := rfl

@[simp] theorem forest_trace (s : State) (config : Config) (event : Event) :
    (s.trace config event).forest = s.forest := by
  unfold trace; split <;> rfl

@[simp] theorem stack_trace (s : State) (config : Config) (event : Event) :
    (s.trace config event).stack = s.stack := by
  unfold trace; split <;> rfl

/-! ### Scopes -/

/-- Opens a scope inside the innermost one. -/
def openScope (s : State) (config : Config) : State :=
  let i := s.forest.size
  let forest := s.forest.add (some s.current)
  let depth := forest.depth i
  { s with forest, stack := i :: s.stack }.trace config (.push depth)

/-- Closes the innermost scope. -/
def closeScope (s : State) (config : Config) : State :=
  let depth := s.forest.depth s.current
  { s with forest := s.forest.dropNewest, stack := s.stack.tail }.trace config (.pop depth)

@[simp] theorem stack_openScope (s : State) (config : Config) :
    (s.openScope config).stack = s.forest.size :: s.stack := by
  simp [openScope]

@[simp] theorem forest_openScope (s : State) (config : Config) :
    (s.openScope config).forest = s.forest.add (some s.current) := by
  simp [openScope]

@[simp] theorem stack_closeScope (s : State) (config : Config) :
    (s.closeScope config).stack = s.stack.tail := by
  simp [closeScope]

@[simp] theorem forest_closeScope (s : State) (config : Config) :
    (s.closeScope config).forest = s.forest.dropNewest := by
  simp [closeScope]

/-- The bindings of the open scopes, outermost first and in the order of their names. -/
def listing (s : State) : List Bindings :=
  s.stack.reverse.map s.forest.sorted

/-! ### Variables -/

/-- Reads a variable. -/
def read (s : State) (name : Token) : Result Value :=
  match Name.ofLexeme? name.lexeme with
  | none => .failed .noName s
  | some key =>
    match s.forest.get? s.current key with
    | some value => .done value s
    | none => .failed (.undefined name.lexeme name.line) s

/-- Assigns to a variable. -/
def assign (s : State) (name : Token) (value : Value) : Result Unit :=
  match Name.ofLexeme? name.lexeme with
  | none => .failed .noName s
  | some key =>
    match s.forest.assign? s.current key value with
    | some forest => .done () { s with forest }
    | none => .failed (.unassignable name.lexeme name.line) s

/-- Binds a variable in the innermost scope. -/
def define (s : State) (name : Token) (value : Value) : Result Unit :=
  match Name.ofLexeme? name.lexeme with
  | none => .failed .noName s
  | some key => .done () { s with forest := s.forest.define s.current key value }

end State

end ScriptLang
