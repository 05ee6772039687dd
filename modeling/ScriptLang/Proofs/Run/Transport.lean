import ScriptLang.Proofs.Tree.Relabel
import ScriptLang.Run.Session

/-!
# Transport of runs

A run looks at the lines of its tokens only to report them, at the level of the trace only to choose
what it traces, and never at what it has done. Other lines, other effects from before and a lower
level therefore leave it as it is: it ends in the same way and in the same scopes, what it reports
has the other lines, and its own effects are the same ones up to what a lower level leaves out.

## Main Definitions

* `Failure.reline`, `Diagnostic.reline`: what a run reports, on another line.
* `Transport`: other lines, other effects and another level; `Transport.sameConfig` at the same one.
* `Transport.state`, `Transport.result`: where a step then begins and how it ends.

## Main Statements

* `Transport.eval`, `Transport.exec`, `Transport.interpret`: expressions, statements and programs.

## Design Notes

A transport says what becomes of a list of effects by what becomes of the newest one, so nothing
about the effects is left to show for the steps of a run.
-/

namespace ScriptLang

/-! ### Reports on other lines -/

/-- The report on another line. -/
def Diagnostic.reline (line : Json → Json) (d : Diagnostic) : Diagnostic :=
  { d with line := line d.line }

namespace Failure

/-- The failure on another line. -/
def reline (f : Json → Json) : Failure → Failure
  | undefined name line => undefined name (f line)
  | unassignable name line => unassignable name (f line)
  | notANumber operand line => notANumber operand (f line)
  | notNumbers op left right line => notNumbers op left right (f line)
  | notComparable line => notComparable (f line)
  | divisionByZero line => divisionByZero (f line)
  | noUnaryOperator op operand line => noUnaryOperator op operand (f line)
  | noBinaryOperator op line => noBinaryOperator op (f line)
  | tooDeep => tooDeep
  | statementTooDeep => statementTooDeep
  | notAStatement kind => notAStatement kind
  | notAnExpression kind => notAnExpression kind
  | noValue => noValue
  | noName => noName

theorem reline_id (failure : Failure) : failure.reline id = failure := by
  cases failure <;> rfl

/-- The report of a failure on another line is the report on that line, if no line stays no line. -/
theorem diagnostic?_reline {f : Json → Json} (hnull : f .null = .null) (failure : Failure) :
    (failure.reline f).diagnostic? = failure.diagnostic?.map (Diagnostic.reline f) := by
  cases failure with
  | statementTooDeep => simp only [reline, diagnostic?, Option.map_some, Diagnostic.reline, hnull]
  | _ => rfl

end Failure

theorem applyUnary_reline (line : Json → Json) (rule : Truthiness) (op : Token)
    (operand : Value) :
    applyUnary rule (op.reline line) operand =
      (applyUnary rule op operand).mapError (Failure.reline line) := by
  unfold applyUnary
  rw [Token.kind_reline]
  split <;> rfl

theorem applyBinary_reline (line : Json → Json) (op : Token) (left right : Value) :
    applyBinary (op.reline line) left right =
      (applyBinary op left right).mapError (Failure.reline line) := by
  unfold applyBinary calculate
  rw [Token.kind_reline]
  repeat' split
  all_goals rfl

/-! ### Transports -/

/-- Other lines, other effects and a configuration of another level, one that is no higher: prints
stay, and traced events stay up to the level. -/
structure Transport (config config' : Config) where
  line : Json → Json
  effects : List Effect → List Effect
  truthiness_eq : config'.truthiness = config.truthiness
  limit_eq : config'.limit = config.limit
  level_le : config'.level ≤ config.level
  effects_printed : ∀ text done, effects (.printed text :: done) = .printed text :: effects done
  effects_traced : ∀ event : Event, (event.level : Int) ≤ config'.level →
    ∀ done, effects (.traced event :: done) = .traced event :: effects done
  effects_left_out : ∀ event : Event, config'.level < event.level →
    (event.level : Int) ≤ config.level → ∀ done, effects (.traced event :: done) = effects done

namespace Transport

/-- Other lines and other effects under the same configuration, each new effect being kept. -/
def sameConfig (config : Config) (line : Json → Json) (effects : List Effect → List Effect)
    (hkept : ∀ effect done, effects (effect :: done) = effect :: effects done) :
    Transport config config where
  line := line
  effects := effects
  truthiness_eq := rfl
  limit_eq := rfl
  level_le := Int.le_refl _
  effects_printed _ := hkept _
  effects_traced _ _ := hkept _
  effects_left_out _ habove hbelow := absurd hbelow (Int.not_le.2 habove)

variable {config config' : Config} (move : Transport config config')

/-- The state with the other effects. -/
def state (s : State) : State :=
  { s with effects := move.effects s.effects }

/-- How a step ends, with the other effects and on the other lines. -/
def result {α : Type} : Result α → Result α
  | .done value s => .done value (move.state s)
  | .failed failure s => .failed (failure.reline move.line) (move.state s)
  | .unfinished => .unfinished

section Steps

variable {α β : Type} (s : State)

@[simp] theorem forest_state : (move.state s).forest = s.forest := rfl

@[simp] theorem stack_state : (move.state s).stack = s.stack := rfl

@[simp] theorem current_state : (move.state s).current = s.current := rfl

@[simp] theorem result_done (value : α) :
    move.result (.done value s) = .done value (move.state s) := rfl

@[simp] theorem result_failed (failure : Failure) :
    move.result (.failed failure s : Result α) =
      .failed (failure.reline move.line) (move.state s) := rfl

@[simp] theorem result_unfinished :
    move.result (.unfinished : Result α) = .unfinished := rfl

/-! ### Effects -/

theorem print_state (text : String) : (move.state s).print text = move.state (s.print text) := by
  simp only [State.print, state, move.effects_printed]

/-- An event that is traced in the state with the other effects, or left out there. -/
theorem trace_state (event : Event) :
    (move.state s).trace config' event = move.state (s.trace config event) := by
  unfold State.trace
  by_cases hlow : (event.level : Int) ≤ config'.level
  · rw [if_pos hlow, if_pos (Int.le_trans hlow move.level_le)]
    simp only [state, move.effects_traced event hlow]
  · rw [if_neg hlow]
    split
    · next hhigh => simp only [state, move.effects_left_out event (Int.not_le.1 hlow) hhigh]
    · rfl

theorem openScope_state : (move.state s).openScope config' = move.state (s.openScope config) :=
  move.trace_state { s with
    forest := s.forest.add (some s.current), stack := s.forest.size :: s.stack } _

theorem closeScope_state : (move.state s).closeScope config' = move.state (s.closeScope config) :=
  move.trace_state { s with
    forest := s.forest.dropNewest, stack := s.stack.tail } _

/-! ### Steps -/

/-- Two steps, each of which is transported. -/
theorem andThen_result (r : Result α) {next next' : α → State → Result β}
    (h : ∀ value s, next' value (move.state s) = move.result (next value s)) :
    (move.result r).andThen next' = move.result (r.andThen next) := by
  cases r with
  | done value s => exact h value s
  | failed failure s => rfl
  | unfinished => rfl

theorem ofExcept_state {result result' : Except Failure α}
    (h : result' = result.mapError (Failure.reline move.line)) :
    Result.ofExcept (move.state s) result' = move.result (Result.ofExcept s result) := by
  subst h
  cases result <;> rfl

theorem read (name : Token) :
    (move.state s).read (name.reline move.line) = move.result (s.read name) := by
  simp only [State.read, Token.lexeme_reline, Token.line_reline, forest_state, current_state]
  cases Name.ofLexeme? name.lexeme with
  | none => rfl
  | some key =>
      dsimp only
      cases s.forest.get? s.current key <;> rfl

theorem assign (name : Token) (value : Value) :
    (move.state s).assign (name.reline move.line) value = move.result (s.assign name value) := by
  simp only [State.assign, Token.lexeme_reline, Token.line_reline, forest_state, current_state]
  cases Name.ofLexeme? name.lexeme with
  | none => rfl
  | some key =>
      dsimp only
      cases s.forest.assign? s.current key value <;> rfl

theorem define (name : Token) (value : Value) :
    (move.state s).define (name.reline move.line) value = move.result (s.define name value) := by
  simp only [State.define, Token.lexeme_reline, forest_state, current_state]
  cases Name.ofLexeme? name.lexeme <;> rfl

end Steps

/-! ### Expressions and statements -/

/-- **An expression is transported.** -/
theorem eval (n : Nat) (e : Expr) (s : State) :
    ScriptLang.eval config' n (e.relabel (Token.reline move.line)) (move.state s) =
      move.result (ScriptLang.eval config n e s) := by
  induction n generalizing e s with
  | zero => rfl
  | succ n ih =>
      cases e with
      | literal value =>
          simp only [Expr.relabel, ScriptLang.eval]
          split <;> rfl
      | group inner => exact ih inner s
      | ref name => exact move.read s name
      | assign name value =>
          simp only [Expr.relabel, ScriptLang.eval, ih]
          refine move.andThen_result _ fun v t => ?_
          rw [move.assign]
          refine move.andThen_result _ fun _ u => ?_
          rw [move.trace_state]
          rfl
      | unary op operand =>
          simp only [Expr.relabel, ScriptLang.eval, ih]
          refine move.andThen_result _ fun v t => ?_
          rw [move.truthiness_eq]
          exact move.ofExcept_state t (applyUnary_reline move.line _ op v)
      | binary left op right =>
          simp only [Expr.relabel, ScriptLang.eval, ih]
          refine move.andThen_result _ fun a t => ?_
          rw [ih]
          refine move.andThen_result _ fun b u => ?_
          exact move.ofExcept_state u (applyBinary_reline move.line op a b)
      | logical left op right =>
          simp only [Expr.relabel, ScriptLang.eval, ih]
          refine move.andThen_result _ fun a t => ?_
          have hdecides : decides config'.truthiness (op.reline move.line) a =
              decides config.truthiness op a := by
            rw [move.truthiness_eq]
            rfl
          rw [hdecides]
          split
          · rfl
          · exact ih right t
      | misplaced document => rfl

/-- An expression within the limits of the two configurations, which are the same. -/
theorem evaluate (e : Expr) (s : State) :
    ScriptLang.evaluate config' (e.relabel (Token.reline move.line)) (move.state s) =
      move.result (ScriptLang.evaluate config e s) := by
  rw [ScriptLang.evaluate, move.limit_eq]
  exact move.eval config.limit e s

theorem test (statement : Conditional) (condition : Expr) (s : State) :
    ScriptLang.test config' statement (condition.relabel (Token.reline move.line))
        (move.state s) =
      move.result (ScriptLang.test config statement condition s) := by
  rw [ScriptLang.test, move.evaluate]
  refine move.andThen_result _ fun value t => ?_
  dsimp only
  rw [move.trace_state, move.truthiness_eq]
  rfl

variable {run run' : Stmt → State → Result Unit}

theorem sequence {stmts : List Stmt}
    (h : ∀ stmt s, run' (stmt.relabel (Token.reline move.line)) (move.state s) =
      move.result (run stmt s)) (s : State) :
    ScriptLang.sequence run' (relabelAll (Token.reline move.line) stmts) (move.state s) =
      move.result (ScriptLang.sequence run stmts s) := by
  induction stmts generalizing s with
  | nil =>
      rw [relabelAll_nil]
      rfl
  | cons stmt stmts ih =>
      rw [relabelAll_cons, sequence_cons, sequence_cons, h]
      exact move.andThen_result _ fun _ t => ih t

theorem inScope {step step' : State → Result Unit}
    (h : ∀ s, step' (move.state s) = move.result (step s)) (s : State) :
    ScriptLang.inScope config' step' (move.state s) =
      move.result (ScriptLang.inScope config step s) := by
  rw [ScriptLang.inScope, ScriptLang.inScope, move.openScope_state, h]
  cases step (s.openScope config) with
  | done value t =>
      dsimp only [result_done]
      rw [move.closeScope_state]
  | failed failure t =>
      dsimp only [result_failed]
      rw [move.closeScope_state]
  | unfinished => rfl

theorem rounds {test test' : State → Result Bool} {body body' : State → Result Unit}
    (htest : ∀ s, test' (move.state s) = move.result (test s))
    (hbody : ∀ s, body' (move.state s) = move.result (body s)) (n : Nat) (s : State) :
    ScriptLang.rounds test' body' n (move.state s) =
      move.result (ScriptLang.rounds test body n s) := by
  induction n generalizing s with
  | zero => rfl
  | succ n ih =>
      rw [ScriptLang.rounds, ScriptLang.rounds, htest]
      cases test s with
      | failed failure t => rfl
      | unfinished => rfl
      | done holds t =>
          cases holds with
          | false => rfl
          | true =>
              dsimp only [result_done]
              rw [hbody]
              cases body t with
              | done value u => exact ih u
              | failed failure u => rfl
              | unfinished => rfl

theorem initialValue (initial : Option Expr) (s : State) :
    ScriptLang.initialValue config' (initial.map (Expr.relabel (Token.reline move.line)))
        (move.state s) =
      move.result (ScriptLang.initialValue config initial s) := by
  cases initial with
  | none => rfl
  | some e => exact move.evaluate e s

theorem effect (n : Nat)
    (h : ∀ stmt s, run' (stmt.relabel (Token.reline move.line)) (move.state s) =
      move.result (run stmt s)) (stmt : Stmt) (s : State) :
    ScriptLang.effect config' run' n (stmt.relabel (Token.reline move.line)) (move.state s) =
      move.result (ScriptLang.effect config run n stmt s) := by
  cases stmt with
  | expr value =>
      simp only [Stmt.relabel, ScriptLang.effect, move.evaluate]
      exact move.andThen_result _ fun _ t => rfl
  | print value =>
      simp only [Stmt.relabel, ScriptLang.effect, move.evaluate]
      refine move.andThen_result _ fun v t => ?_
      rw [move.print_state]
      rfl
  | declare name initial =>
      simp only [Stmt.relabel, ScriptLang.effect, move.initialValue]
      refine move.andThen_result _ fun v t => ?_
      rw [move.define]
      refine move.andThen_result _ fun _ u => ?_
      rw [move.trace_state]
      rfl
  | block body =>
      exact move.inScope (fun s => move.sequence h s) s
  | branch condition whenTrue whenFalse =>
      cases whenFalse with
      | none =>
          simp only [Stmt.relabel, ScriptLang.effect, move.test]
          refine move.andThen_result _ fun holds t => ?_
          cases holds with
          | true => exact h whenTrue t
          | false => rfl
      | some whenFalse =>
          simp only [Stmt.relabel, ScriptLang.effect, move.test]
          refine move.andThen_result _ fun holds t => ?_
          cases holds with
          | true => exact h whenTrue t
          | false => exact h whenFalse t
  | loop condition body => exact move.rounds (move.test .loop condition) (h body) n s
  | misplaced document inner => rfl

/-- **A statement is transported.** -/
theorem exec (n : Nat) (stmt : Stmt) (s : State) :
    ScriptLang.exec config' n (stmt.relabel (Token.reline move.line)) (move.state s) =
      move.result (ScriptLang.exec config n stmt s) := by
  induction n generalizing stmt s with
  | zero => rfl
  | succ n ih =>
      rw [exec_succ, exec_succ, kind_relabel, move.trace_state, move.effect n ih]
      refine move.andThen_result _ fun _ t => ?_
      rw [move.trace_state]
      rfl

/-- **A program is transported.** -/
theorem interpret (fuel : Nat) (program : List Stmt) (s : State) :
    ScriptLang.interpret config' fuel (relabelAll (Token.reline move.line) program)
        (move.state s) =
      move.result (ScriptLang.interpret config fuel program s) := by
  refine move.sequence (fun stmt t => ?_) s
  rw [move.exec]
  cases ScriptLang.exec config fuel stmt t with
  | failed failure u => cases failure <;> rfl
  | _ => rfl

end Transport

end ScriptLang
