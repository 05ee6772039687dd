import ScriptLang.Proofs.Run.Transport

/-!
# Runs of what stands further down

A run looks at the lines of its tokens only to report them, and never at what was done before it.
The same program with its tokens further down, run in a state with earlier effects, therefore does
the same thing: the earlier effects stay behind its own, and what it reports is as much further down.

## Main Definitions

* `Failure.later`, `Diagnostic.later`: what a run reports, further down.
* `State.behind`: the state with effects from before.
* `Result.moved`: how a step ends, with effects from before and what it reports further down.
* `Transport.later`: the transport of runs that this is.

## Main Statements

* `interpret_later`: programs.
* `Session.interpret_append`: two programs run at once or one after the other.
-/

namespace ScriptLang

/-! ### Reports further down -/

/-- The report `k` lines further down. One without a line has none there either. -/
def Diagnostic.later (k : Nat) (d : Diagnostic) : Diagnostic :=
  { d with line := d.line.later k }

namespace Failure

/-- The failure `k` lines further down. -/
def later (k : Nat) : Failure → Failure
  | undefined name line => undefined name (line.later k)
  | unassignable name line => unassignable name (line.later k)
  | notANumber operand line => notANumber operand (line.later k)
  | notNumbers op left right line => notNumbers op left right (line.later k)
  | notComparable line => notComparable (line.later k)
  | divisionByZero line => divisionByZero (line.later k)
  | noUnaryOperator op operand line => noUnaryOperator op operand (line.later k)
  | noBinaryOperator op line => noBinaryOperator op (line.later k)
  | tooDeep => tooDeep
  | statementTooDeep => statementTooDeep
  | notAStatement kind => notAStatement kind
  | notAnExpression kind => notAnExpression kind
  | noValue => noValue
  | noName => noName

theorem later_eq_reline (k : Nat) (failure : Failure) :
    failure.later k = failure.reline (Json.later k) := by
  cases failure <;> rfl

/-- The report of a failure further down is the report further down. -/
theorem diagnostic?_later (k : Nat) (failure : Failure) :
    (failure.later k).diagnostic? = failure.diagnostic?.map (Diagnostic.later k) := by
  cases failure <;> rfl

end Failure

/-! ### States with earlier effects -/

/-- The state with effects from before. -/
def State.behind (earlier : List Effect) (s : State) : State :=
  { s with effects := s.effects ++ earlier }

/-- How a step ends, with effects from before and what it reports `k` lines further down. -/
def Result.moved {α : Type} (k : Nat) (earlier : List Effect) : Result α → Result α
  | .done value s => .done value (s.behind earlier)
  | .failed failure s => .failed (failure.later k) (s.behind earlier)
  | .unfinished => .unfinished

/-- Lines further down and effects from before, under the same configuration. -/
def Transport.later (config : Config) (k : Nat) (earlier : List Effect) :
    Transport config config :=
  .sameConfig config (Json.later k) (· ++ earlier) fun _ _ => rfl

theorem Transport.result_later {α : Type} (config : Config) (k : Nat) (earlier : List Effect)
    (r : Result α) : (Transport.later config k earlier).result r = r.moved k earlier := by
  cases r with
  | done value s => rfl
  | failed failure s => rw [Result.moved, Failure.later_eq_reline]; rfl
  | unfinished => rfl

/-- **A program further down**, run with effects from before. -/
theorem interpret_later (k : Nat) (earlier : List Effect) (config : Config) (fuel : Nat)
    (program : List Stmt) (s : State) :
    interpret config fuel (relabelAll (Token.later k) program) (s.behind earlier) =
      (interpret config fuel program s).moved k earlier := by
  rw [← Transport.result_later config]
  exact (Transport.later config k earlier).interpret fuel program s

/-! ### Programs one after the other -/

theorem sequence_append (run : Stmt → State → Result Unit) (first second : List Stmt) (s : State) :
    sequence run (first ++ second) s =
      (sequence run first s).andThen fun _ t => sequence run second t := by
  induction first generalizing s with
  | nil => rfl
  | cons stmt stmts ih =>
      rw [List.cons_append, sequence_cons, sequence_cons]
      cases run stmt s with
      | done value t => exact ih t
      | failed failure t => rfl
      | unfinished => rfl

theorem interpret_append (config : Config) (fuel : Nat) (first second : List Stmt) (s : State) :
    interpret config fuel (first ++ second) s =
      (interpret config fuel first s).andThen fun _ t => interpret config fuel second t :=
  sequence_append _ first second s

theorem Outside.applyAll_append (o : Outside) (effects others : List Effect) :
    o.applyAll (effects ++ others) = (o.applyAll effects).applyAll others :=
  List.foldl_append

namespace Session

/-- What has reached the outside reaches it first, whether before or with the rest. -/
theorem flush_behind (session : Session) (t u : State) :
    { session with state := u.behind t.effects }.flush =
      { { session with state := t }.flush with state := u }.flush := by
  simp only [flush, State.behind, List.reverse_append, Outside.applyAll_append]

/-- **Two programs run at once** do what they do one after the other. If the first does not end
well, it is the run of the first; else it is that of both, what the second reports being further
down. If either goes on for longer than the fuel lasts, so does the run of both. -/
theorem interpret_append (session : Session) (fuel k : Nat) (first second : List Stmt) :
    match session.interpret fuel first with
    | (afterFirst, .completed) =>
      match afterFirst.interpret fuel second with
      | (afterBoth, .completed) =>
        session.interpret fuel (first ++ relabelAll (Token.later k) second) =
          (afterBoth, .completed)
      | (afterBoth, .failed failure) =>
        session.interpret fuel (first ++ relabelAll (Token.later k) second) =
          (afterBoth, .failed (failure.later k))
      | (_, .unfinished) =>
        (session.interpret fuel (first ++ relabelAll (Token.later k) second)).2 = .unfinished
    | (afterFirst, .failed failure) =>
      session.interpret fuel (first ++ relabelAll (Token.later k) second) =
        (afterFirst, .failed failure)
    | (_, .unfinished) =>
      (session.interpret fuel (first ++ relabelAll (Token.later k) second)).2 = .unfinished := by
  have hwhole := ScriptLang.interpret_append session.config fuel first
    (relabelAll (Token.later k) second) session.state
  cases hfirst : ScriptLang.interpret session.config fuel first session.state with
  | unfinished =>
      rw [hfirst] at hwhole
      rw [interpret_of_unfinished hfirst]
      simp only [interpret_of_unfinished hwhole]
  | failed failure t =>
      rw [hfirst] at hwhole
      rw [interpret_of_failed hfirst]
      simp only [interpret_of_failed hwhole]
  | done value t =>
      rw [hfirst, Result.andThen_done] at hwhole
      rw [interpret_of_done hfirst]
      -- The first program leaves a session whose effects have reached the outside already.
      have hstate : t = State.behind t.effects { t with effects := [] } := rfl
      rw [hstate, interpret_later] at hwhole
      let between := { session with state := t }.flush
      change match between.interpret fuel second with
        | (afterBoth, .completed) => _ = (afterBoth, Ending.completed)
        | (afterBoth, .failed failure) => _ = (afterBoth, Ending.failed (failure.later k))
        | (_, .unfinished) => _
      cases hsecond : ScriptLang.interpret session.config fuel second { t with effects := [] } with
      | unfinished =>
          rw [hsecond] at hwhole
          have hthen : between.interpret fuel second = (between, .unfinished) :=
            interpret_of_unfinished hsecond
          simp only [hthen, interpret_of_unfinished hwhole]
      | failed failure u =>
          rw [hsecond] at hwhole
          have hthen : between.interpret fuel second =
              ({ between with state := u }.flush, .failed failure) := interpret_of_failed hsecond
          simp only [hthen, interpret_of_failed hwhole, flush_behind, between]
      | done value u =>
          rw [hsecond] at hwhole
          have hthen : between.interpret fuel second =
              ({ between with state := u }.flush, .completed) := interpret_of_done hsecond
          simp only [hthen, interpret_of_done hwhole, flush_behind, between]

end Session

end ScriptLang
