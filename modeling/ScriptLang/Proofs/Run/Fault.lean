import ScriptLang.Proofs.Run.Taxonomy

/-!
# Where a run fails

A run that fails has come to an expression whose operands have values and whose own step fails: a
name that is looked up, an assignment, an operator that is applied. What is reported is the failure
of that step, with the line of the name or operator.

## Main Definitions

* `Call.FailsWith`: how a call ends that fails.
* `Call.FailsAt`: the call's own step fails at a token, its operands being done.
* `Demands.ofTokens`: the tokens of a tree have a property.

## Main Statements

* `Call.FailsWith.cases`: a call that fails does so at itself or in a call that it makes.
* `failsAt_of_interpret`: every failure of a program comes from a call that fails at itself.
* `CallOf.meets`: what is demanded of a program holds of every part of it that a run comes to.
-/

namespace ScriptLang

/-! ### Failures of steps -/

/-- A failure of two steps is one of the first or of the second. -/
theorem Result.andThen_eq_failed {α β : Type} {r : Result α} {next : α → State → Result β}
    {failure : Failure} {u : State} (h : r.andThen next = .failed failure u) :
    r = .failed failure u ∨ ∃ value t, r = .done value t ∧ next value t = .failed failure u := by
  cases r with
  | done value t => exact .inr ⟨value, t, rfl, h⟩
  | failed failure' t =>
      cases h
      exact .inl rfl
  | unfinished => cases h

/-- Behind a step that cannot fail, there is no further failure. -/
theorem Result.eq_failed_of_andThen {α β : Type} {r : Result α} {next : α → State → Result β}
    {failure : Failure} {u : State} (h : r.andThen next = .failed failure u)
    (hnext : ∀ value t, next value t ≠ .failed failure u) : r = .failed failure u := by
  rcases Result.andThen_eq_failed h with h | ⟨value, t, -, h⟩
  · exact h
  · exact absurd h (hnext value t)

/-- Statements fail where one of them does, those in front of it being done. -/
theorem sequence_eq_failed {run : Stmt → State → Result Unit} {stmts : List Stmt} {s u : State}
    {failure : Failure} (h : sequence run stmts s = .failed failure u) :
    ∃ before stmt after t, stmts = before ++ stmt :: after ∧
      sequence run before s = .done () t ∧ run stmt t = .failed failure u := by
  induction stmts generalizing s with
  | nil => cases h
  | cons stmt stmts ih =>
      rw [sequence_cons] at h
      rcases Result.andThen_eq_failed h with h | ⟨_, t, hdone, h⟩
      · exact ⟨[], stmt, stmts, s, rfl, rfl, h⟩
      · obtain ⟨before, failing, after, v, rfl, hbefore, hfails⟩ := ih h
        refine ⟨stmt :: before, failing, after, v, rfl, ?_, hfails⟩
        rw [sequence_cons, hdone, Result.andThen_done, hbefore]

/-- A loop fails in a round that begins, in its test or in its body. -/
theorem rounds_eq_failed {test : State → Result Bool} {body : State → Result Unit} {n : Nat}
    {s u : State} {failure : Failure} (h : rounds test body n s = .failed failure u) :
    ∃ k t, RoundBegins test body n s (k + 1) t ∧
      (test t = .failed failure u ∨ ∃ v, test t = .done true v ∧ body v = .failed failure u) := by
  -- The rounds that are left are those that begin in the state that the earlier ones left.
  have hleft : ∀ k t, RoundBegins test body n s k t → rounds test body k t = .failed failure u →
      ∃ k t, RoundBegins test body n s (k + 1) t ∧
        (test t = .failed failure u ∨ ∃ v, test t = .done true v ∧ body v = .failed failure u) := by
    intro k
    induction k with
    | zero =>
        intro t _ h
        cases h
    | succ k ih =>
        intro t hround h
        unfold rounds at h
        split at h
        · next v htest =>
          split at h
          · next w hbody => exact ih w (hround.next htest hbody) h
          · next w hbody =>
            cases h
            exact ⟨k, t, hround, .inr ⟨v, htest, hbody⟩⟩
          · cases h
        · cases h
        · next w htest =>
          cases h
          exact ⟨k, t, hround, .inl htest⟩
        · cases h
  exact hleft n s .first h

theorem inScope_eq_failed {config : Config} {step : State → Result Unit} {s u : State}
    {failure : Failure} (h : inScope config step s = .failed failure u) :
    ∃ t, step (s.openScope config) = .failed failure t ∧ u = t.closeScope config := by
  unfold inScope at h
  split at h
  · cases h
  · next t hstep =>
    cases h
    exact ⟨t, hstep, rfl⟩
  · cases h

theorem evaluate_eq_failed_of_test {config : Config} {statement : Conditional} {condition : Expr}
    {s u : State} {failure : Failure}
    (h : test config statement condition s = .failed failure u) :
    eval config config.limit condition s = .failed failure u :=
  Result.eq_failed_of_andThen h fun _ _ => by simp

/-! ### Calls that fail -/

/-- The call ends with the failure. -/
def Call.FailsWith (config : Config) (failure : Failure) : Call → Prop
  | .evaluation n e s => ∃ t, eval config n e s = .failed failure t
  | .execution n stmt s => ∃ t, exec config n stmt s = .failed failure t

/-- The operands of the call are done, and its own step fails: the look-up of the name, the
assignment to it, or the application of the operator. -/
inductive Call.FailsAt (config : Config) (failure : Failure) : Call → Token → Prop where
  | lookUp {n : Nat} {name : Token} {s t : State} (h : s.read name = .failed failure t) :
      FailsAt config failure (.evaluation (n + 1) (.ref name) s) name
  | assignment {n : Nat} {name : Token} {value : Expr} {s t u : State} {v : Value}
      (hvalue : eval config n value s = .done v t) (h : t.assign name v = .failed failure u) :
      FailsAt config failure (.evaluation (n + 1) (.assign name value) s) name
  | unary {n : Nat} {op : Token} {operand : Expr} {s t : State} {v : Value}
      (hoperand : eval config n operand s = .done v t)
      (h : applyUnary config.truthiness op v = .error failure) :
      FailsAt config failure (.evaluation (n + 1) (.unary op operand) s) op
  | binary {n : Nat} {left right : Expr} {op : Token} {s t u : State} {a b : Value}
      (hleft : eval config n left s = .done a t) (hright : eval config n right t = .done b u)
      (h : applyBinary op a b = .error failure) :
      FailsAt config failure (.evaluation (n + 1) (.binary left op right) s) op

/-- A call that makes a failing call, the way in which that one fails. -/
def Call.FailsWithin (config : Config) (failure : Failure) (c : Call) : Prop :=
  ∃ c', c.Makes config c' ∧ c'.FailsWith config failure

section Calls

variable {config : Config} {failure : Failure} {n : Nat}

theorem eq_of_ofExcept {α : Type} {s t : State} {result : Except Failure α}
    (h : Result.ofExcept s result = .failed failure t) : result = .error failure := by
  cases result <;> cases h
  rfl

/-- **An evaluation that fails** lacks a level, fails at itself or fails in one of its parts. -/
theorem failsWith_cases_evaluation {e : Expr} (he : e.Meets .known) {s : State}
    (h : (Call.evaluation n e s).FailsWith config failure) :
    failure = .tooDeep ∨ (∃ token, (Call.evaluation n e s).FailsAt config failure token) ∨
      (Call.evaluation n e s).FailsWithin config failure := by
  obtain ⟨u, h⟩ := h
  cases n with
  | zero =>
      cases h
      exact .inl rfl
  | succ n =>
      refine .inr ?_
      cases e with
      | literal value =>
          obtain ⟨v, hv⟩ := isSome_ofLiteral? he
          simp [eval, hv] at h
      | group inner => exact .inr ⟨_, .group, u, h⟩
      | ref name => exact .inl ⟨name, .lookUp h⟩
      | assign name value =>
          rcases Result.andThen_eq_failed h with h | ⟨v, t, hvalue, h⟩
          · exact .inr ⟨_, .assign, u, h⟩
          · exact .inl ⟨name, .assignment hvalue (Result.eq_failed_of_andThen h fun _ _ => by simp)⟩
      | unary op operand =>
          rcases Result.andThen_eq_failed h with h | ⟨v, t, hoperand, h⟩
          · exact .inr ⟨_, .unary, u, h⟩
          · exact .inl ⟨op, .unary hoperand (eq_of_ofExcept h)⟩
      | binary left op right =>
          rcases Result.andThen_eq_failed h with h | ⟨a, t, hleft, h⟩
          · exact .inr ⟨_, .binaryLeft, u, h⟩
          · rcases Result.andThen_eq_failed h with h | ⟨b, v, hright, h⟩
            · exact .inr ⟨_, .binaryRight hleft, u, h⟩
            · exact .inl ⟨op, .binary hleft hright (eq_of_ofExcept h)⟩
      | logical left op right =>
          rcases Result.andThen_eq_failed h with h | ⟨a, t, hleft, h⟩
          · exact .inr ⟨_, .logicalLeft, u, h⟩
          · split at h
            · cases h
            · next hopen => exact .inr ⟨_, .logicalRight hleft (by simpa using hopen), u, h⟩
      | misplaced document => cases he

/-- **A statement that fails** fails in one of its parts. -/
theorem failsWithin_of_execution {stmt : Stmt} (hstmt : stmt.Meets .known) {s : State}
    (h : (Call.execution n stmt s).FailsWith config failure) :
    (Call.execution n stmt s).FailsWithin config failure := by
  obtain ⟨u, h⟩ := h
  cases n with
  | zero => cases h
  | succ n =>
      rw [exec_succ] at h
      replace h : effect config (exec config n) n stmt (s.begin config stmt) = .failed failure u :=
        Result.eq_failed_of_andThen h fun _ _ => by simp
      cases stmt with
      | expr value =>
          exact ⟨_, .expr, u, Result.eq_failed_of_andThen h fun _ _ => by simp⟩
      | print value =>
          exact ⟨_, .print, u, Result.eq_failed_of_andThen h fun _ _ => by simp⟩
      | declare name initial =>
          have hdeclare : name.Typed ∧
              (initialValue config initial (s.begin config (.declare name initial)) =
                .failed failure u →
              (Call.execution (n + 1) (.declare name initial) s).FailsWithin config failure) := by
            cases initial with
            | none => exact ⟨hstmt, fun h => by cases h⟩
            | some value => exact ⟨hstmt.1, fun h => ⟨_, .initial, u, h⟩⟩
          rcases Result.andThen_eq_failed h with h | ⟨v, t, -, h⟩
          · exact hdeclare.2 h
          · obtain ⟨key, hkey⟩ := exists_name hdeclare.1
            simp [State.define, hkey] at h
      | block body =>
          obtain ⟨t, h, -⟩ := inScope_eq_failed h
          obtain ⟨before, failing, after, v, rfl, hbefore, hfails⟩ := sequence_eq_failed h
          exact ⟨_, .block hbefore, t, hfails⟩
      | branch condition whenTrue whenFalse =>
          rcases Result.andThen_eq_failed h with h | ⟨holds, t, htest, h⟩
          · exact ⟨_, .branchTest, u, evaluate_eq_failed_of_test h⟩
          · cases holds with
            | true => exact ⟨_, .branchTrue htest, u, h⟩
            | false =>
                cases whenFalse with
                | none => cases h
                | some other => exact ⟨_, .branchFalse htest, u, h⟩
      | loop condition body =>
          obtain ⟨k, t, hround, h | ⟨v, htest, h⟩⟩ := rounds_eq_failed h
          · exact ⟨_, .loopTest hround, u, evaluate_eq_failed_of_test h⟩
          · exact ⟨_, .loopBody hround htest, u, h⟩
      | misplaced document _ => cases hstmt

end Calls

/-! ### What is demanded of a program -/

/-- The parts of the call's expression or statement are as demanded. -/
def Call.Meets (d : Demands) : Call → Prop
  | .evaluation _ e _ => e.Meets d
  | .execution _ stmt _ => stmt.Meets d

/-- What is demanded of a call is met by the calls that it makes. -/
theorem Call.Makes.meets {d : Demands} {config : Config} {c c' : Call} (h : c.Makes config c')
    (hc : c.Meets d) : c'.Meets d := by
  cases h with
  | group => exact hc
  | assign => exact hc.2
  | unary => exact hc.2
  | binaryLeft => exact hc.1
  | binaryRight => exact hc.2.2
  | logicalLeft => exact hc.1
  | logicalRight => exact hc.2.2
  | expr => exact hc
  | print => exact hc
  | initial => exact hc.2
  | block => exact allMeet_iff.1 hc _ (by simp)
  | @branchTest _ _ _ whenFalse => cases whenFalse <;> exact hc.1
  | @branchTrue _ _ _ whenFalse =>
      cases whenFalse with
      | none => exact hc.2
      | some whenFalse => exact hc.2.1
  | branchFalse => exact hc.2.2
  | loopTest => exact hc.1
  | loopBody => exact hc.2

/-- **What is demanded of a program holds of every part of it that a run comes to.** -/
theorem CallOf.meets {d : Demands} {config : Config} {fuel : Nat} {program : List Stmt} {s : State}
    {c : Call} (hprogram : allMeet d program) (h : CallOf config fuel program s c) :
    c.Meets d := by
  induction h with
  | top hsplit =>
      subst hsplit
      exact allMeet_iff.1 hprogram _ (by simp)
  | inner _ hmakes ih => exact hmakes.meets ih

/-- The operators and names of a tree have the property `p`. -/
def Demands.ofTokens (p : Token → Prop) : Demands where
  literal _ := True
  unary := p
  binary := p
  logical := p
  name := p

theorem Demands.ofTokens_metBy (p : Token → Prop) : (ofTokens p).MetBy p where
  null := trivial
  bool _ := trivial
  literal _ _ := trivial
  unary _ h _ := h
  binary _ h _ := h
  logical _ h _ := h
  name _ h _ := h

/-- The token that a call fails at is one of the tree. -/
theorem Call.FailsAt.token {config : Config} {failure : Failure} {c : Call} {token : Token}
    {p : Token → Prop} (h : c.FailsAt config failure token) (hc : c.Meets (.ofTokens p)) :
    p token := by
  cases h with
  | lookUp => exact hc
  | assignment => exact hc.1
  | unary => exact hc.1
  | binary => exact hc.2.1

/-! ### Runs that fail -/

/-- A failing call of a run leads to one that fails at itself, or that lacks a level. -/
theorem failsAt_of_callOf {config : Config} {fuel : Nat} {program : List Stmt} {s : State}
    {failure : Failure} (hprogram : allMeet .known program) {c : Call}
    (hcall : CallOf config fuel program s c) (h : c.FailsWith config failure) :
    failure = .tooDeep ∨
      ∃ c' token, CallOf config fuel program s c' ∧ c'.FailsAt config failure token := by
  -- Evaluations lose a level with each step down, statements a unit of fuel.
  have heval : ∀ n e s', CallOf config fuel program s (.evaluation n e s') →
      (Call.evaluation n e s').FailsWith config failure → failure = .tooDeep ∨
        ∃ c' token, CallOf config fuel program s c' ∧ c'.FailsAt config failure token := by
    intro n
    induction n with
    | zero =>
        rintro e s' - ⟨t, ht⟩
        cases ht
        exact .inl rfl
    | succ n ih =>
        intro e s' hcall h
        rcases failsWith_cases_evaluation (hcall.meets hprogram) h with
          hdeep | ⟨token, hat⟩ | ⟨c', hmakes, hfails⟩
        · exact .inl hdeep
        · exact .inr ⟨_, token, hcall, hat⟩
        · have hinner := hcall.inner hmakes
          cases hmakes <;> exact ih _ _ hinner hfails
  have hexec : ∀ n stmt s', CallOf config fuel program s (.execution n stmt s') →
      (Call.execution n stmt s').FailsWith config failure → failure = .tooDeep ∨
        ∃ c' token, CallOf config fuel program s c' ∧ c'.FailsAt config failure token := by
    intro n
    induction n with
    | zero =>
        rintro stmt s' - ⟨t, ht⟩
        cases ht
    | succ n ih =>
        intro stmt s' hcall h
        obtain ⟨c', hmakes, hfails⟩ := failsWithin_of_execution (hcall.meets hprogram) h
        have hinner := hcall.inner hmakes
        cases c' with
        | evaluation m e t => exact heval m e t hinner hfails
        | execution m part t => cases hmakes <;> exact ih _ _ hinner hfails
  cases c with
  | evaluation n e s' => exact heval n e s' hcall h
  | execution n stmt s' => exact hexec n stmt s' hcall h

/-- **Every failure of a program comes from a call that fails at itself**, the report of too much
nesting apart. -/
theorem failsAt_of_interpret {config : Config} {fuel : Nat} {program : List Stmt} {s u : State}
    {failure : Failure} (hprogram : allMeet .known program)
    (h : interpret config fuel program s = .failed failure u) :
    failure = .statementTooDeep ∨
      ∃ c token, CallOf config fuel program s c ∧ c.FailsAt config failure token := by
  obtain ⟨before, stmt, after, t, hsplit, hbefore, hfails⟩ := sequence_eq_failed h
  have hcall : CallOf config fuel program s (.execution fuel stmt t) := .top hsplit hbefore
  cases hexec : exec config fuel stmt t with
  | done value v =>
      rw [hexec] at hfails
      cases hfails
  | unfinished =>
      rw [hexec] at hfails
      cases hfails
  | failed inner v =>
      rw [hexec] at hfails
      rcases failsAt_of_callOf hprogram hcall ⟨v, hexec⟩ with rfl | ⟨c, token, hc, hat⟩
      · cases hfails
        exact .inl rfl
      · cases inner with
        | tooDeep =>
            cases hfails
            exact .inl rfl
        | _ =>
            cases hfails
            exact .inr ⟨c, token, hc, hat⟩

/-! ### The line of a failure -/

section Line

variable {config : Config} {failure : Failure}

theorem line_of_applyUnary {op : Token} {operand : Value}
    (h : applyUnary config.truthiness op operand = .error failure) {d : Diagnostic}
    (hd : failure.diagnostic? = some d) : d.line = op.line := by
  unfold applyUnary at h
  split at h <;> cases h <;> cases hd <;> rfl

theorem line_of_applyBinary {op : Token} {left right : Value}
    (h : applyBinary op left right = .error failure) {d : Diagnostic}
    (hd : failure.diagnostic? = some d) : d.line = op.line := by
  unfold applyBinary calculate at h
  repeat' split at h
  all_goals cases h
  all_goals
    cases hd
    rfl

/-- **The report of a call that fails at a token carries the line of that token.** -/
theorem Call.FailsAt.line_eq {c : Call} {token : Token} (h : c.FailsAt config failure token)
    {d : Diagnostic} (hd : failure.diagnostic? = some d) : d.line = token.line := by
  cases h with
  | lookUp h =>
      unfold State.read at h
      repeat' split at h
      all_goals cases h
      all_goals cases hd <;> rfl
  | assignment _ h =>
      unfold State.assign at h
      repeat' split at h
      all_goals cases h
      all_goals cases hd <;> rfl
  | unary _ h => exact line_of_applyUnary h hd
  | binary _ _ h => exact line_of_applyBinary h hd

/-- Calls with known operators fail with a report. -/
theorem Call.FailsAt.expected {c : Call} {token : Token} (h : c.FailsAt config failure token)
    (hc : c.Meets .known) : failure.Expected := by
  cases h with
  | @lookUp n name s t h =>
      obtain ⟨key, hkey⟩ := exists_name hc
      simp only [State.read, hkey] at h
      split at h <;> cases h
      exact ⟨_, rfl, .inl rfl⟩
  | @assignment n name value s t u v hvalue h =>
      obtain ⟨key, hkey⟩ := exists_name hc.1
      simp only [State.assign, hkey] at h
      split at h <;> cases h
      exact ⟨_, rfl, .inl rfl⟩
  | unary _ h => exact expected_of_applyUnary hc.1.2 h
  | binary _ _ h => exact expected_of_applyBinary hc.2.1.2 h

end Line

end ScriptLang
