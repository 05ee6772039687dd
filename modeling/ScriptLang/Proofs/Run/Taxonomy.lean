import ScriptLang.Proofs.Run.Values

/-!
# How programs from a source can fail

A program that comes from a source fails for want of a variable, for an operand of the wrong type or
for a division by zero, and in no other way; the nesting of its expressions apart, which a run may
have too few levels for. Whatever it evaluates is a number, a string, a boolean or `nil`, and so is
whatever its scopes hold.

## Main Definitions

* `Failure.Expected`: the failures with one of the three classes.
* `State.HoldsValues`: every variable holds a value.
* `Session.OfSources`: a session in which programs from sources have been run.

## Main Statements

* `satisfies_eval`, `satisfies_exec`: what expressions and statements with known operators do.
* `Call.Makes.fine`: such calls make only such calls.
* `run_fails_as_expected`: programs from a source cannot go wrong in any other way.
-/

namespace ScriptLang

/-! ### Expected failures -/

/-- The failure is reported, as one of the three classes that a program can bring about. -/
def Failure.Expected (failure : Failure) : Prop :=
  ∃ d, failure.diagnostic? = some d ∧
    (d.stage = .run "NameError" ∨ d.stage = .run "TypeError" ∨ d.stage = .run "ZeroDivisionError")

theorem expected_of_applyUnary {rule : Truthiness} {op : Token} {operand : Value}
    {failure : Failure} (hop : op.kind = .bang ∨ op.kind = .minus)
    (h : applyUnary rule op operand = .error failure) : failure.Expected := by
  unfold applyUnary at h
  split at h
  · cases h
  · cases h
    exact ⟨_, rfl, .inr (.inl rfl)⟩
  · cases h
  · next hminus hbang _ => exact (hop.elim hbang hminus).elim

theorem expected_of_calculate {kind : TokenKind} {line : Json} {x y : Float} {failure : Failure}
    (h : calculate kind line x y = .error failure) : failure.Expected := by
  unfold calculate at h
  repeat' split at h
  all_goals cases h
  exact ⟨_, rfl, .inr (.inr rfl)⟩

theorem expected_of_applyBinary {op : Token} {left right : Value} {failure : Failure}
    (hop : isArithmetic op.kind = true ∨ isComparison op.kind = true)
    (h : applyBinary op left right = .error failure) : failure.Expected := by
  unfold applyBinary at h
  split at h
  · split at h
    · exact expected_of_calculate h
    · cases h
      exact ⟨_, rfl, .inr (.inl rfl)⟩
  · next harithmetic =>
    split at h
    · split at h
      · cases h
      · cases h
        exact ⟨_, rfl, .inr (.inl rfl)⟩
    · next hcomparison => exact absurd hop (by simp [harithmetic, hcomparison])

/-- What operators yield is always a value. -/
theorem ofOperators_ne_unset : OfOperators (· ≠ .unset) :=
  ⟨by simp, by simp, by simp⟩

theorem ne_unset_of_ofLiteral? {literal : Json} {value : Value}
    (h : Value.ofLiteral? literal = some value) : value ≠ .unset := by
  cases literal <;> cases h <;> simp

theorem isSome_ofLiteral? {literal : Json} (h : literal.IsScalar) :
    ∃ value, Value.ofLiteral? literal = some value := by
  cases literal with
  | int n => cases h
  | arr items => cases h
  | obj fields => cases h
  | _ => exact ⟨_, rfl⟩

/-! ### What variables hold -/

/-- Every variable of the scope holds a value, not the absence of one. -/
def Bindings.HoldValues (bindings : Bindings) : Prop := ∀ entry ∈ bindings, entry.2 ≠ .unset

/-- Every variable in every scope holds a value, not the absence of one. -/
def State.HoldsValues (s : State) : Prop := ∀ i, (s.forest.bindings i).HoldValues

namespace State.HoldsValues

variable {s : State}

theorem holds (h : s.HoldsValues) : s.Holds (· ≠ .unset) := h

theorem initial : State.initial.HoldsValues :=
  State.Holds.initial (p := (· ≠ .unset))

theorem trace (h : s.HoldsValues) (config : Config) (event : Event) :
    (s.trace config event).HoldsValues :=
  h.holds.trace config event

theorem openScope (h : s.HoldsValues) (config : Config) : (s.openScope config).HoldsValues :=
  h.holds.openScope config

theorem closeScope (h : s.HoldsValues) (config : Config) : (s.closeScope config).HoldsValues :=
  h.holds.closeScope config

end State.HoldsValues

/-! ### Steps on the state -/

section Steps

variable {s : State} {name : Token}

theorem exists_name (h : name.Typed) : ∃ n, Name.ofLexeme? name.lexeme = some n := by
  obtain ⟨text, htext⟩ := h.lexeme
  exact ⟨_, by rw [htext, Name.ofLexeme?_str]⟩

theorem satisfies_read (hname : name.Typed) (hs : s.HoldsValues) :
    (s.read name).Satisfies (fun v t => v ≠ .unset ∧ t.HoldsValues)
      (fun failure t => failure.Expected ∧ t.HoldsValues) := by
  obtain ⟨n, hn⟩ := exists_name hname
  simp only [State.read, hn]
  cases hget : s.forest.get? s.current n with
  | none => exact ⟨⟨_, rfl, .inl rfl⟩, hs⟩
  | some value => exact ⟨hs.holds.get? hget, hs⟩

theorem satisfies_assign (hname : name.Typed) (hs : s.HoldsValues) {value : Value}
    (hvalue : value ≠ .unset) :
    (s.assign name value).Satisfies (fun _ t => t.HoldsValues)
      (fun failure t => failure.Expected ∧ t.HoldsValues) := by
  obtain ⟨n, hn⟩ := exists_name hname
  simp only [State.assign, hn]
  cases hassign : s.forest.assign? s.current n value with
  | none => exact ⟨⟨_, rfl, .inl rfl⟩, hs⟩
  | some forest => exact hs.holds.assign? hvalue hassign

theorem satisfies_define (hname : name.Typed) (hs : s.HoldsValues) {value : Value}
    (hvalue : value ≠ .unset) {failed : Failure → State → Prop} :
    (s.define name value).Satisfies (fun _ t => t.HoldsValues) failed := by
  obtain ⟨n, hn⟩ := exists_name hname
  simp only [State.define, hn]
  exact hs.holds.forest_define hvalue s.current n

end Steps

/-! ### Expressions -/

/-- Nothing goes wrong but as expected, or by nesting if there are fewer levels than are needed. -/
def Failure.Fits (levels needed : Nat) (failure : Failure) (t : State) : Prop :=
  (failure.Expected ∨ failure = .tooDeep ∧ levels < needed) ∧ t.HoldsValues

theorem Failure.Fits.mono {levels levels' needed needed' : Nat} {failure : Failure} {t : State}
    (h : failure.Fits levels needed t) (hle : levels < needed → levels' < needed') :
    failure.Fits levels' needed' t :=
  ⟨h.1.imp_right fun hdeep => ⟨hdeep.1, hle hdeep.2⟩, h.2⟩

/-- **An expression with known operators has a value, or fails as expected.** -/
theorem satisfies_eval (config : Config) (n : Nat) {e : Expr} (he : e.Meets .known) {s : State}
    (hs : s.HoldsValues) :
    (eval config n e s).Satisfies (fun v t => v ≠ .unset ∧ t.HoldsValues)
      (Failure.Fits n e.height) := by
  induction n generalizing e s with
  | zero => exact ⟨.inr ⟨rfl, by cases e <;> simp [Expr.height]⟩, hs⟩
  | succ n ih =>
      -- A part that lacks levels of its own lacks them in the whole.
      have hpart : ∀ {part : Expr} {t : State}, part.Meets .known → t.HoldsValues →
          part.height < e.height →
          (eval config n part t).Satisfies (fun v u => v ≠ .unset ∧ u.HoldsValues)
            (Failure.Fits (n + 1) e.height) := by
        intro part t hpart ht hheight
        refine (ih hpart ht).imp (fun _ _ h => h) ?_
        intro failure u h
        exact h.mono (by omega)
      have hexpected : ∀ {failure : Failure} {t : State}, failure.Expected ∧ t.HoldsValues →
          failure.Fits (n + 1) e.height t := fun h => ⟨.inl h.1, h.2⟩
      cases e with
      | literal value =>
          obtain ⟨v, hv⟩ := isSome_ofLiteral? he
          simp only [eval, hv]
          exact ⟨ne_unset_of_ofLiteral? hv, hs⟩
      | group inner => exact hpart he hs (by simp [Expr.height])
      | ref name => exact (satisfies_read he hs).imp (fun _ _ h => h) fun _ _ => hexpected
      | assign name value =>
          refine (hpart he.2 hs (by simp [Expr.height])).andThen ?_
          rintro v t ⟨hv, ht⟩
          have hassign := (satisfies_assign he.1 ht hv).imp (fun _ _ h => h) fun _ _ => hexpected
          refine hassign.andThen ?_
          intro _ u hu
          exact ⟨by simp, hu.trace config _⟩
      | unary op operand =>
          refine (hpart he.2 hs (by simp [Expr.height])).andThen ?_
          rintro v t ⟨-, ht⟩
          cases happly : applyUnary config.truthiness op v with
          | ok value => exact ⟨of_applyUnary ofOperators_ne_unset happly, ht⟩
          | error failure => exact hexpected ⟨expected_of_applyUnary he.1.2 happly, ht⟩
      | binary left op right =>
          refine (hpart he.1 hs (by simp [Expr.height])).andThen ?_
          rintro a t ⟨-, ht⟩
          refine (hpart he.2.2 ht (by simp [Expr.height])).andThen ?_
          rintro b u ⟨-, hu⟩
          cases happly : applyBinary op a b with
          | ok value => exact ⟨of_applyBinary ofOperators_ne_unset happly, hu⟩
          | error failure => exact hexpected ⟨expected_of_applyBinary he.2.1.2 happly, hu⟩
      | logical left op right =>
          refine (hpart he.1 hs (by simp [Expr.height])).andThen ?_
          rintro a t ⟨ha, ht⟩
          split
          · exact ⟨ha, ht⟩
          · exact hpart he.2.2 ht (by simp [Expr.height])
      | misplaced document => cases he

/-- Evaluation always ends: with a value, or with a failure. -/
theorem eval_ne_unfinished (config : Config) (n : Nat) (e : Expr) (s : State) :
    eval config n e s ≠ .unfinished := by
  induction n generalizing e s with
  | zero => simp
  | succ n ih =>
      have hthen : ∀ {part : Expr} {t : State} {next : Value → State → Result Value},
          (∀ v u, next v u ≠ .unfinished) → (eval config n part t).andThen next ≠ .unfinished := by
        intro part t next hnext
        cases hpart : eval config n part t with
        | done v u => exact hnext v u
        | failed failure u => simp
        | unfinished => exact absurd hpart (ih part t)
      cases e with
      | literal value =>
          rw [eval]
          split <;> simp
      | group inner => exact ih inner s
      | ref name =>
          rw [eval, State.read]
          repeat' split
          all_goals simp
      | assign name value =>
          refine hthen fun v t => ?_
          rw [State.assign]
          repeat' split
          all_goals simp
      | unary op operand =>
          refine hthen fun v t => ?_
          cases applyUnary config.truthiness op v <;> simp [Result.ofExcept]
      | binary left op right =>
          refine hthen fun a t => hthen fun b u => ?_
          cases applyBinary op a b <;> simp [Result.ofExcept]
      | logical left op right =>
          refine hthen fun a t => ?_
          split
          · simp
          · exact ih right t
      | misplaced document => simp [eval]

/-! ### Statements -/

theorem satisfies_test (config : Config) (statement : Conditional) {condition : Expr}
    (hcondition : condition.Meets .known) {s : State} (hs : s.HoldsValues) :
    (test config statement condition s).Satisfies (fun _ t => t.HoldsValues)
      (Failure.Fits config.limit condition.height) := by
  refine (satisfies_eval config config.limit hcondition hs).andThen ?_
  rintro v t ⟨-, ht⟩
  exact ht.trace config _

/-- What a statement with known operators does, its parts being run so. -/
theorem satisfies_effect (config : Config) (n : Nat) {run : Stmt → State → Result Unit}
    (hrun : ∀ {stmt : Stmt} {s : State}, stmt.Meets .known → s.HoldsValues →
      (run stmt s).Satisfies (fun _ t => t.HoldsValues) (Failure.Fits config.limit stmt.height))
    {stmt : Stmt} (hstmt : stmt.Meets .known) {s : State} (hs : s.HoldsValues) :
    (effect config run n stmt s).Satisfies (fun _ t => t.HoldsValues)
      (Failure.Fits config.limit stmt.height) := by
  have hpart : ∀ {part : Stmt} {t : State}, part.Meets .known → t.HoldsValues →
      part.height < stmt.height →
      (run part t).Satisfies (fun _ u => u.HoldsValues)
        (Failure.Fits config.limit stmt.height) := by
    intro part t hpart ht hheight
    refine (hrun hpart ht).imp (fun _ _ h => h) ?_
    intro failure u h
    exact h.mono (by omega)
  have heval : ∀ {e : Expr} {t : State}, e.Meets .known → t.HoldsValues → e.height < stmt.height →
      (evaluate config e t).Satisfies (fun v u => v ≠ .unset ∧ u.HoldsValues)
        (Failure.Fits config.limit stmt.height) := by
    intro e t he ht hheight
    refine (satisfies_eval config config.limit he ht).imp (fun _ _ h => h) ?_
    intro failure u h
    exact h.mono (by omega)
  have htest : ∀ (statement : Conditional) {condition : Expr} {t : State},
      condition.Meets .known → t.HoldsValues → condition.height < stmt.height →
      (test config statement condition t).Satisfies (fun _ u => u.HoldsValues)
        (Failure.Fits config.limit stmt.height) := by
    intro statement condition t hcondition ht hheight
    refine (satisfies_test config statement hcondition ht).imp (fun _ _ h => h) ?_
    intro failure u h
    exact h.mono (by omega)
  cases stmt with
  | expr value =>
      refine (heval hstmt hs (by simp [Stmt.height])).andThen ?_
      rintro v t ⟨-, ht⟩
      exact ht
  | print value =>
      refine (heval hstmt hs (by simp [Stmt.height])).andThen ?_
      rintro v t ⟨-, ht⟩
      exact ht
  | declare name initial =>
      have hdeclare : name.Typed ∧
          (initialValue config initial s).Satisfies (fun v u => v ≠ .unset ∧ u.HoldsValues)
            (Failure.Fits config.limit (Stmt.declare name initial).height) := by
        cases initial with
        | none => exact ⟨hstmt, by simp, hs⟩
        | some value => exact ⟨hstmt.1, heval hstmt.2 hs (by simp [Stmt.height])⟩
      refine hdeclare.2.andThen ?_
      rintro v t ⟨hv, ht⟩
      refine (satisfies_define hdeclare.1 ht hv).andThen ?_
      intro _ u hu
      exact hu.trace config _
  | block body =>
      apply satisfies_inScope
      have hbody : (sequence run body (s.openScope config)).Satisfies (fun _ t => t.HoldsValues)
          (Failure.Fits config.limit (Stmt.block body).height) := by
        refine satisfies_sequence ?_ (hs.openScope config)
        intro part hmem t ht
        refine hpart (allMeet_iff.1 hstmt part hmem) ht ?_
        exact Nat.lt_succ_of_le (height_le_of_mem hmem)
      refine hbody.imp ?_ ?_
      · intro _ t ht
        exact ht.closeScope config
      · intro failure t h
        exact ⟨h.1, h.2.closeScope config⟩
  | branch condition whenTrue whenFalse =>
      refine (htest .branch ?_ hs ?_).andThen ?_
      · cases whenFalse <;> exact hstmt.1
      · cases whenFalse <;> simp [Stmt.height]
      · intro holds t ht
        cases whenFalse with
        | none =>
            cases holds with
            | true => exact hpart hstmt.2 ht (by simp [Stmt.height])
            | false => exact ht
        | some whenFalse =>
            cases holds with
            | true => exact hpart hstmt.2.1 ht (by simp [Stmt.height])
            | false => exact hpart hstmt.2.2 ht (by simp [Stmt.height])
  | loop condition body =>
      refine satisfies_rounds ?_ ?_ n hs
      · intro t ht
        exact htest .loop hstmt.1 ht (by simp [Stmt.height])
      · intro t ht
        exact hpart hstmt.2 ht (by simp [Stmt.height])
  | misplaced document _ => cases hstmt

/-- **A statement with known operators is done, fails as expected, or goes on for ever.** -/
theorem satisfies_exec (config : Config) (n : Nat) {stmt : Stmt} (hstmt : stmt.Meets .known)
    {s : State} (hs : s.HoldsValues) :
    (exec config n stmt s).Satisfies (fun _ t => t.HoldsValues)
      (Failure.Fits config.limit stmt.height) := by
  induction n generalizing stmt s with
  | zero => trivial
  | succ n ih =>
      refine (satisfies_effect config n (fun h ht => ih h ht) hstmt (hs.trace config _)).andThen ?_
      intro _ t ht
      exact ht.trace config _

/-! ### Calls -/

/-- The call is of an expression or a statement with known operators, and every variable holds a
value. -/
def Call.Fine : Call → Prop
  | .evaluation _ e s => e.Meets .known ∧ s.HoldsValues
  | .execution _ stmt s => stmt.Meets .known ∧ s.HoldsValues

/-- Every round of a loop begins with variables that hold values. -/
theorem RoundBegins.holdsValues {config : Config} {n m k : Nat} {condition : Expr} {body : Stmt}
    {s t : State} (hcondition : condition.Meets .known) (hbody : body.Meets .known)
    (hs : s.HoldsValues)
    (h : RoundBegins (test config .loop condition) (exec config n body) m s k t) :
    t.HoldsValues := by
  induction h with
  | first => exact hs
  | next _ htest hdone ih =>
      have hafter := (satisfies_test config .loop hcondition ih).of_done htest
      exact (satisfies_exec config n hbody hafter).of_done hdone

/-- **Calls with known operators make only such calls.** -/
theorem Call.Makes.fine {config : Config} {c c' : Call} (h : c.Makes config c') (hc : c.Fine) :
    c'.Fine := by
  cases h with
  | group => exact hc
  | assign => exact ⟨hc.1.2, hc.2⟩
  | unary => exact ⟨hc.1.2, hc.2⟩
  | binaryLeft => exact ⟨hc.1.1, hc.2⟩
  | binaryRight hleft =>
      exact ⟨hc.1.2.2, ((satisfies_eval config _ hc.1.1 hc.2).of_done hleft).2⟩
  | logicalLeft => exact ⟨hc.1.1, hc.2⟩
  | logicalRight hleft _ =>
      exact ⟨hc.1.2.2, ((satisfies_eval config _ hc.1.1 hc.2).of_done hleft).2⟩
  | expr => exact ⟨hc.1, hc.2.trace config _⟩
  | print => exact ⟨hc.1, hc.2.trace config _⟩
  | initial => exact ⟨hc.1.2, hc.2.trace config _⟩
  | @block n before after stmt s t hbefore =>
      have hbody := allMeet_iff.1 hc.1
      refine ⟨hbody stmt (by simp), ?_⟩
      have hsequence : (sequence (exec config n) before
          ((s.begin config (.block (before ++ stmt :: after))).openScope config)).Satisfies
            (fun _ t => t.HoldsValues) (fun _ _ => True) := by
        refine satisfies_sequence ?_ ((hc.2.trace config _).openScope config)
        intro part hmem t ht
        have hpart := satisfies_exec config n (hbody part (by simp [hmem])) ht
        exact hpart.imp (fun _ _ h => h) fun _ _ _ => trivial
      exact hsequence.of_done hbefore
  | @branchTest _ _ _ whenFalse => cases whenFalse <;> exact ⟨hc.1.1, hc.2.trace config _⟩
  | @branchTrue _ _ _ whenFalse _ _ htest =>
      cases whenFalse with
      | none =>
          refine ⟨hc.1.2, ?_⟩
          exact (satisfies_test config .branch hc.1.1 (hc.2.trace config _)).of_done htest
      | some whenFalse =>
          refine ⟨hc.1.2.1, ?_⟩
          exact (satisfies_test config .branch hc.1.1 (hc.2.trace config _)).of_done htest
  | branchFalse htest =>
      refine ⟨hc.1.2.2, ?_⟩
      exact (satisfies_test config .branch hc.1.1 (hc.2.trace config _)).of_done htest
  | loopTest hround =>
      exact ⟨hc.1.1, hround.holdsValues hc.1.1 hc.1.2 (hc.2.trace config _)⟩
  | loopBody hround htest =>
      have hbegin := hround.holdsValues hc.1.1 hc.1.2 (hc.2.trace config _)
      exact ⟨hc.1.2, (satisfies_test config .loop hc.1.1 hbegin).of_done htest⟩

/-! ### Programs -/

theorem satisfies_interpret (config : Config) (fuel : Nat) {program : List Stmt}
    (hprogram : allMeet .known program) {s : State} (hs : s.HoldsValues) :
    (interpret config fuel program s).Satisfies (fun _ t => t.HoldsValues)
      (fun failure t => (failure.Expected ∨
        failure = .statementTooDeep ∧ config.limit < heightOfAll program) ∧ t.HoldsValues) := by
  refine satisfies_sequence ?_ hs
  intro stmt hmem t ht
  have hexec := satisfies_exec config fuel (allMeet_iff.1 hprogram stmt hmem) ht
  have hheight := height_le_of_mem hmem
  cases hresult : exec config fuel stmt t with
  | done _ u => exact hexec.of_done hresult
  | unfinished => trivial
  | failed failure u =>
      rw [hresult] at hexec
      obtain ⟨hfailure, hu⟩ := hexec
      cases failure with
      | tooDeep =>
          refine ⟨.inr ⟨rfl, ?_⟩, hu⟩
          rcases hfailure with ⟨d, hd, -⟩ | ⟨-, hlt⟩
          · cases hd
          · omega
      | _ => exact ⟨.inl (hfailure.resolve_right (by simp)), hu⟩

theorem CallOf.fine {config : Config} {fuel : Nat} {program : List Stmt} {s : State} {c : Call}
    (hprogram : allMeet .known program) (hs : s.HoldsValues)
    (h : CallOf config fuel program s c) : c.Fine := by
  induction h with
  | top hsplit hbefore =>
      subst hsplit
      have hall := allMeet_iff.1 hprogram
      refine ⟨hall _ (by simp), ?_⟩
      refine (satisfies_interpret config fuel (allMeet_iff.2 ?_) hs).of_done hbefore
      intro stmt hmem
      exact hall stmt (by simp [hmem])
  | inner _ hmakes ih => exact hmakes.fine ih

/-! ### Sessions -/

/-- A session in which programs from sources have been run, one after the other, since it was
fresh. -/
inductive Session.OfSources : Session → Prop where
  | fresh (config : Config) (sink : Sink) (contents : Option String) :
      OfSources (Session.fresh config sink contents)
  | run {session : Session} {program : List Stmt} (h : OfSources session)
      (hprogram : FromSource program) (fuel : Nat) : OfSources (session.run fuel program).1

theorem Session.state_run (session : Session) (fuel : Nat) (program : List Stmt) :
    (session.run fuel program).1.state.forest =
      match ScriptLang.interpret session.config fuel program session.state with
      | .done _ t => t.forest
      | .failed _ t => t.forest
      | .unfinished => session.state.forest := by
  simp only [Session.run, Session.interpret, Session.close]
  cases ScriptLang.interpret session.config fuel program session.state <;> rfl

theorem holdsValues_run {session : Session} {program : List Stmt} (hprogram : FromSource program)
    (fuel : Nat) (hs : session.state.HoldsValues) :
    (session.run fuel program).1.state.HoldsValues := by
  have hrun := satisfies_interpret session.config fuel hprogram.known hs
  intro i
  rw [Session.state_run]
  cases hresult : interpret session.config fuel program session.state with
  | done _ t => exact hrun.of_done hresult i
  | failed failure t =>
      rw [hresult] at hrun
      exact hrun.2 i
  | unfinished => exact hs i

theorem Session.OfSources.holdsValues {session : Session} (h : session.OfSources) :
    session.state.HoldsValues := by
  induction h with
  | fresh config sink contents => exact .initial
  | run _ hprogram fuel ih => exact holdsValues_run hprogram fuel ih

/-- How a run of a session ends is how the run of its program ends. -/
theorem Session.ending_eq (session : Session) (fuel : Nat) (program : List Stmt) :
    (session.run fuel program).2 =
      match ScriptLang.interpret session.config fuel program session.state with
      | .done _ _ => .completed
      | .failed failure _ => .failed failure
      | .unfinished => .unfinished := by
  simp only [Session.run, Session.interpret]
  cases ScriptLang.interpret session.config fuel program session.state <;> rfl

theorem Session.ending_run {session : Session} {fuel : Nat} {program : List Stmt}
    {failure : Failure} (h : (session.run fuel program).2 = .failed failure) :
    ∃ t, ScriptLang.interpret session.config fuel program session.state = .failed failure t := by
  rw [Session.ending_eq] at h
  split at h
  · cases h
  · next t hrun =>
    cases h
    exact ⟨t, hrun⟩
  · cases h

/-- **Programs from a source cannot go wrong in any other way.** A run ends normally or with a
failure of one of the three classes; only where an expression is nested more deeply than the limit
may it be the nesting that is reported. Every expression that the run comes to evaluates to a value
or fails so, and at every point of the run every variable holds a value. -/
theorem run_fails_as_expected {session : Session} (hsession : session.OfSources)
    {program : List Stmt} (hprogram : FromSource program) (fuel : Nat) :
    (∀ failure, (session.run fuel program).2 = .failed failure →
      failure.Expected ∨
        failure = .statementTooDeep ∧ session.config.limit < heightOfAll program) ∧
    (∀ n e s, CallOf session.config fuel program session.state (.evaluation n e s) →
      s.HoldsValues ∧ ∃ t, t.HoldsValues ∧
        ((∃ value, eval session.config n e s = .done value t ∧ value ≠ .unset) ∨
          ∃ failure, eval session.config n e s = .failed failure t ∧
            (failure.Expected ∨ failure = .tooDeep ∧ n < e.height))) ∧
    (∀ n stmt s, CallOf session.config fuel program session.state (.execution n stmt s) →
      s.HoldsValues ∧
        (exec session.config n stmt s = .unfinished ∨ ∃ t, t.HoldsValues ∧
          (exec session.config n stmt s = .done () t ∨
            ∃ failure, exec session.config n stmt s = .failed failure t ∧
              (failure.Expected ∨
                failure = .tooDeep ∧ session.config.limit < stmt.height)))) ∧
    (session.run fuel program).1.state.HoldsValues := by
  have hvalues := hsession.holdsValues
  have hknown := hprogram.known
  refine ⟨?_, ?_, ?_, holdsValues_run hprogram fuel hvalues⟩
  · intro failure h
    obtain ⟨t, hresult⟩ := Session.ending_run h
    have hrun := satisfies_interpret session.config fuel hknown hvalues
    rw [hresult] at hrun
    exact hrun.1
  · intro n e s hcall
    obtain ⟨he, hs⟩ := hcall.fine hknown hvalues
    have heval := satisfies_eval session.config n he hs
    refine ⟨hs, ?_⟩
    cases hresult : eval session.config n e s with
    | done value t =>
        rw [hresult] at heval
        exact ⟨t, heval.2, .inl ⟨value, rfl, heval.1⟩⟩
    | failed failure t =>
        rw [hresult] at heval
        exact ⟨t, heval.2, .inr ⟨failure, rfl, heval.1⟩⟩
    | unfinished => exact absurd hresult (eval_ne_unfinished session.config n e s)
  · intro n stmt s hcall
    obtain ⟨hstmt, hs⟩ := hcall.fine hknown hvalues
    have hexec := satisfies_exec session.config n hstmt hs
    refine ⟨hs, ?_⟩
    cases hresult : exec session.config n stmt s with
    | done value t =>
        rw [hresult] at hexec
        exact .inr ⟨t, hexec, .inl rfl⟩
    | failed failure t =>
        rw [hresult] at hexec
        exact .inr ⟨t, hexec.2, .inr ⟨failure, rfl, hexec.1⟩⟩
    | unfinished => exact .inl rfl

/-- A source whose second statement fails, in a block that has declared and assigned before. -/
def negatedTextSource : String :=
  "var a;\n\x7b var b = a or \"x\"; a = b; print -a; \x7d"

/-- The program that it is. -/
def negatedTextProgram : List Stmt :=
  let word (kind : TokenKind) (text : String) (line : Int) : Token :=
    { kind, lexeme := .str text, line := .int line }
  [.declare (word .identifier "a" 1) none,
    .block
      [.declare (word .identifier "b" 2) (some (.logical (.ref (word .identifier "a" 2))
          (word .orWord "or" 2) (.literal (.str "x")))),
        .expr (.assign (word .identifier "a" 2) (.ref (word .identifier "b" 2))),
        .print (.unary (word .minus "-" 2) (.ref (word .identifier "a" 2)))]]

/-- The run of the program fails as expected, and its variables hold values afterwards. -/
theorem run_fails_as_expected_negatedText :
    programOf 9 negatedTextSource = .ok { program := negatedTextProgram, recovered := none } ∧
      ∃ session failure,
        (Session.fresh { limit := 9 } .file none).run 9 negatedTextProgram =
          (session, .failed failure) ∧
        failure.Expected ∧ session.state.HoldsValues := by
  have hload : programOf 9 negatedTextSource =
      .ok { program := negatedTextProgram, recovered := none } := by
    cbv
  have hfails : ((Session.fresh { limit := 9 } .file none).run 9 negatedTextProgram).2 =
      .failed (.notANumber (.str "x") (.int 2)) := by
    cbv
  have hrun := run_fails_as_expected (.fresh { limit := 9 } .file none) (.parser hload) 9
  refine ⟨hload, _, _, Prod.ext rfl hfails, (hrun.1 _ hfails).resolve_right ?_, hrun.2.2.2⟩
  rintro ⟨h, -⟩
  cases h

end ScriptLang
