import ScriptLang.Proofs.Scope.Watch

/-!
# Unbound variables

What a look-up finds in the state in which it is made, and what becomes of a run in which one finds
nothing. A run fails for want of a variable if and only if it makes a look-up that finds no scope.

## Main Definitions

* `Lookup.Finds`: the look-up finds the scope so many scopes out, or none.
* `Lookup.failures`: how a look-up that finds none fails.
* `Watched.Faithful`: the notes of a step say whether it fails for want of a variable.

## Main Statements

* `faithful_watchInterpret`: the notes of a run do.

## Design Notes

A look-up is judged both as a read and as an assignment of any value, so that one notion serves both
kinds of occurrences.
-/

namespace ScriptLang

/-! ### What a look-up finds -/

/-- The look-up finds the scope `d` scopes out of the innermost open one: it reads what that scope
binds the name to, and assigns there. With no `d` it finds no scope: reading and assigning fail and
leave the state as it is. -/
def Lookup.Finds (lookup : Lookup) : Option Nat → Prop
  | some d =>
    ∃ name scope value, Name.ofLexeme? lookup.name.lexeme = some name ∧
      lookup.state.stack[d]? = some scope ∧
      lookup.state.forest.holder? lookup.state.current name = some scope ∧
      lookup.state.forest.own? scope name = some value ∧
      lookup.state.read lookup.name = .done value lookup.state ∧
      ∀ v, lookup.state.assign lookup.name v =
        .done () { lookup.state with forest := lookup.state.forest.define scope name v }
  | none =>
    match Name.ofLexeme? lookup.name.lexeme with
    | none =>
      lookup.state.read lookup.name = .failed .noName lookup.state ∧
        ∀ v, lookup.state.assign lookup.name v = .failed .noName lookup.state
    | some _ =>
      lookup.state.read lookup.name =
          .failed (.undefined lookup.name.lexeme lookup.name.line) lookup.state ∧
        ∀ v, lookup.state.assign lookup.name v =
          .failed (.unassignable lookup.name.lexeme lookup.name.line) lookup.state

theorem Forest.holder?_eq_none_of_get? {f : Forest} {i : Nat} {name : Name}
    (h : f.get? i name = none) : f.holder? i name = none := by
  cases hholder : f.holder? i name with
  | none => rfl
  | some scope =>
      have hhas := List.find?_some hholder
      simp only [get?, hholder] at h
      rw [show f.own? scope name = none from h] at hhas
      cases hhas

theorem Forest.holder?_eq_none_of_assign? {f : Forest} {i : Nat} {name : Name} {value : Value}
    (h : f.assign? i name value = none) : f.holder? i name = none := by
  cases hholder : f.holder? i name with
  | none => rfl
  | some scope => simp [assign?, hholder] at h

theorem Lookup.finds_none {lookup : Lookup} {name : Name}
    (hname : Name.ofLexeme? lookup.name.lexeme = some name)
    (hholder : lookup.state.forest.holder? lookup.state.current name = none) :
    lookup.Finds none := by
  have hget : lookup.state.forest.get? lookup.state.current name = none := by
    simp [Forest.get?, hholder]
  have hassign : ∀ v, lookup.state.forest.assign? lookup.state.current name v = none := by
    simp [Forest.assign?, hholder]
  simp [Finds, State.read, State.assign, hname, hget, hassign]

theorem Lookup.finds_some {lookup : Lookup} {name : Name} {d scope : Nat}
    (hname : Name.ofLexeme? lookup.name.lexeme = some name)
    (hstack : lookup.state.stack[d]? = some scope)
    (hholder : lookup.state.forest.holder? lookup.state.current name = some scope) :
    lookup.Finds (some d) := by
  have hhas : (lookup.state.forest.own? scope name).isSome := by
    simpa using List.find?_some hholder
  obtain ⟨value, hvalue⟩ := Option.isSome_iff_exists.1 hhas
  have hget : lookup.state.forest.get? lookup.state.current name = some value := by
    simp [Forest.get?, hholder, hvalue]
  have hassign : ∀ v, lookup.state.forest.assign? lookup.state.current name v =
      some (lookup.state.forest.define scope name v) := by
    simp [Forest.assign?, hholder]
  refine ⟨name, scope, value, hname, hstack, hholder, hvalue, ?_, ?_⟩
  · simp [State.read, hname, hget]
  · intro v
    simp [State.assign, hname, hassign]

/-- A look-up that finds no scope finds none in any other way. -/
theorem Lookup.Finds.eq_none {lookup : Lookup} {d : Option Nat} (h : lookup.Finds d)
    (hnone : lookup.Finds none) : d = none := by
  cases d with
  | none => rfl
  | some d =>
      obtain ⟨name, scope, value, hname, -, -, -, hread, -⟩ := h
      simp [Finds, hname, hread] at hnone

/-! ### Unbound variables -/

/-- The failure says that no scope has a variable. -/
def Failure.isUnbound : Failure → Bool
  | .undefined _ _ => true
  | .unassignable _ _ => true
  | _ => false

theorem isUnbound_of_applyUnary {rule : Truthiness} {op : Token} {operand : Value}
    {failure : Failure} (h : applyUnary rule op operand = .error failure) :
    failure.isUnbound = false := by
  unfold applyUnary at h
  split at h <;> cases h <;> rfl

theorem isUnbound_of_applyBinary {op : Token} {left right : Value} {failure : Failure}
    (h : applyBinary op left right = .error failure) : failure.isUnbound = false := by
  unfold applyBinary calculate at h
  repeat' split at h
  all_goals cases h
  all_goals rfl

/-- The ways in which a look-up fails that finds no scope. -/
def Lookup.failures (lookup : Lookup) : List Failure :=
  match Name.ofLexeme? lookup.name.lexeme with
  | none => [.noName]
  | some _ =>
    [.undefined lookup.name.lexeme lookup.name.line,
      .unassignable lookup.name.lexeme lookup.name.line]

namespace Watched

variable {α β : Type}

/-- The step fails for want of a variable if and only if a look-up is noted that finds no scope. -/
structure Faithful (w : Watched α) : Prop where
  of_unbound : ∀ failure s, w.result = .failed failure s → failure.isUnbound = true →
    ∃ lookup ∈ w.seen, lookup.Finds none ∧ failure ∈ lookup.failures
  of_finds : ∀ lookup ∈ w.seen, lookup.Finds none →
    ∃ failure ∈ lookup.failures, ∃ s, w.result = .failed failure s

theorem faithful_quiet {result : Result α}
    (h : ∀ failure s, result = .failed failure s → failure.isUnbound = false) :
    (quiet result).Faithful where
  of_unbound failure s hfailed hunbound := absurd hunbound (by simp [h failure s hfailed])
  of_finds _ hmem := absurd hmem List.not_mem_nil

theorem faithful_done (value : α) (s : State) : (quiet (.done value s)).Faithful :=
  faithful_quiet fun _ _ hfailed => nomatch hfailed

theorem faithful_ofExcept {s : State} {outcome : Except Failure α}
    (h : ∀ failure, outcome = .error failure → failure.isUnbound = false) :
    (quiet (.ofExcept s outcome)).Faithful := by
  apply faithful_quiet
  intro failure t hfailed
  cases outcome with
  | ok value => cases hfailed
  | error _ =>
      cases hfailed
      exact h failure rfl

namespace Faithful

variable {w : Watched α}

theorem within (h : w.Faithful) (i : Nat) : (w.within i).Faithful where
  of_unbound := by
    intro failure s hfailed hunbound
    obtain ⟨lookup, hmem, hfinds⟩ := h.of_unbound failure s hfailed hunbound
    exact ⟨lookup.within i, List.mem_map_of_mem hmem, hfinds⟩
  of_finds := by
    intro lookup hmem hfinds
    obtain ⟨inner, hinner, rfl⟩ := List.mem_map.1 hmem
    exact h.of_finds inner hinner hfinds

theorem andThen {next : α → State → Watched β} (h : w.Faithful)
    (hnext : ∀ value s, (next value s).Faithful) : (w.andThen next).Faithful := by
  cases hresult : w.result with
  | done value s =>
      have hnext := hnext value s
      have heq : w.andThen next =
          { next value s with seen := w.seen ++ (next value s).seen } := by
        rw [Watched.andThen, hresult]
      rw [heq]
      constructor
      · intro failure t hfailed hunbound
        obtain ⟨lookup, hmem, hfinds⟩ := hnext.of_unbound failure t hfailed hunbound
        exact ⟨lookup, List.mem_append_right _ hmem, hfinds⟩
      · intro lookup hmem hfinds
        rcases List.mem_append.1 hmem with hmem | hmem
        -- The first step is done, so none of its look-ups has found nothing.
        · obtain ⟨failure, -, t, hfailed⟩ := h.of_finds lookup hmem hfinds
          exact nomatch hresult.symm.trans hfailed
        · exact hnext.of_finds lookup hmem hfinds
  | failed failure s =>
      have heq : w.andThen next = { seen := w.seen, result := .failed failure s } := by
        rw [Watched.andThen, hresult]
      rw [heq]
      constructor
      · intro _ _ hfailed hunbound
        cases hfailed
        exact h.of_unbound failure s hresult hunbound
      · intro lookup hmem hfinds
        obtain ⟨_, hmem, t, hfailed⟩ := h.of_finds lookup hmem hfinds
        cases hresult.symm.trans hfailed
        exact ⟨failure, hmem, s, rfl⟩
  | unfinished =>
      have heq : w.andThen next = { seen := w.seen, result := .unfinished } := by
        rw [Watched.andThen, hresult]
      rw [heq]
      constructor
      · intro _ _ hfailed
        cases hfailed
      · intro lookup hmem hfinds
        obtain ⟨failure, -, t, hfailed⟩ := h.of_finds lookup hmem hfinds
        exact nomatch hresult.symm.trans hfailed

end Faithful

end Watched

/-! ### Runs -/

open Watched

/-- One look-up, which fails for want of a variable if and only if it finds no scope. -/
theorem faithful_singleton {α : Type} {lookup : Lookup} {result : Result α}
    (hunbound : ∀ failure s, result = .failed failure s → failure.isUnbound = true →
      lookup.Finds none ∧ failure ∈ lookup.failures)
    (hfinds : lookup.Finds none → ∃ failure ∈ lookup.failures, ∃ s, result = .failed failure s) :
    ({ seen := [lookup], result } : Watched α).Faithful where
  of_unbound failure s hfailed h :=
    ⟨lookup, List.mem_singleton_self lookup, hunbound failure s hfailed h⟩
  of_finds := by
    intro other hmem hother
    obtain rfl := List.mem_singleton.1 hmem
    exact hfinds hother

theorem faithful_watchRead (s : State) (name : Token) : (watchRead s name).Faithful := by
  refine faithful_singleton ?_ ?_
  · intro failure t hfailed hunbound
    unfold State.read at hfailed
    split at hfailed
    · cases hfailed
      cases hunbound
    · rename_i key hkey
      split at hfailed
      · cases hfailed
      · rename_i hget
        cases hfailed
        exact ⟨Lookup.finds_none hkey (Forest.holder?_eq_none_of_get? hget),
          by simp [Lookup.failures, hkey]⟩
  · intro hfinds
    cases hkey : Name.ofLexeme? name.lexeme with
    | none => exact ⟨.noName, by simp [Lookup.failures, hkey], s, by simp [State.read, hkey]⟩
    | some key =>
        simp only [Lookup.Finds, hkey] at hfinds
        exact ⟨_, by simp [Lookup.failures, hkey], s, hfinds.1⟩

theorem faithful_watchAssign (s : State) (name : Token) (value : Value) :
    (watchAssign s name value).Faithful := by
  refine faithful_singleton ?_ ?_
  · intro failure t hfailed hunbound
    unfold State.assign at hfailed
    split at hfailed
    · cases hfailed
      cases hunbound
    · rename_i key hkey
      split at hfailed
      · cases hfailed
      · rename_i hassign
        cases hfailed
        exact ⟨Lookup.finds_none hkey (Forest.holder?_eq_none_of_assign? hassign),
          by simp [Lookup.failures, hkey]⟩
  · intro hfinds
    cases hkey : Name.ofLexeme? name.lexeme with
    | none => exact ⟨.noName, by simp [Lookup.failures, hkey], s, by simp [State.assign, hkey]⟩
    | some key =>
        simp only [Lookup.Finds, hkey] at hfinds
        exact ⟨_, by simp [Lookup.failures, hkey], s, hfinds.2 value⟩

theorem faithful_watchEval (config : Config) (n : Nat) (e : Expr) (s : State) :
    (watchEval config n e s).Faithful := by
  induction n generalizing e s with
  | zero => exact faithful_quiet fun _ _ hfailed => by cases hfailed; rfl
  | succ n ih =>
      cases e with
      | literal value =>
          simp only [watchEval]
          split
          · exact faithful_done _ s
          · exact faithful_quiet fun _ _ hfailed => by cases hfailed; rfl
      | group inner => exact (ih inner s).within 0
      | ref name => exact faithful_watchRead s name
      | assign name value =>
          refine ((ih value s).within 0).andThen ?_
          intro v t
          refine (faithful_watchAssign t name v).andThen ?_
          intro _ u
          exact faithful_done _ _
      | unary op operand =>
          refine ((ih operand s).within 0).andThen ?_
          intro v t
          exact faithful_ofExcept fun _ => isUnbound_of_applyUnary
      | binary left op right =>
          refine ((ih left s).within 0).andThen ?_
          intro a t
          refine ((ih right t).within 1).andThen ?_
          intro b u
          exact faithful_ofExcept fun _ => isUnbound_of_applyBinary
      | logical left op right =>
          refine ((ih left s).within 0).andThen ?_
          intro a t
          split
          · exact faithful_done a t
          · exact (ih right t).within 1
      | misplaced document => exact faithful_quiet fun _ _ hfailed => by cases hfailed; rfl

theorem faithful_watchTest (config : Config) (statement : Conditional) (condition : Expr)
    (s : State) : (watchTest config statement condition s).Faithful := by
  refine (faithful_watchEval config config.limit condition s).andThen ?_
  intro value t
  exact faithful_done _ _

variable {run : Stmt → State → Watched Unit}

theorem faithful_watchSequence (hrun : ∀ stmt s, (run stmt s).Faithful) (i : Nat)
    (stmts : List Stmt) (s : State) : (watchSequence run i stmts s).Faithful := by
  induction stmts generalizing i s with
  | nil => exact faithful_done () s
  | cons stmt stmts ih =>
      refine ((hrun stmt s).within i).andThen ?_
      intro _ t
      exact ih (i + 1) t

theorem faithful_watchInScope (config : Config) {step : State → Watched Unit}
    (hstep : ∀ s, (step s).Faithful) (s : State) : (watchInScope config step s).Faithful where
  of_unbound := by
    intro failure t hfailed hunbound
    simp only [watchInScope, inScope] at hfailed
    split at hfailed <;> cases hfailed
    rename_i u hu
    exact (hstep _).of_unbound failure u hu hunbound
  of_finds := by
    intro lookup hmem hfinds
    obtain ⟨failure, hmem, t, hfailed⟩ := (hstep _).of_finds lookup hmem hfinds
    exact ⟨failure, hmem, t.closeScope config, by simp [watchInScope, inScope, hfailed]⟩

theorem faithful_watchRounds {test : State → Watched Bool} {body : State → Watched Unit}
    (htest : ∀ s, (test s).Faithful) (hbody : ∀ s, (body s).Faithful) (n : Nat) (s : State) :
    (watchRounds test body n s).Faithful := by
  induction n generalizing s with
  | zero => exact faithful_quiet fun _ _ hfailed => nomatch hfailed
  | succ n ih =>
      refine (htest s).andThen ?_
      intro holds t
      split
      · refine (hbody t).andThen ?_
        intro _ u
        exact ih u
      · exact faithful_done () t

theorem faithful_watchEffect (config : Config) (hrun : ∀ stmt s, (run stmt s).Faithful) (n : Nat)
    (stmt : Stmt) (s : State) : (watchEffect config run n stmt s).Faithful := by
  cases stmt with
  | expr value =>
      refine ((faithful_watchEval config config.limit value s).within 0).andThen ?_
      intro v t
      exact faithful_done () t
  | print value =>
      refine ((faithful_watchEval config config.limit value s).within 0).andThen ?_
      intro v t
      exact faithful_done () _
  | declare name initial =>
      have hinitial : (watchInitial config initial s).Faithful := by
        cases initial with
        | none => exact faithful_done _ s
        | some e => exact faithful_watchEval config config.limit e s
      refine (hinitial.within 0).andThen ?_
      intro v t
      apply faithful_quiet
      intro failure u hfailed
      unfold State.define at hfailed
      split at hfailed <;> cases hfailed
      rfl
  | block body => exact faithful_watchInScope config (faithful_watchSequence hrun 0 body) s
  | branch condition whenTrue whenFalse =>
      refine ((faithful_watchTest config .branch condition s).within 0).andThen ?_
      intro holds t
      split
      · exact (hrun whenTrue t).within 1
      · cases whenFalse with
        | none => exact faithful_done () t
        | some whenFalse => exact (hrun whenFalse t).within 2
  | loop condition body =>
      exact faithful_watchRounds (fun t => (faithful_watchTest config .loop condition t).within 0)
        (fun t => (hrun body t).within 1) n s
  | misplaced document _ => exact faithful_quiet fun _ _ hfailed => by cases hfailed; rfl

theorem faithful_watchExec (config : Config) (n : Nat) (stmt : Stmt) (s : State) :
    (watchExec config n stmt s).Faithful := by
  induction n generalizing stmt s with
  | zero => exact faithful_quiet fun _ _ hfailed => nomatch hfailed
  | succ n ih =>
      refine (faithful_watchEffect config ih n stmt _).andThen ?_
      intro _ t
      exact faithful_done () _

/-- The report of a statement's nesting replaces no other failure. -/
theorem Watched.Faithful.reportNesting {w : Watched Unit} (h : w.Faithful) :
    ({ seen := w.seen, result := ScriptLang.reportNesting w.result } : Watched Unit).Faithful where
  of_unbound := by
    intro failure s hfailed hunbound
    simp only [ScriptLang.reportNesting] at hfailed
    split at hfailed
    · cases hfailed
      cases hunbound
    · exact h.of_unbound failure s hfailed hunbound
  of_finds := by
    intro lookup hmem hfinds
    obtain ⟨failure, hfailure, s, hfailed⟩ := h.of_finds lookup hmem hfinds
    have hne : failure ≠ .tooDeep := by
      rintro rfl
      unfold Lookup.failures at hfailure
      split at hfailure <;> simp at hfailure
    refine ⟨failure, hfailure, s, ?_⟩
    rw [hfailed]
    cases failure with
    | tooDeep => exact absurd rfl hne
    | _ => rfl

/-- **A run fails for want of a variable if and only if it makes a look-up that finds no scope.** -/
theorem faithful_watchInterpret (config : Config) (fuel : Nat) (program : List Stmt) (s : State) :
    (watchInterpret config fuel program s).Faithful := by
  refine faithful_watchSequence ?_ 0 program s
  intro stmt t
  exact (faithful_watchExec config fuel stmt t).reportNesting

end ScriptLang
