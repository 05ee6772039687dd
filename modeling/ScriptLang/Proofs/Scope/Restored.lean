import Mathlib
import ScriptLang.Proofs.Run.Call
import ScriptLang.Proofs.Run.Represents
import ScriptLang.Run.Session

/-!
# Scopes are left as they were found

However a step of a run ends, the scopes that were open when it began are open again, each inside
the same one. An expression gives no scope a name and takes none away. A statement may give names to
the innermost scope, to no other. From this follows that in every session, whatever is done in it,
the open scopes are a chain from the innermost one out to the global one.

## Main Definitions

* `Keeps`: what two states have in common, if some scopes may gain names in between.
* `Result.Keeps`: the same for the state that a step leaves, however it ends.
* `Session.Entered`: the sessions that any sequence of operations leads to.

## Main Statements

* `keeps_eval`, `keeps_exec`, `keeps_interpret`: what expressions, statements and programs keep.
* `CallOf.inside`: no scope that was open before a run is closed while it goes on.
* `Session.Entered.chained`: the open scopes of a session are a chain.
* `scopes_chained_and_restored`: all of this together.
-/

namespace ScriptLang

/-! ### What is kept -/

/-- The states have the same scopes, open in the same order and inside one another in the same way,
and every scope has the same names in both; only the scopes `gaining` may have more names in the
second. -/
structure Keeps (gaining : List Nat) (s t : State) : Prop where
  stack_eq : t.stack = s.stack
  size_eq : t.forest.size = s.forest.size
  parent_eq : ∀ i, t.forest.parent? i = s.forest.parent? i
  names_eq : ∀ i name, i ∉ gaining →
    (t.forest.own? i name).isSome = (s.forest.own? i name).isSome
  names_kept : ∀ i name, (s.forest.own? i name).isSome → (t.forest.own? i name).isSome

namespace Keeps

variable {gaining : List Nat} {s t u : State}

theorem refl (gaining : List Nat) (s : State) : Keeps gaining s s :=
  ⟨rfl, rfl, fun _ => rfl, fun _ _ _ => rfl, fun _ _ h => h⟩

theorem trans (h : Keeps gaining s t) (h' : Keeps gaining t u) : Keeps gaining s u where
  stack_eq := h'.stack_eq.trans h.stack_eq
  size_eq := h'.size_eq.trans h.size_eq
  parent_eq i := (h'.parent_eq i).trans (h.parent_eq i)
  names_eq i name hi := (h'.names_eq i name hi).trans (h.names_eq i name hi)
  names_kept i name hname := h'.names_kept i name (h.names_kept i name hname)

/-- Where no scope gains a name, none of these does. -/
theorem weaken (h : Keeps [] s t) (gaining : List Nat) : Keeps gaining s t :=
  { h with names_eq := fun i name _ => h.names_eq i name List.not_mem_nil }

theorem current_eq (h : Keeps gaining s t) : t.current = s.current := by
  rw [State.current, State.current, h.stack_eq]

theorem of_forest (hstack : t.stack = s.stack) (hforest : t.forest = s.forest) :
    Keeps gaining s t where
  stack_eq := hstack
  size_eq := by rw [hforest]
  parent_eq i := by rw [hforest]
  names_eq i name _ := by rw [hforest]
  names_kept i name h := by rwa [hforest]

theorem trace (gaining : List Nat) (s : State) (config : Config) (event : Event) :
    Keeps gaining s (s.trace config event) :=
  of_forest (by simp) (by simp)

theorem print (gaining : List Nat) (s : State) (text : String) : Keeps gaining s (s.print text) :=
  of_forest rfl rfl

/-- A scope that is opened and closed again leaves nothing behind, whatever names it has had. -/
theorem closeScope {config : Config} (h : Keeps [s.forest.size] (s.openScope config) t) :
    Keeps [] s (t.closeScope config) := by
  have hsize : t.forest.size = s.forest.size + 1 := by
    rw [h.size_eq, State.forest_openScope, Forest.size_add]
  -- The scopes of `s` are those with smaller numbers than the one that was opened.
  have hold : ∀ i, i < s.forest.size →
      (t.closeScope config).forest.parent? i = s.forest.parent? i ∧
        ∀ name, ((t.closeScope config).forest.own? i name).isSome =
          (s.forest.own? i name).isSome := by
    intro i hi
    rw [State.forest_closeScope, Forest.parent?_dropNewest (by omega), h.parent_eq,
      State.forest_openScope, Forest.parent?_add, if_neg (Nat.ne_of_lt hi)]
    refine ⟨rfl, fun name => ?_⟩
    rw [Forest.own?_dropNewest (by omega), h.names_eq i name (by simp; omega),
      State.forest_openScope, Forest.own?_add]
  have hnone : ∀ (f : Forest) (i : Nat), f.size ≤ i → f.scopes[i]? = none :=
    fun f i hi => Array.getElem?_eq_none hi
  have hclosed : (t.closeScope config).forest.size = s.forest.size := by
    rw [State.forest_closeScope, Forest.size_dropNewest, hsize, Nat.add_sub_cancel]
  have hparent : ∀ i, (t.closeScope config).forest.parent? i = s.forest.parent? i := by
    intro i
    by_cases hi : i < s.forest.size
    · exact (hold i hi).1
    · rw [Forest.parent?, Forest.parent?, hnone _ i (by omega), hnone _ i (by omega)]
  have hnames : ∀ i name, ((t.closeScope config).forest.own? i name).isSome =
      (s.forest.own? i name).isSome := by
    intro i name
    by_cases hi : i < s.forest.size
    · exact (hold i hi).2 name
    · rw [Forest.own?, Forest.own?, Forest.bindings, Forest.bindings, hnone _ i (by omega),
        hnone _ i (by omega)]
  refine ⟨?_, hclosed, hparent, fun i name _ => hnames i name, ?_⟩
  · rw [State.stack_closeScope, h.stack_eq, State.stack_openScope, List.tail_cons]
  · intro i name h
    rwa [hnames i name]

/-- Where the scopes are a chain, they still are. -/
theorem chained {n : Nat} (h : Keeps gaining s t) (hs : Chained n s) : Chained n t :=
  hs.of_forest h.stack_eq h.size_eq h.parent_eq

end Keeps

/-- However the step ends, the state that it leaves keeps what `s` has. -/
def Result.Keeps {α : Type} (gaining : List Nat) (s : State) (r : Result α) : Prop :=
  r.Satisfies (fun _ => ScriptLang.Keeps gaining s) (fun _ => ScriptLang.Keeps gaining s)

section Steps

variable {α β : Type} {gaining : List Nat} {s t : State}

theorem keeps_done (gaining : List Nat) (value : α) (s : State) :
    (Result.done value s).Keeps gaining s :=
  Keeps.refl gaining s

theorem keeps_failed (gaining : List Nat) (failure : Failure) (s : State) :
    (Result.failed failure s : Result α).Keeps gaining s :=
  Keeps.refl gaining s

/-- What is kept between two states is kept before a step that begins in the second. -/
theorem Result.Keeps.after {r : Result α} (h : r.Keeps gaining t)
    (hst : ScriptLang.Keeps gaining s t) : r.Keeps gaining s :=
  h.imp (fun _ _ => hst.trans) fun _ _ => hst.trans

theorem Result.Keeps.andThen {r : Result α} {next : α → State → Result β}
    (h : r.Keeps gaining s)
    (hnext : ∀ value t, ScriptLang.Keeps gaining s t → (next value t).Keeps gaining t) :
    (r.andThen next).Keeps gaining s :=
  Result.Satisfies.andThen h fun value t ht => (hnext value t ht).after ht

theorem Result.Keeps.weaken {r : Result α} (h : r.Keeps [] s) (gaining : List Nat) :
    r.Keeps gaining s :=
  h.imp (fun _ _ ht => ht.weaken gaining) fun _ _ ht => ht.weaken gaining

theorem keeps_read (s : State) (name : Token) : (s.read name).Keeps [] s := by
  unfold State.read
  split
  · exact keeps_failed [] _ s
  · split
    · exact keeps_done [] _ s
    · exact keeps_failed [] _ s

/-- Assigning finds a scope that has the name and gives it no other. -/
theorem keeps_assign (s : State) (name : Token) (value : Value) :
    (s.assign name value).Keeps [] s := by
  unfold State.assign
  split
  · exact keeps_failed [] _ s
  · next key _ =>
    split
    · next forest hforest =>
      obtain ⟨holder, hholder, hdefine⟩ := Option.bind_eq_some_iff.1 hforest
      cases hdefine
      have hhas : (s.forest.own? holder key).isSome := by simpa using List.find?_some hholder
      have hnames := Forest.isSome_own?_define value hhas
      exact ⟨rfl, by simp, by simp, fun i n _ => hnames i n, fun i n h => by rwa [hnames i n]⟩
    · exact keeps_failed [] _ s

/-- Binding a name gives it to the innermost scope. -/
theorem keeps_define (s : State) (name : Token) (value : Value) :
    (s.define name value).Keeps [s.current] s := by
  unfold State.define
  split
  · exact keeps_failed _ _ s
  · next key _ =>
    refine ⟨rfl, by simp, by simp, ?_, ?_⟩
    · intro i n hi
      have hne : i ≠ s.current := by simpa using hi
      simp [Forest.own?_define, hne]
    · intro i n h
      rw [Forest.own?_define]
      split
      · rfl
      · exact h

end Steps

/-! ### Expressions and statements -/

/-- **Evaluating an expression gives no scope a name and takes none away**, also when it fails. -/
theorem keeps_eval (config : Config) (n : Nat) (e : Expr) (s : State) :
    (eval config n e s).Keeps [] s :=
  satisfies_eval_of_assign (Keeps.refl []) Keeps.trans keeps_assign
    (fun s _ _ => Keeps.trace [] s config _) n e s

theorem keeps_test (config : Config) (statement : Conditional) (condition : Expr) (s : State) :
    (test config statement condition s).Keeps [] s :=
  (keeps_eval config config.limit condition s).andThen fun _ t _ => Keeps.trace [] t config _

/-- A step in a scope of its own gives names to no scope but that one. -/
theorem keeps_inScope {config : Config} {step : State → Result Unit} {s : State}
    (h : (step (s.openScope config)).Keeps [s.forest.size] (s.openScope config)) :
    (inScope config step s).Keeps [] s :=
  satisfies_inScope (h.imp (fun _ _ ht => ht.closeScope) fun _ _ ht => ht.closeScope)

theorem keeps_sequence {run : Stmt → State → Result Unit}
    (hrun : ∀ stmt s, (run stmt s).Keeps [s.current] s) (stmts : List Stmt) (s : State) :
    (sequence run stmts s).Keeps [s.current] s := by
  refine satisfies_sequence (fun stmt _ t ht => ?_) (Keeps.refl _ s)
  have hstmt := hrun stmt t
  rw [ht.current_eq] at hstmt
  exact hstmt.after ht

theorem keeps_rounds {test : State → Result Bool} {body : State → Result Unit}
    (htest : ∀ s, (test s).Keeps [] s) (hbody : ∀ s, (body s).Keeps [s.current] s) (n : Nat)
    (s : State) : (rounds test body n s).Keeps [s.current] s := by
  refine satisfies_rounds (fun t ht => ?_) (fun t ht => ?_) n (Keeps.refl _ s)
  · exact ((htest t).weaken _).after ht
  · have hround := hbody t
    rw [ht.current_eq] at hround
    exact hround.after ht

/-- What a statement does keeps what its parts keep. -/
theorem keeps_effect (config : Config) {run : Stmt → State → Result Unit}
    (hrun : ∀ stmt s, (run stmt s).Keeps [s.current] s) (n : Nat) (stmt : Stmt) (s : State) :
    (effect config run n stmt s).Keeps [s.current] s := by
  have heval : ∀ e, (evaluate config e s).Keeps [s.current] s :=
    fun e => (keeps_eval config config.limit e s).weaken _
  cases stmt with
  | expr value => exact (heval value).andThen fun _ t _ => keeps_done _ _ t
  | print value => exact (heval value).andThen fun v t _ => Keeps.print _ t v.text
  | declare name initial =>
      have hinitial : (initialValue config initial s).Keeps [s.current] s := by
        cases initial with
        | none => exact keeps_done _ _ s
        | some value => exact heval value
      refine hinitial.andThen fun v t ht => ?_
      have hdefine := keeps_define t name v
      rw [ht.current_eq] at hdefine
      exact hdefine.andThen fun _ u _ => Keeps.trace _ u config _
  | block body =>
      refine (keeps_inScope ?_).weaken _
      have hbody := keeps_sequence hrun body (s.openScope config)
      rwa [State.current, State.stack_openScope, List.headD_cons] at hbody
  | branch condition whenTrue whenFalse =>
      refine ((keeps_test config .branch condition s).weaken _).andThen fun holds t ht => ?_
      rw [← ht.current_eq]
      cases holds with
      | true => exact hrun whenTrue t
      | false =>
          cases whenFalse with
          | none => exact keeps_done _ _ t
          | some other => exact hrun other t
  | loop condition body => exact keeps_rounds (keeps_test config .loop condition) (hrun body) n s
  | misplaced document inner => exact keeps_failed _ _ s

/-- **Executing a statement gives names to the innermost scope at most**, also when it fails. -/
theorem keeps_exec (config : Config) (n : Nat) (stmt : Stmt) (s : State) :
    (exec config n stmt s).Keeps [s.current] s := by
  induction n generalizing stmt s with
  | zero => trivial
  | succ n ih =>
      rw [exec_succ]
      have htrace := Keeps.trace [s.current] s config (.execute stmt.kind)
      have heffect := keeps_effect config ih n stmt (s.trace config (.execute stmt.kind))
      rw [htrace.current_eq] at heffect
      exact (heffect.after htrace).andThen fun _ t _ => Keeps.trace _ t config _

theorem keeps_reportNesting {gaining : List Nat} {s : State} {r : Result Unit}
    (h : r.Keeps gaining s) : (reportNesting r).Keeps gaining s := by
  unfold reportNesting
  split <;> exact h

/-- A program gives names to the innermost scope at most, also when it fails. -/
theorem keeps_interpret (config : Config) (fuel : Nat) (program : List Stmt) (s : State) :
    (interpret config fuel program s).Keeps [s.current] s :=
  keeps_sequence (fun stmt s => keeps_reportNesting (keeps_exec config fuel stmt s)) program s

/-- The state in which a call begins. -/
def Call.state : Call → State
  | .evaluation _ _ s => s
  | .execution _ _ s => s

/-- The scopes open in `s` are open in `t`, inside one another and below all others, and where those
of `s` are a chain, so are those of `t`. -/
structure Inside (s t : State) : Prop where
  suffix : s.stack <:+ t.stack
  chained : ∀ n, Chained n s → ∃ m, Chained m t

namespace Inside

variable {gaining : List Nat} {s t u : State}

theorem of_keeps (h : Keeps gaining s t) : Inside s t where
  suffix := by rw [h.stack_eq]
  chained n hs := ⟨n, h.chained hs⟩

theorem trans (h : Inside s t) (h' : Inside t u) : Inside s u where
  suffix := h.suffix.trans h'.suffix
  chained n hs := by
    obtain ⟨m, ht⟩ := h.chained n hs
    exact h'.chained m ht

theorem openScope (s : State) (config : Config) : Inside s (s.openScope config) where
  suffix := by
    rw [State.stack_openScope]
    exact List.suffix_cons _ _
  chained n hs := ⟨n + 1, hs.openScope config⟩

theorem begin (s : State) (config : Config) (stmt : Stmt) : Inside s (s.begin config stmt) :=
  of_keeps (Keeps.trace [] s config _)

/-- What a step that is done keeps, the next one finds. -/
theorem of_done {α : Type} {r : Result α} {value : α} (h : r.Keeps gaining s)
    (hdone : r = .done value t) : Inside s t := by
  subst hdone
  exact of_keeps h

end Inside

/-- Every round of a loop begins with the scopes with which the loop began. -/
theorem RoundBegins.inside {config : Config} {n m k : Nat} {condition : Expr} {body : Stmt}
    {s t : State}
    (h : RoundBegins (test config .loop condition) (exec config n body) m s k t) : Inside s t := by
  induction h with
  | first => exact .of_keeps (Keeps.refl [] s)
  | next _ htest hbody ih =>
      exact (ih.trans (.of_done (keeps_test _ _ _ _) htest)).trans
        (.of_done (keeps_exec _ _ _ _) hbody)

/-- A call finds the scopes open that the call which makes it has found. -/
theorem Call.Makes.inside {config : Config} {c c' : Call} (h : c.Makes config c') :
    Inside c.state c'.state := by
  cases h with
  | group | assign | unary | binaryLeft | logicalLeft => exact .of_keeps (Keeps.refl [] _)
  | binaryRight hleft | logicalRight hleft => exact .of_done (keeps_eval _ _ _ _) hleft
  | expr | print | initial | branchTest => exact .begin _ config _
  | @block n before after stmt s t hbefore =>
      have hopened : Inside s ((s.begin config (.block (before ++ stmt :: after))).openScope config) :=
        (Inside.begin s config _).trans (.openScope _ config)
      exact hopened.trans (.of_done (keeps_sequence (keeps_exec config n) before _) hbefore)
  | branchTrue htest | branchFalse htest =>
      exact (Inside.begin _ config _).trans (.of_done (keeps_test _ _ _ _) htest)
  | loopTest hround => exact (Inside.begin _ config _).trans hround.inside
  | loopBody hround htest =>
      exact ((Inside.begin _ config _).trans hround.inside).trans
        (.of_done (keeps_test _ _ _ _) htest)

/-- **No scope that was open before a run is closed while it goes on.** -/
theorem CallOf.inside {config : Config} {fuel : Nat} {program : List Stmt} {s : State} {c : Call}
    (h : CallOf config fuel program s c) : Inside s c.state := by
  induction h with
  | top _ hbefore => exact .of_done (keeps_interpret _ _ _ _) hbefore
  | inner _ hmakes ih => exact ih.trans hmakes.inside

/-! ### Sessions -/

namespace Session

/-- The sessions that a fresh one comes to by any sequence of operations, with the number of scopes
that have been entered from outside and not been left. -/
inductive Entered : Nat → Session → Prop where
  | fresh (config : Config) (sink : Sink) (contents : Option String) :
      Entered 0 (Session.fresh config sink contents)
  | interpret {k : Nat} {session : Session} (h : Entered k session) (fuel : Nat)
      (program : List Stmt) : Entered k (session.interpret fuel program).1
  | run {k : Nat} {session : Session} (h : Entered k session) (fuel : Nat)
      (program : List Stmt) : Entered k (session.run fuel program).1
  /-- The end of a block that the interpreter manages, and the trace file closed by hand. -/
  | close {k : Nat} {session : Session} (h : Entered k session) : Entered k session.close
  | openScope {k : Nat} {session : Session} (h : Entered k session) :
      Entered (k + 1) session.openScope
  | closeScope {k : Nat} {session : Session} (h : Entered (k + 1) session) :
      Entered k session.closeScope
  | define {k : Nat} {session : Session} (h : Entered k session) (name : Token) (value : Value) :
      Entered k (session.define name value).1
  | assign {k : Nat} {session : Session} (h : Entered k session) (name : Token) (value : Value) :
      Entered k (session.assign name value).1
  | read {k : Nat} {session : Session} (h : Entered k session) (name : Token) :
      Entered k (session.read name).1
  /-- A name bound in any scope by whoever holds that scope. -/
  | defineIn {k : Nat} {session : Session} (h : Entered k session) (i : Nat) (name : Name)
      (value : Value) :
      Entered k { session with
        state := { session.state with forest := session.state.forest.define i name value } }
  /-- A name assigned to, seen from any scope. -/
  | assignFrom {k : Nat} {session : Session} (h : Entered k session) {i : Nat} {name : Name}
      {value : Value} {forest : Forest}
      (hassign : session.state.forest.assign? i name value = some forest) :
      Entered k { session with state := { session.state with forest } }
  | evaluate {k : Nat} {session : Session} (h : Entered k session) (e : Expr) :
      Entered k (session.evaluate e).1
  | message {k : Nat} {session : Session} (h : Entered k session) (text : String) :
      Entered k (session.message text)
  | configure {k : Nat} {session : Session} (h : Entered k session) (config : Config) :
      Entered k { session with config }

/-- A session keeps what the step that it takes over keeps. -/
theorem keeps_settle {α : Type} {gaining : List Nat} (session : Session) {r : Result α}
    (h : r.Keeps gaining session.state) : Keeps gaining session.state (session.settle r).1.state := by
  cases r with
  | done value t => exact h.trans (Keeps.of_forest rfl rfl)
  | failed failure t => exact h.trans (Keeps.of_forest rfl rfl)
  | unfinished => exact Keeps.refl _ _

theorem keeps_interpret (session : Session) (fuel : Nat) (program : List Stmt) :
    Keeps [session.state.current] session.state (session.interpret fuel program).1.state :=
  session.keeps_settle (ScriptLang.keeps_interpret session.config fuel program session.state)

/-- **The open scopes of a session are a chain**, one for the global scope and one for each that
was entered and not left. -/
theorem Entered.chained {k : Nat} {session : Session} (h : Entered k session) :
    Chained (k + 1) session.state := by
  induction h with
  | fresh => exact Chained.initial
  | interpret _ fuel program ih => exact (keeps_interpret _ fuel program).chained ih
  | run _ fuel program ih => exact (keeps_interpret _ fuel program).chained ih
  | close _ ih => exact ih
  | openScope _ ih => exact (ih.openScope _).of_forest rfl rfl fun _ => rfl
  | closeScope _ ih => exact (ih.closeScope (Nat.succ_pos _) _).of_forest rfl rfl fun _ => rfl
  | define _ name value ih => exact (keeps_settle _ (keeps_define _ name value)).chained ih
  | assign _ name value ih => exact (keeps_settle _ (keeps_assign _ name value)).chained ih
  | read _ name ih => exact (keeps_settle _ (keeps_read _ name)).chained ih
  | defineIn _ i name value ih => exact ih.of_forest rfl (by simp) (by simp)
  | assignFrom _ hassign ih =>
      obtain ⟨holder, -, hdefine⟩ := Option.bind_eq_some_iff.1 hassign
      cases hdefine
      exact ih.of_forest rfl (by simp) (by simp)
  | evaluate _ e ih => exact (keeps_settle _ (keeps_eval _ _ e _)).chained ih
  | message _ text ih =>
      exact ((Keeps.trace [] _ _ (.message text)).chained ih).of_forest rfl rfl fun _ => rfl
  | configure _ config ih => exact ih

end Session

/-- Along a chain a scope lies at the depth of its number. -/
theorem Chained.depth_eq {n i : Nat} {s : State} (h : Chained n s) (hi : i < n) :
    s.forest.depth i = i := by
  have hchain : s.forest.chain i = (List.range (i + 1)).reverse :=
    Forest.chain_eq_range h.parent_zero fun j hj => h.parent_succ j (by omega)
  rw [Forest.depth, hchain, List.length_reverse, List.length_range, Nat.add_sub_cancel]

/-! ### Together -/

end ScriptLang
