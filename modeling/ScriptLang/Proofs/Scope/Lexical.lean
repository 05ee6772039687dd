import Mathlib
import ScriptLang.Proofs.Scope.Matches
import ScriptLang.Proofs.Scope.Unbound

/-!
# Lexical scope

Which scope a look-up finds is decided by the text of the program: each time an occurrence of a
variable is evaluated, it finds the scope of the innermost list of statements around it that has
declared the name in front of it, and none if there is no such list.

## Main Definitions

* `Watched.Ensures`: what holds of the look-ups of a step and of the state it leaves.
* `Expr.Notes`, `Stmt.Notes`: a look-up made while the state matches the text.
* `Lexical`: all look-ups of a run are made so.

## Main Statements

* `lexical_watchExec`, `ensures_watchInterpret`: all look-ups of a statement and of a program are.
* `Matches.finds`: what such a look-up finds.
* `finds_distance_of_parse`: names are lexically scoped.

## Design Notes

A declaration that is the body of a branch or a loop would make a name in the scope around it, in
front of the wrong statements. There is none in a parsed program.
-/

namespace ScriptLang

/-! ### Steps with their look-ups -/

namespace Watched

variable {α β : Type} {seen : Lookup → Prop} {left mid : State → Prop}

/-- Every look-up of the step is as `seen` says, and the state it leaves if done as `left` says. -/
structure Ensures (w : Watched α) (seen : Lookup → Prop) (left : State → Prop) : Prop where
  of_mem : ∀ lookup ∈ w.seen, seen lookup
  of_done : ∀ value s, w.result = .done value s → left s

theorem ensures_quiet {result : Result α} (h : ∀ value s, result = .done value s → left s) :
    (quiet result).Ensures seen left where
  of_mem _ hmem := absurd hmem List.not_mem_nil
  of_done := h

theorem ensures_done {value : α} {s : State} (h : left s) :
    (quiet (.done value s)).Ensures seen left := by
  apply ensures_quiet
  rintro _ _ ⟨⟩
  exact h

theorem ensures_failed (failure : Failure) (s : State) :
    (quiet (.failed failure s : Result α)).Ensures seen left :=
  ensures_quiet fun _ _ hdone => nomatch hdone

theorem ensures_ofExcept {s : State} (h : left s) (outcome : Except Failure α) :
    (quiet (.ofExcept s outcome)).Ensures seen left := by
  cases outcome with
  | ok value => exact ensures_done h
  | error failure => exact ensures_failed failure s

namespace Ensures

variable {w : Watched α}

theorem within {i : Nat} (h : w.Ensures (fun lookup => seen (lookup.within i)) left) :
    (w.within i).Ensures seen left where
  of_mem := by
    intro lookup hmem
    obtain ⟨inner, hinner, rfl⟩ := List.mem_map.1 hmem
    exact h.of_mem inner hinner
  of_done := h.of_done

theorem andThen {next : α → State → Watched β} (h : w.Ensures seen mid)
    (hnext : ∀ value s, mid s → (next value s).Ensures seen left) :
    (w.andThen next).Ensures seen left := by
  unfold Watched.andThen
  split
  · rename_i value s hdone
    have hnext := hnext value s (h.of_done value s hdone)
    refine ⟨?_, hnext.of_done⟩
    intro lookup hmem
    rcases List.mem_append.1 hmem with hmem | hmem
    · exact h.of_mem lookup hmem
    · exact hnext.of_mem lookup hmem
  · exact ⟨h.of_mem, fun _ _ hdone => nomatch hdone⟩
  · exact ⟨h.of_mem, fun _ _ hdone => nomatch hdone⟩

theorem weaken (h : w.Ensures seen mid) (hleft : ∀ s, mid s → left s) : w.Ensures seen left :=
  ⟨h.of_mem, fun value s hdone => hleft s (h.of_done value s hdone)⟩

end Ensures

end Watched

open Watched

/-! ### Expressions -/

/-- The look-up is made by an occurrence in the expression, while the state matches the lists. -/
def Expr.Notes (e : Expr) (lists : List (List Stmt)) (lookup : Lookup) : Prop :=
  e.nameAt? lookup.place = some lookup.name ∧ Matches lists lookup.state

theorem Expr.Notes.of_mem {e : Expr} {lists : List (List Stmt)} {s : State} {name : Token}
    (he : e.nameAt? [] = some name) (h : Matches lists s) :
    ∀ lookup ∈ [{ place := [], name, state := s : Lookup }], e.Notes lists lookup := by
  intro lookup hmem
  obtain rfl := List.mem_singleton.1 hmem
  exact ⟨he, h⟩

theorem ensures_watchEval (config : Config) {lists : List (List Stmt)} (n : Nat) (e : Expr)
    {s : State} (h : Matches lists s) :
    (watchEval config n e s).Ensures (e.Notes lists) (Matches lists) := by
  induction n generalizing e s with
  | zero => exact ensures_failed _ s
  | succ n ih =>
      cases e with
      | literal value =>
          simp only [watchEval]
          split
          · exact ensures_done h
          · exact ensures_failed _ s
      | group inner => exact (ih inner h).within
      | ref name => exact ⟨Expr.Notes.of_mem rfl h, fun _ _ hdone => h.read hdone⟩
      | assign name value =>
          refine (ih value h).within.andThen ?_
          intro v t ht
          have hassign : (watchAssign t name v).Ensures ((Expr.assign name value).Notes lists)
              (Matches lists) :=
            ⟨Expr.Notes.of_mem rfl ht, fun _ _ hdone => ht.assign hdone⟩
          apply hassign.andThen
          intro _ u hu
          exact ensures_done (hu.trace config _)
      | unary op operand =>
          refine (ih operand h).within.andThen ?_
          intro v t ht
          exact ensures_ofExcept ht _
      | binary left op right =>
          refine (ih left h).within.andThen ?_
          intro a t ht
          refine (ih right ht).within.andThen ?_
          intro b u hu
          exact ensures_ofExcept hu _
      | logical left op right =>
          refine (ih left h).within.andThen ?_
          intro a t ht
          split
          · exact ensures_done ht
          · exact (ih right ht).within
      | misplaced document => exact ensures_failed _ s

theorem ensures_watchTest (config : Config) {lists : List (List Stmt)} (statement : Conditional)
    (condition : Expr) {s : State} (h : Matches lists s) :
    (watchTest config statement condition s).Ensures (condition.Notes lists) (Matches lists) := by
  refine (ensures_watchEval config config.limit condition h).andThen ?_
  intro value t ht
  exact ensures_done (ht.trace config _)

/-! ### Statements -/

/-- The look-up is made by an occurrence in the statement, while the state matches the lists around
the occurrence. -/
def Stmt.Notes (stmt : Stmt) (lists : List (List Stmt)) (lookup : Lookup) : Prop :=
  stmt.nameAt? lookup.place = some lookup.name ∧
    Matches (stmt.enclosing lookup.place lists) lookup.state

theorem ensures_watchInitial (config : Config) {lists : List (List Stmt)} (name : Token)
    {initial : Option Expr} {s : State} (h : Matches lists s) :
    (watchInitial config initial s).Ensures
      (fun lookup => (Stmt.declare name initial).Notes lists (lookup.within 0))
      (Matches lists) := by
  cases initial with
  | none => exact ensures_done h
  | some e => exact ensures_watchEval config config.limit e h

/-- Run from in front of a statement, every look-up is noted with the lists around it, and the run
ends up behind the statement. -/
def Lexical (run : Stmt → State → Watched Unit) : Prop :=
  ∀ (stmt : Stmt) (before : List Stmt) (outer : List (List Stmt)) (s : State), stmt.Placed →
    Matches (before :: outer) s →
      (run stmt s).Ensures (stmt.Notes (before :: outer)) (Matches ((before ++ [stmt]) :: outer))

variable {run : Stmt → State → Watched Unit}

/-- The rest of a list, behind the statements that are done. -/
theorem Lexical.sequence (hrun : Lexical run) {outer : List (List Stmt)} (done rest : List Stmt)
    (hplaced : allPlaced rest) {s : State} (h : Matches (done :: outer) s) :
    (watchSequence run done.length rest s).Ensures ((Stmt.block (done ++ rest)).Notes outer)
      (Matches ((done ++ rest) :: outer)) := by
  induction rest generalizing done s with
  | nil =>
      rw [List.append_nil]
      exact ensures_done h
  | cons stmt rest ih =>
      have hfirst := hrun stmt done outer s hplaced.1 h
      have hsplit : done ++ stmt :: rest = (done ++ [stmt]) ++ rest := by simp
      refine Ensures.andThen (Ensures.within ⟨?_, hfirst.of_done⟩) ?_
      · intro lookup hmem
        obtain ⟨hname, hmatches⟩ := hfirst.of_mem lookup hmem
        -- The statements in front of this one in its list are those that are done.
        have hget : (done ++ stmt :: rest)[done.length]? = some stmt := by simp
        constructor
        · simpa [Lookup.within, Stmt.nameAt?, hget] using hname
        · simpa [Lookup.within, Stmt.enclosing, hget] using hmatches
      · intro _ t ht
        have hnext := ih (done ++ [stmt]) hplaced.2 ht
        rwa [List.length_append, ← hsplit] at hnext

/-- A part of a statement, in the same scope. -/
theorem Lexical.part (hrun : Lexical run) {part whole : Stmt} {before : List Stmt}
    {outer : List (List Stmt)} {i : Nat} (hpart : part.isDeclare = false) (hplaced : part.Placed)
    (hwhole : whole.isDeclare = false) {s : State} (h : Matches (before :: outer) s)
    (hnotes : ∀ lookup, part.Notes (before :: outer) lookup →
      whole.Notes (before :: outer) (lookup.within i)) :
    ((run part s).within i).Ensures (whole.Notes (before :: outer))
      (Matches ((before ++ [whole]) :: outer)) := by
  have hrun := hrun part before outer s hplaced h
  refine Ensures.within ⟨fun lookup hmem => hnotes lookup (hrun.of_mem lookup hmem), ?_⟩
  intro _ t hdone
  exact (Matches.append_iff hwhole).2 ((Matches.append_iff hpart).1 (hrun.of_done _ t hdone))

/-- A list in a scope of its own. -/
theorem Lexical.inScope (hrun : Lexical run) (config : Config) {body before : List Stmt}
    {outer : List (List Stmt)} (hplaced : allPlaced body) {s : State}
    (h : Matches (before :: outer) s) :
    (watchInScope config (watchSequence run 0 body) s).Ensures
      ((Stmt.block body).Notes (before :: outer)) (Matches (before :: outer)) := by
  have hinner := hrun.sequence [] body hplaced (h.openScope config)
  refine ⟨hinner.of_mem, ?_⟩
  intro _ t hdone
  simp only [watchInScope, ScriptLang.inScope] at hdone
  split at hdone <;> cases hdone
  rename_i u hu
  exact (hinner.of_done _ u hu).closeScope config

/-- A loop, from in front of it and as often as it goes round. -/
theorem Lexical.rounds (hrun : Lexical run) (config : Config) {condition : Expr} {body : Stmt}
    {before : List Stmt} {outer : List (List Stmt)} (hbody : body.isDeclare = false)
    (hplaced : body.Placed) (n : Nat) {s : State} (h : Matches (before :: outer) s) :
    (watchRounds (fun s => (watchTest config .loop condition s).within 0)
      (fun s => (run body s).within 1) n s).Ensures
      ((Stmt.loop condition body).Notes (before :: outer)) (Matches (before :: outer)) := by
  -- A body that is no declaration leaves the lists as they are, so each round starts as the first.
  induction n generalizing s with
  | zero => exact ensures_quiet fun _ _ hdone => nomatch hdone
  | succ n ih =>
      refine (ensures_watchTest config .loop condition h).within.andThen ?_
      intro holds t ht
      split
      · refine (hrun body before outer t hplaced ht).within.andThen ?_
        intro _ u hu
        exact ih ((Matches.append_iff hbody).1 hu)
      · exact ensures_done ht

/-- What a statement does, its parts being run so. -/
theorem Lexical.effect (hrun : Lexical run) (config : Config) (n : Nat) :
    Lexical (watchEffect config run n) := by
  intro stmt before outer s hplaced h
  cases stmt with
  | expr value =>
      refine (ensures_watchEval config config.limit value h).within.andThen ?_
      intro v t ht
      exact ensures_done ((Matches.append_iff rfl).2 ht)
  | print value =>
      refine (ensures_watchEval config config.limit value h).within.andThen ?_
      intro v t ht
      exact ensures_done ((Matches.append_iff rfl).2 (ht.print v.text))
  | declare name initial =>
      -- The name is bound when its value is there, so the value does not see it.
      refine (ensures_watchInitial config name h).within.andThen ?_
      intro v t ht
      apply ensures_quiet
      intro _ u hdone
      cases hdefine : t.define name v with
      | done _ w =>
          rw [hdefine] at hdone
          cases hdone
          exact (ht.define initial hdefine).trace config _
      | failed failure w =>
          rw [hdefine] at hdone
          cases hdone
      | unfinished =>
          rw [hdefine] at hdone
          cases hdone
  | block body =>
      exact (hrun.inScope config hplaced h).weaken fun t ht => (Matches.append_iff rfl).2 ht
  | branch condition whenTrue whenFalse =>
      refine (ensures_watchTest config .branch condition h).within.andThen ?_
      intro holds t ht
      cases whenFalse with
      | none =>
          cases holds with
          | true => exact hrun.part hplaced.1 hplaced.2 rfl ht fun _ => id
          | false => exact ensures_done ((Matches.append_iff rfl).2 ht)
      | some whenFalse =>
          cases holds with
          | true => exact hrun.part hplaced.1.1 hplaced.1.2 rfl ht fun _ => id
          | false => exact hrun.part hplaced.2.1 hplaced.2.2 rfl ht fun _ => id
  | loop condition body =>
      refine (hrun.rounds config hplaced.1 hplaced.2 n h).weaken ?_
      intro t ht
      exact (Matches.append_iff rfl).2 ht
  | misplaced document _ => exact ensures_failed _ s

/-- **At every look-up of a statement, the state matches the text.** -/
theorem lexical_watchExec (config : Config) (n : Nat) : Lexical (watchExec config n) := by
  induction n with
  | zero =>
      intro stmt before outer s _ _
      exact ensures_quiet fun _ _ hdone => nomatch hdone
  | succ n ih =>
      intro stmt before outer s hplaced h
      refine (ih.effect config n stmt before outer _ hplaced (h.trace config _)).andThen ?_
      intro _ t ht
      exact ensures_done (ht.trace config _)

theorem done_of_reportNesting {result : Result Unit} {s : State}
    (h : reportNesting result = .done () s) : result = .done () s := by
  unfold reportNesting at h
  split at h
  · cases h
  · exact h

/-- **At every look-up of a program, the state matches the text.** -/
theorem ensures_watchInterpret (config : Config) (fuel : Nat) {program : List Stmt}
    (hplaced : allPlaced program) :
    (watchInterpret config fuel program .initial).Ensures ((Stmt.block program).Notes [])
      (Matches [program]) := by
  have hrun : Lexical fun stmt s =>
      { seen := (watchExec config fuel stmt s).seen
        result := reportNesting (watchExec config fuel stmt s).result } := by
    intro stmt before outer s hstmt h
    have hexec := lexical_watchExec config fuel stmt before outer s hstmt h
    exact ⟨hexec.of_mem, fun value t hdone => hexec.of_done value t (done_of_reportNesting hdone)⟩
  exact hrun.sequence [] program hplaced .initial

/-! ### What the text says -/

/-- **While the state matches the lists, they say what a look-up finds.** -/
theorem Matches.finds {lists : List (List Stmt)} {lookup : Lookup}
    (h : Matches lists lookup.state) : lookup.Finds (nearest? lists lookup.name) := by
  unfold nearest?
  cases hkey : Key.ofLexeme? lookup.name.lexeme with
  | none =>
      have hname : Name.ofLexeme? lookup.name.lexeme = none := by simp [Name.ofLexeme?, hkey]
      simp [Lookup.Finds, State.read, State.assign, hname]
  | some key =>
      have hname : Name.ofLexeme? lookup.name.lexeme =
          some { key, written := lookup.name.lexeme } := by simp [Name.ofLexeme?, hkey]
      have hholder := h.holder?_eq { key, written := lookup.name.lexeme }
      show lookup.Finds (lists.findIdx? fun list => list.any (Stmt.declares key))
      cases hidx : lists.findIdx? fun list => list.any (Stmt.declares key) with
      | none =>
          rw [hidx] at hholder
          exact Lookup.finds_none hname hholder
      | some d =>
          rw [hidx] at hholder
          have hd : d < lookup.state.stack.length := by
            rw [h.length_stack]
            exact (List.findIdx?_eq_some_iff_getElem.1 hidx).1
          have hstack := List.getElem?_eq_getElem hd
          exact Lookup.finds_some hname hstack (hholder.trans hstack)

/-- **Names are lexically scoped.** Each time an occurrence of a variable in a parsed program is
evaluated, in whatever run, the open scopes are those of the lists of statements around it, and it
finds the scope of the innermost list that declares the name in front of it. The run fails for want
of a variable if and only if it evaluates an occurrence for which there is no such list. -/
theorem finds_distance_of_parse {limit : Nat} {tokens : List Token} {program : List Stmt}
    (hparse : Parse.parse limit tokens = .ok program) (config : Config) (fuel : Nat) :
    (watchInterpret config fuel program .initial).result =
        interpret config fuel program .initial ∧
      (∀ lookup ∈ (watchInterpret config fuel program .initial).seen,
        (Stmt.block program).nameAt? lookup.place = some lookup.name ∧
        lookup.state.stack.length = ((Stmt.block program).enclosing lookup.place []).length ∧
        lookup.Finds (distance? program lookup.place lookup.name)) ∧
      (∀ lookup ∈ (watchInterpret config fuel program .initial).seen,
        distance? program lookup.place lookup.name = none →
        ∃ failure ∈ lookup.failures, ∃ s,
          interpret config fuel program .initial = .failed failure s) ∧
      ∀ failure s, interpret config fuel program .initial = .failed failure s →
        failure.isUnbound = true →
        ∃ lookup ∈ (watchInterpret config fuel program .initial).seen,
          distance? program lookup.place lookup.name = none ∧ failure ∈ lookup.failures := by
  have hrun := ensures_watchInterpret config fuel (placed_of_parse hparse)
  have hfaithful := faithful_watchInterpret config fuel program .initial
  have hfinds : ∀ lookup ∈ (watchInterpret config fuel program .initial).seen,
      lookup.Finds (distance? program lookup.place lookup.name) := by
    intro lookup hmem
    exact (hrun.of_mem lookup hmem).2.finds
  rw [← result_watchInterpret]
  refine ⟨rfl, ?_, ?_, ?_⟩
  · intro lookup hmem
    obtain ⟨hname, hmatches⟩ := hrun.of_mem lookup hmem
    exact ⟨hname, hmatches.length_stack, hfinds lookup hmem⟩
  · intro lookup hmem hnone
    exact hfaithful.of_finds lookup hmem (hnone ▸ hfinds lookup hmem)
  · intro failure s hfailed hunbound
    obtain ⟨lookup, hmem, hnone, hfailure⟩ := hfaithful.of_unbound failure s hfailed hunbound
    exact ⟨lookup, hmem, (hfinds lookup hmem).eq_none hnone, hfailure⟩

/-- A token of one line with its text. -/
def textToken (kind : TokenKind) (chars : String) : Token :=
  { kind, lexeme := .str chars, line := .int 1 }

/-- A loop that goes round twice. Its body uses the outer variable twice, the second time to start
one of its own with the same name, and then uses that. -/
def shadowedInLoop : List Stmt :=
  [.declare (textToken .identifier "a") (some (.literal (.bool true))),
    .declare (textToken .identifier "b") (some (.ref (textToken .identifier "a"))),
    .loop (.ref (textToken .identifier "a")) (.block [
      .expr (.assign (textToken .identifier "a") (.ref (textToken .identifier "b"))),
      .expr (.assign (textToken .identifier "b") (.literal .null)),
      .declare (textToken .identifier "a") (some (.ref (textToken .identifier "a"))),
      .print (.ref (textToken .identifier "a"))])]

/-- The tokens of `shadowedInLoop`. -/
def shadowedInLoopTokens : List Token :=
  [(.varWord, "var"), (.identifier, "a"), (.equal, "="), (.trueWord, "true"), (.semicolon, ";"),
    (.varWord, "var"), (.identifier, "b"), (.equal, "="), (.identifier, "a"), (.semicolon, ";"),
    (.whileWord, "while"), (.leftParen, "("), (.identifier, "a"), (.rightParen, ")"),
    (.leftBrace, "\x7b"), (.identifier, "a"), (.equal, "="), (.identifier, "b"), (.semicolon, ";"),
    (.identifier, "b"), (.equal, "="), (.nilWord, "nil"), (.semicolon, ";"),
    (.varWord, "var"), (.identifier, "a"), (.equal, "="), (.identifier, "a"), (.semicolon, ";"),
    (.printWord, "print"), (.identifier, "a"), (.semicolon, ";"), (.rightBrace, "\x7d"),
    (.endOfInput, "")].map fun entry => textToken entry.1 entry.2

/-- In both rounds the variable that starts the inner one is the outer one, and the variable that is
printed is the inner one. -/
theorem finds_distance_shadowedInLoop :
    Parse.parse 6 shadowedInLoopTokens = .ok shadowedInLoop ∧
      (∃ lookup ∈ (watchInterpret {} 9 shadowedInLoop .initial).seen,
        lookup.place = [2, 1, 2, 0] ∧ lookup.Finds (some 1)) ∧
      ∃ lookup ∈ (watchInterpret {} 9 shadowedInLoop .initial).seen,
        lookup.place = [2, 1, 3, 0] ∧ lookup.Finds (some 0) := by
  have hparse : Parse.parse 6 shadowedInLoopTokens = .ok shadowedInLoop := rfl
  have hplaces : (watchInterpret {} 9 shadowedInLoop .initial).seen.map Lookup.place =
      [[1, 0], [2, 0], [2, 1, 0, 0, 0], [2, 1, 0, 0], [2, 1, 1, 0], [2, 1, 2, 0], [2, 1, 3, 0],
        [2, 0], [2, 1, 0, 0, 0], [2, 1, 0, 0], [2, 1, 1, 0], [2, 1, 2, 0], [2, 1, 3, 0],
        [2, 0]] := by
    cbv
  have hfinds : ∀ place d,
      place ∈ (watchInterpret {} 9 shadowedInLoop .initial).seen.map Lookup.place →
      (Stmt.block shadowedInLoop).nameAt? place = some (textToken .identifier "a") →
      distance? shadowedInLoop place (textToken .identifier "a") = d →
      ∃ lookup ∈ (watchInterpret {} 9 shadowedInLoop .initial).seen,
        lookup.place = place ∧ lookup.Finds d := by
    intro place d hmem hname hd
    obtain ⟨lookup, hlookup, rfl⟩ := List.mem_map.1 hmem
    obtain ⟨hsame, -, hfinds⟩ := (finds_distance_of_parse hparse {} 9).2.1 lookup hlookup
    have hname : lookup.name = textToken .identifier "a" := Option.some.inj (hsame.symm.trans hname)
    rw [hname, hd] at hfinds
    exact ⟨lookup, hlookup, rfl, hfinds⟩
  refine ⟨hparse, hfinds [2, 1, 2, 0] (some 1) ?_ rfl rfl, hfinds [2, 1, 3, 0] (some 0) ?_ rfl rfl⟩
  · rw [hplaces]
    decide
  · rw [hplaces]
    decide

end ScriptLang
