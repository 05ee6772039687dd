import ScriptLang.Proofs.Run.Call
import ScriptLang.Proofs.Run.Realizes
import ScriptLang.Run.Session

/-!
# Runs refine the meaning of programs

A run of a program whose fields have their declared types ends with an outcome, a text printed and
contents of every scope if and only if these are derived for the program. In a session whose trace
goes to the file, the text printed is what the console shows.

## Main Definitions

* `Explained`: however a step ends, its end is derived.

## Main Statements

* `explained_eval`, `explained_exec`, `explained_interpret`: what happens is derived.
* `interpret_iff_executes`: runs refine the meaning of programs.
-/

namespace ScriptLang

/-! ### What happens is derived -/

/-- However the step ends, it ends in a state that represents a world, and its outcome in this world
is derived; or else it has failed as `deep` says. -/
def Explained {α : Type} (shown : String) (deep : Failure → Prop)
    (derives : Except Diagnostic α → World → Prop) (result : Result α) : Prop :=
  result.Satisfies (fun v t => ∃ w, Represents shown t w ∧ derives (.ok v) w)
    (fun failure t => deep failure ∨
      ∃ d w, failure.diagnostic? = some d ∧ Represents shown t w ∧ derives (.error d) w)

/-- The failure of running out of `n` levels, which is possible only at a greater height. -/
def OutOfLevels (n height : Nat) (failure : Failure) : Prop := failure = .tooDeep ∧ n < height

theorem OutOfLevels.mono {n m height height' : Nat} (h : n < height → m < height')
    (failure : Failure) (hfailure : OutOfLevels n height failure) :
    OutOfLevels m height' failure :=
  ⟨hfailure.1, h hfailure.2⟩

namespace Explained

variable {α β : Type} {shown : String} {deep deep' : Failure → Prop} {result : Result α}
  {derives : Except Diagnostic α → World → Prop} {derives' : Except Diagnostic β → World → Prop}

theorem andThen {next : α → State → Result β} (h : Explained shown deep derives result)
    (hdeep : ∀ failure, deep failure → deep' failure)
    (herror : ∀ d w, derives (.error d) w → derives' (.error d) w)
    (hnext : ∀ v t w, Represents shown t w → derives (.ok v) w →
      Explained shown deep' derives' (next v t)) :
    Explained shown deep' derives' (result.andThen next) := by
  cases result with
  | done v t =>
      obtain ⟨w, ht, hw⟩ := h
      exact hnext v t w ht hw
  | failed failure t =>
      rcases h with h | ⟨d, w, hreport, ht, hw⟩
      · exact .inl (hdeep failure h)
      · exact .inr ⟨d, w, hreport, ht, herror d w hw⟩
  | unfinished => trivial

theorem imp {derives' : Except Diagnostic α → World → Prop}
    (h : Explained shown deep derives result) (hdeep : ∀ failure, deep failure → deep' failure)
    (hderives : ∀ r w, derives r w → derives' r w) : Explained shown deep' derives' result := by
  refine Result.Satisfies.imp h ?_ ?_
  · rintro v t ⟨w, ht, hw⟩
    exact ⟨w, ht, hderives _ w hw⟩
  · rintro failure t (h | ⟨d, w, hreport, ht, hw⟩)
    · exact .inl (hdeep failure h)
    · exact .inr ⟨d, w, hreport, ht, hderives _ w hw⟩

/-- A step that realizes an outcome is explained by the derivation of that outcome. -/
theorem of_realizes {r : Except Diagnostic α} {w : World} (h : result.Realizes shown r w)
    (hderives : derives r w) : Explained shown deep derives result := by
  obtain ⟨t, hends, ht⟩ := h
  cases hends with
  | done => exact ⟨w, ht, hderives⟩
  | failed hreport => exact .inr ⟨_, w, hreport, ht, hderives⟩

end Explained

section Explained

variable {config : Config} {shown : String}

/-- **What evaluating an expression does is derived**, with as many levels as there may be. -/
theorem explained_eval (n : Nat) {e : Expr} (he : e.Meets .typed) {s : State} {w : World}
    (hs : Represents shown s w) :
    Explained shown (OutOfLevels n e.height) (Evaluates config.truthiness e w)
      (eval config n e s) := by
  induction n generalizing e s w with
  | zero => exact .inl ⟨rfl, by cases e <;> simp [Expr.height]⟩
  | succ n ih =>
      cases e with
      | literal j =>
          obtain ⟨v, hv⟩ := exists_denotes he
          rw [eval, ofLiteral?_of_denotes hv]
          exact ⟨w, hs, .literal hv⟩
      | group inner =>
          have hinner : inner.Meets .typed := he
          exact (ih hinner hs).imp (.mono Nat.succ_lt_succ) fun _ _ h => .group h
      | ref name =>
          obtain ⟨x, hx⟩ := he.lexeme
          have hread := realizes_read hx hs
          cases hlookup : w.lookup? x with
          | some v =>
              rw [hlookup] at hread
              exact .of_realizes hread (.ref hx hlookup)
          | none =>
              rw [hlookup] at hread
              exact .of_realizes hread (.refMissing hx hlookup)
      | assign name value =>
          obtain ⟨x, hx⟩ := he.1.lexeme
          refine (ih he.2 hs).andThen (.mono Nat.succ_lt_succ) (fun _ _ h => .assignFails h) ?_
          intro v t w' ht hv
          cases hassign : w'.assign? x v with
          | some w'' =>
              have hdone : ((t.assign name v).andThen fun _ u =>
                  .done .nil (u.trace config (.assign name.lexeme v))).Realizes shown
                    (.ok Value.nil) w'' := by
                refine (realizes_assign hx ht hassign).andThen ?_
                intro u hu
                exact Result.realizes_done (hu.trace config _)
              exact .of_realizes hdone (.assign hx hv hassign)
          | none =>
              exact .of_realizes (realizes_assign_missing hx ht hassign).andThen_error
                (.assignMissing hx hv hassign)
      | unary op operand =>
          refine (ih he.2 hs).andThen (.mono Nat.succ_lt_succ) (fun _ _ h => .unaryFails h) ?_
          intro v t w' ht hv
          obtain ⟨r, hr⟩ := exists_unaryYields config.truthiness he.1 v
          exact .of_realizes (Result.realizes_ofExcept hr.reports ht) (.unary hv hr)
      | binary left op right =>
          have hleft : n < left.height → n + 1 < (Expr.binary left op right).height := by
            rw [Expr.height]
            omega
          have hright : n < right.height → n + 1 < (Expr.binary left op right).height := by
            rw [Expr.height]
            omega
          refine (ih he.1 hs).andThen (.mono hleft) (fun _ _ h => .binaryLeftFails h) ?_
          intro a t w' ht ha
          refine (ih he.2.2 ht).andThen (.mono hright) (fun _ _ h => .binaryRightFails ha h) ?_
          intro b u w'' hu hb
          obtain ⟨r, hr⟩ := exists_binaryYields he.2.1 a b
          exact .of_realizes (Result.realizes_ofExcept hr.reports hu) (.binary ha hb hr)
      | logical left op right =>
          have hleft : n < left.height → n + 1 < (Expr.logical left op right).height := by
            rw [Expr.height]
            omega
          have hright : n < right.height → n + 1 < (Expr.logical left op right).height := by
            rw [Expr.height]
            omega
          refine (ih he.1 hs).andThen (.mono hleft) (fun _ _ h => .logicalFails h) ?_
          intro a t w' ht ha
          by_cases hcounts : Counts config.truthiness a
          · have hholds := counts_iff.1 hcounts
            rcases he.2.1.2 with hop | hop
            · rw [if_pos (by simp [decides, hop, hholds])]
              exact ⟨w', ht, .orLeft hop ha hcounts⟩
            · rw [if_neg (by simp [decides, hop, hholds])]
              exact (ih he.2.2 ht).imp (.mono hright) fun _ _ h => .andRight hop ha hcounts h
          · have hholds := counts_iff.not.1 hcounts
            rcases he.2.1.2 with hop | hop
            · rw [if_neg (by simp [decides, hop, hholds])]
              exact (ih he.2.2 ht).imp (.mono hright) fun _ _ h => .orRight hop ha hcounts h
            · rw [if_pos (by simp [decides, hop, hholds])]
              exact ⟨w', ht, .andLeft hop ha hcounts⟩
      | misplaced document => cases he

/-- What a condition is tested to be, in a world. -/
inductive Tests (rule : Truthiness) (c : Expr) (w : World) :
    Except Diagnostic Bool → World → Prop where
  | ok {v : Value} {w' : World} (h : Evaluates rule c w (.ok v) w') :
      Tests rule c w (.ok (rule.holds v)) w'
  | error {d : Diagnostic} {w' : World} (h : Evaluates rule c w (.error d) w') :
      Tests rule c w (.error d) w'

theorem explained_test (statement : Conditional) {c : Expr} (hc : c.Meets .typed) {s : State}
    {w : World} (hs : Represents shown s w) :
    Explained shown (OutOfLevels config.limit c.height) (Tests config.truthiness c w)
      (test config statement c s) := by
  refine (explained_eval config.limit hc hs).andThen (fun _ h => h) (fun _ _ h => .error h) ?_
  intro v t w' ht hv
  exact ⟨w', ht.trace config _, .ok hv⟩

variable {run : Stmt → State → Result Unit}

/-- Statements one after the other. -/
theorem explained_sequence {deep : Failure → Prop} {stmts : List Stmt}
    (hrun : ∀ stmt ∈ stmts, ∀ s w, Represents shown s w →
      Explained shown deep (Executes config.truthiness (.stmt stmt) w) (run stmt s)) {s : State}
    {w : World} (hs : Represents shown s w) :
    Explained shown deep (Executes config.truthiness (.stmts stmts) w) (sequence run stmts s) := by
  induction stmts generalizing s w with
  | nil => exact ⟨w, hs, .nil⟩
  | cons stmt stmts ih =>
      rw [List.forall_mem_cons] at hrun
      rw [sequence_cons]
      refine (hrun.1 s w hs).andThen (fun _ h => h) (fun _ _ h => .consFails h) ?_
      intro _ t w' ht hfirst
      exact (ih hrun.2 ht).imp (fun _ h => h) fun _ _ h => .cons hfirst h

/-- The rounds of a loop. -/
theorem explained_rounds {deep : Failure → Prop} {c : Expr} {body : Stmt} (hc : c.Meets .typed)
    (hdeep : ∀ failure, OutOfLevels config.limit c.height failure → deep failure)
    (hrun : ∀ s w, Represents shown s w →
      Explained shown deep (Executes config.truthiness (.stmt body) w) (run body s)) (k : Nat)
    {s : State} {w : World} (hs : Represents shown s w) :
    Explained shown deep (Executes config.truthiness (.stmt (.loop c body)) w)
      (rounds (test config .loop c) (run body) k s) := by
  induction k generalizing s w with
  | zero => trivial
  | succ k ih =>
      rw [rounds_succ]
      refine (explained_test .loop hc hs).andThen hdeep ?_ ?_
      · intro d w' h
        cases h with
        | error h => exact .loopFails h
      · intro holds t w' ht h
        obtain ⟨hv⟩ := h
        split
        · next hholds =>
          have hcounts := counts_iff.2 hholds
          refine (hrun t w' ht).andThen (fun _ h => h)
            (fun _ _ h => .loopBodyFails hv hcounts h) ?_
          intro _ u w'' hu hbody
          exact (ih hu).imp (fun _ h => h) fun _ _ h => .loopNext hv hcounts hbody h
        · next hholds => exact ⟨w', ht, .loopDone hv (counts_iff.not.2 hholds)⟩

/-- A step in a scope of its own. -/
theorem explained_inScope {deep : Failure → Prop} {step : State → Result Unit} {s : State}
    {w : World} {body : List Stmt} (hw : 0 < w.scopes.length)
    (h : Explained shown deep (Executes config.truthiness (.stmts body) w.push)
      (step (s.openScope config))) :
    Explained shown deep (Executes config.truthiness (.stmt (.block body)) w)
      (inScope config step s) := by
  have hclose : ∀ {t : State} {r : Except Diagnostic Unit} {w' : World}, Represents shown t w' →
      Executes config.truthiness (.stmts body) w.push r w' →
      Represents shown (t.closeScope config) w'.pop := by
    intro t r w' ht hbody
    refine ht.closeScope ?_ config
    rw [hbody.length_scopes]
    exact Nat.succ_lt_succ hw
  apply satisfies_inScope
  refine Result.Satisfies.imp h ?_ ?_
  · rintro _ t ⟨w', ht, hbody⟩
    exact ⟨w'.pop, hclose ht hbody, .block hbody⟩
  · rintro failure t (hdeep | ⟨d, w', hreport, ht, hbody⟩)
    · exact .inl hdeep
    · exact .inr ⟨d, w'.pop, hreport, hclose ht hbody, .block hbody⟩

/-- What a statement does, its parts being explained. -/
theorem explained_effect (k : Nat) {stmt : Stmt} (hstmt : stmt.Meets .typed)
    (hrun : ∀ (part : Stmt) (s : State) (w : World), part.Meets .typed → Represents shown s w →
      Explained shown (OutOfLevels config.limit part.height)
        (Executes config.truthiness (.stmt part) w) (run part s)) {s : State} {w : World}
    (hs : Represents shown s w) :
    Explained shown (OutOfLevels config.limit stmt.height)
      (Executes config.truthiness (.stmt stmt) w) (effect config run k stmt s) := by
  have hpart : ∀ (part : Stmt) (s : State) (w : World), part.height ≤ stmt.height →
      part.Meets .typed → Represents shown s w →
      Explained shown (OutOfLevels config.limit stmt.height)
        (Executes config.truthiness (.stmt part) w) (run part s) := by
    intro part s w hheight hpart hs
    exact (hrun part s w hpart hs).imp (.mono fun h => Nat.lt_of_lt_of_le h hheight) fun _ _ h => h
  have hdeep : ∀ {e : Expr}, e.height ≤ stmt.height → ∀ failure,
      OutOfLevels config.limit e.height failure → OutOfLevels config.limit stmt.height failure :=
    fun hheight => .mono fun h => Nat.lt_of_lt_of_le h hheight
  cases stmt with
  | expr value =>
      have hvalue : value.Meets .typed := hstmt
      refine (explained_eval config.limit hvalue hs).andThen (hdeep (by simp [Stmt.height]))
        (fun _ _ h => .exprFails h) ?_
      intro v t w' ht hv
      exact ⟨w', ht, .expr hv⟩
  | print value =>
      have hvalue : value.Meets .typed := hstmt
      refine (explained_eval config.limit hvalue hs).andThen (hdeep (by simp [Stmt.height]))
        (fun _ _ h => .printFails h) ?_
      intro v t w' ht hv
      exact ⟨_, ht.print v.text, .print hv⟩
  | declare name initial =>
      have hdefine : ∀ {x : String} {v : Value} {t : State} {w' : World}, name.lexeme = .str x →
          Represents shown t w' →
          ((t.define name v).andThen fun _ u =>
            .done () (u.trace config (.declare name.lexeme v))).Realizes shown (.ok ())
              (w'.bind x v) := by
        intro x v t w' hx ht
        refine (realizes_define hx v ht).andThen ?_
        intro u hu
        exact Result.realizes_done (hu.trace config _)
      cases initial with
      | none =>
          obtain ⟨x, hx⟩ := Token.Typed.lexeme hstmt
          exact .of_realizes (hdefine hx hs) (.declareNil hx)
      | some value =>
          obtain ⟨x, hx⟩ := hstmt.1.lexeme
          refine (explained_eval config.limit hstmt.2 hs).andThen (hdeep (by simp [Stmt.height]))
            (fun _ _ h => .declareFails h) ?_
          intro v t w' ht hv
          exact .of_realizes (hdefine hx ht) (.declare hx hv)
  | block body =>
      refine explained_inScope hs.chained.pos (explained_sequence ?_ (hs.openScope config))
      intro part hmem t w' ht
      refine hpart part t w' ?_ (allMeet_iff.1 hstmt part hmem) ht
      exact Nat.le_succ_of_le (height_le_of_mem hmem)
  | branch c whenTrue whenFalse =>
      obtain ⟨hc, htrue, hfalse⟩ := meets_branch hstmt
      obtain ⟨hcheight, htrueheight, hfalseheight⟩ :=
        height_branch_le (Nat.le_refl (Stmt.branch c whenTrue whenFalse).height)
      refine (explained_test .branch hc hs).andThen (hdeep hcheight) ?_ ?_
      · intro d w' h
        cases h with
        | error h => exact .branchFails h
      · intro holds t w' ht h
        obtain ⟨hv⟩ := h
        split
        · next hholds =>
          refine (hpart whenTrue t w' htrueheight htrue ht).imp (fun _ h => h) ?_
          exact fun _ _ h => .branchTrue hv (counts_iff.2 hholds) h
        · next hholds =>
          have hcounts := counts_iff.not.2 hholds
          cases whenFalse with
          | none => exact ⟨w', ht, .branchNone hv hcounts⟩
          | some other =>
              refine (hpart other t w' (hfalseheight other rfl) (hfalse other rfl) ht).imp
                (fun _ h => h) ?_
              exact fun _ _ h => .branchFalse hv hcounts h
  | loop c body =>
      obtain ⟨hcheight, hbodyheight⟩ := height_loop_le (Nat.le_refl (Stmt.loop c body).height)
      refine explained_rounds hstmt.1 (hdeep hcheight) ?_ k hs
      intro t w' ht
      exact hpart body t w' hbodyheight hstmt.2 ht
  | misplaced document inner => cases hstmt

/-- **What executing a statement does is derived**, with as much fuel as there may be. -/
theorem explained_exec (n : Nat) (stmt : Stmt) (s : State) (w : World) (hstmt : stmt.Meets .typed)
    (hs : Represents shown s w) :
    Explained shown (OutOfLevels config.limit stmt.height)
      (Executes config.truthiness (.stmt stmt) w) (exec config n stmt s) := by
  induction n generalizing stmt s w with
  | zero => trivial
  | succ n ih =>
      rw [exec_succ]
      refine (explained_effect n hstmt ih (hs.trace config _)).andThen (fun _ h => h)
        (fun _ _ h => h) ?_
      intro _ t w' ht h
      exact ⟨w', ht.trace config _, h⟩

end Explained

/-! ### Programs -/

section Programs

variable {config : Config} {shown : String} {program : List Stmt}

/-- What running a program does is derived, or reports the nesting. -/
theorem explained_interpret (hprogram : allMeet .typed program) (n : Nat) {s : State} {w : World}
    (hs : Represents shown s w) :
    Explained shown
      (fun failure => failure = .statementTooDeep ∧ config.limit < heightOfAll program)
      (Executes config.truthiness (.stmts program) w) (interpret config n program s) := by
  refine explained_sequence ?_ hs
  intro stmt hmem t w' ht
  have hstmt := allMeet_iff.1 hprogram stmt hmem
  have hexec : Explained shown (OutOfLevels config.limit stmt.height)
      (Executes config.truthiness (.stmt stmt) w') (exec config n stmt t) :=
    explained_exec n stmt t w' hstmt ht
  cases hresult : exec config n stmt t with
  | done _ u =>
      rw [hresult] at hexec
      exact hexec
  | unfinished => trivial
  | failed failure u =>
      rw [hresult] at hexec
      rcases hexec with ⟨rfl, hlt⟩ | ⟨d, w'', hreport, hu, hderives⟩
      · exact .inl ⟨rfl, Nat.lt_of_lt_of_le hlt (height_le_of_mem hmem)⟩
      · exact .of_realizes (realizes_reportNesting ⟨u, .failed hreport, hu⟩) hderives

/-- How a run of a program can end. -/
theorem interpret_cases (hprogram : allMeet .typed program) {s : State} {w : World}
    (hs : Represents shown s w) (n : Nat) :
    interpret config n program s = .unfinished ∨
      (∃ t, interpret config n program s = .failed .statementTooDeep t ∧
        config.limit < heightOfAll program) ∨
      ∃ r t w', (interpret config n program s).Ends r t ∧ Represents shown t w' ∧
        Executes config.truthiness (.stmts program) w r w' := by
  have hrun : Explained shown
      (fun failure => failure = .statementTooDeep ∧ config.limit < heightOfAll program)
      (Executes config.truthiness (.stmts program) w) (interpret config n program s) :=
    explained_interpret hprogram n hs
  cases hresult : interpret config n program s with
  | done _ t =>
      rw [hresult] at hrun
      obtain ⟨w', ht, hderives⟩ := hrun
      exact .inr (.inr ⟨_, t, w', .done, ht, hderives⟩)
  | failed failure t =>
      rw [hresult] at hrun
      rcases hrun with ⟨rfl, hlt⟩ | ⟨d, w', hreport, ht, hderives⟩
      · exact .inr (.inl ⟨t, rfl, hlt⟩)
      · exact .inr (.inr ⟨_, t, w', .failed hreport, ht, hderives⟩)
  | unfinished => exact .inl rfl

end Programs

/-! ### What the console shows -/

/-- While the trace goes to the file, the console shows what is printed. -/
theorem Outside.out_applyAll {o : Outside} (h : o.sink = .file) (effects : List Effect) :
    (o.applyAll effects.reverse).sink = .file ∧
      (o.applyAll effects.reverse).out = o.out ++ printedBy effects := by
  induction effects with
  | nil => exact ⟨h, by simp [printedBy]⟩
  | cons effect effects ih =>
      have happly : o.applyAll (effect :: effects).reverse =
          (o.applyAll effects.reverse).apply effect := by
        simp [Outside.applyAll]
      rw [happly]
      cases effect with
      | printed text => exact ⟨ih.1, by simp [apply, line, ih.2, printedBy, String.append_assoc]⟩
      | traced event => simp [apply, ih.1, ih.2, printedBy]

theorem Session.out_interpret {session : Session} (hsink : session.outside.sink = .file)
    {fuel : Nat} {program : List Stmt} {r : Except Diagnostic Unit} {t : State}
    (h : (ScriptLang.interpret session.config fuel program session.state).Ends r t) :
    (session.interpret fuel program).1.outside.out =
      session.outside.out ++ printedBy t.effects := by
  rw [Session.interpret]
  cases hresult : ScriptLang.interpret session.config fuel program session.state <;>
    rw [hresult] at h <;> cases h <;> exact (Outside.out_applyAll hsink t.effects).2

/-! ### Refinement -/

/-- **Runs refine the meaning of programs.** Every stack of scopes is represented by a state. From
any such state, at any level of the trace, a run of the program within its levels ends with an
outcome in a state that represents a world if and only if the outcome and the world are derived for
the program; and whatever the levels are, a run that ends has a derivation or reports the nesting.
In a session whose trace goes to the file the console then shows the text of the world. -/
theorem interpret_iff_executes {program : List Stmt} (hprogram : allMeet .typed program)
    {w : World} (hw : w.scopes ≠ []) :
    (∃ s, Represents w.out s w) ∧
    ∀ (config : Config) (shown : String) (s : State), Represents shown s w →
      (heightOfAll program ≤ config.limit → ∀ r w',
        (∃ fuel t, (interpret config fuel program s).Ends r t ∧ Represents shown t w') ↔
          Executes config.truthiness (.stmts program) w r w') ∧
      (∀ fuel, interpret config fuel program s = .unfinished ∨
        (∃ t, interpret config fuel program s = .failed .statementTooDeep t ∧
          config.limit < heightOfAll program) ∨
        ∃ r t w', (interpret config fuel program s).Ends r t ∧ Represents shown t w' ∧
          Executes config.truthiness (.stmts program) w r w') ∧
      ∀ session : Session, session.config = config → session.state = s →
        session.outside.out = shown → session.outside.sink = .file →
        ∀ fuel r t w', (interpret config fuel program s).Ends r t → Represents shown t w' →
          (session.interpret fuel program).1.outside.out = w'.out := by
  refine ⟨exists_represents hw, ?_⟩
  intro config shown s hs
  refine ⟨?_, interpret_cases hprogram hs, ?_⟩
  · intro hheight r w'
    constructor
    · rintro ⟨fuel, t, hends, ht⟩
      rcases interpret_cases hprogram hs fuel with h | ⟨u, -, hlt⟩ | ⟨r', u, w'', h, hu, hderives⟩
      · rw [h] at hends
        cases hends
      · omega
      · obtain ⟨rfl, rfl⟩ := hends.unique h
        rw [ht.unique hu]
        exact hderives
    · intro h
      obtain ⟨fuel, hfuel⟩ := h.realizes_interpret hs.chained.pos hheight
      exact ⟨fuel, hfuel fuel (Nat.le_refl fuel) s hs⟩
  · rintro session rfl rfl rfl hsink fuel r t w' hends ht
    rw [Session.out_interpret hsink hends, ht.out_eq]

/-- A loop in a block whose body assigns, prints and then reads a name that nothing declares. -/
def failingLoop : List Stmt :=
  let word (kind : TokenKind) (text : String) : Token :=
    { kind, lexeme := .str text, line := .int 1 }
  [.block
    [.declare (word .identifier "a") (some (.literal (.str "x"))),
      .loop (.ref (word .identifier "a"))
        (.block
          [.expr (.assign (word .identifier "a") (.literal .null)),
            .print (.ref (word .identifier "a")),
            .expr (.ref (word .identifier "b"))])]]

/-- The failure leaves the outermost scope as it was, and the text printed before it. -/
theorem interpret_iff_executes_failingLoop :
    allMeet .typed failingLoop ∧ heightOfAll failingLoop ≤ 9 ∧
      Executes .legacy (.stmts failingLoop) { scopes := [∅], out := "" }
        (.error
          { stage := .run "NameError", line := .int 1
            message := "Cannot find the variable 'b' in the scope" })
        { scopes := [∅], out := "nil\n" } := by
  have htyped : allMeet .typed failingLoop := by
    have hword : ∀ text, Token.Typed
        { kind := .identifier, lexeme := .str text, line := .int 1, literal := .null } :=
      fun text => ⟨⟨text, rfl⟩, ⟨1, rfl⟩, trivial⟩
    simp [failingLoop, allMeet, Stmt.Meets, Expr.Meets, Demands.typed, hword, Json.IsScalar]
  have hheight : heightOfAll failingLoop ≤ 9 := by decide
  have hrun : interpret { limit := 9 } 9 failingLoop .initial =
      .failed (.undefined (.str "b") (.int 1)) (State.initial.print "nil") := by
    cbv
  have hafter : Represents "" (State.initial.print "nil") { scopes := [∅], out := "nil\n" } :=
    (Represents.initial "").print "nil"
  refine ⟨htyped, hheight, ?_⟩
  have hrefines := (interpret_iff_executes htyped (List.cons_ne_nil _ _)).2 { limit := 9 } ""
    .initial (.initial "")
  refine (hrefines.1 hheight _ _).1 ⟨9, _, ?_, hafter⟩
  rw [hrun]
  exact .failed rfl

end ScriptLang
