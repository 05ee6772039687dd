import ScriptLang.Proofs.Run.Represents
import ScriptLang.Proofs.Tree.Demands

/-!
# What programs mean happens

Where a program has a meaning, a run with enough fuel and enough levels ends as the meaning says:
with the same outcome, and in a state that represents the world that is derived.

## Main Definitions

* `Result.Ends`: a step ends with an outcome, failures as they are reported.
* `Result.Realizes`: it does so in a state that represents a world.
* `Code.Reaches`: with enough fuel, code ends with an outcome and in a world.

## Main Statements

* `counts_iff`, `bang_iff`, `UnaryYields.reports`, `BinaryYields.reports`: values and operators.
* `Evaluates.realizes`: what is derived of an expression.
* `Executes.reaches`, `Executes.realizes_interpret`: what is derived of statements and programs.

## Design Notes

The induction is on derivations. The fuel of the body of a loop and the number of its rounds are
kept apart: a derivation counts the rounds, and a run gives every body the same fuel.
-/

namespace ScriptLang

/-! ### Values and operators -/

theorem counts_iff {rule : Truthiness} {v : Value} : Counts rule v ↔ rule.holds v = true := by
  cases rule with
  | standard =>
      cases v with
      | bool b => cases b <;> simp [Counts, Truthiness.holds]
      | _ => simp [Counts, Truthiness.holds]
  | legacy => cases v <;> simp [Counts, Truthiness.holds]

theorem bang_iff {rule : Truthiness} {v : Value} {b : Bool} :
    Bang rule v b ↔ rule.negate v = b := by
  constructor
  · intro h
    cases h with
    | standard h =>
        rw [counts_iff] at h
        simp only [Truthiness.negate]
        cases b <;> simpa using h
    | bool => rfl
    | legacy hv h =>
        rw [counts_iff] at h
        cases v with
        | bool b => exact absurd rfl (hv b)
        | _ => exact Bool.eq_iff_iff.2 h.symm
  · rintro rfl
    cases rule with
    | standard =>
        refine .standard ?_
        rw [counts_iff]
        simp [Truthiness.negate]
    | legacy =>
        cases v with
        | bool b => exact .bool
        | _ => exact .legacy (by simp) (by rw [counts_iff]; rfl)

theorem ofLiteral?_of_denotes {j : Json} {v : Value} (h : Denotes j v) :
    Value.ofLiteral? j = some v := by
  cases h <;> rfl

theorem exists_denotes {j : Json} (h : j.IsScalar) : ∃ v, Denotes j v := by
  cases j with
  | null => exact ⟨_, .nil⟩
  | bool b => exact ⟨_, .bool b⟩
  | num x => exact ⟨_, .num x⟩
  | str text => exact ⟨_, .str text⟩
  | _ => cases h

/-- The outcome that a computation on values is reported as. -/
inductive Reports {α : Type} : Except Failure α → Except Diagnostic α → Prop where
  | ok {value : α} : Reports (.ok value) (.ok value)
  | error {failure : Failure} {d : Diagnostic} (h : failure.diagnostic? = some d) :
      Reports (.error failure) (.error d)

section Operators

variable {rule : Truthiness} {op : Token} {v a b : Value} {r : Except Diagnostic Value}

theorem UnaryYields.reports (h : UnaryYields rule op v r) : Reports (applyUnary rule op v) r := by
  unfold applyUnary
  cases h with
  | minus hop =>
      rw [hop]
      exact .ok
  | minusOther hop hv =>
      rw [hop]
      cases v with
      | num x => exact absurd rfl (hv x)
      | _ => exact .error rfl
  | bang hop h =>
      rw [hop, ← bang_iff.1 h]
      exact .ok
  | unknown htext hminus hbang =>
      split
      · next hop => exact absurd hop hminus
      · next hop _ => exact absurd hop hminus
      · next hop => exact absurd hop hbang
      · exact .error (by rw [htext]; rfl)

theorem exists_unaryYields (rule : Truthiness) (hop : op.Typed) (v : Value) :
    ∃ r, UnaryYields rule op v r := by
  obtain ⟨text, htext⟩ := hop.lexeme
  by_cases hminus : op.kind = .minus
  · cases v with
    | num x => exact ⟨_, .minus hminus⟩
    | _ => exact ⟨_, .minusOther hminus (by simp)⟩
  · by_cases hbang : op.kind = .bang
    · exact ⟨_, .bang hbang (bang_iff.2 rfl)⟩
    · exact ⟨_, .unknown htext hminus hbang⟩

theorem isArithmetic_iff {kind : TokenKind} : isArithmetic kind = true ↔ kind ∈ calculating := by
  cases kind <;> decide

theorem isComparison_iff {kind : TokenKind} : isComparison kind = true ↔ kind ∈ comparing := by
  cases kind <;> decide

theorem Computes.applyBinary_eq {x y : Float} (h : Computes op.kind x y v) :
    applyBinary op (.num x) (.num y) = .ok v := by
  cases hop : op.kind <;> rw [hop] at h <;> cases h <;>
    simp [applyBinary, isArithmetic, isComparison, calculate, compareNumbers, *]

theorem applyBinary_of_not_bothNumbers (hab : ¬ BothNumbers a b) :
    applyBinary op a b =
      if isArithmetic op.kind then .error (.notNumbers op.lexeme a b op.line)
      else if isComparison op.kind then .error (.notComparable op.line)
      else .error (.noBinaryOperator op.lexeme op.line) := by
  have hnot : ∀ x y, a = .num x → b = .num y → False :=
    fun x y ha hb => hab ⟨⟨x, ha⟩, ⟨y, hb⟩⟩
  rw [applyBinary]
  exact hnot

theorem BinaryYields.reports (h : BinaryYields op a b r) : Reports (applyBinary op a b) r := by
  cases h with
  | computes h =>
      rw [h.applyBinary_eq]
      exact .ok
  | byZero hop hy =>
      simp only [applyBinary, hop, isArithmetic, calculate, hy]
      exact .error rfl
  | notNumbers hop htext hab =>
      rw [applyBinary_of_not_bothNumbers hab, if_pos (isArithmetic_iff.2 hop)]
      exact .error (by rw [htext]; rfl)
  | notComparable hop hab =>
      have hnot : ¬ isArithmetic op.kind = true := by
        revert hop
        cases op.kind <;> decide
      rw [applyBinary_of_not_bothNumbers hab, if_neg hnot, if_pos (isComparison_iff.2 hop)]
      exact .error rfl
  | unknown htext hcalculating hcomparing =>
      have harithmetic : ¬ isArithmetic op.kind = true := isArithmetic_iff.not.2 hcalculating
      have hcomparison : ¬ isComparison op.kind = true := isComparison_iff.not.2 hcomparing
      unfold applyBinary
      rw [if_neg harithmetic, if_neg hcomparison]
      exact .error (by rw [htext]; rfl)

theorem exists_binaryYields (hop : op.Typed) (a b : Value) : ∃ r, BinaryYields op a b r := by
  obtain ⟨text, htext⟩ := hop.lexeme
  by_cases hab : BothNumbers a b
  · obtain ⟨⟨x, rfl⟩, y, rfl⟩ := hab
    by_cases hknown : op.kind ∈ calculating ∨ op.kind ∈ comparing
    · by_cases hzero : op.kind = .slash ∧ (y == 0) = true
      · exact ⟨_, .byZero hzero.1 hzero.2⟩
      · have hcomputes : ∃ v, Computes op.kind x y v := by
          revert hknown hzero
          cases op.kind <;> intro hknown hzero
          case slash => exact ⟨_, .slash (by simpa using hzero)⟩
          all_goals first
            | exact ⟨_, by constructor⟩
            | exact absurd hknown (by decide)
        obtain ⟨v, hv⟩ := hcomputes
        exact ⟨_, .computes hv⟩
    · rw [not_or] at hknown
      exact ⟨_, .unknown htext hknown.1 hknown.2⟩
  · by_cases hcalculating : op.kind ∈ calculating
    · exact ⟨_, .notNumbers hcalculating htext hab⟩
    · by_cases hcomparing : op.kind ∈ comparing
      · exact ⟨_, .notComparable hcomparing hab⟩
      · exact ⟨_, .unknown htext hcalculating hcomparing⟩

end Operators

/-! ### Outcomes -/

namespace Result

variable {α β : Type}

/-- The step ends with an outcome, failures as they are reported, and leaves a state. -/
inductive Ends : Result α → Except Diagnostic α → State → Prop where
  | done {value : α} {t : State} : Ends (.done value t) (.ok value) t
  | failed {failure : Failure} {d : Diagnostic} {t : State} (h : failure.diagnostic? = some d) :
      Ends (.failed failure t) (.error d) t

theorem Ends.unique {result : Result α} {r r' : Except Diagnostic α} {t t' : State}
    (h : result.Ends r t) (h' : result.Ends r' t') : r = r' ∧ t = t' := by
  cases h with
  | done =>
      cases h'
      exact ⟨rfl, rfl⟩
  | failed h =>
      cases h' with
      | failed h' => exact ⟨congrArg _ (Option.some.inj (h.symm.trans h')), rfl⟩

/-- The step ends with an outcome, in a state that represents a world. -/
def Realizes (shown : String) (result : Result α) (r : Except Diagnostic α) (w : World) : Prop :=
  ∃ t, result.Ends r t ∧ Represents shown t w

namespace Realizes

variable {shown : String} {result : Result α} {next : α → State → Result β}
  {r : Except Diagnostic β} {w w' : World}

theorem andThen {value : α} (h : result.Realizes shown (.ok value) w)
    (hnext : ∀ t, Represents shown t w → (next value t).Realizes shown r w') :
    (result.andThen next).Realizes shown r w' := by
  obtain ⟨t, ht, hrepresents⟩ := h
  cases ht
  exact hnext t hrepresents

theorem andThen_error {d : Diagnostic} (h : result.Realizes shown (.error d) w) :
    (result.andThen next).Realizes shown (.error d) w := by
  obtain ⟨t, ht, hrepresents⟩ := h
  cases ht with
  | failed h => exact ⟨t, .failed h, hrepresents⟩

end Realizes

theorem realizes_done {shown : String} {value : α} {t : State} {w : World}
    (h : Represents shown t w) : (Result.done value t).Realizes shown (.ok value) w :=
  ⟨t, .done, h⟩

theorem realizes_ofExcept {shown : String} {given : Except Failure α} {r : Except Diagnostic α}
    {t : State} {w : World} (hgiven : Reports given r) (h : Represents shown t w) :
    (Result.ofExcept t given).Realizes shown r w := by
  cases hgiven with
  | ok => exact ⟨t, .done, h⟩
  | error hreport => exact ⟨t, .failed hreport, h⟩

end Result

/-! ### What is derived happens -/

section Realizes

variable {config : Config} {shown : String}

theorem realizes_read {name : Token} {x : String} (hname : name.lexeme = .str x) {s : State}
    {w : World} (hs : Represents shown s w) :
    (s.read name).Realizes shown
      (match w.lookup? x with
        | some v => .ok v
        | none => .error (reportAt "NameError"
            ("Cannot find the variable '" ++ x ++ "' in the scope") name)) w := by
  simp only [State.read, hname, Name.ofLexeme?_str, hs.get?_eq x]
  cases w.lookup? x with
  | some v => exact ⟨s, .done, hs⟩
  | none => exact ⟨s, .failed rfl, hs⟩

theorem realizes_assign {name : Token} {x : String} (hname : name.lexeme = .str x) {v : Value}
    {s : State} {w w' : World} (hs : Represents shown s w) (hassign : w.assign? x v = some w') :
    (s.assign name v).Realizes shown (.ok ()) w' := by
  have h := hs.assign x v
  rw [hassign] at h
  obtain ⟨forest, hforest, hrepresents⟩ := h
  simp only [State.assign, hname, Name.ofLexeme?_str, hforest]
  exact ⟨_, .done, hrepresents⟩

theorem realizes_assign_missing {name : Token} {x : String} (hname : name.lexeme = .str x)
    {v : Value} {s : State} {w : World} (hs : Represents shown s w)
    (hassign : w.assign? x v = none) :
    (s.assign name v).Realizes shown (.error (reportAt "NameError"
      ("Cannot assign to undefined variable '" ++ x ++ "'") name)) w := by
  have h := hs.assign x v
  rw [hassign] at h
  simp only [State.assign, hname, Name.ofLexeme?_str, h]
  exact ⟨s, .failed rfl, hs⟩

theorem realizes_define {name : Token} {x : String} (hname : name.lexeme = .str x) (v : Value)
    {s : State} {w : World} (hs : Represents shown s w) :
    (s.define name v).Realizes shown (.ok ()) (w.bind x v) := by
  simp only [State.define, hname, Name.ofLexeme?_str]
  exact ⟨_, .done, hs.define x v⟩

theorem exists_level {e : Expr} {n : Nat} (h : e.height ≤ n) : ∃ m, n = m + 1 := by
  have hpos : 0 < e.height := by cases e <;> simp [Expr.height]
  exact ⟨n - 1, by omega⟩

/-- **What is derived of an expression is what evaluating it does**, given enough levels. -/
theorem Evaluates.realizes {e : Expr} {w w' : World} {r : Except Diagnostic Value}
    (h : Evaluates config.truthiness e w r w') {n : Nat} (hn : e.height ≤ n) {s : State}
    (hs : Represents shown s w) : (eval config n e s).Realizes shown r w' := by
  induction h generalizing n s with obtain ⟨n, rfl⟩ := exists_level hn
  | literal h =>
      rw [eval, ofLiteral?_of_denotes h]
      exact Result.realizes_done hs
  | group _ ih => exact ih (Nat.le_of_succ_le_succ hn) hs
  | ref hname h =>
      have hread := realizes_read hname hs
      rw [h] at hread
      exact hread
  | refMissing hname h =>
      have hread := realizes_read hname hs
      rw [h] at hread
      exact hread
  | assign hname _ hassign ih =>
      refine (ih (Nat.le_of_succ_le_succ hn) hs).andThen ?_
      intro t ht
      refine (realizes_assign hname ht hassign).andThen ?_
      intro u hu
      exact Result.realizes_done (hu.trace config _)
  | assignMissing hname _ hassign ih =>
      refine (ih (Nat.le_of_succ_le_succ hn) hs).andThen ?_
      intro t ht
      exact (realizes_assign_missing hname ht hassign).andThen_error
  | assignFails _ ih => exact (ih (Nat.le_of_succ_le_succ hn) hs).andThen_error
  | unary _ hop ih =>
      refine (ih (Nat.le_of_succ_le_succ hn) hs).andThen ?_
      intro t ht
      exact Result.realizes_ofExcept hop.reports ht
  | unaryFails _ ih => exact (ih (Nat.le_of_succ_le_succ hn) hs).andThen_error
  | binary _ _ hop ihleft ihright =>
      obtain ⟨hleft, hright⟩ := max_le_iff.1 (Nat.le_of_succ_le_succ hn)
      refine (ihleft hleft hs).andThen ?_
      intro t ht
      refine (ihright hright ht).andThen ?_
      intro u hu
      exact Result.realizes_ofExcept hop.reports hu
  | binaryLeftFails _ ih =>
      exact (ih (max_le_iff.1 (Nat.le_of_succ_le_succ hn)).1 hs).andThen_error
  | binaryRightFails _ _ ihleft ihright =>
      obtain ⟨hleft, hright⟩ := max_le_iff.1 (Nat.le_of_succ_le_succ hn)
      refine (ihleft hleft hs).andThen ?_
      intro t ht
      exact (ihright hright ht).andThen_error
  | orLeft hop _ ha ih =>
      refine (ih (max_le_iff.1 (Nat.le_of_succ_le_succ hn)).1 hs).andThen ?_
      intro t ht
      rw [if_pos (by simp [decides, hop, counts_iff.1 ha])]
      exact Result.realizes_done ht
  | orRight hop _ ha _ ihleft ihright =>
      obtain ⟨hleft, hright⟩ := max_le_iff.1 (Nat.le_of_succ_le_succ hn)
      refine (ihleft hleft hs).andThen ?_
      intro t ht
      rw [counts_iff] at ha
      rw [if_neg (by simpa [decides, hop] using ha)]
      exact ihright hright ht
  | andLeft hop _ ha ih =>
      refine (ih (max_le_iff.1 (Nat.le_of_succ_le_succ hn)).1 hs).andThen ?_
      intro t ht
      rw [counts_iff] at ha
      rw [if_pos (by simpa [decides, hop] using ha)]
      exact Result.realizes_done ht
  | andRight hop _ ha _ ihleft ihright =>
      obtain ⟨hleft, hright⟩ := max_le_iff.1 (Nat.le_of_succ_le_succ hn)
      refine (ihleft hleft hs).andThen ?_
      intro t ht
      rw [if_neg (by simp [decides, hop, counts_iff.1 ha])]
      exact ihright hright ht
  | logicalFails _ ih =>
      exact (ih (max_le_iff.1 (Nat.le_of_succ_le_succ hn)).1 hs).andThen_error

/-- A condition, and whether it holds. -/
theorem Evaluates.realizes_test {c : Expr} {w w' : World} {v : Value} (statement : Conditional)
    (h : Evaluates config.truthiness c w (.ok v) w') (hheight : c.height ≤ config.limit) {s : State}
    (hs : Represents shown s w) :
    (test config statement c s).Realizes shown (.ok (config.truthiness.holds v)) w' := by
  refine (h.realizes hheight hs).andThen ?_
  intro t ht
  exact Result.realizes_done (ht.trace config _)

/-- The length of the longest path through what is executed. -/
def Code.height : Code → Nat
  | .stmt only => only.height
  | .stmts list => heightOfAll list

/-- The step that executes code, its parts with fuel `n` and a loop for at most `k` rounds. -/
def Code.run (config : Config) (n k : Nat) : Code → State → Result Unit
  | .stmt only => effect config (exec config n) k only
  | .stmts list => sequence (exec config n) list

/-- With enough fuel the code ends with the outcome and in the world. -/
def Code.Reaches (config : Config) (shown : String) (code : Code) (w : World)
    (r : Except Diagnostic Unit) (w' : World) : Prop :=
  ∃ m, ∀ n k, m ≤ n → m ≤ k → ∀ s, Represents shown s w →
    (code.run config n k s).Realizes shown r w'

variable {stmt : Stmt} {w w' w'' : World} {r : Except Diagnostic Unit}

/-- A statement with a unit of fuel more than its parts need. -/
theorem Code.Reaches.exec (h : (Code.stmt stmt).Reaches config shown w r w') :
    ∃ m, ∀ n, m ≤ n → ∀ s, Represents shown s w →
      (ScriptLang.exec config n stmt s).Realizes shown r w' := by
  obtain ⟨m, hm⟩ := h
  refine ⟨m + 1, ?_⟩
  intro n hn s hs
  obtain ⟨n, rfl⟩ : ∃ k, n = k + 1 := ⟨n - 1, by omega⟩
  have heffect := hm n n (by omega) (by omega) _ (hs.trace config (.execute stmt.kind))
  rw [exec_succ]
  cases r with
  | ok _ =>
      refine Result.Realizes.andThen heffect ?_
      intro t ht
      exact Result.realizes_done (ht.trace config _)
  | error d => exact Result.Realizes.andThen_error heffect

/-- A step in a scope of its own. -/
theorem realizes_inScope {step : State → Result Unit} {s : State}
    (h : (step (s.openScope config)).Realizes shown r w) (hscopes : 1 < w.scopes.length) :
    (inScope config step s).Realizes shown r w.pop := by
  obtain ⟨t, hends, ht⟩ := h
  unfold inScope
  cases hstep : step (s.openScope config) <;> rw [hstep] at hends <;> cases hends
  · exact ⟨_, .done, ht.closeScope hscopes config⟩
  · next hreport => exact ⟨_, .failed hreport, ht.closeScope hscopes config⟩

theorem rounds_succ (test : State → Result Bool) (body : State → Result Unit) (k : Nat)
    (s : State) :
    rounds test body (k + 1) s = (test s).andThen fun holds s =>
      if holds then (body s).andThen fun _ s => rounds test body k s else .done () s := by
  rw [rounds]
  cases test s with
  | done holds t => cases holds <;> cases hbody : body t <;> simp [hbody]
  | failed failure t => rfl
  | unfinished => rfl

theorem height_branch_le {c : Expr} {whenTrue : Stmt} {whenFalse : Option Stmt} {n : Nat}
    (h : (Stmt.branch c whenTrue whenFalse).height ≤ n) :
    c.height ≤ n ∧ whenTrue.height ≤ n ∧ ∀ other ∈ whenFalse, other.height ≤ n := by
  cases whenFalse with
  | none =>
      rw [Stmt.height] at h
      exact ⟨by omega, by omega, by simp⟩
  | some other =>
      rw [Stmt.height] at h
      refine ⟨by omega, by omega, ?_⟩
      intro part hpart
      cases hpart
      omega

theorem height_loop_le {c : Expr} {body : Stmt} {n : Nat} (h : (Stmt.loop c body).height ≤ n) :
    c.height ≤ n ∧ body.height ≤ n := by
  rw [Stmt.height] at h
  exact ⟨by omega, by omega⟩

theorem meets_branch {d : Demands} {c : Expr} {whenTrue : Stmt} {whenFalse : Option Stmt}
    (h : (Stmt.branch c whenTrue whenFalse).Meets d) :
    c.Meets d ∧ whenTrue.Meets d ∧ ∀ other ∈ whenFalse, other.Meets d := by
  cases whenFalse with
  | none => exact ⟨h.1, h.2, by simp⟩
  | some other => exact ⟨h.1, h.2.1, by simpa using h.2.2⟩

/-- **What is derived of statements is what executing them does**, given enough fuel. -/
theorem Executes.reaches {code : Code} (h : Executes config.truthiness code w r w')
    (hw : 0 < w.scopes.length) (hheight : code.height ≤ config.limit) :
    code.Reaches config shown w r w' := by
  induction h with
  | expr h =>
      refine ⟨0, fun n k _ _ s hs => (h.realizes (Nat.le_of_succ_le hheight) hs).andThen ?_⟩
      intro t ht
      exact Result.realizes_done ht
  | exprFails h =>
      exact ⟨0, fun n k _ _ s hs => (h.realizes (Nat.le_of_succ_le hheight) hs).andThen_error⟩
  | print h =>
      refine ⟨0, fun n k _ _ s hs => (h.realizes (Nat.le_of_succ_le hheight) hs).andThen ?_⟩
      intro t ht
      exact Result.realizes_done (ht.print _)
  | printFails h =>
      exact ⟨0, fun n k _ _ s hs => (h.realizes (Nat.le_of_succ_le hheight) hs).andThen_error⟩
  | declare hname h =>
      refine ⟨0, fun n k _ _ s hs => (h.realizes (Nat.le_of_succ_le hheight) hs).andThen ?_⟩
      intro t ht
      refine (realizes_define hname _ ht).andThen ?_
      intro u hu
      exact Result.realizes_done (hu.trace config _)
  | declareNil hname =>
      refine ⟨0, fun n k _ _ s hs => (realizes_define hname _ hs).andThen ?_⟩
      intro t ht
      exact Result.realizes_done (ht.trace config _)
  | declareFails h =>
      exact ⟨0, fun n k _ _ s hs => (h.realizes (Nat.le_of_succ_le hheight) hs).andThen_error⟩
  | block h ih =>
      obtain ⟨m, hm⟩ := ih (Nat.succ_pos _) (Nat.le_of_succ_le hheight)
      refine ⟨m, fun n k hn hk s hs => realizes_inScope (hm n k hn hk _ (hs.openScope config)) ?_⟩
      rw [h.length_scopes]
      exact Nat.succ_lt_succ hw
  | branchTrue hc hv _ ih =>
      obtain ⟨hcheight, htrue, -⟩ := height_branch_le hheight
      obtain ⟨m, hm⟩ := (ih (hc.length_scopes ▸ hw) htrue).exec
      refine ⟨m, fun n k hn _ s hs => (hc.realizes_test .branch hcheight hs).andThen ?_⟩
      intro t ht
      rw [counts_iff.1 hv]
      exact hm n hn t ht
  | branchFalse hc hv _ ih =>
      obtain ⟨hcheight, -, hfalse⟩ := height_branch_le hheight
      obtain ⟨m, hm⟩ := (ih (hc.length_scopes ▸ hw) (hfalse _ rfl)).exec
      refine ⟨m, fun n k hn _ s hs => (hc.realizes_test .branch hcheight hs).andThen ?_⟩
      intro t ht
      rw [if_neg (counts_iff.not.1 hv)]
      exact hm n hn t ht
  | branchNone hc hv =>
      obtain ⟨hcheight, -, -⟩ := height_branch_le hheight
      refine ⟨0, fun n k _ _ s hs => (hc.realizes_test .branch hcheight hs).andThen ?_⟩
      intro t ht
      rw [if_neg (counts_iff.not.1 hv)]
      exact Result.realizes_done ht
  | branchFails hc =>
      obtain ⟨hcheight, -, -⟩ := height_branch_le hheight
      exact ⟨0, fun n k _ _ s hs => (hc.realizes hcheight hs).andThen_error.andThen_error⟩
  | loopDone hc hv =>
      obtain ⟨hcheight, -⟩ := height_loop_le hheight
      refine ⟨1, fun n k _ hk s hs => ?_⟩
      obtain ⟨k, rfl⟩ : ∃ j, k = j + 1 := ⟨k - 1, by omega⟩
      rw [Code.run, effect, rounds_succ]
      refine (hc.realizes_test .loop hcheight hs).andThen ?_
      intro t ht
      rw [if_neg (counts_iff.not.1 hv)]
      exact Result.realizes_done ht
  | loopNext hc hv hbody _ ihbody ihloop =>
      obtain ⟨hcheight, hbodyheight⟩ := height_loop_le hheight
      have hw' := hc.length_scopes ▸ hw
      obtain ⟨m, hm⟩ := (ihbody hw' hbodyheight).exec
      obtain ⟨m', hm'⟩ := ihloop (hbody.length_scopes ▸ hw') hheight
      -- The rounds that are left are one fewer, the fuel of the body is the same in all of them.
      refine ⟨max m (m' + 1), fun n k hn hk s hs => ?_⟩
      obtain ⟨k, rfl⟩ : ∃ j, k = j + 1 := ⟨k - 1, by omega⟩
      rw [Code.run, effect, rounds_succ]
      refine (hc.realizes_test .loop hcheight hs).andThen ?_
      intro t ht
      rw [if_pos (counts_iff.1 hv)]
      refine (hm n (by omega) t ht).andThen ?_
      intro u hu
      exact hm' n k (by omega) (by omega) u hu
  | loopBodyFails hc hv _ ihbody =>
      obtain ⟨hcheight, hbodyheight⟩ := height_loop_le hheight
      obtain ⟨m, hm⟩ := (ihbody (hc.length_scopes ▸ hw) hbodyheight).exec
      refine ⟨m + 1, fun n k hn hk s hs => ?_⟩
      obtain ⟨k, rfl⟩ : ∃ j, k = j + 1 := ⟨k - 1, by omega⟩
      rw [Code.run, effect, rounds_succ]
      refine (hc.realizes_test .loop hcheight hs).andThen ?_
      intro t ht
      rw [if_pos (counts_iff.1 hv)]
      exact (hm n (by omega) t ht).andThen_error
  | loopFails hc =>
      obtain ⟨hcheight, -⟩ := height_loop_le hheight
      refine ⟨1, fun n k _ hk s hs => ?_⟩
      obtain ⟨k, rfl⟩ : ∃ j, k = j + 1 := ⟨k - 1, by omega⟩
      rw [Code.run, effect, rounds_succ]
      exact (hc.realizes hcheight hs).andThen_error.andThen_error
  | nil => exact ⟨0, fun n k _ _ s hs => Result.realizes_done hs⟩
  | cons hfirst _ ihfirst ihothers =>
      obtain ⟨hfirstheight, hothersheight⟩ := max_le_iff.1 hheight
      obtain ⟨m, hm⟩ := (ihfirst hw hfirstheight).exec
      obtain ⟨m', hm'⟩ := ihothers (hfirst.length_scopes ▸ hw) hothersheight
      refine ⟨max m m', fun n k hn hk s hs => ?_⟩
      rw [Code.run, sequence_cons]
      refine (hm n (by omega) s hs).andThen ?_
      intro t ht
      exact hm' n k (by omega) (by omega) t ht
  | consFails _ ih =>
      obtain ⟨m, hm⟩ := (ih hw (max_le_iff.1 hheight).1).exec
      refine ⟨m, fun n k hn _ s hs => ?_⟩
      rw [Code.run, sequence_cons]
      exact (hm n hn s hs).andThen_error

/-! ### Programs -/

/-- The report of the nesting changes nothing about an outcome that is reported already. -/
theorem realizes_reportNesting {result : Result Unit}
    (h : result.Realizes shown r w) : (reportNesting result).Realizes shown r w := by
  obtain ⟨t, hends, ht⟩ := h
  cases hends with
  | done => exact ⟨t, .done, ht⟩
  | @failed failure d t hreport =>
      cases failure with
      | tooDeep => cases hreport
      | _ => exact ⟨t, .failed hreport, ht⟩

theorem Executes.realizes_interpret {program : List Stmt}
    (h : Executes config.truthiness (.stmts program) w r w') (hw : 0 < w.scopes.length)
    (hheight : heightOfAll program ≤ config.limit) :
    ∃ m, ∀ n, m ≤ n → ∀ s, Represents shown s w →
      (interpret config n program s).Realizes shown r w' := by
  induction program generalizing w with
  | nil =>
      cases h
      exact ⟨0, fun n _ s hs => Result.realizes_done hs⟩
  | cons stmt stmts ih =>
      obtain ⟨hfirstheight, hothersheight⟩ := max_le_iff.1 hheight
      cases h with
      | cons hfirst hothers =>
          obtain ⟨m, hm⟩ := (hfirst.reaches hw hfirstheight).exec
          obtain ⟨m', hm'⟩ := ih hothers (hfirst.length_scopes ▸ hw) hothersheight
          refine ⟨max m m', fun n hn s hs => ?_⟩
          rw [interpret, sequence_cons]
          refine (realizes_reportNesting (hm n (by omega) s hs)).andThen ?_
          intro t ht
          exact hm' n (by omega) t ht
      | consFails hfirst =>
          obtain ⟨m, hm⟩ := (hfirst.reaches hw hfirstheight).exec
          refine ⟨m, fun n hn s hs => ?_⟩
          rw [interpret, sequence_cons]
          exact (realizes_reportNesting (hm n hn s hs)).andThen_error

end Realizes

end ScriptLang
