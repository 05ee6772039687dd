import ScriptLang.Proofs.Run.Call
import ScriptLang.Proofs.Run.Realizes

/-!
# Nesting and runs

The levels that a run may open only decide whether it is stopped. A run that is not stopped by its
nesting is the same run with more levels, and with as many levels as the program is high no run is
stopped.

More generally, runs of two programs of one shape are compared by comparing the expressions that
stand in the same places.

## Main Definitions

* `Result.InDepth`: a step that is not stopped by its nesting.
* `Result.KeptBy`: another step that is the same unless the first is stopped by its nesting.
* `Stmt.Alike`: statements of one shape.

## Main Statements

* `inDepth_eval`, `inDepth_interpret`: levels that suffice.
* `eval_keptBy`: more levels change nothing.
* `exec_keptBy`, `interpret_keptBy`: the same for programs of one shape.
-/

namespace ScriptLang

/-! ### Steps that are stopped -/

/-- Is it the nesting that is too deep? -/
def Failure.isNesting : Failure → Bool
  | .tooDeep => true
  | .statementTooDeep => true
  | _ => false

namespace Result

variable {α β : Type}

/-- The step is not stopped by its nesting. -/
def InDepth (r : Result α) : Prop :=
  r.Satisfies (fun _ _ => True) fun failure _ => failure.isNesting = false

/-- Unless the first step is stopped by its nesting, the second one is the same. -/
def KeptBy (r r' : Result α) : Prop := r.InDepth → r' = r

theorem InDepth.andThen {r : Result α} {next : α → State → Result β} (h : r.InDepth)
    (hnext : ∀ value t, (next value t).InDepth) : (r.andThen next).InDepth :=
  Satisfies.andThen h fun value t _ => hnext value t

theorem KeptBy.refl (r : Result α) : r.KeptBy r := fun _ => rfl

theorem KeptBy.andThen {r r' : Result α} {next next' : α → State → Result β} (h : r.KeptBy r')
    (hnext : ∀ value t, (next value t).KeptBy (next' value t)) :
    (r.andThen next).KeptBy (r'.andThen next') := by
  intro hin
  cases r with
  | done value t =>
      rw [h trivial]
      exact hnext value t hin
  | failed failure t =>
      rw [h hin]
      rfl
  | unfinished =>
      rw [h trivial]
      rfl

theorem KeptBy.ite {p : Prop} [Decidable p] {r r' q q' : Result α} (hr : r.KeptBy r')
    (hq : q.KeptBy q') : (if p then r else q).KeptBy (if p then r' else q') := by
  split
  · exact hr
  · exact hq

end Result

/-! ### Levels that suffice -/

section Suffice

variable {config : Config} {s : State}

theorem isNesting_of_applyUnary {rule : Truthiness} {op : Token} {v : Value} {failure : Failure}
    (h : applyUnary rule op v = .error failure) : failure.isNesting = false := by
  unfold applyUnary at h
  split at h <;> cases h <;> rfl

theorem isNesting_of_applyBinary {op : Token} {left right : Value} {failure : Failure}
    (h : applyBinary op left right = .error failure) : failure.isNesting = false := by
  unfold applyBinary calculate at h
  repeat' split at h
  all_goals cases h
  all_goals rfl

theorem inDepth_ofExcept {α : Type} {outcome : Except Failure α}
    (h : ∀ failure, outcome = .error failure → failure.isNesting = false) :
    (Result.ofExcept s outcome).InDepth := by
  cases outcome with
  | ok value => trivial
  | error failure => exact h failure rfl

theorem inDepth_read (name : Token) : (s.read name).InDepth := by
  unfold State.read
  split
  · rfl
  · split
    · trivial
    · rfl

theorem inDepth_assign (name : Token) (value : Value) : (s.assign name value).InDepth := by
  unfold State.assign
  split
  · rfl
  · split
    · trivial
    · rfl

theorem inDepth_define (name : Token) (value : Value) : (s.define name value).InDepth := by
  unfold State.define
  split
  · rfl
  · trivial

/-- **With as many levels as an expression is high** its evaluation is not stopped. -/
theorem inDepth_eval {n : Nat} {e : Expr} (h : e.height ≤ n) (s : State) :
    (eval config n e s).InDepth := by
  induction n generalizing e s with
  | zero => cases e <;> exact absurd h (Nat.not_succ_le_zero _)
  | succ n ih =>
      cases e with
      | literal value =>
          rw [eval]
          split
          · trivial
          · rfl
      | group inner => exact ih (Nat.le_of_succ_le_succ h) s
      | ref name => exact inDepth_read name
      | assign name value =>
          refine (ih (Nat.le_of_succ_le_succ h) s).andThen fun v t => ?_
          exact (inDepth_assign name v).andThen fun _ _ => trivial
      | unary op operand =>
          refine (ih (Nat.le_of_succ_le_succ h) s).andThen fun v t => ?_
          exact inDepth_ofExcept fun _ => isNesting_of_applyUnary
      | binary left op right =>
          obtain ⟨hleft, hright⟩ := Nat.max_le.1 (Nat.le_of_succ_le_succ h)
          refine (ih hleft s).andThen fun a t => (ih hright t).andThen fun b u => ?_
          exact inDepth_ofExcept fun _ => isNesting_of_applyBinary
      | logical left op right =>
          obtain ⟨hleft, hright⟩ := Nat.max_le.1 (Nat.le_of_succ_le_succ h)
          refine (ih hleft s).andThen fun a t => ?_
          split
          · trivial
          · exact ih hright t
      | misplaced document => rfl

theorem inDepth_test {condition : Expr} (h : condition.height ≤ config.limit)
    (statement : Conditional) (s : State) : (test config statement condition s).InDepth :=
  (inDepth_eval h s).andThen fun _ _ => trivial

theorem inDepth_sequence {run : Stmt → State → Result Unit} {stmts : List Stmt}
    (hrun : ∀ stmt ∈ stmts, ∀ t, (run stmt t).InDepth) (s : State) :
    (sequence run stmts s).InDepth := by
  induction stmts generalizing s with
  | nil => trivial
  | cons stmt stmts ih =>
      rw [List.forall_mem_cons] at hrun
      rw [sequence_cons]
      exact (hrun.1 s).andThen fun _ t => ih hrun.2 t

theorem inDepth_rounds {holds : State → Result Bool} {body : State → Result Unit}
    (hholds : ∀ t, (holds t).InDepth) (hbody : ∀ t, (body t).InDepth) (n : Nat) (s : State) :
    (rounds holds body n s).InDepth := by
  induction n generalizing s with
  | zero => trivial
  | succ n ih =>
      rw [rounds_succ]
      refine (hholds s).andThen fun b t => ?_
      split
      · exact (hbody t).andThen fun _ u => ih u
      · trivial

/-- What a statement does, its parts being run so. -/
theorem inDepth_effect (n : Nat) {run : Stmt → State → Result Unit} {stmt : Stmt}
    (hrun : ∀ part : Stmt, part.height ≤ config.limit → ∀ t, (run part t).InDepth)
    (h : stmt.height ≤ config.limit) (s : State) : (effect config run n stmt s).InDepth := by
  cases stmt with
  | expr value => exact (inDepth_eval (Nat.le_of_succ_le h) s).andThen fun _ _ => trivial
  | print value => exact (inDepth_eval (Nat.le_of_succ_le h) s).andThen fun _ _ => trivial
  | declare name initial =>
      have hinitial : (initialValue config initial s).InDepth := by
        cases initial with
        | none => trivial
        | some value => exact inDepth_eval (Nat.le_of_succ_le h) s
      refine hinitial.andThen fun v t => ?_
      exact (inDepth_define name v).andThen fun _ _ => trivial
  | block body =>
      refine satisfies_inScope (inDepth_sequence (fun part hmem t => hrun part ?_ t) _)
      exact Nat.le_trans (height_le_of_mem hmem) (Nat.le_of_succ_le h)
  | branch condition whenTrue whenFalse =>
      obtain ⟨hcondition, htrue, hfalse⟩ := height_branch_le h
      refine (inDepth_test hcondition .branch s).andThen fun holds t => ?_
      split
      · exact hrun whenTrue htrue t
      · cases whenFalse with
        | none => trivial
        | some other => exact hrun other (hfalse other rfl) t
  | loop condition body =>
      obtain ⟨hcondition, hbody⟩ := height_loop_le h
      exact inDepth_rounds (inDepth_test hcondition .loop) (hrun body hbody) n s
  | misplaced document _ => rfl

theorem inDepth_exec (fuel : Nat) {stmt : Stmt} (h : stmt.height ≤ config.limit) (s : State) :
    (exec config fuel stmt s).InDepth := by
  induction fuel generalizing stmt s with
  | zero => trivial
  | succ fuel ih =>
      exact (inDepth_effect fuel (fun part hpart t => ih hpart t) h _).andThen fun _ _ => trivial

/-- The report of a statement's nesting is made of a step that was stopped by it. -/
theorem inDepth_reportNesting {r : Result Unit} : (reportNesting r).InDepth ↔ r.InDepth := by
  cases r with
  | done _ t => exact Iff.rfl
  | failed failure t => cases failure <;> exact Iff.rfl
  | unfinished => exact Iff.rfl

/-- **With as many levels as a program is high** no run of it is stopped by its nesting. -/
theorem inDepth_interpret (fuel : Nat) {program : List Stmt}
    (h : heightOfAll program ≤ config.limit) (s : State) :
    (interpret config fuel program s).InDepth := by
  refine inDepth_sequence (fun stmt hmem t => inDepth_reportNesting.2 ?_) s
  exact inDepth_exec fuel (Nat.le_trans (height_le_of_mem hmem) h) t

end Suffice

/-! ### More levels -/

/-- The configuration with another limit. -/
def Config.limited (config : Config) (limit : Nat) : Config := { config with limit }

section More

variable {config : Config} {limit : Nat}

/-- **More levels change nothing** unless an evaluation is stopped for want of them. -/
theorem eval_keptBy {n m : Nat} (h : n ≤ m) (e : Expr) (s : State) :
    (eval config n e s).KeptBy (eval (config.limited limit) m e s) := by
  induction n generalizing m e s with
  | zero => exact fun hin => nomatch hin
  | succ n ih =>
      obtain ⟨m, rfl⟩ : ∃ k, m = k + 1 := ⟨m - 1, by omega⟩
      have hle : n ≤ m := Nat.le_of_succ_le_succ h
      cases e with
      | group inner => exact ih hle inner s
      | assign name value => exact (ih hle value s).andThen fun v t => .refl _
      | unary op operand => exact (ih hle operand s).andThen fun v t => .refl _
      | binary left op right =>
          exact (ih hle left s).andThen fun a t => (ih hle right t).andThen fun b u => .refl _
      | logical left op right =>
          exact (ih hle left s).andThen fun a t => .ite (.refl _) (ih hle right t)
      | _ => exact .refl _

theorem test_keptBy {c c' : Expr} (h : ∀ s, (evaluate config c s).KeptBy
      (evaluate (config.limited limit) c' s)) (statement : Conditional) (s : State) :
    (test config statement c s).KeptBy (test (config.limited limit) statement c' s) :=
  (h s).andThen fun _ _ => .refl _

theorem inScope_keptBy {step step' : State → Result Unit} (h : ∀ s, (step s).KeptBy (step' s))
    (s : State) : (inScope config step s).KeptBy (inScope (config.limited limit) step' s) := by
  have hstep : (inScope config step s).InDepth → (step (s.openScope config)).InDepth := by
    unfold inScope
    cases step (s.openScope config) <;> exact id
  intro hin
  change inScope config step' s = inScope config step s
  rw [inScope, h _ (hstep hin), inScope]

theorem rounds_keptBy {holds holds' : State → Result Bool} {body body' : State → Result Unit}
    (hholds : ∀ s, (holds s).KeptBy (holds' s)) (hbody : ∀ s, (body s).KeptBy (body' s)) (n : Nat)
    (s : State) : (rounds holds body n s).KeptBy (rounds holds' body' n s) := by
  induction n generalizing s with
  | zero => exact .refl _
  | succ n ih =>
      rw [rounds_succ, rounds_succ]
      exact (hholds s).andThen fun b t => .ite ((hbody t).andThen fun _ u => ih u) (.refl _)

/-- Statements one after the other, each with the one in its place. -/
theorem sequence_keptBy {R : Stmt → Stmt → Prop} {run run' : Stmt → State → Result Unit}
    (hrun : ∀ stmt stmt', R stmt stmt' → ∀ s, (run stmt s).KeptBy (run' stmt' s))
    {stmts stmts' : List Stmt} (h : List.Forall₂ R stmts stmts') (s : State) :
    (sequence run stmts s).KeptBy (sequence run' stmts' s) := by
  induction h generalizing s with
  | nil => exact .refl _
  | cons hfirst _ ih =>
      rw [sequence_cons, sequence_cons]
      exact (hrun _ _ hfirst s).andThen fun _ t => ih t

end More

/-! ### Programs of one shape -/

/-- Statements of one shape, with related expressions in the same places. -/
inductive Stmt.Alike (R : Expr → Expr → Prop) : Stmt → Stmt → Prop where
  | expr {e e' : Expr} (h : R e e') : Alike R (.expr e) (.expr e')
  | print {e e' : Expr} (h : R e e') : Alike R (.print e) (.print e')
  | declare (name : Token) : Alike R (.declare name none) (.declare name none)
  | declareInit (name : Token) {e e' : Expr} (h : R e e') :
      Alike R (.declare name (some e)) (.declare name (some e'))
  | block {body body' : List Stmt} (h : List.Forall₂ (Alike R) body body') :
      Alike R (.block body) (.block body')
  | branch {c c' : Expr} {whenTrue whenTrue' : Stmt} (htest : R c c')
      (h : Alike R whenTrue whenTrue') :
      Alike R (.branch c whenTrue none) (.branch c' whenTrue' none)
  | branchElse {c c' : Expr} {whenTrue whenTrue' whenFalse whenFalse' : Stmt} (htest : R c c')
      (h : Alike R whenTrue whenTrue') (hfalse : Alike R whenFalse whenFalse') :
      Alike R (.branch c whenTrue (some whenFalse)) (.branch c' whenTrue' (some whenFalse'))
  | loop {c c' : Expr} {body body' : Stmt} (htest : R c c') (h : Alike R body body') :
      Alike R (.loop c body) (.loop c' body')
  | misplaced (document : Json) (inner : List Expr) :
      Alike R (.misplaced document inner) (.misplaced document inner)

section Shapes

variable {config : Config} {limit : Nat} {R : Expr → Expr → Prop}

theorem Stmt.Alike.kind_eq {stmt stmt' : Stmt} (h : Stmt.Alike R stmt stmt') :
    stmt'.kind = stmt.kind := by
  cases h <;> rfl

mutual

/-- A statement has its own shape. -/
theorem Stmt.alike_refl (hR : ∀ e, R e e) : ∀ stmt, Stmt.Alike R stmt stmt
  | .expr e => .expr (hR e)
  | .print e => .print (hR e)
  | .declare name none => .declare name
  | .declare name (some e) => .declareInit name (hR e)
  | .block body => .block (alikeAll_refl hR body)
  | .branch c whenTrue none => .branch (hR c) (Stmt.alike_refl hR whenTrue)
  | .branch c whenTrue (some whenFalse) =>
    .branchElse (hR c) (Stmt.alike_refl hR whenTrue) (Stmt.alike_refl hR whenFalse)
  | .loop c body => .loop (hR c) (Stmt.alike_refl hR body)
  | .misplaced document inner => .misplaced document inner

@[inherit_doc Stmt.alike_refl]
theorem alikeAll_refl (hR : ∀ e, R e e) : ∀ stmts, List.Forall₂ (Stmt.Alike R) stmts stmts
  | [] => .nil
  | stmt :: stmts => .cons (Stmt.alike_refl hR stmt) (alikeAll_refl hR stmts)

end

/-- What statements of one shape do, their parts being run so. -/
theorem effect_keptBy
    (hR : ∀ e e', R e e' → ∀ s, (evaluate config e s).KeptBy (evaluate (config.limited limit) e' s))
    {run run' : Stmt → State → Result Unit}
    (hrun : ∀ stmt stmt', Stmt.Alike R stmt stmt' → ∀ s, (run stmt s).KeptBy (run' stmt' s))
    (n : Nat) {stmt stmt' : Stmt} (h : Stmt.Alike R stmt stmt') (s : State) :
    (effect config run n stmt s).KeptBy (effect (config.limited limit) run' n stmt' s) := by
  cases h with
  | expr h => exact (hR _ _ h s).andThen fun _ _ => .refl _
  | print h => exact (hR _ _ h s).andThen fun _ _ => .refl _
  | declare name => exact .refl _
  | declareInit name h => exact (hR _ _ h s).andThen fun _ _ => .refl _
  | block h => exact inScope_keptBy (fun t => sequence_keptBy hrun h t) s
  | branch htest h =>
      refine (test_keptBy (hR _ _ htest) .branch s).andThen fun holds t => ?_
      exact .ite (hrun _ _ h t) (.refl _)
  | branchElse htest h hfalse =>
      refine (test_keptBy (hR _ _ htest) .branch s).andThen fun holds t => ?_
      exact .ite (hrun _ _ h t) (hrun _ _ hfalse t)
  | loop htest h => exact rounds_keptBy (test_keptBy (hR _ _ htest) .loop) (hrun _ _ h) n s
  | misplaced document inner => exact .refl _

/-- **Statements of one shape** do the same if the expressions in the same places do. -/
theorem exec_keptBy
    (hR : ∀ e e', R e e' → ∀ s, (evaluate config e s).KeptBy (evaluate (config.limited limit) e' s))
    (fuel : Nat) {stmt stmt' : Stmt} (h : Stmt.Alike R stmt stmt') (s : State) :
    (exec config fuel stmt s).KeptBy (exec (config.limited limit) fuel stmt' s) := by
  induction fuel generalizing stmt stmt' s with
  | zero => exact .refl _
  | succ fuel ih =>
      rw [exec_succ, exec_succ, h.kind_eq]
      exact (effect_keptBy hR (fun _ _ h t => ih h t) fuel h _).andThen fun _ _ => .refl _

theorem reportNesting_keptBy {r r' : Result Unit} (h : r.KeptBy r') :
    (reportNesting r).KeptBy (reportNesting r') := by
  intro hin
  rw [h (inDepth_reportNesting.1 hin)]

/-- **Programs of one shape** do the same if the expressions in the same places do. -/
theorem interpret_keptBy
    (hR : ∀ e e', R e e' → ∀ s, (evaluate config e s).KeptBy (evaluate (config.limited limit) e' s))
    (fuel : Nat) {program program' : List Stmt}
    (h : List.Forall₂ (Stmt.Alike R) program program') (s : State) :
    (interpret config fuel program s).KeptBy
      (interpret (config.limited limit) fuel program' s) := by
  refine sequence_keptBy (fun stmt stmt' hstmt t => ?_) h s
  exact reportNesting_keptBy (exec_keptBy hR fuel hstmt t)

end Shapes

end ScriptLang
