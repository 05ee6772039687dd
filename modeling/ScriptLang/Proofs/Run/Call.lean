import ScriptLang.Run.Exec

/-!
# The calls of a run

A run evaluates expressions and executes statements, and these evaluate and execute their parts.
This module says which such calls a run makes and in which states, also in a run that fails or does
not end, and how to say of a step what holds when it is over.

## Main Definitions

* `Result.Satisfies`: what holds of a step that is done, and of one that fails.
* `Call`: an expression being evaluated or a statement being executed, and the state it begins in.
* `Call.Makes`: the calls that a call makes directly.
* `CallOf`: all calls of a run of a program.

## Main Statements

* `Result.Satisfies.andThen`: one step after another.
* `satisfies_sequence`, `satisfies_rounds`: statements and rounds that each keep an invariant.
* `satisfies_eval_of_assign`: what an expression does to the state.
-/

namespace ScriptLang

/-! ### What holds when a step is over -/

namespace Result

variable {α β : Type}

/-- If the step is done, `done` holds of its value and of the state it leaves; if it fails, `failed`
holds of its failure and of that state. -/
def Satisfies (r : Result α) (done : α → State → Prop) (failed : Failure → State → Prop) : Prop :=
  match r with
  | .done value s => done value s
  | .failed failure s => failed failure s
  | .unfinished => True

namespace Satisfies

variable {r : Result α} {done mid : α → State → Prop} {failed : Failure → State → Prop}

theorem andThen {next : α → State → Result β} {done' : β → State → Prop}
    (h : r.Satisfies mid failed)
    (hnext : ∀ value s, mid value s → (next value s).Satisfies done' failed) :
    (r.andThen next).Satisfies done' failed := by
  cases r with
  | done value s => exact hnext value s h
  | failed failure s => exact h
  | unfinished => trivial

theorem of_done {value : α} {s : State} (h : r.Satisfies done failed) (hdone : r = .done value s) :
    done value s := by
  subst hdone
  exact h

theorem of_failed {failure : Failure} {s : State} (h : r.Satisfies done failed)
    (hfailed : r = .failed failure s) : failed failure s := by
  subst hfailed
  exact h

theorem imp {failed' : Failure → State → Prop} (h : r.Satisfies mid failed)
    (hdone : ∀ value s, mid value s → done value s)
    (hfailed : ∀ failure s, failed failure s → failed' failure s) : r.Satisfies done failed' := by
  cases r with
  | done value s => exact hdone value s h
  | failed failure s => exact hfailed failure s h
  | unfinished => trivial

theorem and {done' : α → State → Prop} {failed' : Failure → State → Prop}
    (h : r.Satisfies done failed) (h' : r.Satisfies done' failed') :
    r.Satisfies (fun value s => done value s ∧ done' value s)
      (fun failure s => failed failure s ∧ failed' failure s) := by
  cases r with
  | done | failed => exact ⟨h, h'⟩
  | unfinished => trivial

end Satisfies

end Result

section Steps

variable {done : Unit → State → Prop} {failed : Failure → State → Prop}

/-- A step in a scope of its own, which is closed however the step ends. -/
theorem satisfies_inScope {config : Config} {step : State → Result Unit} {s : State}
    (h : (step (s.openScope config)).Satisfies (fun u t => done u (t.closeScope config))
      (fun failure t => failed failure (t.closeScope config))) :
    (inScope config step s).Satisfies done failed := by
  unfold inScope
  split
  · next heq =>
    rw [heq] at h
    exact h
  · next heq =>
    rw [heq] at h
    exact h
  · trivial

/-- Statements one after the other, each of which leaves what the next one needs. -/
theorem satisfies_sequence {run : Stmt → State → Result Unit} {inv : State → Prop}
    {stmts : List Stmt}
    (hrun : ∀ stmt ∈ stmts, ∀ s, inv s → (run stmt s).Satisfies (fun _ => inv) failed) {s : State}
    (hs : inv s) : (sequence run stmts s).Satisfies (fun _ => inv) failed := by
  induction stmts generalizing s with
  | nil => exact hs
  | cons stmt stmts ih =>
      rw [List.forall_mem_cons] at hrun
      rw [sequence_cons]
      refine (hrun.1 s hs).andThen ?_
      intro _ t ht
      exact ih hrun.2 ht

/-- A loop each of whose rounds leaves what the next one needs. -/
theorem satisfies_rounds {test : State → Result Bool} {body : State → Result Unit}
    {inv : State → Prop} (htest : ∀ s, inv s → (test s).Satisfies (fun _ => inv) failed)
    (hbody : ∀ s, inv s → (body s).Satisfies (fun _ => inv) failed) (n : Nat) {s : State}
    (hs : inv s) : (rounds test body n s).Satisfies (fun _ => inv) failed := by
  induction n generalizing s with
  | zero => trivial
  | succ n ih =>
      have htest := htest s hs
      unfold rounds
      split
      · next t heq =>
        rw [heq] at htest
        have hbody := hbody t htest
        split
        · next u heq =>
          rw [heq] at hbody
          exact ih hbody
        · next heq =>
          rw [heq] at hbody
          exact hbody
        · trivial
      · next heq =>
        rw [heq] at htest
        exact htest
      · next heq =>
        rw [heq] at htest
        exact htest
      · trivial

end Steps

/-- An expression assigns and traces that, and does nothing else to the state: a relation that both
of these respect relates the state that it finds to the one that it leaves. -/
theorem satisfies_eval_of_assign {config : Config} {rel : State → State → Prop}
    (hrefl : ∀ s, rel s s) (htrans : ∀ {s t u}, rel s t → rel t u → rel s u)
    (hassign : ∀ (s : State) name value,
      (s.assign name value).Satisfies (fun _ => rel s) fun _ => rel s)
    (htrace : ∀ (s : State) name value, rel s (s.trace config (.assign name value))) (n : Nat)
    (e : Expr) (s : State) : (eval config n e s).Satisfies (fun _ => rel s) fun _ => rel s := by
  have hafter : ∀ {α : Type} {r : Result α} {s t : State}, rel s t →
      r.Satisfies (fun _ => rel t) (fun _ => rel t) →
      r.Satisfies (fun _ => rel s) fun _ => rel s :=
    fun hst h => h.imp (fun _ _ => htrans hst) fun _ _ => htrans hst
  have hofExcept : ∀ (result : Except Failure Value) s,
      (Result.ofExcept s result).Satisfies (fun _ => rel s) fun _ => rel s := by
    intro result s
    cases result <;> exact hrefl s
  induction n generalizing e s with
  | zero => exact hrefl s
  | succ n ih =>
      cases e with
      | literal value =>
          rw [eval]
          split <;> exact hrefl s
      | group inner => exact ih inner s
      | ref name =>
          show (s.read name).Satisfies _ _
          unfold State.read
          repeat' split
          all_goals exact hrefl s
      | assign name value =>
          refine (ih value s).andThen fun v t ht => ?_
          refine (hafter ht (hassign t name v)).andThen fun _ u hu => ?_
          exact htrans hu (htrace u _ v)
      | unary op operand =>
          exact (ih operand s).andThen fun v t ht => hafter ht (hofExcept _ t)
      | binary left op right =>
          refine (ih left s).andThen fun a t ht => ?_
          exact (hafter ht (ih right t)).andThen fun b u hu => hafter hu (hofExcept _ u)
      | logical left op right =>
          refine (ih left s).andThen fun a t ht => ?_
          split
          · exact ht
          · exact hafter ht (ih right t)
      | misplaced document => exact hrefl s

/-! ### Calls -/

/-- A step of a run that has begun: an expression to evaluate or a statement to execute, the levels
or the fuel that it has, and the state that it begins in. -/
inductive Call where
  | evaluation (n : Nat) (e : Expr) (s : State)
  | execution (n : Nat) (stmt : Stmt) (s : State)

/-- A round of a loop begins in a state and with so many rounds to go at most, the first one in the
state `s` with `n` rounds to go. -/
inductive RoundBegins (test : State → Result Bool) (body : State → Result Unit) (n : Nat)
    (s : State) : Nat → State → Prop where
  | first : RoundBegins test body n s n s
  | next {k : Nat} {t u v : State} (h : RoundBegins test body n s (k + 1) t)
      (htest : test t = .done true u) (hbody : body u = .done () v) :
      RoundBegins test body n s k v

/-- The state in which the parts of a statement are run, once its beginning has been traced. -/
def State.begin (s : State) (config : Config) (stmt : Stmt) : State :=
  s.trace config (.execute stmt.kind)

/-- The calls that a call makes directly. -/
inductive Call.Makes (config : Config) : Call → Call → Prop where
  | group {n : Nat} {inner : Expr} {s : State} :
      Makes config (.evaluation (n + 1) (.group inner) s) (.evaluation n inner s)
  | assign {n : Nat} {name : Token} {value : Expr} {s : State} :
      Makes config (.evaluation (n + 1) (.assign name value) s) (.evaluation n value s)
  | unary {n : Nat} {op : Token} {operand : Expr} {s : State} :
      Makes config (.evaluation (n + 1) (.unary op operand) s) (.evaluation n operand s)
  | binaryLeft {n : Nat} {left right : Expr} {op : Token} {s : State} :
      Makes config (.evaluation (n + 1) (.binary left op right) s) (.evaluation n left s)
  | binaryRight {n : Nat} {left right : Expr} {op : Token} {s t : State} {a : Value}
      (hleft : eval config n left s = .done a t) :
      Makes config (.evaluation (n + 1) (.binary left op right) s) (.evaluation n right t)
  | logicalLeft {n : Nat} {left right : Expr} {op : Token} {s : State} :
      Makes config (.evaluation (n + 1) (.logical left op right) s) (.evaluation n left s)
  | logicalRight {n : Nat} {left right : Expr} {op : Token} {s t : State} {a : Value}
      (hleft : eval config n left s = .done a t)
      (hopen : decides config.truthiness op a = false) :
      Makes config (.evaluation (n + 1) (.logical left op right) s) (.evaluation n right t)
  | expr {n : Nat} {value : Expr} {s : State} :
      Makes config (.execution (n + 1) (.expr value) s)
        (.evaluation config.limit value (s.begin config (.expr value)))
  | print {n : Nat} {value : Expr} {s : State} :
      Makes config (.execution (n + 1) (.print value) s)
        (.evaluation config.limit value (s.begin config (.print value)))
  | initial {n : Nat} {name : Token} {value : Expr} {s : State} :
      Makes config (.execution (n + 1) (.declare name (some value)) s)
        (.evaluation config.limit value (s.begin config (.declare name (some value))))
  /-- A statement of a block, when those in front of it are done. -/
  | block {n : Nat} {before after : List Stmt} {stmt : Stmt} {s t : State}
      (hbefore : sequence (exec config n) before
        ((s.begin config (.block (before ++ stmt :: after))).openScope config) = .done () t) :
      Makes config (.execution (n + 1) (.block (before ++ stmt :: after)) s) (.execution n stmt t)
  | branchTest {n : Nat} {condition : Expr} {whenTrue : Stmt} {whenFalse : Option Stmt}
      {s : State} :
      Makes config (.execution (n + 1) (.branch condition whenTrue whenFalse) s)
        (.evaluation config.limit condition (s.begin config (.branch condition whenTrue whenFalse)))
  | branchTrue {n : Nat} {condition : Expr} {whenTrue : Stmt} {whenFalse : Option Stmt}
      {s t : State}
      (htest : test config .branch condition
        (s.begin config (.branch condition whenTrue whenFalse)) = .done true t) :
      Makes config (.execution (n + 1) (.branch condition whenTrue whenFalse) s)
        (.execution n whenTrue t)
  | branchFalse {n : Nat} {condition : Expr} {whenTrue whenFalse : Stmt} {s t : State}
      (htest : test config .branch condition
        (s.begin config (.branch condition whenTrue (some whenFalse))) = .done false t) :
      Makes config (.execution (n + 1) (.branch condition whenTrue (some whenFalse)) s)
        (.execution n whenFalse t)
  | loopTest {n k : Nat} {condition : Expr} {body : Stmt} {s t : State}
      (hround : RoundBegins (test config .loop condition) (exec config n body) n
        (s.begin config (.loop condition body)) (k + 1) t) :
      Makes config (.execution (n + 1) (.loop condition body) s)
        (.evaluation config.limit condition t)
  | loopBody {n k : Nat} {condition : Expr} {body : Stmt} {s t u : State}
      (hround : RoundBegins (test config .loop condition) (exec config n body) n
        (s.begin config (.loop condition body)) (k + 1) t)
      (htest : test config .loop condition t = .done true u) :
      Makes config (.execution (n + 1) (.loop condition body) s) (.execution n body u)

/-- The calls of a run of a program from the state `s`: its statements, each when those in front of
it are done, and the calls that these make. -/
inductive CallOf (config : Config) (fuel : Nat) (program : List Stmt) (s : State) :
    Call → Prop where
  | top {before after : List Stmt} {stmt : Stmt} {t : State}
      (hprogram : program = before ++ stmt :: after)
      (hbefore : interpret config fuel before s = .done () t) :
      CallOf config fuel program s (.execution fuel stmt t)
  | inner {c c' : Call} (h : CallOf config fuel program s c) (hmakes : c.Makes config c') :
      CallOf config fuel program s c'

end ScriptLang
