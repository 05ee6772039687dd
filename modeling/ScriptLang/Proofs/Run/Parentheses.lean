import ScriptLang.Proofs.Parse.Parentheses
import ScriptLang.Proofs.Run.Depth

/-!
# Parentheses do not matter

An expression in parentheses is evaluated as the expression itself is, one level further down. So
the two may stand for each other in every place of every program, as far as the levels go. Together
with the parse of a program with parentheses this says that they may be put around every node of a
program and that nothing comes of it.

## Main Statements

* `eval_fill_keptBy`: two expressions that do the same do so in every context.
* `interpret_fill_keptBy`: the same for programs.
* `interpret_group`: parentheses in a program that is run.
* `parentheses_keep_meaning`: parentheses in the tokens of a program.
-/

namespace ScriptLang

/-! ### Contexts -/

section Contexts

variable {config : Config} {limit d : Nat} {a b : Expr}

/-- Without levels an evaluation is stopped, so only those with one level at least matter. -/
theorem keptBy_of_succ {e e' : Expr}
    (h : ∀ n m, n + d ≤ m → ∀ s,
      (eval config (n + 1) e s).KeptBy (eval (config.limited limit) (m + 1) e' s))
    {n m : Nat} (hle : n + d ≤ m) (s : State) :
    (eval config n e s).KeptBy (eval (config.limited limit) m e' s) := by
  cases n with
  | zero => exact fun hin => nomatch hin
  | succ n =>
      obtain ⟨m, rfl⟩ : ∃ k, m = k + 1 := ⟨m - 1, by omega⟩
      exact h n m (by omega) s

/-- **Two expressions in one context** do the same if they do so with `d` levels to spare. -/
theorem eval_fill_keptBy
    (h : ∀ n m, n + d ≤ m → ∀ s, (eval config n a s).KeptBy (eval (config.limited limit) m b s))
    (K : ExprContext) {n m : Nat} (hle : n + d ≤ m) (s : State) :
    (eval config n (K.fill a) s).KeptBy (eval (config.limited limit) m (K.fill b) s) := by
  have hother : ∀ {n m : Nat}, n + d ≤ m → ∀ (e : Expr) (t : State),
      (eval config n e t).KeptBy (eval (config.limited limit) m e t) :=
    fun hle e t => eval_keptBy (Nat.le_of_add_right_le hle) e t
  induction K generalizing n m s with
  | hole => exact h n m hle s
  | group K ih => exact keptBy_of_succ (fun n m hle t => ih hle t) hle s
  | unary op K ih =>
      refine keptBy_of_succ (fun n m hle t => ?_) hle s
      exact (ih hle t).andThen fun v u => .refl _
  | binaryLeft K op right ih =>
      refine keptBy_of_succ (fun n m hle t => ?_) hle s
      exact (ih hle t).andThen fun v u => (hother hle right u).andThen fun w x => .refl _
  | binaryRight left op K ih =>
      refine keptBy_of_succ (fun n m hle t => ?_) hle s
      exact (hother hle left t).andThen fun v u => (ih hle u).andThen fun w x => .refl _
  | logicalLeft K op right ih =>
      refine keptBy_of_succ (fun n m hle t => ?_) hle s
      exact (ih hle t).andThen fun v u => .ite (.refl _) (hother hle right u)
  | logicalRight left op K ih =>
      refine keptBy_of_succ (fun n m hle t => ?_) hle s
      exact (hother hle left t).andThen fun v u => .ite (.refl _) (ih hle u)
  | assign name K ih =>
      refine keptBy_of_succ (fun n m hle t => ?_) hle s
      exact (ih hle t).andThen fun v u => .refl _

variable {R : Expr → Expr → Prop}

/-- Two fillings of one statement have one shape. -/
theorem StmtContext.alike_fill (hR : ∀ e, R e e)
    (hfill : ∀ K : ExprContext, R (K.fill a) (K.fill b)) (K : StmtContext) :
    Stmt.Alike R (K.fill a) (K.fill b) := by
  have hsame := Stmt.alike_refl hR
  induction K with
  | expr K => exact .expr (hfill K)
  | print K => exact .print (hfill K)
  | declare name K => exact .declareInit name (hfill K)
  | block front K behind ih =>
      exact .block (List.rel_append (alikeAll_refl hR front) (.cons ih (alikeAll_refl hR behind)))
  | branchTest K whenTrue whenFalse =>
      cases whenFalse with
      | none => exact .branch (hfill K) (hsame whenTrue)
      | some whenFalse => exact .branchElse (hfill K) (hsame whenTrue) (hsame whenFalse)
  | branchTrue test K whenFalse ih =>
      cases whenFalse with
      | none => exact .branch (hR test) ih
      | some whenFalse => exact .branchElse (hR test) ih (hsame whenFalse)
  | branchFalse test whenTrue K ih => exact .branchElse (hR test) (hsame whenTrue) ih
  | loopTest K body => exact .loop (hfill K) (hsame body)
  | loopBody test K ih => exact .loop (hR test) ih

/-- **Two expressions in one program.** -/
theorem interpret_fill_keptBy
    (h : ∀ n m, n + d ≤ m → ∀ s, (eval config n a s).KeptBy (eval (config.limited limit) m b s))
    (hlimit : config.limit + d ≤ limit) (fuel : Nat) (K : ProgramContext) (s : State) :
    (interpret config fuel (K.fill a) s).KeptBy
      (interpret (config.limited limit) fuel (K.fill b) s) := by
  have hR : ∀ e : Expr, ∀ s,
      (evaluate config e s).KeptBy (evaluate (config.limited limit) e s) :=
    eval_keptBy (Nat.le_of_add_right_le hlimit)
  have hfill : ∀ (K : ExprContext) (s : State),
      (evaluate config (K.fill a) s).KeptBy (evaluate (config.limited limit) (K.fill b) s) :=
    fun K s => eval_fill_keptBy h K hlimit s
  refine interpret_keptBy (fun _ _ hkept => hkept) fuel ?_ s
  exact List.rel_append (alikeAll_refl hR K.front)
    (.cons (K.stmt.alike_fill hR hfill) (alikeAll_refl hR K.behind))

end Contexts

/-! ### Groups -/

section Groups

variable {config : Config}

/-- A group needs one level more than what is in it. -/
theorem eval_keptBy_group {limit : Nat} (e : Expr) (n m : Nat) (hle : n + 1 ≤ m) (s : State) :
    (eval config n e s).KeptBy (eval (config.limited limit) m (.group e) s) := by
  obtain ⟨m, rfl⟩ : ∃ k, m = k + 1 := ⟨m - 1, by omega⟩
  exact eval_keptBy (Nat.le_of_succ_le_succ hle) e s

theorem eval_group_keptBy {limit : Nat} (e : Expr) (n m : Nat) (hle : n + 0 ≤ m) (s : State) :
    (eval config n (.group e) s).KeptBy (eval (config.limited limit) m e s) := by
  cases n with
  | zero => exact fun hin => nomatch hin
  | succ n => exact eval_keptBy (by omega) e s

/-- **Parentheses in a program that is run.** With more levels than the program is high nothing
comes of them. With fewer they cost one level at most, and a run with them that is not stopped by
its nesting is the run without them. -/
theorem interpret_group (config : Config) (fuel : Nat) (K : ProgramContext) (e : Expr)
    (s : State) :
    (heightOfAll (K.fill e) < config.limit →
      interpret config fuel (K.fill (.group e)) s = interpret config fuel (K.fill e) s) ∧
    ((interpret config fuel (K.fill e) s).InDepth → ∀ limit, config.limit < limit →
      interpret (config.limited limit) fuel (K.fill (.group e)) s =
        interpret config fuel (K.fill e) s) ∧
    ((interpret config fuel (K.fill (.group e)) s).InDepth →
      interpret config fuel (K.fill e) s = interpret config fuel (K.fill (.group e)) s) := by
  refine ⟨fun hheight => ?_, fun hin limit hlimit => ?_, fun hin => ?_⟩
  · -- One level less suffices for the program without parentheses.
    have hin : (interpret (config.limited (config.limit - 1)) fuel (K.fill e) s).InDepth :=
      inDepth_interpret fuel (Nat.le_sub_one_of_lt hheight) s
    have hlevel : (config.limited (config.limit - 1)).limit + 1 ≤ config.limit :=
      Nat.le_of_eq (Nat.sub_add_cancel (Nat.lt_of_le_of_lt (Nat.zero_le _) hheight))
    have hmore := interpret_fill_keptBy (a := e) (d := 0)
      (fun n m hle t => eval_keptBy hle e t) (Nat.le_of_succ_le hlevel) fuel K s hin
    have hgroup := interpret_fill_keptBy (eval_keptBy_group e) hlevel fuel K s hin
    exact hgroup.trans hmore.symm
  · exact interpret_fill_keptBy (eval_keptBy_group e) hlimit fuel K s hin
  · exact interpret_fill_keptBy (eval_group_keptBy e) (Nat.le_refl config.limit) fuel K s hin

end Groups

/-- **Parentheses keep the meaning of a program.** If tokens are parsed to a program, every node of
it was built from some of them that stand in a row: those behind the tokens in front of the node, as
many as the node has. With parentheses around them the tokens are parsed to the program with a group
in the place of the node, with two levels more at most, and they are rejected for nothing but the
nesting. A run of the one program is a run of the other, however it ends and if it does not end,
with more levels than the program is high, and otherwise as far as the levels go. -/
theorem parentheses_keep_meaning {limit : Nat} {tokens : List Token} {K : ProgramContext} {e : Expr}
    (h : Parse.parse limit tokens = .ok (K.fill e)) :
    (∃ front us behind, tokens = front ++ us ++ behind ∧ front.length = K.before ∧
      us.length = e.width ∧ (∃ rung, Derives (.expr rung e) us) ∧
      ∀ opening closing : Token, opening.kind = .leftParen → closing.kind = .rightParen →
        (∀ levels, limit + 2 ≤ levels →
          Parse.parse levels (front ++ opening :: us ++ closing :: behind) =
            .ok (K.fill (.group e))) ∧
        ∀ levels,
          Parse.parse levels (front ++ opening :: us ++ closing :: behind) =
            .ok (K.fill (.group e)) ∨
          ∃ blame, Parse.parse levels (front ++ opening :: us ++ closing :: behind) =
            .error (.rejected blame []) ∧ blame.fault = .lessNesting) ∧
    ∀ (config : Config) (fuel : Nat) (s : State),
      (heightOfAll (K.fill e) < config.limit →
        interpret config fuel (K.fill (.group e)) s = interpret config fuel (K.fill e) s) ∧
      ((interpret config fuel (K.fill e) s).InDepth → ∀ limit, config.limit < limit →
        interpret (config.limited limit) fuel (K.fill (.group e)) s =
          interpret config fuel (K.fill e) s) ∧
      ((interpret config fuel (K.fill (.group e)) s).InDepth →
        interpret config fuel (K.fill e) s = interpret config fuel (K.fill (.group e)) s) := by
  obtain ⟨front, us, behind, htokens, hfront, hus, hderives, hlevels, hparse⟩ :=
    Parse.parse_parenthesized h
  refine ⟨⟨front, us, behind, htokens, hfront, hus, hderives, ?_⟩,
    fun config fuel s => interpret_group config fuel K e s⟩
  intro opening closing hopening hclosing
  refine ⟨fun levels hle => ?_, fun levels => ?_⟩
  · exact (hparse opening closing hopening hclosing levels).1 (Nat.le_trans hlevels hle)
  · rcases Nat.lt_or_ge levels (levelsOfAll (K.fill (.group e))) with hlt | hle
    · exact Or.inr ((hparse opening closing hopening hclosing levels).2 hlt)
    · exact Or.inl ((hparse opening closing hopening hclosing levels).1 hle)

/-- The first of two differences, `print a - b - c;`. -/
def firstDifference : ProgramContext :=
  { front := [], behind := []
    stmt := .print (.binaryLeft .hole (Parse.bareToken .minus)
      (.ref (Parse.bareToken .identifier))) }

/-- Parentheses around the first difference change neither the parse nor the run. -/
theorem parentheses_keep_meaning_firstDifference :
    let name := Parse.bareToken .identifier
    let difference : Expr := .binary (.ref name) (Parse.bareToken .minus) (.ref name)
    let tokens := [.printWord, .identifier, .minus, .identifier, .minus, .identifier, .semicolon,
      .endOfInput].map Parse.bareToken
    Parse.parse 10 tokens = .ok (firstDifference.fill difference) ∧
    (∃ front us behind, tokens = front ++ us ++ behind ∧ front.length = 1 ∧ us.length = 3 ∧
      Parse.parse 12 (front ++ Parse.bareToken .leftParen :: us ++
        Parse.bareToken .rightParen :: behind) = .ok (firstDifference.fill (.group difference))) ∧
    interpret { limit := 5 } 3 (firstDifference.fill (.group difference)) .initial =
      interpret { limit := 5 } 3 (firstDifference.fill difference) .initial := by
  intro name difference tokens
  have hparse : Parse.parse 10 tokens = .ok (firstDifference.fill difference) := by rfl
  obtain ⟨⟨front, us, behind, htokens, hfront, hus, -, hgroup⟩, hrun⟩ :=
    parentheses_keep_meaning hparse
  exact ⟨hparse, ⟨front, us, behind, htokens, hfront, hus, (hgroup _ _ rfl rfl).1 12 (by decide)⟩,
    (hrun { limit := 5 } 3 .initial).1 (by decide)⟩

end ScriptLang
