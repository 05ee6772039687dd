import ScriptLang.Proofs.Grammar.Complete

/-!
# What the machine has read is derived

Whatever the machine has read, the tokens so far are the beginning of a derivation: every frame on
the stack stands for a rule that has been begun, and the tokens read since then derive the parts
that the frame holds. At the end nothing is open, and the tokens derive the program.

## Main Definitions

* `Slot`, `Open`: what the stack waits for, and the tokens that have led there.
* `Machine.Holds`: the invariant of the machine, by mode.

## Main Statements

* `reduce_sound`, `reduceAll_sound`, `complete_sound`, `matchElse_sound`: closing is deriving.
* `Machine.Holds.step`: the invariant is kept by every accepted token.
* `derives_of_reads`: a program that is read is derived.

## Design Notes

The operators that wait on the stack bind the tighter the higher they stand, and none of them stands
on a prefix operator. Both are what `Clear` says of the stack below each one; they make an operand
that is closed stand on a rung that the next frame can take.
-/

namespace ScriptLang.Grammar

open Machine

/-! ### Open frames -/

/-- What may come next on top of a stack. -/
inductive Slot where
  /-- A list of statements goes on. -/
  | list
  /-- A statement. -/
  | stmt
  /-- A whole expression. -/
  | expr
  /-- An operand. -/
  | operand

/-- The stack waits for what the slot says, the statements of the innermost list so far are `stmts`,
and the tokens have led there. -/
inductive Open : Slot → List Frame → List Stmt → List Token → Prop where
  | top {stmts : List Stmt} {ts : List Token} (h : Derives (.decls stmts.reverse) ts) :
      Open .list [] stmts ts
  | block {stack : List Frame} {before stmts : List Stmt} {ts us : List Token} {brace : Token}
      (hopen : Open .stmt stack before ts) (hbrace : brace.kind = .leftBrace)
      (h : Derives (.decls stmts.reverse) us) :
      Open .list (.block before :: stack) stmts (ts ++ brace :: us)
  | listed {stack : List Frame} {stmts : List Stmt} {ts : List Token}
      (hopen : Open .list stack stmts ts) : Open .stmt stack stmts ts
  | branchBody {stack : List Frame} {stmts : List Stmt} {ts cs : List Token} {test : Expr}
      {word opening closing : Token} (hopen : Open .stmt stack stmts ts)
      (hword : word.kind = .ifWord) (hopening : opening.kind = .leftParen)
      (htest : Derives (.expr .assignment test) cs) (hclosing : closing.kind = .rightParen) :
      Open .stmt (.branchBody test :: stack) stmts (ts ++ (word :: opening :: cs ++ [closing]))
  | otherwise {stack : List Frame} {stmts : List Stmt} {ts cs us : List Token} {test : Expr}
      {whenTrue : Stmt} {word opening closing other : Token} (hopen : Open .stmt stack stmts ts)
      (hword : word.kind = .ifWord) (hopening : opening.kind = .leftParen)
      (htest : Derives (.expr .assignment test) cs) (hclosing : closing.kind = .rightParen)
      (htrue : Derives (.stmt whenTrue) us) (hawaits : whenTrue.awaitsElse = false)
      (hother : other.kind = .elseWord) :
      Open .stmt (.otherwise test whenTrue :: stack) stmts
        (ts ++ (word :: opening :: cs ++ closing :: us ++ [other]))
  | loopBody {stack : List Frame} {stmts : List Stmt} {ts cs : List Token} {test : Expr}
      {word opening closing : Token} (hopen : Open .stmt stack stmts ts)
      (hword : word.kind = .whileWord) (hopening : opening.kind = .leftParen)
      (htest : Derives (.expr .assignment test) cs) (hclosing : closing.kind = .rightParen) :
      Open .stmt (.loopBody test :: stack) stmts (ts ++ (word :: opening :: cs ++ [closing]))
  | exprStmt {stack : List Frame} {stmts : List Stmt} {ts : List Token}
      (hopen : Open .stmt stack stmts ts) : Open .expr (.exprStmt :: stack) stmts ts
  | print {stack : List Frame} {stmts : List Stmt} {ts : List Token} {word : Token}
      (hopen : Open .stmt stack stmts ts) (hword : word.kind = .printWord) :
      Open .expr (.print :: stack) stmts (ts ++ [word])
  | initial {stack : List Frame} {stmts : List Stmt} {ts : List Token} {word name equals : Token}
      (hopen : Open .list stack stmts ts) (hword : word.kind = .varWord)
      (hname : name.kind = .identifier) (hequals : equals.kind = .equal) :
      Open .expr (.initial name :: stack) stmts (ts ++ [word, name, equals])
  | test {stack : List Frame} {stmts : List Stmt} {ts : List Token} {word opening : Token}
      {statement : Conditional} (hopen : Open .stmt stack stmts ts)
      (hword : word.kind = wordOf statement) (hopening : opening.kind = .leftParen) :
      Open .expr (.test statement :: stack) stmts (ts ++ [word, opening])
  | group {stack : List Frame} {stmts : List Stmt} {ts : List Token} {opening : Token}
      (hopen : Open .operand stack stmts ts) (hopening : opening.kind = .leftParen) :
      Open .expr (.group :: stack) stmts (ts ++ [opening])
  | assign {stack : List Frame} {stmts : List Stmt} {ts : List Token} {name equals : Token}
      (hopen : Open .expr stack stmts ts) (hname : name.kind = .identifier)
      (hequals : equals.kind = .equal) :
      Open .expr (.assign name :: stack) stmts (ts ++ [name, equals])
  | whole {stack : List Frame} {stmts : List Stmt} {ts : List Token}
      (hopen : Open .expr stack stmts ts) : Open .operand stack stmts ts
  | operator {stack : List Frame} {stmts : List Stmt} {ts ls : List Token} {rung : Rung}
      {left : Expr} {op : Token} (hopen : Open .operand stack stmts ts)
      (hclear : Clear rung stack) (hleft : Derives (.expr rung left) ls)
      (hop : op.kind ∈ rung.operators) :
      Open .operand (.operator left op :: stack) stmts (ts ++ (ls ++ [op]))
  | unary {stack : List Frame} {stmts : List Stmt} {ts : List Token} {op : Token}
      (hopen : Open .operand stack stmts ts) (hop : op.kind = .bang ∨ op.kind = .minus) :
      Open .operand (.unary op :: stack) stmts (ts ++ [op])

/-! ### Rungs and lists -/

theorem index_injective {rung other : Rung} (h : rung.index = other.index) : rung = other := by
  cases rung <;> cases other <;> simp [Rung.index] at h ⊢

/-- What stands on a rung stands on every looser one. -/
theorem derives_of_index_le {rung other : Rung} {e : Expr} {ts : List Token}
    (h : Derives (.expr rung e) ts) (hle : other.index ≤ rung.index) :
    Derives (.expr other e) ts := by
  obtain ⟨k, hk⟩ := Nat.exists_eq_add_of_le hle
  induction k generalizing other with
  | zero =>
      obtain rfl := index_injective hk
      exact h
  | succ k ih =>
      have hlast : rung.index ≤ 8 := by cases rung <;> decide
      have hnext : other.next.index = other.index + 1 := Rung.index_next (by omega)
      exact .loosen (ih (by omega) (by omega))

/-- One more statement at the end of a list. -/
theorem derives_snoc {stmts : List Stmt} {stmt : Stmt} {ts us : List Token}
    (h : Derives (.decls stmts) ts) (hlast : Derives (.decl stmt) us) :
    Derives (.decls (stmts ++ [stmt])) (ts ++ us) := by
  induction stmts generalizing ts with
  | nil =>
      cases h
      simpa using Derives.cons hlast .nil
  | cons first stmts ih =>
      cases h with
      | cons hfirst hothers =>
          rw [List.append_assoc]
          exact .cons hfirst (ih hothers)

/-- One more statement in the innermost list. -/
theorem Open.cons {stack : List Frame} {stmts : List Stmt} {stmt : Stmt} {ts us : List Token}
    (hopen : Open .list stack stmts ts) (h : Derives (.decl stmt) us) :
    Open .list stack (stmt :: stmts) (ts ++ us) := by
  cases hopen with
  | top hstmts =>
      refine .top ?_
      rw [List.reverse_cons]
      exact derives_snoc hstmts h
  | block hopen hbrace hstmts =>
      rw [List.append_assoc, List.cons_append]
      refine .block hopen hbrace ?_
      rw [List.reverse_cons]
      exact derives_snoc hstmts h

/-! ### Closing is deriving -/

/-- Nothing but a whole expression stands on a stack that waits for one. -/
theorem Open.clear {stack : List Frame} {stmts : List Stmt} {ts : List Token}
    (hopen : Open .expr stack stmts ts) : Clear .assignment stack := by
  cases hopen <;> trivial

theorem level_le (kind : TokenKind) : level kind ≤ 6 := by
  cases kind <;> decide

/-- A prefix operator and a primary expression fit on every stack. -/
theorem clear_of_le {rung : Rung} (h : 7 ≤ rung.index) (stack : List Frame) : Clear rung stack := by
  unfold Clear
  split
  · exact h
  · next op _ =>
    have := level_le op.kind
    omega
  · trivial

section Closing

variable {stack : List Frame} {stmts : List Stmt} {ts vs : List Token} {value : Expr} {rung : Rung}

/-- A prefix operator and its operand. -/
theorem close_unary {op : Token} (hopen : Open .operand (.unary op :: stack) stmts ts)
    (hclear : Clear rung (.unary op :: stack)) (h : Derives (.expr rung value) vs) :
    ∃ us, ts = us ++ [op] ∧ Open .operand stack stmts us ∧ Clear .unary stack ∧
      Derives (.expr .unary (.unary op value)) (op :: vs) := by
  cases hopen with
  | whole hopen => cases hopen
  | unary hopen hop =>
      have hbelow : Clear .unary stack := clear_of_le (by decide) stack
      exact ⟨_, rfl, hopen, hbelow, .unary hop (derives_of_index_le h hclear)⟩

/-- An operator and its operands. -/
theorem close_operator {left : Expr} {op : Token}
    (hopen : Open .operand (.operator left op :: stack) stmts ts)
    (hclear : Clear rung (.operator left op :: stack)) (h : Derives (.expr rung value) vs) :
    ∃ target us ls, ts = us ++ (ls ++ [op]) ∧ Open .operand stack stmts us ∧ Clear target stack ∧
      target.index = level op.kind ∧
      Derives (.expr target (operation left op value)) (ls ++ op :: vs) := by
  cases hopen with
  | whole hopen => cases hopen
  | @operator _ _ us ls target _ _ hopen hbelow hleft hop =>
      have hlevel : level op.kind = target.index := Rung.level_of_mem_operators hop
      have hindex : target.index < 8 := by
        cases target <;> simp [Rung.index, Rung.operators] at hop ⊢
      refine ⟨target, us, ls, rfl, hopen, hbelow, hlevel.symm, ?_⟩
      rw [operation_of_mem hop]
      refine .operator hleft hop (derives_of_index_le h ?_)
      rw [Rung.index_next hindex]
      have : level op.kind < rung.index := hclear
      omega

/-- Closing operators down to a rung leaves an operand of that rung. -/
theorem reduce_sound {target : Rung} (hlow : target.index < 7)
    (hopen : Open .operand stack stmts ts) (hclear : Clear rung stack)
    (h : Derives (.expr rung value) vs) (hle : target.index ≤ rung.index) :
    ∃ us ws, ts ++ vs = us ++ ws ∧ Open .operand (reduce target.index value stack).2 stmts us ∧
      Clear target (reduce target.index value stack).2 ∧
      Derives (.expr target (reduce target.index value stack).1) ws := by
  induction stack generalizing ts vs value rung with
  | nil => exact ⟨ts, vs, rfl, hopen, trivial, derives_of_index_le h hle⟩
  | cons frame stack ih =>
      cases frame with
      | unary op =>
          obtain ⟨us, rfl, hopen, hclear, h⟩ := close_unary hopen hclear h
          have hle : target.index ≤ Rung.unary.index := Nat.le_of_lt hlow
          simpa [reduce] using ih hopen hclear h hle
      | operator left op =>
          simp only [reduce]
          split
          · next hlevel =>
            obtain ⟨other, us, ls, rfl, hopen, hclear, hindex, h⟩ := close_operator hopen hclear h
            simpa using ih hopen hclear h (by omega)
          · next hlevel =>
            exact ⟨ts, vs, rfl, hopen, Nat.lt_of_not_le hlevel, derives_of_index_le h hle⟩
      | _ => exact ⟨ts, vs, rfl, hopen, trivial, derives_of_index_le h hle⟩

/-- Closing all operators and assignments leaves a whole expression. -/
theorem reduceAll_sound (hopen : Open .operand stack stmts ts) (hclear : Clear rung stack)
    (h : Derives (.expr rung value) vs) :
    ∃ us ws, ts ++ vs = us ++ ws ∧ Open .expr (reduceAll value stack).2 stmts us ∧
      Derives (.expr .assignment (reduceAll value stack).1) ws := by
  -- The frame that ends the expression is found on the way down; there is one below every operand.
  induction stack generalizing ts vs value rung with
  | nil =>
      cases hopen with
      | whole hopen => cases hopen
  | cons frame stack ih =>
      cases frame with
      | unary op =>
          obtain ⟨us, rfl, hopen, hclear, h⟩ := close_unary hopen hclear h
          simpa [reduceAll] using ih hopen hclear h
      | operator left op =>
          obtain ⟨other, us, ls, rfl, hopen, hclear, -, h⟩ := close_operator hopen hclear h
          simpa [reduceAll] using ih hopen hclear h
      | assign name =>
          cases hopen with
          | whole hopen =>
              cases hopen with
              | assign hopen hname hequals =>
                  have hvalue : Derives (.expr .assignment value) vs :=
                    derives_of_index_le h (Nat.zero_le _)
                  simpa [reduceAll] using
                    ih hopen.whole hopen.clear (.assign hname hequals hvalue)
      | _ =>
          cases hopen with
          | whole hopen => exact ⟨ts, vs, rfl, hopen, derives_of_index_le h (Nat.zero_le _)⟩

end Closing

section Completing

variable {stack : List Frame} {stmts : List Stmt} {ts ss : List Token} {stmt : Stmt}

/-- A finished statement completes the branches and loops that wait for it. -/
theorem complete_sound (hopen : Open .stmt stack stmts ts) (h : Derives (.stmt stmt) ss) :
    ∃ us ws, ts ++ ss = us ++ ws ∧ Open .list (complete stmt stack).2 stmts us ∧
      Derives (.stmt (complete stmt stack).1) ws := by
  induction stack generalizing ts ss stmt with
  | nil =>
      cases hopen with
      | listed hopen => exact ⟨ts, ss, rfl, hopen, h⟩
  | cons frame stack ih =>
      cases hopen with
      | listed hopen =>
          cases hopen with
          | block hopen hbrace hstmts => exact ⟨_, ss, rfl, .block hopen hbrace hstmts, h⟩
      | branchBody hopen hword hopening htest hclosing =>
          simpa [complete] using ih hopen (.branch hword hopening htest hclosing h)
      | otherwise hopen hword hopening htest hclosing htrue hawaits hother =>
          simpa [complete] using
            ih hopen (.branchElse hword hopening htest hclosing htrue hawaits hother h)
      | loopBody hopen hword hopening htest hclosing =>
          simpa [complete] using ih hopen (.loop hword hopening htest hclosing h)

/-- An `else` belongs to a branch whose statement does not wait for one itself. -/
theorem matchElse_sound {other : Token} {stack' : List Frame} (hopen : Open .stmt stack stmts ts)
    (h : Derives (.stmt stmt) ss) (hawaits : stmt.awaitsElse = false)
    (hother : other.kind = .elseWord) (hmatch : matchElse stmt stack = some stack') :
    Open .stmt stack' stmts (ts ++ ss ++ [other]) := by
  induction stack generalizing ts ss stmt with
  | nil => cases hmatch
  | cons frame stack ih =>
      cases hopen with
      | listed hopen =>
          cases hopen with
          | block hopen hbrace hstmts => cases hmatch
      | branchBody hopen hword hopening htest hclosing =>
          cases hmatch
          simpa using Open.otherwise hopen hword hopening htest hclosing h hawaits hother
      | otherwise hopen hword hopening htest hclosing htrue hbefore hword' =>
          simpa using
            ih hopen (.branchElse hword hopening htest hclosing htrue hbefore hword' h) hawaits
              hmatch
      | loopBody hopen hword hopening htest hclosing =>
          simpa using ih hopen (.loop hword hopening htest hclosing h) hawaits hmatch

end Completing

/-! ### The invariant -/

namespace Machine

/-- What the machine has read, the tokens so far have led to. -/
def Holds (m : Machine) (ts : List Token) : Prop :=
  match m.mode with
  | .list _ => Open .list m.stack m.stmts ts
  | .statement pending =>
    ∃ us ss, ts = us ++ ss ∧ Open .stmt m.stack m.stmts us ∧ Derives (.stmt pending) ss ∧
      pending.awaitsElse = false
  | .body => Open .stmt m.stack m.stmts ts
  | .var => ∃ us word, ts = us ++ [word] ∧ Open .list m.stack m.stmts us ∧ word.kind = .varWord
  | .declared name =>
    ∃ us word, ts = us ++ [word, name] ∧ Open .list m.stack m.stmts us ∧ word.kind = .varWord ∧
      name.kind = .identifier
  | .conditional statement =>
    ∃ us word, ts = us ++ [word] ∧ Open .stmt m.stack m.stmts us ∧ word.kind = wordOf statement
  | .operand => Open .operand m.stack m.stmts ts
  | .operandRead value =>
    ∃ us vs, ts = us ++ vs ∧ Open .operand m.stack m.stmts us ∧ Derives (.expr .primary value) vs

section Steps

variable {m next : Machine} {ts : List Token} {t : Token}

theorem readOperand_holds (hopen : Open .operand m.stack m.stmts ts)
    (hstep : readOperand m t = some next) : next.Holds (ts ++ [t]) := by
  unfold readOperand at hstep
  split at hstep
  · next hkind => cases hstep; exact .unary hopen (Or.inl hkind)
  · next hkind => cases hstep; exact .unary hopen (Or.inr hkind)
  · next hkind => cases hstep; exact .whole (.group hopen hkind)
  · next hkind => cases hstep; exact ⟨ts, [t], rfl, hopen, .trueWord hkind⟩
  · next hkind => cases hstep; exact ⟨ts, [t], rfl, hopen, .falseWord hkind⟩
  · next hkind => cases hstep; exact ⟨ts, [t], rfl, hopen, .nilWord hkind⟩
  · next hkind => cases hstep; exact ⟨ts, [t], rfl, hopen, .literal (Or.inl hkind)⟩
  · next hkind => cases hstep; exact ⟨ts, [t], rfl, hopen, .literal (Or.inr hkind)⟩
  · next hkind => cases hstep; exact ⟨ts, [t], rfl, hopen, .ref hkind⟩
  · cases hstep

theorem readStatement_holds (hopen : Open .stmt m.stack m.stmts ts)
    (hstep : readStatement m t = some next) : next.Holds (ts ++ [t]) := by
  unfold readStatement at hstep
  split at hstep
  · next hkind => cases hstep; exact .block hopen hkind .nil
  · next hkind => cases hstep; exact ⟨ts, t, rfl, hopen, hkind⟩
  · next hkind => cases hstep; exact ⟨ts, t, rfl, hopen, hkind⟩
  · next hkind => cases hstep; exact .whole (.print hopen hkind)
  · exact readOperand_holds (m := { m with stack := .exprStmt :: m.stack })
      (.whole (.exprStmt hopen))
      hstep

theorem readList_holds (hopen : Open .list m.stack m.stmts ts)
    (hstep : readList m t = some next) : next.Holds (ts ++ [t]) := by
  unfold readList at hstep
  split at hstep
  · next hkind => cases hstep; exact ⟨ts, t, rfl, hopen, hkind⟩
  · next hkind =>
    split at hstep
    · next before stack hstack =>
      cases hstep
      rw [hstack] at hopen
      cases hopen with
      | @block _ _ _ us vs brace hopen hbrace hstmts =>
          refine ⟨us, brace :: vs ++ [t], by simp, hopen, .block hbrace hstmts hkind, rfl⟩
    · cases hstep
  · exact readStatement_holds (.listed hopen) hstep

theorem closeParen_holds {value : Expr} {vs : List Token} (hopen : Open .operand m.stack m.stmts ts)
    (h : Derives (.expr .primary value) vs) (hkind : t.kind = .rightParen)
    (hstep : closeParen m value = some next) : next.Holds (ts ++ vs ++ [t]) := by
  obtain ⟨us, ws, hsplit, hwhole, hderives⟩ :=
    reduceAll_sound hopen (clear_of_le (by decide) m.stack) h
  rw [hsplit]
  unfold closeParen at hstep
  generalize reduceAll value m.stack = closed at hstep hwhole hderives
  split at hstep
  · cases hstep
    cases hwhole with
    | @group _ _ us opening hopen hopening =>
        exact ⟨us, opening :: ws ++ [t], by simp, hopen, .group hopening hderives hkind⟩
  · cases hstep
    cases hwhole with
    | test hopen hword hopening =>
        have := Open.branchBody hopen hword hopening hderives hkind
        simpa [Holds] using this
  · cases hstep
    cases hwhole with
    | test hopen hword hopening =>
        have := Open.loopBody hopen hword hopening hderives hkind
        simpa [Holds] using this
  · cases hstep

theorem endStatement_holds {value : Expr} {vs : List Token}
    (hopen : Open .operand m.stack m.stmts ts) (h : Derives (.expr .primary value) vs)
    (hkind : t.kind = .semicolon) (hstep : endStatement m value = some next) :
    next.Holds (ts ++ vs ++ [t]) := by
  obtain ⟨us, ws, hsplit, hwhole, hderives⟩ :=
    reduceAll_sound hopen (clear_of_le (by decide) m.stack) h
  rw [hsplit]
  unfold endStatement at hstep
  generalize reduceAll value m.stack = closed at hstep hwhole hderives
  split at hstep
  · cases hstep
    cases hwhole with
    | exprStmt hopen =>
        exact ⟨us, ws ++ [t], by simp, hopen, .exprStmt hderives hkind, rfl⟩
  · cases hstep
    cases hwhole with
    | @print _ _ us word hopen hword =>
        exact ⟨us, word :: ws ++ [t], by simp, hopen, .print hword hderives hkind, rfl⟩
  · cases hstep
    cases hwhole with
    | initial hopen hword hname hequals =>
        have := hopen.cons (.declareInit hword hname hequals hderives hkind)
        simpa [Holds] using this
  · cases hstep

/-- What follows an operand and does not end the expression is an operator of some rung. -/
theorem exists_rung {kind : TokenKind} (h : followsOperand kind = true)
    (hparen : kind ≠ .rightParen)
    (hsemicolon : kind ≠ .semicolon) : ∃ rung : Rung, kind ∈ rung.operators := by
  cases kind with
  | rightParen => exact absurd rfl hparen
  | semicolon => exact absurd rfl hsemicolon
  | orWord => exact ⟨.disjunction, by decide⟩
  | andWord => exact ⟨.conjunction, by decide⟩
  | bangEqual => exact ⟨.equality, by decide⟩
  | equalEqual => exact ⟨.equality, by decide⟩
  | greater => exact ⟨.comparison, by decide⟩
  | greaterEqual => exact ⟨.comparison, by decide⟩
  | less => exact ⟨.comparison, by decide⟩
  | lessEqual => exact ⟨.comparison, by decide⟩
  | minus => exact ⟨.term, by decide⟩
  | plus => exact ⟨.term, by decide⟩
  | star => exact ⟨.factor, by decide⟩
  | slash => exact ⟨.factor, by decide⟩
  | _ => cases h

/-- Where an assignment could begin, the stack waits for a whole expression. -/
theorem expr_of_assignable {name : Token} {stack : List Frame} {stmts : List Stmt}
    (hopen : Open .operand stack stmts ts) (h : assignable (.ref name) stack = true) :
    Open .expr stack stmts ts := by
  cases hopen with
  | whole hopen => exact hopen
  | operator _ _ _ _ => cases h
  | unary _ _ => cases h

theorem readAfterOperand_holds {value : Expr} {vs : List Token}
    (hopen : Open .operand m.stack m.stmts ts) (h : Derives (.expr .primary value) vs)
    (haccepts : (Position.afterOperand (assignable value m.stack)).accepts t.kind = true)
    (hstep : readAfterOperand m value t = some next) : next.Holds (ts ++ vs ++ [t]) := by
  unfold readAfterOperand at hstep
  split at hstep
  · next hkind => exact closeParen_holds hopen h hkind hstep
  · next hkind => exact endStatement_holds hopen h hkind hstep
  · next hkind =>
    split at hstep
    · next name =>
      cases hstep
      simp only [Position.accepts, hkind, followsOperand, Bool.false_or, decide_true,
        Bool.and_true] at haccepts
      have hwhole := expr_of_assignable hopen haccepts
      obtain ⟨rfl, hname⟩ := h.eq_of_ref
      simpa [Holds] using Open.whole (.assign hwhole hname hkind)
    · cases hstep
  · next hparen hsemicolon hequal =>
    cases hstep
    have hfollows : followsOperand t.kind = true := by
      have hne : t.kind ≠ .equal := hequal
      simpa [Position.accepts, hne] using haccepts
    obtain ⟨rung, hop⟩ := exists_rung hfollows hparen hsemicolon
    have hindex : rung.index < 7 := by
      cases rung <;> simp [Rung.index, Rung.operators] at hop ⊢
    obtain ⟨us, ws, hsplit, hopen, hclear, hleft⟩ :=
      reduce_sound hindex hopen (clear_of_le (by decide) m.stack) h (by
        show rung.index ≤ 8
        omega)
    rw [hsplit, List.append_assoc]
    rw [Rung.level_of_mem_operators hop]
    exact .operator hopen hclear hleft hop

theorem settle_holds {pending : Stmt} {us ss : List Token} (hopen : Open .stmt m.stack m.stmts us)
    (h : Derives (.stmt pending) ss) :
    Open .list (m.settle pending).stack (m.settle pending).stmts (us ++ ss) := by
  obtain ⟨vs, ws, hsplit, hlist, hstmt⟩ := complete_sound hopen h
  rw [hsplit]
  exact hlist.cons (.stmtDecl hstmt)

/-- **The invariant is kept by every accepted token.** -/
theorem Holds.step (h : m.Holds ts) (haccepts : m.position.accepts t.kind = true)
    (hstep : m.step t = some next) : next.Holds (ts ++ [t]) := by
  obtain ⟨mode, stack, stmts⟩ := m
  cases mode with
  | list position => exact readList_holds h hstep
  | statement pending =>
      -- The statement is settled by the token behind it: an `else` goes to a branch on the stack.
      obtain ⟨us, ss, rfl, hopen, hderives, hawaits⟩ := h
      simp only [Machine.step] at hstep
      split at hstep
      · next hkind =>
        obtain ⟨stack', hmatch, rfl⟩ := Option.map_eq_some_iff.1 hstep
        exact matchElse_sound hopen hderives hawaits hkind hmatch
      · exact readList_holds (settle_holds (m := ⟨_, stack, stmts⟩) hopen hderives) hstep
  | body => exact readStatement_holds h hstep
  | var =>
      obtain ⟨us, word, rfl, hopen, hword⟩ := h
      cases hstep
      exact ⟨us, word, by simp, hopen, hword, by simpa [position, Position.accepts] using haccepts⟩
  | declared name =>
      obtain ⟨us, word, rfl, hopen, hword, hname⟩ := h
      simp only [Machine.step] at hstep
      split at hstep
      · next hkind =>
        cases hstep
        simpa [Holds] using Open.whole (.initial hopen hword hname hkind)
      · next hkind =>
        cases hstep
        have hsemicolon : t.kind = .semicolon := by
          simpa [position, Position.accepts, hkind] using haccepts
        simpa [Holds] using hopen.cons (.declare hword hname hsemicolon)
  | conditional statement =>
      obtain ⟨us, word, rfl, hopen, hword⟩ := h
      cases hstep
      have hopening : t.kind = .leftParen := by
        simpa [position, Position.accepts] using haccepts
      simpa [Holds] using Open.whole (.test hopen hword hopening)
  | operand => exact readOperand_holds h hstep
  | operandRead value =>
      obtain ⟨us, vs, rfl, hopen, hderives⟩ := h
      exact readAfterOperand_holds hopen hderives haccepts hstep

end Steps

/-- A run over tokens keeps the invariant. -/
theorem Holds.reads {bound : Nat} {m last : Machine} {ts us : List Token} (h : m.Holds ts)
    (hreads : m.Reads bound us last) : last.Holds (ts ++ us) := by
  induction hreads generalizing ts with
  | nil => simpa using h
  | cons next haccepts hstep _ _ ih => simpa using ih (h.step haccepts hstep)

/-- Behind a statement of the outermost list, the tokens derive the list. -/
theorem derives_of_finish {position : Position} {stack : List Frame} {stmts program : List Stmt}
    {ts : List Token} (hopen : Open .list stack stmts ts)
    (hfinish : Machine.finish ⟨.list position, stack, stmts⟩ = some program) :
    Derives (.decls program) ts := by
  cases stack with
  | nil =>
      cases hfinish
      cases hopen with
      | top hderives => exact hderives
  | cons frame stack => cases hfinish

/-- Where the source may end, the tokens derive the program. -/
theorem Holds.finish {m : Machine} {ts : List Token} {program : List Stmt} (h : m.Holds ts)
    (hfinish : m.finish = some program) : Derives (.decls program) ts := by
  obtain ⟨mode, stack, stmts⟩ := m
  cases mode with
  | list position => exact derives_of_finish h hfinish
  | statement pending =>
      obtain ⟨us, ss, rfl, hopen, hderives, -⟩ := h
      exact derives_of_finish (settle_holds (m := ⟨_, stack, stmts⟩) hopen hderives) hfinish
  | _ => cases hfinish

end Machine

/-- A program that is read is derived. -/
theorem derives_of_reads {bound : Nat} {last : Machine} {ts : List Token} {program : List Stmt}
    (hreads : Machine.initial.Reads bound ts last) (hfinish : last.finish = some program) :
    Derives (.decls program) ts := by
  have hinitial : Machine.initial.Holds [] := Open.top .nil
  simpa using (hinitial.reads hreads).finish hfinish

end ScriptLang.Grammar
