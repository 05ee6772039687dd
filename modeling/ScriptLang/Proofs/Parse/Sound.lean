import ScriptLang.Proofs.Parse.Builds
import ScriptLang.Proofs.Phrase

/-!
# What is built is derived

A parser that builds a tree without noting an error has read a row of tokens that the grammar
derives for that tree, and the tree opens no more levels than the parser was given.

## Main Definitions

* `Spans`: the tokens between two cursors derive a phrase.

## Main Statements

* `leftChain_sound`: a chain of operators, if its operands are sound.
* `expression_sound`, `statement_sound`: expressions and statements.
* `derives_of_parse`: an accepted program is derived by the tokens in front of the end.

## Design Notes

Besides the derivation, a statement that waits for an `else` reports that none follows it. That is
what the rule for a branch with an `else` asks of the statement in front of it.
-/

namespace ScriptLang.Parse

/-- The tokens between two cursors derive a phrase. -/
def Spans (phrase : Phrase) (c c' : Cursor) : Prop :=
  ∃ used, c.rest = used ++ c'.rest ∧ Derives phrase used

/-- What the parser builds is derived on the rung and opens at most `n` levels. -/
def SoundOn (rung : Rung) (n : Nat) (p : Parser Expr) : Prop :=
  ∀ {c c' : Cursor} {e : Expr}, p.Builds c e c' → Spans (.expr rung e) c c' ∧ e.levels ≤ n

/-! ### Chains of operators -/

section Chain

variable (rung : Rung) {n : Nat} {ops : TokenKind → Bool} {operand : Parser Expr}

/-- The loop extends what has been derived by one operator and one operand each round. -/
theorem chainTail_sound (hops : ∀ kind, ops kind = true → kind ∈ rung.operators)
    (hoperand : SoundOn rung.next n operand) :
    ∀ (k : Nat) {c c' : Cursor} {left e : Expr} {earlier : List Token},
      Derives (.expr rung left) earlier → left.levels ≤ n →
      (chainTail ops rung.node operand k left).Builds c e c' →
      ∃ used, c.rest = used ++ c'.rest ∧ Derives (.expr rung e) (earlier ++ used) ∧
        e.levels ≤ n := by
  intro k
  induction k with
  | zero =>
      intro c c' left e earlier hleft hlevels h
      obtain ⟨rfl, rfl⟩ := builds_pure.1 h
      exact ⟨[], rfl, by simpa using hleft, hlevels⟩
  | succ k ih =>
      intro c c' left e earlier hleft hlevels h
      rw [chainTail, builds_bind] at h
      obtain ⟨found, c₁, hfound, h⟩ := h
      cases found with
      | none =>
          obtain ⟨rfl, -⟩ := builds_accept_none.1 hfound
          obtain ⟨rfl, rfl⟩ := builds_pure.1 h
          exact ⟨[], rfl, by simpa using hleft, hlevels⟩
      | some op =>
          obtain ⟨hop, -, -, hkind⟩ := builds_accept_some.1 hfound
          obtain ⟨right, c₂, hright, h⟩ := builds_bind.1 h
          obtain ⟨⟨rs, hrs, hderives⟩, hrightLevels⟩ := hoperand hright
          have hnode := hleft.operator (hops _ hkind) hderives
          obtain ⟨used, hused, hwhole, hwholeLevels⟩ :=
            ih hnode (by rw [Rung.levels_node]; omega) h
          refine ⟨op :: rs ++ used, ?_, ?_, hwholeLevels⟩
          · rw [hop, hrs, hused]; simp
          · simpa using hwhole

/-- A chain is sound if its operands are. -/
theorem leftChain_sound (hops : ∀ kind, ops kind = true → kind ∈ rung.operators)
    (hoperand : SoundOn rung.next n operand) :
    SoundOn rung n (leftChain ops rung.node operand) := by
  intro c c' e h
  simp only [leftChain, builds_bind, builds_remaining] at h
  obtain ⟨first, c₁, hfirst, _, _, ⟨rfl, rfl⟩, h⟩ := h
  obtain ⟨⟨ts, hts, hderives⟩, hlevels⟩ := hoperand hfirst
  obtain ⟨used, hused, hwhole, hwholeLevels⟩ :=
    chainTail_sound rung hops hoperand _ (.loosen hderives) hlevels h
  exact ⟨⟨ts ++ used, by rw [hts, hused, List.append_assoc], hwhole⟩, hwholeLevels⟩

end Chain

/-- The six rungs of operators are sound if the operands are. -/
theorem operation_sound {n : Nat} {operand : Parser Expr} (h : SoundOn .unary n operand) :
    SoundOn .disjunction n (operation operand) := by
  refine leftChain_sound .disjunction (by simp [isOrOp, Rung.operators]) ?_
  refine leftChain_sound .conjunction (by simp [isAndOp, Rung.operators]) ?_
  refine leftChain_sound .equality (by simp [isEqualityOp, Rung.operators]) ?_
  refine leftChain_sound .comparison (by simp [isComparisonOp, Rung.operators, or_assoc]) ?_
  refine leftChain_sound .term (by simp [isTermOp, Rung.operators]) ?_
  exact leftChain_sound .factor (by simp [isFactorOp, Rung.operators]) h

/-! ### Expressions -/

/-- What stands in front of an equals sign is a name, or else an error is noted. -/
theorem builds_assignment {target value e : Expr} {equals : Token} {index : Nat} {c c' : Cursor} :
    (assignment target equals index value).Builds c e c' ↔
      ∃ name, target = .ref name ∧ e = .assign name value ∧ c' = c := by
  unfold assignment
  split
  · simp [eq_comm]
  · next hname =>
      simp only [builds_bind, builds_note, false_and, exists_false, false_iff, not_exists]
      rintro name ⟨rfl, -⟩
      exact hname name rfl

/-- A primary is sound if the expression in its parentheses is. -/
theorem primary_sound {n : Nat} {inner : Parser Expr}
    (hinner : ∀ {c c' : Cursor} {e : Expr}, inner.Builds c e c' →
      Spans (.expr .assignment e) c c' ∧ e.levels < n) :
    SoundOn .primary (n + 1) (primary inner) := by
  intro c c' e h
  rw [primary, builds_peek_bind] at h
  obtain ⟨i, t, rest, rfl, h⟩ := h
  split at h
  case h_7 hkind =>
    rw [builds_advance_bind] at h
    simp only [builds_bind, builds_expect, builds_pure] at h
    obtain ⟨e', c₁, he, closing, c₂, ⟨hclosing, -, -, hclose⟩, rfl, rfl⟩ := h
    obtain ⟨⟨used, hused, hderives⟩, hlevels⟩ := hinner he
    refine ⟨⟨_, ?_, .group hkind hderives hclose⟩, by simp only [Expr.levels]; omega⟩
    simpa [hclosing] using hused
  case h_8 => exact absurd h builds_fail
  all_goals
    rw [builds_advance_bind, builds_pure] at h
    obtain ⟨rfl, rfl⟩ := h
    refine ⟨⟨[t], rfl, ?_⟩, by simp [Expr.levels]⟩
  case h_1 hkind => exact .falseWord hkind
  case h_2 hkind => exact .trueWord hkind
  case h_3 hkind => exact .nilWord hkind
  case h_4 hkind => exact .literal (.inl hkind)
  case h_5 hkind => exact .literal (.inr hkind)
  case h_6 hkind => exact .ref hkind

/-- Expressions and operands are sound, by induction on the levels that they may open. -/
theorem expression_unary_sound (n : Nat) :
    (∀ {c c' : Cursor} {e : Expr}, (expression n).Builds c e c' →
      Spans (.expr .assignment e) c c' ∧ e.levels < n) ∧
    SoundOn .unary n (unary n) := by
  induction n with
  | zero => exact ⟨fun h => absurd h builds_halt, fun h => absurd h builds_halt⟩
  | succ n ih =>
      obtain ⟨ihexpr, ihunary⟩ := ih
      constructor
      · intro c c' e h
        simp only [expression, builds_bind, builds_here] at h
        obtain ⟨target, c₁, htarget, _, _, ⟨rfl, rfl⟩, found, c₂, hfound, h⟩ := h
        obtain ⟨⟨ts, hts, hderives⟩, hlevels⟩ := operation_sound ihunary htarget
        cases found with
        | none =>
            obtain ⟨rfl, -⟩ := builds_accept_none.1 hfound
            obtain ⟨rfl, rfl⟩ := builds_pure.1 h
            exact ⟨⟨ts, hts, .loosen hderives⟩, by omega⟩
        | some equals =>
            obtain ⟨hequals, -, -, hkind⟩ := builds_accept_some.1 hfound
            obtain ⟨value, c₃, hvalue, h⟩ := builds_bind.1 h
            -- The target was parsed as any operation is; that it is a bare name is checked here.
            obtain ⟨name, rfl, rfl, rfl⟩ := builds_assignment.1 h
            obtain ⟨⟨us, hus, hvalue⟩, hvalueLevels⟩ := ihexpr hvalue
            obtain ⟨rfl, hname⟩ := hderives.eq_of_ref
            refine ⟨⟨name :: equals :: us, ?_, .assign hname (by simpa using hkind) hvalue⟩, ?_⟩
            · simp [hts, hequals, hus]
            · simp only [Expr.levels]; omega
      · intro c c' e h
        simp only [unary, builds_bind] at h
        obtain ⟨found, c₁, hfound, h⟩ := h
        cases found with
        | none =>
            obtain ⟨rfl, -⟩ := builds_accept_none.1 hfound
            obtain ⟨⟨ts, hts, hderives⟩, hlevels⟩ := primary_sound ihexpr h
            exact ⟨⟨ts, hts, .loosen hderives⟩, hlevels⟩
        | some op =>
            obtain ⟨hop, -, -, hkind⟩ := builds_accept_some.1 hfound
            simp only [builds_bind, builds_pure] at h
            obtain ⟨operand, c₂, hoperand, rfl, rfl⟩ := h
            obtain ⟨⟨ts, hts, hderives⟩, hlevels⟩ := ihunary hoperand
            refine ⟨⟨op :: ts, by simp [hop, hts], .unary ?_ hderives⟩, ?_⟩
            · simpa [isUnaryOp] using hkind
            · simp only [Expr.levels]; omega

theorem expression_sound {n : Nat} {c c' : Cursor} {e : Expr} (h : (expression n).Builds c e c') :
    Spans (.expr .assignment e) c c' ∧ e.levels < n :=
  (expression_unary_sound n).1 h

/-! ### Declarations -/

/-- What a declaration builds is derived and opens at most `n` levels. -/
def SoundDeclaration (n : Nat) (p : Parser (Option Stmt)) : Prop :=
  ∀ {c c' : Cursor} {o : Option Stmt}, p.Builds c o c' →
    ∃ stmt, o = some stmt ∧ Spans (.decl stmt) c c' ∧ stmt.levels ≤ n

/-- What a statement builds is derived and opens at most `n` levels, and if it waits for an `else`,
none follows. -/
def SoundStatement (n : Nat) (p : Parser Stmt) : Prop :=
  ∀ {c c' : Cursor} {stmt : Stmt}, p.Builds c stmt c' →
    Spans (.stmt stmt) c c' ∧ stmt.levels ≤ n ∧
      (stmt.awaitsElse = true → ∀ t ∈ c'.rest.head?, t.kind ≠ .elseWord)

theorem variableDeclaration_sound {n : Nat} {c c' : Cursor} {stmt : Stmt} {word : Token}
    (hword : word.kind = .varWord) (h : (variableDeclaration (expression n)).Builds c stmt c') :
    (∃ used, c.rest = used ++ c'.rest ∧ Derives (.decl stmt) (word :: used)) ∧
      stmt.levels ≤ n := by
  simp only [variableDeclaration, builds_bind, builds_expect] at h
  obtain ⟨name, c₁, ⟨hname, -, -, hnameKind⟩, found, c₂, hfound, h⟩ := h
  cases found with
  | none =>
      obtain ⟨rfl, -⟩ := builds_accept_none.1 hfound
      simp only [builds_bind, builds_expect, builds_pure] at h
      obtain ⟨_, _, ⟨rfl, rfl⟩, semicolon, c₃, ⟨hsemicolon, -, -, hkind⟩, rfl, rfl⟩ := h
      refine ⟨⟨[name, semicolon], by simp [hname, hsemicolon], ?_⟩, by simp [Stmt.levels]⟩
      exact .declare hword hnameKind hkind
  | some equals =>
      obtain ⟨hequals, -, -, hequalsKind⟩ := builds_accept_some.1 hfound
      simp only [builds_bind, builds_map, builds_expect, builds_pure] at h
      obtain ⟨_, c₃, ⟨initial, hinitial, rfl⟩, semicolon, c₄, ⟨hsemicolon, -, -, hkind⟩, rfl,
        rfl⟩ :=
        h
      obtain ⟨⟨ts, hts, hderives⟩, hlevels⟩ := expression_sound hinitial
      refine ⟨⟨name :: equals :: ts ++ [semicolon], ?_, ?_⟩, by simp only [Stmt.levels]; omega⟩
      · simp [hname, hequals, hts, hsemicolon]
      · exact .declareInit hword hnameKind (by simpa using hequalsKind) hderives hkind

theorem declaration_sound {n : Nat} (hstmt : SoundStatement n (statement n)) :
    SoundDeclaration n (declaration (expression n) (statement n)) := by
  intro c c' o h
  simp only [declaration, builds_recover, builds_bind] at h
  obtain ⟨stmt, rfl, found, c₁, hfound, h⟩ := h
  refine ⟨stmt, rfl, ?_⟩
  cases found with
  | none =>
      obtain ⟨rfl, -⟩ := builds_accept_none.1 hfound
      obtain ⟨⟨ts, hts, hderives⟩, hlevels, -⟩ := hstmt h
      exact ⟨⟨ts, hts, .stmtDecl hderives⟩, hlevels⟩
  | some word =>
      obtain ⟨hword, -, -, hkind⟩ := builds_accept_some.1 hfound
      obtain ⟨⟨ts, hts, hderives⟩, hlevels⟩ := variableDeclaration_sound (by simpa using hkind) h
      exact ⟨⟨word :: ts, by simp [hword, hts], hderives⟩, hlevels⟩

/-- A list of declarations ends in front of what closes it: every declaration takes at least one
token, so the loop is never cut short. -/
theorem declarations_sound {closing : TokenKind} {n : Nat} {p : Parser (Option Stmt)}
    (hp : SoundDeclaration n p) :
    ∀ (k : Nat) {c c' : Cursor} {stmts : List Stmt}, c.rest.length < k →
      (declarations closing p k).Builds c stmts c' →
      Spans (.decls stmts) c c' ∧ levelsOfAll stmts ≤ n ∧
        ∃ t rest, c'.rest = t :: rest ∧ (t.isEnd = true ∨ t.kind = closing) := by
  intro k
  induction k with
  | zero => intro c c' stmts hlength; omega
  | succ k ih =>
      intro c c' stmts hlength h
      rw [declarations, builds_peek_bind] at h
      obtain ⟨i, t, rest, rfl, h⟩ := h
      split at h
      · next hend =>
          obtain ⟨rfl, rfl⟩ := builds_pure.1 h
          exact ⟨⟨[], rfl, .nil⟩, by simp [levelsOfAll], t, rest, rfl, by simpa using hend⟩
      · simp only [builds_bind, builds_pure] at h
        obtain ⟨first, c₁, hfirst, others, c₂, hothers, rfl, rfl⟩ := h
        obtain ⟨stmt, rfl, ⟨ts, hts, hderives⟩, hlevels⟩ := hp hfirst
        obtain ⟨u, us, rfl, -⟩ := hderives.head_decl
        -- A declaration is at least one token long, so what is left of the budget suffices.
        have hshort : c₁.rest.length < k := by
          have := congrArg List.length hts
          simp only [List.length_cons, List.length_append] at this hlength
          omega
        obtain ⟨⟨vs, hvs, hrest⟩, hrestLevels, hclosed⟩ := ih hshort hothers
        refine ⟨⟨u :: us ++ vs, by rw [hts, hvs]; simp, hderives.cons hrest⟩, ?_, hclosed⟩
        simp only [Option.toList, List.singleton_append, levelsOfAll]
        omega

theorem blockBody_sound {n : Nat} {p : Parser (Option Stmt)} (hp : SoundDeclaration n p)
    {c c' : Cursor} {body : List Stmt} (h : (blockBody p).Builds c body c') :
    ∃ ts closing, c.rest = ts ++ closing :: c'.rest ∧ Derives (.decls body) ts ∧
      closing.kind = .rightBrace ∧ levelsOfAll body ≤ n := by
  simp only [blockBody, builds_bind, builds_remaining, builds_expect, builds_pure] at h
  obtain ⟨_, _, ⟨rfl, rfl⟩, body, c₁, hbody, closing, c₂, ⟨hclosing, -, -, hkind⟩, rfl, rfl⟩ := h
  obtain ⟨⟨ts, hts, hderives⟩, hlevels, -⟩ := declarations_sound hp _ (by omega) hbody
  exact ⟨ts, closing, by rw [hts, hclosing], hderives, hkind, hlevels⟩

/-! ### Statements -/

theorem condition_sound {n : Nat} {opening closing : Fault} {c c' : Cursor} {test : Expr}
    (h : (condition (expression n) opening closing).Builds c test c') :
    ∃ left ts right, c.rest = left :: ts ++ right :: c'.rest ∧ left.kind = .leftParen ∧
      Derives (.expr .assignment test) ts ∧ right.kind = .rightParen ∧ test.levels < n := by
  simp only [condition, builds_bind, builds_expect, builds_pure] at h
  obtain ⟨left, c₁, ⟨hleft, -, -, hleftKind⟩, test, c₂, htest, right, c₃,
    ⟨hright, -, -, hrightKind⟩, rfl, rfl⟩ := h
  obtain ⟨⟨ts, hts, hderives⟩, hlevels⟩ := expression_sound htest
  exact ⟨left, ts, right, by simp [hleft, hts, hright], hleftKind, hderives, hrightKind, hlevels⟩

/-- Statements are sound, by induction on the levels that they may open. -/
theorem statement_sound (n : Nat) : SoundStatement n (statement n) := by
  induction n with
  | zero => exact fun h => absurd h builds_halt
  | succ n ih =>
      intro c c' stmt h
      rw [statement, builds_peek_bind] at h
      obtain ⟨i, t, rest, rfl, h⟩ := h
      split at h
      · next hword =>
          rw [builds_advance_bind] at h
          simp only [builds_bind, builds_expect, builds_pure] at h
          obtain ⟨value, c₁, hvalue, semicolon, c₂, ⟨hsemicolon, -, -, hkind⟩, rfl, rfl⟩ := h
          obtain ⟨⟨ts, hts, hderives⟩, hlevels⟩ := expression_sound hvalue
          refine ⟨⟨_, ?_, .print hword hderives hkind⟩, by simp only [Stmt.levels]; omega,
            by simp [Stmt.awaitsElse]⟩
          simpa [hsemicolon] using hts
      · next hword =>
          rw [builds_advance_bind] at h
          simp only [builds_bind] at h
          obtain ⟨test, c₁, htest, whenTrue, c₂, htrue, found, c₃, hfound, h⟩ := h
          obtain ⟨left, cs, right, hcs, hleft, htest, hright, htestLevels⟩ := condition_sound htest
          obtain ⟨⟨ts, hts, hderives⟩, htrueLevels, hopen⟩ := ih htrue
          cases found with
          | none =>
              -- No `else` follows, as is asked of the token behind a branch that waits for one.
              obtain ⟨rfl, u, us, hu, hother⟩ := builds_accept_none.1 hfound
              obtain ⟨rfl, rfl⟩ := builds_pure.1 h
              refine ⟨⟨_, ?_, .branch hword hleft htest hright hderives⟩,
                by simp only [Stmt.levels]; omega, ?_⟩
              · simpa [hts] using hcs
              · intro _ v hv
                obtain rfl : u = v := by simpa [hu] using hv
                rcases hother with hother | hother
                · simp only [Token.isEnd, decide_eq_true_eq] at hother
                  simp [hother]
                · simpa using hother
          | some other =>
              obtain ⟨hother, -, -, hkind⟩ := builds_accept_some.1 hfound
              simp only [builds_bind, builds_pure] at h
              obtain ⟨whenFalse, c₄, hfalse, rfl, rfl⟩ := h
              obtain ⟨⟨us, hus, hfalse⟩, hfalseLevels, hfalseOpen⟩ := ih hfalse
              -- A body that waits for an `else` would have taken this one.
              have hclosed : whenTrue.awaitsElse = false := by
                cases hawaits : whenTrue.awaitsElse with
                | false => rfl
                | true =>
                    exact absurd (by simpa using hkind) (hopen hawaits other (by simp [hother]))
              refine ⟨⟨_, ?_, .branchElse hword hleft htest hright hderives hclosed
                (by simpa using hkind) hfalse⟩, by simp only [Stmt.levels]; omega, hfalseOpen⟩
              simpa [hts, hother, hus] using hcs
      · next hword =>
          rw [builds_advance_bind] at h
          simp only [builds_bind, builds_pure] at h
          obtain ⟨test, c₁, htest, body, c₂, hbody, rfl, rfl⟩ := h
          obtain ⟨left, cs, right, hcs, hleft, htest, hright, htestLevels⟩ := condition_sound htest
          obtain ⟨⟨ts, hts, hbody⟩, hbodyLevels, hopen⟩ := ih hbody
          refine ⟨⟨_, ?_, .loop hword hleft htest hright hbody⟩,
            by simp only [Stmt.levels]; omega, hopen⟩
          simpa [hts] using hcs
      · next hopening =>
          rw [builds_advance_bind] at h
          simp only [builds_bind, builds_pure] at h
          obtain ⟨body, c₁, hbody, rfl, rfl⟩ := h
          obtain ⟨ts, closing, hts, hderives, hclosing, hlevels⟩ :=
            blockBody_sound (declaration_sound ih) hbody
          refine ⟨⟨_, ?_, .block hopening hderives hclosing⟩, by simp only [Stmt.levels]; omega,
            by simp [Stmt.awaitsElse]⟩
          simpa using hts
      · simp only [builds_bind, builds_expect, builds_pure] at h
        obtain ⟨value, c₁, hvalue, semicolon, c₂, ⟨hsemicolon, -, -, hkind⟩, rfl, rfl⟩ := h
        obtain ⟨⟨ts, hts, hderives⟩, hlevels⟩ := expression_sound hvalue
        refine ⟨⟨_, ?_, .exprStmt hderives hkind⟩, by simp only [Stmt.levels]; omega,
          by simp [Stmt.awaitsElse]⟩
        simpa [hsemicolon] using hts

/-! ### Programs -/

/-- An accepted program is derived by the tokens in front of the first one for the end. -/
theorem derives_of_parse {limit : Nat} {tokens : List Token} {program : List Stmt}
    (h : parse limit tokens = .ok program) :
    ∃ body last rest, tokens = body ++ last :: rest ∧ last.isEnd = true ∧
      Derives (.decls program) body ∧ levelsOfAll program ≤ limit := by
  obtain ⟨c', hbuilds⟩ := parse_eq_ok_iff.1 h
  obtain ⟨⟨body, hbody, hderives⟩, hlevels, last, rest, hlast, hend⟩ :=
    declarations_sound (declaration_sound (statement_sound limit)) _ (Nat.lt_succ_self _) hbuilds
  refine ⟨body, last, rest, by rw [← hlast, ← hbody], ?_, hderives, hlevels⟩
  simpa [Token.isEnd] using hend

end ScriptLang.Parse
