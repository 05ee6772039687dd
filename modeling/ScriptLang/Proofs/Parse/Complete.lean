import ScriptLang.Proofs.Parse.Builds
import ScriptLang.Proofs.Phrase

/-!
# What is derived is built

A row of tokens that the grammar derives for a tree makes the parsers build that tree, if what
follows the row cannot extend it and the tree opens no more levels than the parser is given.

## Main Definitions

* `Parser.Reads`: a parser builds a value from a row of tokens, wherever the row begins.
* `ladder`: the parser of a rung of operators.
* `Parsed`: what a derivation promises of the parser of its phrase.

## Main Statements

* `parsed_of_derives`: the promise is kept, by induction on the derivation.
* `parse_of_derives`: a program that is derived is accepted.

## Design Notes

A derivation of a rung grows to the left, while the parser loops to the right. The promise for a
rung is therefore that of a loop under way: after the tokens of the phrase, the parser stands in its
loop with the tree of the phrase on its left.
-/

namespace ScriptLang.Parse

open Grammar (level)

/-! ### The parsers of the rungs -/

/-- The operators of a rung, as its parser asks for them. -/
def isOperator : Rung → TokenKind → Bool
  | .disjunction => isOrOp
  | .conjunction => isAndOp
  | .equality => isEqualityOp
  | .comparison => isComparisonOp
  | .term => isTermOp
  | .factor => isFactorOp
  | _ => fun _ => false

@[simp] theorem isOperator_iff {rung : Rung} {kind : TokenKind} :
    isOperator rung kind = true ↔ kind ∈ rung.operators := by
  cases rung <;> simp [isOperator, Rung.operators, isOrOp, isAndOp, isEqualityOp, isComparisonOp,
    isTermOp, isFactorOp, or_assoc]

/-- The parser of a rung of operators over a parser of operands. -/
def ladder (operand : Parser Expr) : Rung → Parser Expr
  | .disjunction => operation operand
  | .conjunction =>
    leftChain isAndOp .logical <| leftChain isEqualityOp .binary <|
    leftChain isComparisonOp .binary <| leftChain isTermOp .binary <|
    leftChain isFactorOp .binary operand
  | .equality =>
    leftChain isEqualityOp .binary <| leftChain isComparisonOp .binary <|
    leftChain isTermOp .binary <| leftChain isFactorOp .binary operand
  | .comparison =>
    leftChain isComparisonOp .binary <| leftChain isTermOp .binary <|
    leftChain isFactorOp .binary operand
  | .term => leftChain isTermOp .binary <| leftChain isFactorOp .binary operand
  | .factor => leftChain isFactorOp .binary operand
  | _ => operand

/-- On a rung of operators, the operands of the chain stand on the next rung. -/
theorem ladder_eq_leftChain (operand : Parser Expr) {rung : Rung} (hlow : 0 < rung.index)
    (hhigh : rung.index < 7) :
    ladder operand rung = leftChain (isOperator rung) rung.node (ladder operand rung.next) := by
  cases rung with
  | assignment => exact absurd hlow (Nat.lt_irrefl 0)
  | unary => exact absurd hhigh (Nat.lt_irrefl 7)
  | primary => exact absurd hhigh (Nat.not_lt_of_le (Nat.le_succ 7))
  | _ => rfl

/-! ### What a derivation promises -/

/-- From the tokens `ts` the parser builds `a` and leaves `rest`, wherever `ts` begins. -/
def Parser.Reads {α : Type} (p : Parser α) (ts : List Token) (a : α) (rest : List Token) : Prop :=
  ∀ i, ∃ j, p.Builds ⟨i, ts⟩ a ⟨j, rest⟩

/-- The loop of a rung, under way: it stands behind the tokens `ts` with `e` on its left. The loop
may still go around as often as there are tokens left. -/
def Parser.Loops (rung : Rung) (operand : Parser Expr) (ts : List Token) (e : Expr)
    (rest : List Token) : Prop :=
  ∀ i, ∃ j k, rest.length ≤ k ∧ ∀ value c',
    (chainTail (isOperator rung) rung.node (ladder operand rung.next) k e).Builds ⟨j, rest⟩
      value c' →
    (ladder operand rung).Builds ⟨i, ts ++ rest⟩ value c'

/-- What a derivation promises of the parser of its phrase. What follows the phrase begins with a
token `t` that cannot extend it. -/
def Parsed : Phrase → List Token → Prop
  | .expr .assignment e, ts =>
    ∀ ⦃n t rest⦄, e.levels < n → level t.kind = 0 → t.kind ≠ .equal →
      (expression n).Reads (ts ++ t :: rest) e (t :: rest)
  | .expr .unary e, ts =>
    ∀ ⦃n rest⦄, e.levels ≤ n → (unary n).Reads (ts ++ rest) e rest
  | .expr .primary e, ts =>
    (∃ t us, ts = t :: us ∧ t.isEnd = false ∧ isUnaryOp t.kind = false) ∧
    ∀ ⦃n rest⦄, e.levels ≤ n + 1 → (primary (expression n)).Reads (ts ++ rest) e rest
  | .expr rung e, ts =>
    ∀ ⦃n t rest⦄, e.levels ≤ n → level t.kind ≤ rung.index →
      Parser.Loops rung (unary n) ts e (t :: rest)
  | .stmt stmt, ts =>
    ∀ ⦃n t rest⦄, stmt.levels ≤ n → (stmt.awaitsElse = true → t.kind ≠ .elseWord) →
      (statement n).Reads (ts ++ t :: rest) stmt (t :: rest)
  | .decl stmt, ts =>
    ∀ ⦃n t rest⦄, stmt.levels ≤ n → t.kind ≠ .elseWord →
      (declaration (expression n) (statement n)).Reads (ts ++ t :: rest) (some stmt) (t :: rest)
  | .decls stmts, ts =>
    ∀ ⦃n k closing t rest⦄, levelsOfAll stmts ≤ n → stmts.length < k →
      (closing = .endOfInput ∨ closing = .rightBrace) → (t.isEnd = true ∨ t.kind = closing) →
      (declarations closing (declaration (expression n) (statement n)) k).Reads (ts ++ t :: rest)
        stmts (t :: rest)

/-! ### Chains of operators -/

/-- The loop stops in front of a token that is no operator of its rung. -/
theorem chainTail_stops {rung : Rung} {operand : Parser Expr} (k : Nat) {e : Expr} {j : Nat}
    {t : Token} {rest : List Token} (h : t.kind ∉ rung.operators) :
    (chainTail (isOperator rung) rung.node operand k e).Builds ⟨j, t :: rest⟩ e ⟨j, t :: rest⟩ := by
  cases k with
  | zero => simp [chainTail]
  | succ k =>
      rw [chainTail, builds_bind]
      refine ⟨none, ⟨j, t :: rest⟩, ?_, by simp⟩
      rw [builds_accept_none]
      refine ⟨rfl, t, rest, rfl, Or.inr ?_⟩
      simpa [isOperator_iff, ← Bool.not_eq_true] using h

/-- A loop under way is over in front of a token that binds too loosely for its rung. -/
theorem Parser.Loops.reads {rung : Rung} {operand : Parser Expr} {ts : List Token} {e : Expr}
    {t : Token} {rest : List Token} (h : Parser.Loops rung operand ts e (t :: rest))
    (ht : level t.kind < rung.index) :
    (ladder operand rung).Reads (ts ++ t :: rest) e (t :: rest) := by
  intro i
  obtain ⟨j, k, -, hloop⟩ := h i
  refine ⟨j, hloop e _ (chainTail_stops k ?_)⟩
  intro hmem
  have := Rung.level_of_mem_operators hmem
  omega

/-- A loop begins behind its first operand. -/
theorem Parser.Loops.start {rung : Rung} {operand : Parser Expr} {ts : List Token} {e : Expr}
    {rest : List Token} (hlow : 0 < rung.index) (hhigh : rung.index < 7)
    (h : (ladder operand rung.next).Reads (ts ++ rest) e rest) :
    Parser.Loops rung operand ts e rest := by
  intro i
  obtain ⟨j, hj⟩ := h i
  refine ⟨j, rest.length, Nat.le_refl _, ?_⟩
  intro value c' htail
  rw [ladder_eq_leftChain operand hlow hhigh, leftChain]
  simp only [builds_bind, builds_remaining]
  exact ⟨e, _, hj, _, _, ⟨rfl, rfl⟩, htail⟩

/-- A loop goes around once for an operator of its rung and the operand behind it. -/
theorem Parser.Loops.step {rung : Rung} {operand : Parser Expr} {ls rs rest : List Token}
    {left right : Expr} {op : Token} (h : Parser.Loops rung operand ls left (op :: rs ++ rest))
    (hop : op.kind ∈ rung.operators)
    (hright : (ladder operand rung.next).Reads (rs ++ rest) right rest) :
    Parser.Loops rung operand (ls ++ op :: rs) (rung.node left op right) rest := by
  intro i
  obtain ⟨j, k, hk, hloop⟩ := h i
  obtain ⟨k, rfl⟩ : ∃ m, k = m + 1 := ⟨k - 1, by simp at hk; omega⟩
  obtain ⟨j', hj'⟩ := hright (j + 1)
  refine ⟨j', k, by simp at hk; omega, ?_⟩
  intro value c' htail
  have hend : op.isEnd = false := by
    simpa [Token.isEnd] using Rung.kind_ne_endOfInput_of_mem_operators hop
  have hround := hloop value c' ?_
  · simpa using hround
  rw [chainTail, builds_bind]
  refine ⟨some op, ⟨j + 1, rs ++ rest⟩, ?_, ?_⟩
  · simp [hend, hop]
  · exact builds_bind.2 ⟨right, _, hj', htail⟩

/-- On the rungs of operators, the promise is that of a loop. -/
theorem parsed_iff_loops {rung : Rung} {e : Expr} {ts : List Token} (hlow : 0 < rung.index)
    (hhigh : rung.index < 7) :
    Parsed (.expr rung e) ts ↔
      ∀ ⦃n t rest⦄, e.levels ≤ n → level t.kind ≤ rung.index →
        Parser.Loops rung (unary n) ts e (t :: rest) := by
  cases rung with
  | assignment => exact absurd hlow (Nat.lt_irrefl 0)
  | unary => exact absurd hhigh (Nat.lt_irrefl 7)
  | primary => exact absurd hhigh (Nat.not_lt_of_le (Nat.le_succ 7))
  | _ => exact Iff.rfl

/-- From the first rung of operators to the operands, the parser of the rung reads the phrase. -/
theorem Parsed.reads {rung : Rung} {e : Expr} {ts : List Token} (h : Parsed (.expr rung e) ts)
    (hlow : 0 < rung.index) (hhigh : rung.index < 8) {n : Nat} {t : Token} {rest : List Token}
    (hlevels : e.levels ≤ n) (ht : level t.kind < rung.index) :
    (ladder (unary n) rung).Reads (ts ++ t :: rest) e (t :: rest) := by
  by_cases hunary : rung.index < 7
  · exact ((parsed_iff_loops hlow hunary).1 h hlevels (by omega)).reads ht
  · obtain rfl : rung = .unary := by
      cases rung <;> simp [Rung.index] at hlow hhigh hunary ⊢
    exact h hlevels

/-! ### The rules for expressions -/

theorem parsed_unary_of_primary {e : Expr} {ts : List Token} (h : Parsed (.expr .primary e) ts) :
    Parsed (.expr .unary e) ts := by
  obtain ⟨⟨t, us, rfl, hend, hkind⟩, h⟩ := h
  intro n rest hlevels i
  have hpos := e.levels_pos
  obtain ⟨n, rfl⟩ : ∃ m, n = m + 1 := ⟨n - 1, by omega⟩
  obtain ⟨j, hj⟩ := h hlevels i
  refine ⟨j, ?_⟩
  rw [unary, builds_bind]
  exact ⟨none, _, builds_accept_none.2 ⟨rfl, t, us ++ rest, rfl, Or.inr hkind⟩, hj⟩

theorem parsed_assignment_of_disjunction {e : Expr} {ts : List Token}
    (h : Parsed (.expr .disjunction e) ts) : Parsed (.expr .assignment e) ts := by
  intro n t rest hlevels ht hequal i
  obtain ⟨n, rfl⟩ : ∃ m, n = m + 1 := ⟨n - 1, by omega⟩
  have hreads : (operation (unary n)).Reads (ts ++ t :: rest) e (t :: rest) :=
    h.reads (by decide) (by decide) (Nat.le_of_lt_succ hlevels) (show level t.kind < 1 by omega)
  obtain ⟨j, hj⟩ := hreads i
  refine ⟨j, ?_⟩
  simp only [expression, builds_bind, builds_here]
  refine ⟨e, _, hj, _, _, ⟨rfl, rfl⟩, none, ⟨j, t :: rest⟩, ?_, by simp⟩
  exact builds_accept_none.2 ⟨rfl, t, rest, rfl, Or.inr (by simpa using hequal)⟩

/-- What stands on a rung is read on every looser one. -/
theorem parsed_loosen (rung : Rung) {e : Expr} {ts : List Token}
    (h : Parsed (.expr rung.next e) ts) : Parsed (.expr rung e) ts := by
  by_cases hrung : 0 < rung.index ∧ rung.index < 7
  · obtain ⟨hlow, hhigh⟩ := hrung
    have hnext := Rung.index_next (show rung.index < 8 by omega)
    refine (parsed_iff_loops hlow hhigh).2 ?_
    intro n t rest hlevels ht
    exact .start hlow hhigh (h.reads (by omega) (by omega) hlevels (by omega))
  · cases rung with
    | primary => exact h
    | unary => exact parsed_unary_of_primary h
    | assignment => exact parsed_assignment_of_disjunction h
    | _ => simp [Rung.index] at hrung

theorem parsed_operator {rung : Rung} {left right : Expr} {op : Token} {ls rs : List Token}
    (hleft : Parsed (.expr rung left) ls) (hop : op.kind ∈ rung.operators)
    (hright : Parsed (.expr rung.next right) rs) :
    Parsed (.expr rung (rung.node left op right)) (ls ++ op :: rs) := by
  have hrung : 0 < rung.index ∧ rung.index < 7 := by
    cases rung <;> simp [Rung.operators, Rung.index] at hop ⊢
  obtain ⟨hlow, hhigh⟩ := hrung
  have hnext := Rung.index_next (show rung.index < 8 by omega)
  refine (parsed_iff_loops hlow hhigh).2 ?_
  intro n t rest hlevels ht
  rw [Rung.levels_node] at hlevels
  refine .step ((parsed_iff_loops hlow hhigh).1 hleft (by omega) ?_) hop
    (hright.reads (by omega) (by omega) (by omega) (by omega))
  exact Nat.le_of_eq (Rung.level_of_mem_operators hop)

theorem parsed_unary {op : Token} {operand : Expr} {ts : List Token}
    (hop : op.kind = .bang ∨ op.kind = .minus) (h : Parsed (.expr .unary operand) ts) :
    Parsed (.expr .unary (.unary op operand)) (op :: ts) := by
  intro n rest hlevels i
  simp only [Expr.levels] at hlevels
  obtain ⟨n, rfl⟩ : ∃ m, n = m + 1 := ⟨n - 1, by omega⟩
  obtain ⟨j, hj⟩ := h (Nat.le_of_succ_le_succ hlevels) (i + 1)
  refine ⟨j, ?_⟩
  rw [unary, builds_bind]
  refine ⟨some op, _, builds_accept_some.2 ⟨rfl, rfl, ?_, ?_⟩,
    builds_bind.2 ⟨operand, _, hj, by simp⟩⟩
  · rcases hop with hop | hop <;> simp [Token.isEnd, hop]
  · simpa [isUnaryOp] using hop

/-- The expression that a token is by itself, if it is one. -/
def atom? (token : Token) : Option Expr :=
  match token.kind with
  | .falseWord => some (.literal (.bool false))
  | .trueWord => some (.literal (.bool true))
  | .nilWord => some (.literal .null)
  | .number => some (.literal token.literal)
  | .string => some (.literal token.literal)
  | .identifier => some (.ref token)
  | _ => none

theorem parsed_atom {token : Token} {e : Expr} (h : atom? token = some e) :
    Parsed (.expr .primary e) [token] := by
  refine ⟨⟨token, [], rfl, ?_, ?_⟩, ?_⟩
  · unfold atom? at h
    split at h <;> simp_all [Token.isEnd]
  · unfold atom? at h
    split at h <;> simp_all [isUnaryOp]
  · intro n rest _ i
    refine ⟨i + 1, ?_⟩
    rw [primary, builds_peek_bind]
    refine ⟨i, token, rest, rfl, ?_⟩
    unfold atom? at h
    split at h <;> simp_all

theorem parsed_group {opening closing : Token} {inner : Expr} {ts : List Token}
    (hopening : opening.kind = .leftParen) (h : Parsed (.expr .assignment inner) ts)
    (hclosing : closing.kind = .rightParen) :
    Parsed (.expr .primary (.group inner)) (opening :: ts ++ [closing]) := by
  refine ⟨⟨opening, ts ++ [closing], rfl, by simp [Token.isEnd, hopening],
    by simp [isUnaryOp, hopening]⟩, ?_⟩
  intro n rest hlevels i
  simp only [Expr.levels] at hlevels
  have hlevel : level closing.kind = 0 := by simp [hclosing, level]
  obtain ⟨j, hj⟩ := h (show inner.levels < n by omega) hlevel
    (by simp [hclosing]) (i + 1)
  refine ⟨j + 1, ?_⟩
  rw [primary, builds_peek_bind]
  refine ⟨i, opening, ts ++ [closing] ++ rest, rfl, ?_⟩
  simp only [hopening]
  rw [builds_advance_bind]
  simp only [builds_bind, builds_expect, builds_pure]
  refine ⟨inner, _, by simpa using hj, closing, ⟨j + 1, rest⟩, ⟨rfl, rfl, ?_, hclosing⟩, rfl, rfl⟩
  simp [Token.isEnd, hclosing]

/-- A name in front of an equals sign is read as a whole operation. -/
theorem reads_name {name equals : Token} {n : Nat} (hname : name.kind = .identifier)
    (hequals : equals.kind = .equal) (hn : 0 < n) (rest : List Token) :
    (operation (unary n)).Reads (name :: equals :: rest) (.ref name) (equals :: rest) := by
  have hprimary : Parsed (.expr .primary (.ref name)) [name] := parsed_atom (by simp [atom?, hname])
  have hunary := parsed_loosen .unary hprimary
  have hfactor := parsed_loosen .factor hunary
  have hterm := parsed_loosen .term hfactor
  have hcomparison := parsed_loosen .comparison hterm
  have hequality := parsed_loosen .equality hcomparison
  have hconjunction := parsed_loosen .conjunction hequality
  have hdisjunction := parsed_loosen .disjunction hconjunction
  exact hdisjunction.reads (by decide) (by decide) hn (by simp [hequals, level, Rung.index])

theorem parsed_assign {name equals : Token} {value : Expr} {ts : List Token}
    (hname : name.kind = .identifier) (hequals : equals.kind = .equal)
    (h : Parsed (.expr .assignment value) ts) :
    Parsed (.expr .assignment (.assign name value)) (name :: equals :: ts) := by
  intro n t rest hlevels ht hequal i
  simp only [Expr.levels] at hlevels
  obtain ⟨n, rfl⟩ : ∃ m, n = m + 1 := ⟨n - 1, by omega⟩
  obtain ⟨j, hj⟩ := reads_name hname hequals (show 0 < n by omega) (ts ++ t :: rest) i
  obtain ⟨j', hj'⟩ := h (show value.levels < n by omega) ht hequal (j + 1)
  refine ⟨j', ?_⟩
  simp only [expression, builds_bind, builds_here]
  refine ⟨.ref name, _, hj, _, _, ⟨rfl, rfl⟩, some equals, ⟨j + 1, ts ++ t :: rest⟩, ?_, ?_⟩
  · exact builds_accept_some.2 ⟨rfl, rfl, by simp [Token.isEnd, hequals], by simp [hequals]⟩
  · exact builds_bind.2 ⟨value, _, hj', by simp [assignment]⟩

/-! ### The rules for statements and declarations -/

/-- An expression and the token that ends it. -/
theorem reads_then_expect {e : Expr} {ts : List Token} {n : Nat} {kind : TokenKind} {fault : Fault}
    {t : Token} {rest : List Token} (h : Parsed (.expr .assignment e) ts) (hlevels : e.levels < n)
    (ht : t.kind = kind) (hkind : kind = .semicolon ∨ kind = .rightParen) :
    ∀ i, ∃ j c₁, (expression n).Builds ⟨i, ts ++ t :: rest⟩ e c₁ ∧
      (expect kind fault).Builds c₁ t ⟨j, rest⟩ := by
  intro i
  obtain ⟨hlevel, hequal, hend⟩ : level t.kind = 0 ∧ t.kind ≠ .equal ∧ t.isEnd = false := by
    rcases hkind with rfl | rfl <;> simp [ht, level, Token.isEnd]
  obtain ⟨j, hj⟩ := h hlevels hlevel hequal i
  exact ⟨j + 1, _, hj, builds_expect.2 ⟨rfl, rfl, hend, ht⟩⟩

theorem parsed_exprStmt {value : Expr} {ts : List Token} {semicolon : Token}
    (hhead : ∃ t us, ts = t :: us ∧ Grammar.beginsOperand t.kind = true)
    (h : Parsed (.expr .assignment value) ts) (hsemicolon : semicolon.kind = .semicolon) :
    Parsed (.stmt (.expr value)) (ts ++ [semicolon]) := by
  intro n t rest hlevels _ i
  simp only [Stmt.levels] at hlevels
  obtain ⟨n, rfl⟩ : ∃ m, n = m + 1 := ⟨n - 1, by omega⟩
  obtain ⟨j, c₁, hvalue, hend⟩ := reads_then_expect h (show value.levels < n by omega) hsemicolon
    (Or.inl rfl) i
  obtain ⟨u, us, rfl, hu⟩ := hhead
  refine ⟨j, ?_⟩
  rw [statement, builds_peek_bind]
  refine ⟨i, u, us ++ semicolon :: t :: rest, by simp, ?_⟩
  split
  case h_5 =>
    simp only [builds_bind, builds_pure]
    exact ⟨value, c₁, hvalue, semicolon, _, hend, rfl, rfl⟩
  all_goals simp_all [Grammar.beginsOperand]

theorem parsed_print {word semicolon : Token} {value : Expr} {ts : List Token}
    (hword : word.kind = .printWord) (h : Parsed (.expr .assignment value) ts)
    (hsemicolon : semicolon.kind = .semicolon) :
    Parsed (.stmt (.print value)) (word :: ts ++ [semicolon]) := by
  intro n t rest hlevels _ i
  simp only [Stmt.levels] at hlevels
  obtain ⟨n, rfl⟩ : ∃ m, n = m + 1 := ⟨n - 1, by omega⟩
  obtain ⟨j, c₁, hvalue, hend⟩ := reads_then_expect h (show value.levels < n by omega) hsemicolon
    (Or.inl rfl) (i + 1)
  refine ⟨j, ?_⟩
  rw [statement, builds_peek_bind]
  refine ⟨i, word, ts ++ semicolon :: t :: rest, by simp, ?_⟩
  simp only [hword]
  rw [builds_advance_bind]
  simp only [builds_bind, builds_pure]
  exact ⟨value, c₁, hvalue, semicolon, _, hend, rfl, rfl⟩

/-- A condition in its parentheses. -/
theorem reads_condition {left right : Token} {test : Expr} {cs : List Token} {n : Nat}
    {opening closing : Fault} {rest : List Token} (hleft : left.kind = .leftParen)
    (h : Parsed (.expr .assignment test) cs) (hright : right.kind = .rightParen)
    (hlevels : test.levels < n) :
    (condition (expression n) opening closing).Reads (left :: cs ++ right :: rest) test rest := by
  intro i
  obtain ⟨j, c₁, htest, hend⟩ := reads_then_expect h hlevels hright (Or.inr rfl) (i + 1)
  refine ⟨j, ?_⟩
  simp only [condition, builds_bind, builds_pure]
  refine ⟨left, ⟨i + 1, cs ++ right :: rest⟩, ?_, test, c₁, htest, right, _, hend, rfl, rfl⟩
  exact builds_expect.2 ⟨rfl, rfl, by simp [Token.isEnd, hleft], hleft⟩

theorem parsed_loop {word left right : Token} {test : Expr} {body : Stmt} {cs ts : List Token}
    (hword : word.kind = .whileWord) (hleft : left.kind = .leftParen)
    (htest : Parsed (.expr .assignment test) cs) (hright : right.kind = .rightParen)
    (h : Parsed (.stmt body) ts) :
    Parsed (.stmt (.loop test body)) (word :: left :: cs ++ right :: ts) := by
  intro n t rest hlevels hopen i
  simp only [Stmt.levels] at hlevels
  obtain ⟨n, rfl⟩ : ∃ m, n = m + 1 := ⟨n - 1, by omega⟩
  obtain ⟨j, hj⟩ := reads_condition hleft htest hright (show test.levels < n by omega) (i + 1)
  obtain ⟨j', hj'⟩ := h (show body.levels ≤ n by omega) hopen j
  refine ⟨j', ?_⟩
  rw [statement, builds_peek_bind]
  refine ⟨i, word, left :: cs ++ right :: (ts ++ t :: rest), by simp, ?_⟩
  simp only [hword]
  rw [builds_advance_bind]
  simp only [builds_bind, builds_pure]
  exact ⟨test, _, hj, body, _, hj', rfl, rfl⟩

theorem parsed_branch {word left right : Token} {test : Expr} {whenTrue : Stmt}
    {cs ts : List Token} (hword : word.kind = .ifWord) (hleft : left.kind = .leftParen)
    (htest : Parsed (.expr .assignment test) cs) (hright : right.kind = .rightParen)
    (h : Parsed (.stmt whenTrue) ts) :
    Parsed (.stmt (.branch test whenTrue none)) (word :: left :: cs ++ right :: ts) := by
  intro n t rest hlevels hopen i
  simp only [Stmt.levels] at hlevels
  obtain ⟨n, rfl⟩ : ∃ m, n = m + 1 := ⟨n - 1, by omega⟩
  have hother : t.kind ≠ .elseWord := hopen rfl
  obtain ⟨j, hj⟩ := reads_condition hleft htest hright (show test.levels < n by omega) (i + 1)
  obtain ⟨j', hj'⟩ := h (show whenTrue.levels ≤ n by omega) (fun _ => hother) j
  refine ⟨j', ?_⟩
  rw [statement, builds_peek_bind]
  refine ⟨i, word, left :: cs ++ right :: (ts ++ t :: rest), by simp, ?_⟩
  simp only [hword]
  rw [builds_advance_bind]
  simp only [builds_bind]
  refine ⟨test, _, hj, whenTrue, _, hj', none, ⟨j', t :: rest⟩, ?_, by simp⟩
  exact builds_accept_none.2 ⟨rfl, t, rest, rfl, Or.inr (by simpa using hother)⟩

theorem parsed_branchElse {word left right other : Token} {test : Expr} {whenTrue whenFalse : Stmt}
    {cs ts us : List Token} (hword : word.kind = .ifWord) (hleft : left.kind = .leftParen)
    (htest : Parsed (.expr .assignment test) cs) (hright : right.kind = .rightParen)
    (h : Parsed (.stmt whenTrue) ts) (hclosed : whenTrue.awaitsElse = false)
    (hother : other.kind = .elseWord) (hfalse : Parsed (.stmt whenFalse) us) :
    Parsed (.stmt (.branch test whenTrue (some whenFalse)))
      (word :: left :: cs ++ right :: ts ++ other :: us) := by
  intro n t rest hlevels hopen i
  simp only [Stmt.levels] at hlevels
  obtain ⟨n, rfl⟩ : ∃ m, n = m + 1 := ⟨n - 1, by omega⟩
  obtain ⟨j, hj⟩ := reads_condition hleft htest hright (show test.levels < n by omega) (i + 1)
  obtain ⟨j', hj'⟩ := h (show whenTrue.levels ≤ n by omega) (by simp [hclosed]) j
  obtain ⟨j'', hj''⟩ := hfalse (show whenFalse.levels ≤ n by omega) hopen (j' + 1)
  refine ⟨j'', ?_⟩
  rw [statement, builds_peek_bind]
  refine ⟨i, word, left :: cs ++ right :: (ts ++ other :: (us ++ t :: rest)), by simp, ?_⟩
  simp only [hword]
  rw [builds_advance_bind]
  simp only [builds_bind]
  refine ⟨test, _, hj, whenTrue, _, hj', some other, ⟨j' + 1, us ++ t :: rest⟩, ?_, ?_⟩
  · exact builds_accept_some.2 ⟨rfl, rfl, by simp [Token.isEnd, hother], by simp [hother]⟩
  · simp only [builds_bind, builds_pure]
    exact ⟨whenFalse, _, hj'', rfl, rfl⟩

theorem parsed_block {opening closing : Token} {body : List Stmt} {ts : List Token}
    (hopening : opening.kind = .leftBrace) (hlength : body.length ≤ ts.length)
    (h : Parsed (.decls body) ts) (hclosing : closing.kind = .rightBrace) :
    Parsed (.stmt (.block body)) (opening :: ts ++ [closing]) := by
  intro n t rest hlevels _ i
  simp only [Stmt.levels] at hlevels
  obtain ⟨n, rfl⟩ : ∃ m, n = m + 1 := ⟨n - 1, by omega⟩
  have hbody : ∀ k, body.length < k →
      (declarations .rightBrace (declaration (expression n) (statement n)) k).Reads
        (ts ++ closing :: t :: rest) body (closing :: t :: rest) :=
    fun k hk => h (by omega) hk (Or.inr rfl) (Or.inr hclosing)
  obtain ⟨j, hj⟩ := hbody ((ts ++ closing :: t :: rest).length + 1) (by simp; omega) (i + 1)
  refine ⟨j + 1, ?_⟩
  rw [statement, builds_peek_bind]
  refine ⟨i, opening, ts ++ closing :: t :: rest, by simp, ?_⟩
  simp only [hopening]
  rw [builds_advance_bind]
  simp only [blockBody, builds_bind, builds_remaining, builds_pure]
  refine ⟨body, ⟨j + 1, t :: rest⟩, ⟨_, _, ⟨rfl, rfl⟩, body, _, hj, closing, _, ?_, rfl, rfl⟩, rfl,
    rfl⟩
  exact builds_expect.2 ⟨rfl, rfl, by simp [Token.isEnd, hclosing], hclosing⟩

theorem parsed_declare {word name semicolon : Token} (hword : word.kind = .varWord)
    (hname : name.kind = .identifier) (hsemicolon : semicolon.kind = .semicolon) :
    Parsed (.decl (.declare name none)) [word, name, semicolon] := by
  intro n t rest _ _ i
  refine ⟨i + 1 + 1 + 1, ?_⟩
  simp only [declaration, builds_recover, builds_bind]
  refine ⟨_, rfl, some word, ⟨i + 1, name :: semicolon :: t :: rest⟩, ?_, ?_⟩
  · exact builds_accept_some.2 ⟨rfl, rfl, by simp [Token.isEnd, hword], by simp [hword]⟩
  · simp only [variableDeclaration, builds_bind]
    refine ⟨name, ⟨i + 1 + 1, semicolon :: t :: rest⟩, ?_, none, _,
      builds_accept_none.2 ⟨rfl, semicolon, t :: rest, rfl, Or.inr (by simp [hsemicolon])⟩, ?_⟩
    · exact builds_expect.2 ⟨rfl, rfl, by simp [Token.isEnd, hname], hname⟩
    · simp only [builds_bind, builds_pure]
      refine ⟨none, _, ⟨rfl, rfl⟩, semicolon, ⟨i + 1 + 1 + 1, t :: rest⟩, ?_, rfl, rfl⟩
      exact builds_expect.2 ⟨rfl, rfl, by simp [Token.isEnd, hsemicolon], hsemicolon⟩

theorem parsed_declareInit {word name equals semicolon : Token} {initial : Expr} {ts : List Token}
    (hword : word.kind = .varWord) (hname : name.kind = .identifier)
    (hequals : equals.kind = .equal) (h : Parsed (.expr .assignment initial) ts)
    (hsemicolon : semicolon.kind = .semicolon) :
    Parsed (.decl (.declare name (some initial)))
      (word :: name :: equals :: ts ++ [semicolon]) := by
  intro n t rest hlevels _ i
  simp only [Stmt.levels] at hlevels
  obtain ⟨j, c₁, hinitial, hend⟩ := reads_then_expect h (show initial.levels < n by omega)
    hsemicolon (Or.inl rfl) (i + 1 + 1 + 1)
  refine ⟨j, ?_⟩
  simp only [declaration, builds_recover, builds_bind]
  refine ⟨_, rfl, some word, ⟨i + 1, name :: equals :: (ts ++ semicolon :: t :: rest)⟩, ?_, ?_⟩
  · exact builds_accept_some.2
      ⟨by simp, rfl, by simp [Token.isEnd, hword], by simp [hword]⟩
  · simp only [variableDeclaration, builds_bind]
    refine ⟨name, ⟨i + 1 + 1, equals :: (ts ++ semicolon :: t :: rest)⟩, ?_, some equals,
      ⟨i + 1 + 1 + 1, ts ++ semicolon :: t :: rest⟩, ?_, ?_⟩
    · exact builds_expect.2 ⟨rfl, rfl, by simp [Token.isEnd, hname], hname⟩
    · exact builds_accept_some.2 ⟨rfl, rfl, by simp [Token.isEnd, hequals], by simp [hequals]⟩
    · simp only [builds_bind, builds_map, builds_pure]
      exact ⟨some initial, _, ⟨initial, hinitial, rfl⟩, semicolon, _, hend, rfl, rfl⟩

theorem parsed_stmtDecl {stmt : Stmt} {ts : List Token}
    (hhead : ∃ t us, ts = t :: us ∧ Grammar.beginsStatement t.kind = true)
    (h : Parsed (.stmt stmt) ts) : Parsed (.decl stmt) ts := by
  intro n t rest hlevels hother i
  obtain ⟨j, hj⟩ := h hlevels (fun _ => hother) i
  obtain ⟨u, us, rfl, hu⟩ := hhead
  refine ⟨j, ?_⟩
  simp only [declaration, builds_recover, builds_bind]
  refine ⟨stmt, rfl, none, _, builds_accept_none.2 ⟨rfl, u, us ++ t :: rest, rfl, Or.inr ?_⟩, hj⟩
  cases hkind : u.kind <;> simp_all [Grammar.beginsStatement, Grammar.beginsOperand]

theorem parsed_nil : Parsed (.decls []) [] := by
  intro n k closing t rest _ hk _ hend i
  obtain ⟨k, rfl⟩ : ∃ m, k = m + 1 := ⟨k - 1, by simp at hk; omega⟩
  refine ⟨i, ?_⟩
  rw [declarations, builds_peek_bind]
  refine ⟨i, t, rest, rfl, ?_⟩
  rw [if_pos (by simpa using hend), builds_pure]
  exact ⟨rfl, rfl⟩

/-- A declaration is followed by another one or by what closes the list, never by an `else`. -/
theorem parsed_cons {stmt : Stmt} {stmts : List Stmt} {ts us : List Token}
    (hfirst : Derives (.decl stmt) ts) (hothers : Derives (.decls stmts) us)
    (h : Parsed (.decl stmt) ts) (ih : Parsed (.decls stmts) us) :
    Parsed (.decls (stmt :: stmts)) (ts ++ us) := by
  intro n k closing t rest hlevels hk hclosing hend i
  simp only [levelsOfAll] at hlevels
  obtain ⟨k, rfl⟩ : ∃ m, k = m + 1 := ⟨k - 1, by simp at hk; omega⟩
  -- The token behind the declaration is no `else`, whether the list ends there or goes on.
  obtain ⟨v, vs, hv, hother⟩ : ∃ v vs, us ++ t :: rest = v :: vs ∧ v.kind ≠ .elseWord := by
    cases hothers with
    | nil =>
        refine ⟨t, rest, rfl, ?_⟩
        rcases hend with hend | hend
        · simp only [Token.isEnd, decide_eq_true_eq] at hend
          simp [hend]
        · rcases hclosing with rfl | rfl <;> simp [hend]
    | cons hnext _ =>
        obtain ⟨v, vs, rfl, hv⟩ := hnext.head_decl
        refine ⟨v, _, rfl, ?_⟩
        intro hkind
        simp [hkind, Grammar.beginsStatement, Grammar.beginsOperand] at hv
  obtain ⟨j, hj⟩ := h (show stmt.levels ≤ n by omega) hother i
  rw [← hv] at hj
  obtain ⟨j', hj'⟩ := ih (show levelsOfAll stmts ≤ n by omega)
    (show stmts.length < k by simpa using hk) hclosing hend j
  obtain ⟨u, ws, rfl, hu⟩ := hfirst.head_decl
  refine ⟨j', ?_⟩
  rw [declarations, builds_peek_bind]
  refine ⟨i, u, ws ++ us ++ t :: rest, by simp, ?_⟩
  -- The loop goes on: a token that begins a declaration ends no list.
  have hopen : ¬ (u.isEnd || u.kind = closing) = true := by
    rcases hclosing with rfl | rfl <;> cases hkind : u.kind <;>
      simp_all [Token.isEnd, Grammar.beginsStatement, Grammar.beginsOperand]
  rw [if_neg hopen]
  simp only [builds_bind, builds_pure]
  exact ⟨some stmt, _, by simpa using hj, stmts, _, hj', rfl, rfl⟩

/-! ### Derivations -/

/-- What a derivation promises is kept. -/
theorem parsed_of_derives {phrase : Phrase} {ts : List Token} (h : Derives phrase ts) :
    Parsed phrase ts := by
  induction h with
  | assign hname hequals _ ih => exact parsed_assign hname hequals ih
  | loosen _ ih => exact parsed_loosen _ ih
  | operator _ hop _ ihleft ihright => exact parsed_operator ihleft hop ihright
  | unary hop _ ih => exact parsed_unary hop ih
  | falseWord hword => exact parsed_atom (by simp [atom?, hword])
  | trueWord hword => exact parsed_atom (by simp [atom?, hword])
  | nilWord hword => exact parsed_atom (by simp [atom?, hword])
  | literal htoken =>
      rcases htoken with htoken | htoken <;> exact parsed_atom (by simp [atom?, htoken])
  | ref hname => exact parsed_atom (by simp [atom?, hname])
  | group hopening _ hclosing ih => exact parsed_group hopening ih hclosing
  | exprStmt hvalue hsemicolon ih => exact parsed_exprStmt hvalue.head_expr ih hsemicolon
  | print hword _ hsemicolon ih => exact parsed_print hword ih hsemicolon
  | block hopening hbody hclosing ih =>
      exact parsed_block hopening hbody.length_le ih hclosing
  | branch hword hopening _ hclosing _ ihtest ih =>
      exact parsed_branch hword hopening ihtest hclosing ih
  | branchElse hword hopening _ hclosing _ hopen hother _ ihtest ih ihfalse =>
      exact parsed_branchElse hword hopening ihtest hclosing ih hopen hother ihfalse
  | loop hword hopening _ hclosing _ ihtest ih =>
      exact parsed_loop hword hopening ihtest hclosing ih
  | declare hword hname hsemicolon => exact parsed_declare hword hname hsemicolon
  | declareInit hword hname hequals _ hsemicolon ih =>
      exact parsed_declareInit hword hname hequals ih hsemicolon
  | stmtDecl hstmt ih => exact parsed_stmtDecl hstmt.head_stmt ih
  | nil => exact parsed_nil
  | cons hfirst hothers ihfirst ihothers => exact parsed_cons hfirst hothers ihfirst ihothers

/-- A program that the tokens in front of the end derive is accepted, if it opens no more levels
than the limit. -/
theorem parse_of_derives {limit : Nat} {body : List Token} {last : Token} {program : List Stmt}
    (rest : List Token) (h : Derives (.decls program) body) (hlast : last.isEnd = true)
    (hlevels : levelsOfAll program ≤ limit) :
    parse limit (body ++ last :: rest) = .ok program := by
  have hlength := h.length_le
  have hreads : ∀ k, program.length < k →
      (declarations .endOfInput (declaration (expression limit) (statement limit)) k).Reads
        (body ++ last :: rest) program (last :: rest) :=
    fun k hk => parsed_of_derives h hlevels hk (Or.inl rfl) (Or.inl hlast)
  obtain ⟨j, hj⟩ := hreads ((body ++ last :: rest).length + 1) (by simp; omega) 0
  exact parse_eq_ok_iff.2 ⟨_, hj⟩

end ScriptLang.Parse
