import ScriptLang.Grammar.Machine

/-!
# Phrases

The grammar of programs as a relation: which rows of tokens a phrase can be written with. Nothing in
it looks ahead, recovers or counts; it says only what a program is.

## Main Definitions

* `Rung`: the rungs of the ladder of expressions, from assignment to primary.
* `Stmt.awaitsElse`: the statements that an `else` behind them would still belong to.
* `Phrase`, `Derives`: the phrases, and the rows of tokens that they derive.
* `Expr.levels`, `Stmt.levels`: how many levels of nesting a tree opens.

## Main Statements

* `Rung.level_of_mem_operators`: the operators of a rung bind as tightly as it.
* `Derives.head_expr`, `Derives.head_stmt`, `Derives.head_decl`: what a phrase begins with.

## Design Notes

The rule for a branch with an `else` asks that the statement in front of the `else` does not itself
wait for one. An `else` therefore belongs to the nearest branch that is still open, and a row of
tokens has at most one derivation.

A phrase carries the tree that it stands for, so one relation covers expressions, statements and
lists of them, and one induction covers all rules.
-/

namespace ScriptLang

/-! ### The ladder of expressions -/

/-- The rungs of the ladder of expressions, from the one that binds loosest. -/
inductive Rung where
  | assignment
  | disjunction
  | conjunction
  | equality
  | comparison
  | term
  | factor
  | unary
  | primary
deriving Repr, DecidableEq

namespace Rung

/-- The next tighter rung. -/
def next : Rung → Rung
  | assignment => disjunction
  | disjunction => conjunction
  | conjunction => equality
  | equality => comparison
  | comparison => term
  | term => factor
  | factor => unary
  | unary => primary
  | primary => primary

/-- The operators that stand between two operands of a rung. -/
def operators : Rung → List TokenKind
  | disjunction => [.orWord]
  | conjunction => [.andWord]
  | equality => [.bangEqual, .equalEqual]
  | comparison => [.greater, .greaterEqual, .less, .lessEqual]
  | term => [.minus, .plus]
  | factor => [.star, .slash]
  | _ => []

/-- The node that an operator of a rung makes of its operands. -/
def node : Rung → Expr → Token → Expr → Expr
  | disjunction => .logical
  | conjunction => .logical
  | _ => .binary

end Rung

/-! ### Phrases -/

/-- Would an `else` behind the statement still belong to it? -/
def Stmt.awaitsElse : Stmt → Bool
  | .branch _ _ none => true
  | .branch _ _ (some whenFalse) => whenFalse.awaitsElse
  | .loop _ body => body.awaitsElse
  | _ => false

/-- A part of a program with the tree that it stands for. -/
inductive Phrase where
  /-- An expression on a rung of the ladder. -/
  | expr (rung : Rung) (e : Expr)
  | stmt (stmt : Stmt)
  /-- A statement where also a declaration may stand. -/
  | decl (stmt : Stmt)
  | decls (stmts : List Stmt)

/-- The rows of tokens that a phrase derives. -/
inductive Derives : Phrase → List Token → Prop where
  /-- An assignment to a name; its value may be an assignment again. -/
  | assign {name equals : Token} {value : Expr} {ts : List Token}
      (hname : name.kind = .identifier) (hequals : equals.kind = .equal)
      (hvalue : Derives (.expr .assignment value) ts) :
      Derives (.expr .assignment (.assign name value)) (name :: equals :: ts)
  /-- What stands on a rung stands on every looser one. -/
  | loosen {rung : Rung} {e : Expr} {ts : List Token} (h : Derives (.expr rung.next e) ts) :
      Derives (.expr rung e) ts
  /-- An operator and its operands. Only the left one may hold an operator of the same rung. -/
  | operator {rung : Rung} {left right : Expr} {op : Token} {ls rs : List Token}
      (hleft : Derives (.expr rung left) ls) (hop : op.kind ∈ rung.operators)
      (hright : Derives (.expr rung.next right) rs) :
      Derives (.expr rung (rung.node left op right)) (ls ++ op :: rs)
  /-- An operator in front of its operand. -/
  | unary {op : Token} {operand : Expr} {ts : List Token}
      (hop : op.kind = .bang ∨ op.kind = .minus) (h : Derives (.expr .unary operand) ts) :
      Derives (.expr .unary (.unary op operand)) (op :: ts)
  | falseWord {word : Token} (hword : word.kind = .falseWord) :
      Derives (.expr .primary (.literal (.bool false))) [word]
  | trueWord {word : Token} (hword : word.kind = .trueWord) :
      Derives (.expr .primary (.literal (.bool true))) [word]
  | nilWord {word : Token} (hword : word.kind = .nilWord) :
      Derives (.expr .primary (.literal .null)) [word]
  /-- A number or a string stands for the value of its token. -/
  | literal {token : Token} (htoken : token.kind = .number ∨ token.kind = .string) :
      Derives (.expr .primary (.literal token.literal)) [token]
  | ref {name : Token} (hname : name.kind = .identifier) :
      Derives (.expr .primary (.ref name)) [name]
  | group {opening closing : Token} {inner : Expr} {ts : List Token}
      (hopening : opening.kind = .leftParen) (h : Derives (.expr .assignment inner) ts)
      (hclosing : closing.kind = .rightParen) :
      Derives (.expr .primary (.group inner)) (opening :: ts ++ [closing])
  | exprStmt {value : Expr} {ts : List Token} {semicolon : Token}
      (h : Derives (.expr .assignment value) ts) (hsemicolon : semicolon.kind = .semicolon) :
      Derives (.stmt (.expr value)) (ts ++ [semicolon])
  | print {word semicolon : Token} {value : Expr} {ts : List Token} (hword : word.kind = .printWord)
      (h : Derives (.expr .assignment value) ts) (hsemicolon : semicolon.kind = .semicolon) :
      Derives (.stmt (.print value)) (word :: ts ++ [semicolon])
  | block {opening closing : Token} {body : List Stmt} {ts : List Token}
      (hopening : opening.kind = .leftBrace) (h : Derives (.decls body) ts)
      (hclosing : closing.kind = .rightBrace) :
      Derives (.stmt (.block body)) (opening :: ts ++ [closing])
  | branch {word opening closing : Token} {test : Expr} {whenTrue : Stmt} {cs ts : List Token}
      (hword : word.kind = .ifWord) (hopening : opening.kind = .leftParen)
      (htest : Derives (.expr .assignment test) cs) (hclosing : closing.kind = .rightParen)
      (h : Derives (.stmt whenTrue) ts) :
      Derives (.stmt (.branch test whenTrue none)) (word :: opening :: cs ++ closing :: ts)
  /-- The statement in front of an `else` must not wait for one itself. -/
  | branchElse {word opening closing other : Token} {test : Expr} {whenTrue whenFalse : Stmt}
      {cs ts us : List Token} (hword : word.kind = .ifWord) (hopening : opening.kind = .leftParen)
      (htest : Derives (.expr .assignment test) cs) (hclosing : closing.kind = .rightParen)
      (h : Derives (.stmt whenTrue) ts) (hopen : whenTrue.awaitsElse = false)
      (hother : other.kind = .elseWord) (hfalse : Derives (.stmt whenFalse) us) :
      Derives (.stmt (.branch test whenTrue (some whenFalse)))
        (word :: opening :: cs ++ closing :: ts ++ other :: us)
  | loop {word opening closing : Token} {test : Expr} {body : Stmt} {cs ts : List Token}
      (hword : word.kind = .whileWord) (hopening : opening.kind = .leftParen)
      (htest : Derives (.expr .assignment test) cs) (hclosing : closing.kind = .rightParen)
      (h : Derives (.stmt body) ts) :
      Derives (.stmt (.loop test body)) (word :: opening :: cs ++ closing :: ts)
  | declare {word name semicolon : Token} (hword : word.kind = .varWord)
      (hname : name.kind = .identifier) (hsemicolon : semicolon.kind = .semicolon) :
      Derives (.decl (.declare name none)) [word, name, semicolon]
  | declareInit {word name equals semicolon : Token} {initial : Expr} {ts : List Token}
      (hword : word.kind = .varWord) (hname : name.kind = .identifier)
      (hequals : equals.kind = .equal) (h : Derives (.expr .assignment initial) ts)
      (hsemicolon : semicolon.kind = .semicolon) :
      Derives (.decl (.declare name (some initial))) (word :: name :: equals :: ts ++ [semicolon])
  | stmtDecl {stmt : Stmt} {ts : List Token} (h : Derives (.stmt stmt) ts) :
      Derives (.decl stmt) ts
  | nil : Derives (.decls []) []
  | cons {stmt : Stmt} {stmts : List Stmt} {ts us : List Token} (hfirst : Derives (.decl stmt) ts)
      (hothers : Derives (.decls stmts) us) : Derives (.decls (stmt :: stmts)) (ts ++ us)

/-! ### Nesting -/

/-- How many levels an expression opens as an operand. As a whole expression it opens one more. -/
def Expr.levels : Expr → Nat
  | .literal _ => 1
  | .group inner => inner.levels + 2
  | .unary _ operand => operand.levels + 1
  | .binary left _ right => max left.levels right.levels
  | .logical left _ right => max left.levels right.levels
  | .ref _ => 1
  | .assign _ value => value.levels + 1
  | .misplaced _ => 1

@[simp] theorem Rung.levels_node (rung : Rung) (left right : Expr) (op : Token) :
    (rung.node left op right).levels = max left.levels right.levels := by
  cases rung <;> rfl

theorem Expr.levels_pos (e : Expr) : 0 < e.levels := by
  induction e with
  | binary left op right ihleft ihright => simp only [levels]; omega
  | logical left op right ihleft ihright => simp only [levels]; omega
  | _ => simp [levels]

mutual

/-- How many levels a statement opens. -/
def Stmt.levels : Stmt → Nat
  | .expr value => value.levels + 2
  | .print value => value.levels + 2
  | .declare _ none => 0
  | .declare _ (some initial) => initial.levels + 1
  | .block body => levelsOfAll body + 1
  | .branch test whenTrue none => max (test.levels + 2) (whenTrue.levels + 1)
  | .branch test whenTrue (some whenFalse) =>
    max (test.levels + 2) (max (whenTrue.levels + 1) (whenFalse.levels + 1))
  | .loop test body => max (test.levels + 2) (body.levels + 1)
  | .misplaced .. => 1

/-- How many levels the statements of a list open. -/
def levelsOfAll : List Stmt → Nat
  | [] => 0
  | stmt :: stmts => max stmt.levels (levelsOfAll stmts)

end

/-! ### How tightly rungs bind -/

namespace Rung

/-- How many rungs are looser. -/
def index : Rung → Nat
  | assignment => 0
  | disjunction => 1
  | conjunction => 2
  | equality => 3
  | comparison => 4
  | term => 5
  | factor => 6
  | unary => 7
  | primary => 8

theorem index_next {rung : Rung} (h : rung.index < 8) : rung.next.index = rung.index + 1 := by
  cases rung with
  | primary => exact absurd h (Nat.lt_irrefl 8)
  | _ => rfl

/-- An operator binds as tightly as its rung. -/
theorem level_of_mem_operators {rung : Rung} {kind : TokenKind} (h : kind ∈ rung.operators) :
    Grammar.level kind = rung.index := by
  have hall : ∀ kind ∈ rung.operators, Grammar.level kind = rung.index := by
    cases rung <;> decide
  exact hall kind h

theorem kind_ne_endOfInput_of_mem_operators {rung : Rung} {kind : TokenKind}
    (h : kind ∈ rung.operators) : kind ≠ .endOfInput := by
  rintro rfl
  cases rung <;> simp [operators] at h

end Rung

/-! ### What phrases begin with -/

namespace Derives

/-- What is said of the first token of a phrase. A list may be empty. -/
def Head : Phrase → List Token → Prop
  | .expr _ _, ts => ∃ t us, ts = t :: us ∧ Grammar.beginsOperand t.kind = true
  | .stmt _, ts => ∃ t us, ts = t :: us ∧ Grammar.beginsStatement t.kind = true
  | .decl _, ts =>
    ∃ t us, ts = t :: us ∧ (Grammar.beginsStatement t.kind = true ∨ t.kind = .varWord)
  | .decls _, _ => True

theorem head {phrase : Phrase} {ts : List Token} (h : Derives phrase ts) : Head phrase ts := by
  induction h with
  | loosen _ ih => exact ih
  | operator _ _ _ ihleft _ =>
      obtain ⟨t, us, rfl, ht⟩ := ihleft
      exact ⟨t, _, rfl, ht⟩
  | unary hop _ _ =>
      refine ⟨_, _, rfl, ?_⟩
      rcases hop with hop | hop <;> simp [hop, Grammar.beginsOperand]
  | literal htoken =>
      refine ⟨_, _, rfl, ?_⟩
      rcases htoken with htoken | htoken <;> simp [htoken, Grammar.beginsOperand]
  | exprStmt _ _ ih =>
      obtain ⟨t, us, rfl, ht⟩ := ih
      exact ⟨t, _, rfl, by simp [Grammar.beginsStatement, ht]⟩
  | stmtDecl _ ih =>
      obtain ⟨t, us, rfl, ht⟩ := ih
      exact ⟨t, us, rfl, Or.inl ht⟩
  | nil => trivial
  | cons _ _ _ _ => trivial
  | _ => exact ⟨_, _, rfl, by simp [*, Grammar.beginsOperand, Grammar.beginsStatement]⟩

/-- An expression begins with what an operand begins with. -/
theorem head_expr {rung : Rung} {e : Expr} {ts : List Token} (h : Derives (.expr rung e) ts) :
    ∃ t us, ts = t :: us ∧ Grammar.beginsOperand t.kind = true := h.head

/-- A statement begins with what is said to begin one. -/
theorem head_stmt {stmt : Stmt} {ts : List Token} (h : Derives (.stmt stmt) ts) :
    ∃ t us, ts = t :: us ∧ Grammar.beginsStatement t.kind = true := h.head

/-- A declaration begins like a statement or with its word. -/
theorem head_decl {stmt : Stmt} {ts : List Token} (h : Derives (.decl stmt) ts) :
    ∃ t us, ts = t :: us ∧ (Grammar.beginsStatement t.kind = true ∨ t.kind = .varWord) := h.head

/-- A list of declarations has at least as many tokens as declarations. -/
theorem length_le {stmts : List Stmt} {ts : List Token} (h : Derives (.decls stmts) ts) :
    stmts.length ≤ ts.length := by
  induction stmts generalizing ts with
  | nil => simp
  | cons stmt stmts ih =>
      cases h with
      | cons hfirst hothers =>
          obtain ⟨t, us, rfl, -⟩ := hfirst.head_decl
          have := ih hothers
          simp only [List.length_append, List.length_cons]
          omega

/-- On every rung only a name alone derives a name. -/
theorem eq_of_ref {rung : Rung} {name : Token} {ts : List Token}
    (h : Derives (.expr rung (.ref name)) ts) : ts = [name] ∧ name.kind = .identifier := by
  generalize hphrase : Phrase.expr rung (.ref name) = phrase at h
  induction h generalizing rung with
  | loosen _ ih =>
      cases hphrase
      exact ih rfl
  | @operator r _ _ _ _ _ _ _ _ _ _ => cases r <;> simp [Rung.node] at hphrase
  | ref hname =>
      cases hphrase
      exact ⟨rfl, hname⟩
  | _ => cases hphrase

end Derives

end ScriptLang
