import ScriptLang.Proofs.Phrase

/-!
# Contexts

A program with a hole in the place of one of its expressions. To fill the hole is to put an
expression there, so a program together with one of the nodes in it is a context that is filled
with this node.

A tree that a row of tokens derives says how many tokens there are, because it keeps its
parentheses. A context therefore says how many tokens stand in front of its hole, and the tokens
that a node was built from are those behind them.

## Main Definitions

* `ExprContext`, `StmtContext`, `ProgramContext`: trees with a hole, and `fill` for each.
* `Expr.width`, `Stmt.width`: the number of tokens of a tree.
* `ExprContext.before`, `StmtContext.before`, `ProgramContext.before`: the number of tokens in front
  of the hole.

## Main Statements

* `Derives.length_eq`: a phrase derives rows of one length only.
* `ProgramContext.levels_fill_group`: parentheses take two levels at most.
-/

namespace ScriptLang

/-! ### Trees with a hole -/

/-- An expression with a hole. -/
inductive ExprContext where
  | hole
  | group (inner : ExprContext)
  | unary (op : Token) (operand : ExprContext)
  | binaryLeft (left : ExprContext) (op : Token) (right : Expr)
  | binaryRight (left : Expr) (op : Token) (right : ExprContext)
  | logicalLeft (left : ExprContext) (op : Token) (right : Expr)
  | logicalRight (left : Expr) (op : Token) (right : ExprContext)
  | assign (name : Token) (value : ExprContext)

/-- A statement with a hole in one of its expressions. -/
inductive StmtContext where
  | expr (value : ExprContext)
  | print (value : ExprContext)
  | declare (name : Token) (initial : ExprContext)
  | block (front : List Stmt) (inner : StmtContext) (behind : List Stmt)
  | branchTest (test : ExprContext) (whenTrue : Stmt) (whenFalse : Option Stmt)
  | branchTrue (test : Expr) (whenTrue : StmtContext) (whenFalse : Option Stmt)
  | branchFalse (test : Expr) (whenTrue : Stmt) (whenFalse : StmtContext)
  | loopTest (test : ExprContext) (body : Stmt)
  | loopBody (test : Expr) (body : StmtContext)

/-- A program with a hole in one of its expressions. -/
structure ProgramContext where
  front : List Stmt
  stmt : StmtContext
  behind : List Stmt

/-- The expression in the place of the hole. -/
def ExprContext.fill : ExprContext → Expr → Expr
  | .hole, e => e
  | .group K, e => .group (K.fill e)
  | .unary op K, e => .unary op (K.fill e)
  | .binaryLeft K op right, e => .binary (K.fill e) op right
  | .binaryRight left op K, e => .binary left op (K.fill e)
  | .logicalLeft K op right, e => .logical (K.fill e) op right
  | .logicalRight left op K, e => .logical left op (K.fill e)
  | .assign name K, e => .assign name (K.fill e)

@[inherit_doc ExprContext.fill]
def StmtContext.fill : StmtContext → Expr → Stmt
  | .expr K, e => .expr (K.fill e)
  | .print K, e => .print (K.fill e)
  | .declare name K, e => .declare name (some (K.fill e))
  | .block front K behind, e => .block (front ++ K.fill e :: behind)
  | .branchTest K whenTrue whenFalse, e => .branch (K.fill e) whenTrue whenFalse
  | .branchTrue test K whenFalse, e => .branch test (K.fill e) whenFalse
  | .branchFalse test whenTrue K, e => .branch test whenTrue (some (K.fill e))
  | .loopTest K body, e => .loop (K.fill e) body
  | .loopBody test K, e => .loop test (K.fill e)

@[inherit_doc ExprContext.fill]
def ProgramContext.fill (K : ProgramContext) (e : Expr) : List Stmt :=
  K.front ++ K.stmt.fill e :: K.behind

/-- Which branches are still open does not depend on what stands in the hole. -/
theorem StmtContext.awaitsElse_fill (K : StmtContext) (e f : Expr) :
    (K.fill e).awaitsElse = (K.fill f).awaitsElse := by
  induction K with
  | branchTest K whenTrue whenFalse => cases whenFalse <;> rfl
  | branchTrue test K whenFalse ih => cases whenFalse <;> rfl
  | branchFalse test whenTrue K ih => exact ih
  | loopBody test K ih => exact ih
  | _ => rfl

/-! ### Numbers of tokens -/

/-- How many tokens an expression has. -/
def Expr.width : Expr → Nat
  | .literal _ => 1
  | .group inner => inner.width + 2
  | .unary _ operand => operand.width + 1
  | .binary left _ right => left.width + 1 + right.width
  | .logical left _ right => left.width + 1 + right.width
  | .ref _ => 1
  | .assign _ value => value.width + 2
  | .misplaced _ => 0

@[simp] theorem Rung.width_node (rung : Rung) (left right : Expr) (op : Token) :
    (rung.node left op right).width = left.width + 1 + right.width := by
  cases rung <;> rfl

mutual

/-- How many tokens a statement has. -/
def Stmt.width : Stmt → Nat
  | .expr value => value.width + 1
  | .print value => value.width + 2
  | .declare _ none => 3
  | .declare _ (some initial) => initial.width + 4
  | .block body => widthOfAll body + 2
  | .branch test whenTrue none => test.width + 3 + whenTrue.width
  | .branch test whenTrue (some whenFalse) =>
    test.width + 3 + whenTrue.width + 1 + whenFalse.width
  | .loop test body => test.width + 3 + body.width
  | .misplaced .. => 0

/-- How many tokens the statements of a list have. -/
def widthOfAll : List Stmt → Nat
  | [] => 0
  | stmt :: stmts => stmt.width + widthOfAll stmts

end

/-- How many tokens a phrase has. -/
def Phrase.width : Phrase → Nat
  | .expr _ e => e.width
  | .stmt only => only.width
  | .decl only => only.width
  | .decls list => widthOfAll list

/-- **A tree says how many tokens it was built from.** -/
theorem Derives.length_eq {phrase : Phrase} {ts : List Token} (h : Derives phrase ts) :
    ts.length = phrase.width := by
  induction h with
  | loosen _ ih => exact ih
  | stmtDecl _ ih => exact ih
  | _ =>
      simp only [Phrase.width, Rung.width_node, Expr.width, Stmt.width, widthOfAll,
        List.length_append, List.length_cons, List.length_nil] at * <;> omega

/-- How many tokens stand in front of the hole. -/
def ExprContext.before : ExprContext → Nat
  | .hole => 0
  | .group K => 1 + K.before
  | .unary _ K => 1 + K.before
  | .binaryLeft K _ _ => K.before
  | .binaryRight left _ K => left.width + 1 + K.before
  | .logicalLeft K _ _ => K.before
  | .logicalRight left _ K => left.width + 1 + K.before
  | .assign _ K => 2 + K.before

@[inherit_doc ExprContext.before]
def StmtContext.before : StmtContext → Nat
  | .expr K => K.before
  | .print K => 1 + K.before
  | .declare _ K => 3 + K.before
  | .block front K _ => 1 + (widthOfAll front + K.before)
  | .branchTest K _ _ => 2 + K.before
  | .branchTrue test K _ => 2 + test.width + 1 + K.before
  | .branchFalse test whenTrue K => 2 + test.width + 1 + whenTrue.width + 1 + K.before
  | .loopTest K _ => 2 + K.before
  | .loopBody test K => 2 + test.width + 1 + K.before

@[inherit_doc ExprContext.before]
def ProgramContext.before (K : ProgramContext) : Nat :=
  widthOfAll K.front + K.stmt.before

/-! ### Levels -/

theorem ExprContext.levels_fill_group (K : ExprContext) (e : Expr) :
    (K.fill (.group e)).levels ≤ (K.fill e).levels + 2 := by
  induction K with
  | hole => exact Nat.le_refl _
  | _ => simp only [fill, Expr.levels] at *; omega

theorem levelsOfAll_append (stmts others : List Stmt) :
    levelsOfAll (stmts ++ others) = max (levelsOfAll stmts) (levelsOfAll others) := by
  induction stmts with
  | nil => simp [levelsOfAll]
  | cons stmt stmts ih => simp [levelsOfAll, ih, Nat.max_assoc]

theorem StmtContext.levels_fill_group (K : StmtContext) (e : Expr) :
    (K.fill (.group e)).levels ≤ (K.fill e).levels + 2 := by
  induction K with
  | expr K => have := K.levels_fill_group e; simp only [fill, Stmt.levels]; omega
  | print K => have := K.levels_fill_group e; simp only [fill, Stmt.levels]; omega
  | declare name K => have := K.levels_fill_group e; simp only [fill, Stmt.levels]; omega
  | block front K behind ih =>
      simp only [fill, Stmt.levels, levelsOfAll_append, levelsOfAll]
      omega
  | branchTest K whenTrue whenFalse =>
      have := K.levels_fill_group e
      cases whenFalse <;> simp only [fill, Stmt.levels] <;> omega
  | branchTrue test K whenFalse ih =>
      cases whenFalse <;> simp only [fill, Stmt.levels] <;> omega
  | branchFalse test whenTrue K ih => simp only [fill, Stmt.levels]; omega
  | loopTest K body => have := K.levels_fill_group e; simp only [fill, Stmt.levels]; omega
  | loopBody test K ih => simp only [fill, Stmt.levels]; omega

/-- Parentheses take two levels at most. -/
theorem ProgramContext.levels_fill_group (K : ProgramContext) (e : Expr) :
    levelsOfAll (K.fill (.group e)) ≤ levelsOfAll (K.fill e) + 2 := by
  have := K.stmt.levels_fill_group e
  simp only [fill, levelsOfAll_append, levelsOfAll]
  omega

end ScriptLang
