import ScriptLang.Tree.Basic

/-!
# Trees with other tokens

A tree with every token in it replaced by another one. What a change of tokens leaves alone that
keeps kinds, texts and literals is said in the modules on parsers and runs.

## Main Definitions

* `Expr.relabel`, `Stmt.relabel`, `relabelAll`: the trees with their tokens replaced.
* `Token.reline`: the token on another line.
* `Token.later`: the token on a line further down.
-/

namespace ScriptLang

/-- The expression with its tokens replaced. -/
def Expr.relabel (f : Token → Token) : Expr → Expr
  | .literal value => .literal value
  | .group inner => .group (inner.relabel f)
  | .unary op operand => .unary (f op) (operand.relabel f)
  | .binary left op right => .binary (left.relabel f) (f op) (right.relabel f)
  | .logical left op right => .logical (left.relabel f) (f op) (right.relabel f)
  | .ref name => .ref (f name)
  | .assign name value => .assign (f name) (value.relabel f)
  | .misplaced document => .misplaced document

mutual

/-- The statement with its tokens replaced. -/
def Stmt.relabel (f : Token → Token) : Stmt → Stmt
  | .expr value => .expr (value.relabel f)
  | .print value => .print (value.relabel f)
  | .declare name initial => .declare (f name) (initial.map (Expr.relabel f))
  | .block body => .block (relabelAll f body)
  | .branch condition whenTrue none => .branch (condition.relabel f) (whenTrue.relabel f) none
  | .branch condition whenTrue (some whenFalse) =>
    .branch (condition.relabel f) (whenTrue.relabel f) (some (whenFalse.relabel f))
  | .loop condition body => .loop (condition.relabel f) (body.relabel f)
  | .misplaced document inner => .misplaced document (inner.map (Expr.relabel f))

/-- The statements with their tokens replaced. -/
def relabelAll (f : Token → Token) : List Stmt → List Stmt
  | [] => []
  | stmt :: stmts => stmt.relabel f :: relabelAll f stmts

end

variable (f : Token → Token)

@[simp] theorem relabelAll_nil : relabelAll f [] = [] := by
  rw [relabelAll]

theorem relabelAll_cons (stmt : Stmt) (stmts : List Stmt) :
    relabelAll f (stmt :: stmts) = stmt.relabel f :: relabelAll f stmts := by
  rw [relabelAll]

theorem Expr.relabel_id (e : Expr) : e.relabel id = e := by
  induction e with
  | literal | ref | misplaced => rfl
  | group inner ih => rw [Expr.relabel, ih]
  | unary op inner ih | assign name inner ih => rw [Expr.relabel, ih, id]
  | binary left op right hleft hright | logical left op right hleft hright =>
      rw [Expr.relabel, hleft, hright, id]

theorem Expr.relabel_id_eq : Expr.relabel id = id :=
  funext Expr.relabel_id

mutual

theorem Stmt.relabel_id : ∀ stmt : Stmt, stmt.relabel id = stmt
  | .expr value | .print value => by rw [Stmt.relabel, Expr.relabel_id]
  | .declare name initial => by rw [Stmt.relabel, Expr.relabel_id_eq, Option.map_id, id, id]
  | .block body => by rw [Stmt.relabel, relabelAll_id]
  | .branch condition whenTrue none => by
      rw [Stmt.relabel, Expr.relabel_id, Stmt.relabel_id whenTrue]
  | .branch condition whenTrue (some whenFalse) => by
      rw [Stmt.relabel, Expr.relabel_id, Stmt.relabel_id whenTrue, Stmt.relabel_id whenFalse]
  | .loop condition body => by rw [Stmt.relabel, Expr.relabel_id, Stmt.relabel_id body]
  | .misplaced document inner => by rw [Stmt.relabel, Expr.relabel_id_eq, List.map_id]

/-- With its tokens kept, a program stays as it is. -/
theorem relabelAll_id : ∀ stmts : List Stmt, relabelAll id stmts = stmts
  | [] => relabelAll_nil id
  | stmt :: stmts => by rw [relabelAll_cons, Stmt.relabel_id, relabelAll_id]

end

theorem kind_relabel (stmt : Stmt) : (stmt.relabel f).kind = stmt.kind := by
  cases stmt with
  | branch condition whenTrue whenFalse => cases whenFalse <;> rfl
  | _ => rfl

/-! ### Other lines -/

/-- The token on another line. -/
def Token.reline (line : Json → Json) (t : Token) : Token :=
  { t with line := line t.line }

section Reline

variable (line : Json → Json) (t : Token)

@[simp] theorem Token.kind_reline : (t.reline line).kind = t.kind := rfl

@[simp] theorem Token.lexeme_reline : (t.reline line).lexeme = t.lexeme := rfl

@[simp] theorem Token.literal_reline : (t.reline line).literal = t.literal := rfl

@[simp] theorem Token.line_reline : (t.reline line).line = line t.line := rfl

end Reline

/-! ### Lines further down -/

/-- The line that is `k` lines further down. -/
def Json.later (k : Nat) : Json → Json
  | .int line => .int (line + k)
  | line => line

/-- The token `k` lines further down. -/
def Token.later (k : Nat) (t : Token) : Token :=
  { t with line := t.line.later k }

section Later

variable (k : Nat) (t : Token)

@[simp] theorem Token.kind_later : (t.later k).kind = t.kind := rfl

@[simp] theorem Token.lexeme_later : (t.later k).lexeme = t.lexeme := rfl

@[simp] theorem Token.literal_later : (t.later k).literal = t.literal := rfl

@[simp] theorem Token.line_later : (t.later k).line = t.line.later k := rfl

end Later

end ScriptLang
