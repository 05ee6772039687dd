import ScriptLang.Proofs.Parse.Sound
import ScriptLang.Proofs.Scope.Watch
import ScriptLang.Scope.Name

/-!
# Enclosing lists of statements

What the text of a program says of an occurrence of a variable: which lists of statements enclose
it, and the nearest of them that declares the name in front of it. Nothing is run here.

## Main Definitions

* `Expr.nameAt?`, `Stmt.nameAt?`: the variable that occurs at a place.
* `Stmt.enclosing`: of each list of statements around a place, the statements in front of it.
* `nearest?`, `distance?`: how many lists out the nearest declaration is.
* `Stmt.Placed`: no declaration is the body of a branch or a loop.

## Main Statements

* `placed_of_parse`: the parser puts declarations only into lists.
-/

namespace ScriptLang

/-! ### Occurrences -/

/-- The variable that occurs at a place of an expression, be it read or assigned to. -/
def Expr.nameAt? : Place → Expr → Option Token
  | [], .ref name => some name
  | [], .assign name _ => some name
  | 0 :: place, .group inner => inner.nameAt? place
  | 0 :: place, .unary _ operand => operand.nameAt? place
  | 0 :: place, .binary left _ _ => left.nameAt? place
  | 1 :: place, .binary _ _ right => right.nameAt? place
  | 0 :: place, .logical left _ _ => left.nameAt? place
  | 1 :: place, .logical _ _ right => right.nameAt? place
  | 0 :: place, .assign _ value => value.nameAt? place
  | _, _ => none

/-- The variable that occurs at a place of a statement. -/
def Stmt.nameAt? : Place → Stmt → Option Token
  | 0 :: place, .expr value => value.nameAt? place
  | 0 :: place, .print value => value.nameAt? place
  | 0 :: place, .declare _ (some initial) => initial.nameAt? place
  | i :: place, .block body =>
    match body[i]? with
    | some stmt => stmt.nameAt? place
    | none => none
  | 0 :: place, .branch condition _ _ => condition.nameAt? place
  | 1 :: place, .branch _ whenTrue _ => whenTrue.nameAt? place
  | 2 :: place, .branch _ _ (some whenFalse) => whenFalse.nameAt? place
  | 0 :: place, .loop condition _ => condition.nameAt? place
  | 1 :: place, .loop _ body => body.nameAt? place
  | _, _ => none

/-! ### Lists around a place -/

/-- The lists of statements around a place of a statement, innermost first, each cut off in front of
the statement that holds the place; `outer` are those around the statement itself. -/
def Stmt.enclosing : Place → Stmt → List (List Stmt) → List (List Stmt)
  | i :: place, .block body, outer =>
    match body[i]? with
    | some stmt => stmt.enclosing place (body.take i :: outer)
    | none => outer
  | 1 :: place, .branch _ whenTrue _, outer => whenTrue.enclosing place outer
  | 2 :: place, .branch _ _ (some whenFalse), outer => whenFalse.enclosing place outer
  | 1 :: place, .loop _ body, outer => body.enclosing place outer
  | _, _, outer => outer

/-- Is the statement a declaration of the name with this key? -/
def Stmt.declares (key : Key) : Stmt → Bool
  | .declare name _ => Key.ofLexeme? name.lexeme = some key
  | _ => false

theorem Stmt.declares_declare {name : Token} {n : Name}
    (hname : Name.ofLexeme? name.lexeme = some n) (key : Key) (initial : Option Expr) :
    Stmt.declares key (.declare name initial) = decide (key = n.key) := by
  obtain ⟨k, hk, rfl⟩ := Option.map_eq_some_iff.1 hname
  simp [declares, hk, eq_comm]

/-- How many lists out the nearest one is that declares the name. -/
def nearest? (lists : List (List Stmt)) (name : Token) : Option Nat :=
  match Key.ofLexeme? name.lexeme with
  | none => none
  | some key => lists.findIdx? fun list => list.any (Stmt.declares key)

/-- How many lists out of a place the nearest one is that declares the name in front of it. -/
def distance? (program : List Stmt) (place : Place) (name : Token) : Option Nat :=
  nearest? ((Stmt.block program).enclosing place []) name

/-! ### Where declarations stand -/

/-- Is the statement a declaration? -/
def Stmt.isDeclare : Stmt → Bool
  | .declare .. => true
  | _ => false

theorem Stmt.declares_eq_false {stmt : Stmt} (h : stmt.isDeclare = false) (key : Key) :
    stmt.declares key = false := by
  cases stmt with
  | declare name initial => cases h
  | _ => rfl

mutual

/-- No declaration is the body of a branch or a loop. -/
def Stmt.Placed : Stmt → Prop
  | .block body => allPlaced body
  | .branch _ whenTrue none => whenTrue.isDeclare = false ∧ whenTrue.Placed
  | .branch _ whenTrue (some whenFalse) =>
    (whenTrue.isDeclare = false ∧ whenTrue.Placed) ∧
      (whenFalse.isDeclare = false ∧ whenFalse.Placed)
  | .loop _ body => body.isDeclare = false ∧ body.Placed
  | _ => True

/-- No declaration in any of the statements is the body of a branch or a loop. -/
def allPlaced : List Stmt → Prop
  | [] => True
  | stmt :: stmts => stmt.Placed ∧ allPlaced stmts

end

/-- What is said of where declarations stand in a phrase. -/
def Phrase.Placed : Phrase → Prop
  | .expr _ _ => True
  | .stmt tree => tree.isDeclare = false ∧ tree.Placed
  | .decl tree => tree.Placed
  | .decls trees => allPlaced trees

/-- The grammar puts declarations only into lists. -/
theorem Derives.placed {phrase : Phrase} {ts : List Token} (h : Derives phrase ts) :
    phrase.Placed := by
  -- The bodies of branches and loops are statements, and no statement is a declaration.
  induction h with
  | exprStmt => exact ⟨rfl, trivial⟩
  | print => exact ⟨rfl, trivial⟩
  | block _ _ _ ih => exact ⟨rfl, ih⟩
  | branch _ _ _ _ _ _ ih => exact ⟨rfl, ih⟩
  | branchElse _ _ _ _ _ _ _ _ _ ih ihfalse => exact ⟨rfl, ih, ihfalse⟩
  | loop _ _ _ _ _ _ ih => exact ⟨rfl, ih⟩
  | stmtDecl _ ih => exact ih.2
  | cons _ _ ihfirst ihothers => exact ⟨ihfirst, ihothers⟩
  | _ => trivial

/-- The parser puts declarations only into lists. -/
theorem placed_of_parse {limit : Nat} {tokens : List Token} {program : List Stmt}
    (h : Parse.parse limit tokens = .ok program) : allPlaced program := by
  obtain ⟨body, last, rest, -, -, hderives, -⟩ := Parse.derives_of_parse h
  exact hderives.placed

end ScriptLang
