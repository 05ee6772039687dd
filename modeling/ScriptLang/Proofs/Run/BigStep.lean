import Mathlib.Data.Finmap
import ScriptLang.Run.Exec

/-!
# What programs mean

The meaning of expressions and statements as a relation between what there is before and what there
is after. There are no scope objects, numbers of scopes or links here: the world of a program is a
stack of finite maps and the text printed so far, and whoever changes it has a new one.

## Main Definitions

* `World`: the maps, innermost first, and the text.
* `World.lookup?`, `World.assign?`, `World.bind`: reading, assigning and declaring.
* `Counts`, `Bang`: what counts as true, and the operator `!`.
* `UnaryYields`, `BinaryYields`: what the operators yield, or the report of their failure.
* `Evaluates`: what an expression yields and the world it leaves.
* `Executes`: how statements end and the world they leave.

## Main Statements

* `Evaluates.length_scopes`, `Executes.length_scopes`: there are as many maps after as before.

## Design Notes

A failure is part of the meaning: it is an outcome like the others, which the constructs around it
pass on. A program that goes on for ever has no meaning, so nothing is derived for it.
-/

namespace ScriptLang

/-! ### Worlds -/

/-- The names of one scope with their values. -/
abbrev Frame : Type := Finmap fun _ : String => Value

/-- What a program works on: its scopes, innermost first, and the text it has printed. -/
structure World where
  scopes : List Frame
  out : String

/-- The value of a name in the nearest map that has it. -/
def lookupIn (x : String) : List Frame → Option Value
  | [] => none
  | frame :: frames => (frame.lookup x).or (lookupIn x frames)

/-- The maps with a name changed in the nearest one that has it, if one has. -/
def assignIn (x : String) (v : Value) : List Frame → Option (List Frame)
  | [] => none
  | frame :: frames =>
    if x ∈ frame then some (frame.insert x v :: frames)
    else (assignIn x v frames).map (frame :: ·)

/-- The maps with a name bound in the innermost one. -/
def bindIn (x : String) (v : Value) : List Frame → List Frame
  | [] => []
  | frame :: frames => frame.insert x v :: frames

namespace World

/-- The value of a name. -/
def lookup? (w : World) (x : String) : Option Value := lookupIn x w.scopes

/-- The world after an assignment, if there is the name to assign to. -/
def assign? (w : World) (x : String) (v : Value) : Option World :=
  (assignIn x v w.scopes).map fun scopes => { w with scopes }

/-- The world after a declaration. -/
def bind (w : World) (x : String) (v : Value) : World :=
  { w with scopes := bindIn x v w.scopes }

/-- The world inside a new block. -/
def push (w : World) : World := { w with scopes := ∅ :: w.scopes }

/-- The world behind a block. -/
def pop (w : World) : World := { w with scopes := w.scopes.tail }

/-- The world with one more line printed. -/
def print (w : World) (text : String) : World := { w with out := w.out ++ text ++ "\n" }

end World

/-! ### Values and operators -/

/-- The value counts as true. -/
def Counts : Truthiness → Value → Prop
  | .standard, v => v ≠ .bool false ∧ v ≠ .nil
  | .legacy, .bool b => b = true
  | .legacy, .num x => (x == 0) = true
  | .legacy, .str text => text ≠ ""
  | .legacy, _ => False

/-- What `!` makes of a value. Under the legacy rule it turns booleans round and nothing else. -/
inductive Bang : Truthiness → Value → Bool → Prop where
  | standard {v : Value} {b : Bool} (h : b = true ↔ ¬ Counts .standard v) : Bang .standard v b
  | bool {b : Bool} : Bang .legacy (.bool b) !b
  | legacy {v : Value} {b : Bool} (hv : ∀ b, v ≠ .bool b) (h : b = true ↔ Counts .legacy v) :
      Bang .legacy v b

/-- The value of a literal. -/
inductive Denotes : Json → Value → Prop where
  | nil : Denotes .null .nil
  | bool (b : Bool) : Denotes (.bool b) (.bool b)
  | num (x : Float) : Denotes (.num x) (.num x)
  | str (text : String) : Denotes (.str text) (.str text)

/-- The report of a failure that is put down to a token. -/
def reportAt (cause message : String) (token : Token) : Diagnostic :=
  { stage := .run cause, message, line := token.line }

/-- What a prefix operator yields. -/
inductive UnaryYields (rule : Truthiness) (op : Token) :
    Value → Except Diagnostic Value → Prop where
  | minus {x : Float} (hop : op.kind = .minus) : UnaryYields rule op (.num x) (.ok (.num (-x)))
  | minusOther {v : Value} (hop : op.kind = .minus) (hv : ∀ x, v ≠ .num x) :
      UnaryYields rule op v
        (.error (reportAt "TypeError" ("Cannot apply - to a non-number '" ++ v.text ++ "'") op))
  | bang {v : Value} {b : Bool} (hop : op.kind = .bang) (h : Bang rule v b) :
      UnaryYields rule op v (.ok (.bool b))
  | unknown {v : Value} {text : String} (htext : op.lexeme = .str text) (hminus : op.kind ≠ .minus)
      (hbang : op.kind ≠ .bang) :
      UnaryYields rule op v
        (.error (reportAt "OperatorError" ("Cannot apply " ++ text ++ " to '" ++ v.text ++ "'") op))

/-- The operators for calculating. -/
def calculating : List TokenKind := [.plus, .minus, .star, .slash]

/-- The operators for comparing. -/
def comparing : List TokenKind :=
  [.less, .lessEqual, .greater, .greaterEqual, .equalEqual, .bangEqual]

/-- What an operator between two numbers yields. -/
inductive Computes : TokenKind → Float → Float → Value → Prop where
  | plus {x y : Float} : Computes .plus x y (.num (x + y))
  | minus {x y : Float} : Computes .minus x y (.num (x - y))
  | star {x y : Float} : Computes .star x y (.num (x * y))
  | slash {x y : Float} (hy : (y == 0) = false) : Computes .slash x y (.num (x / y))
  | less {x y : Float} : Computes .less x y (.bool (decide (x < y)))
  | lessEqual {x y : Float} : Computes .lessEqual x y (.bool (decide (x ≤ y)))
  | greater {x y : Float} : Computes .greater x y (.bool (decide (x > y)))
  | greaterEqual {x y : Float} : Computes .greaterEqual x y (.bool (decide (x ≥ y)))
  | equalEqual {x y : Float} : Computes .equalEqual x y (.bool (x == y))
  | bangEqual {x y : Float} : Computes .bangEqual x y (.bool (x != y))

/-- The two values are numbers. -/
def BothNumbers (a b : Value) : Prop := (∃ x, a = .num x) ∧ ∃ y, b = .num y

/-- What an operator between two values yields. -/
inductive BinaryYields (op : Token) : Value → Value → Except Diagnostic Value → Prop where
  | computes {x y : Float} {v : Value} (h : Computes op.kind x y v) :
      BinaryYields op (.num x) (.num y) (.ok v)
  | byZero {x y : Float} (hop : op.kind = .slash) (hy : (y == 0) = true) :
      BinaryYields op (.num x) (.num y)
        (.error (reportAt "ZeroDivisionError" "Cannot divide by zero" op))
  | notNumbers {a b : Value} {text : String} (hop : op.kind ∈ calculating)
      (htext : op.lexeme = .str text) (hab : ¬ BothNumbers a b) :
      BinaryYields op a b
        (.error (reportAt "TypeError"
          ("Cannot apply " ++ text ++ " to '" ++ a.text ++ "' and '" ++ b.text ++ "'") op))
  | notComparable {a b : Value} (hop : op.kind ∈ comparing) (hab : ¬ BothNumbers a b) :
      BinaryYields op a b (.error (reportAt "TypeError" "Cannot compare non-numbers." op))
  | unknown {a b : Value} {text : String} (htext : op.lexeme = .str text)
      (hcalculating : op.kind ∉ calculating) (hcomparing : op.kind ∉ comparing) :
      BinaryYields op a b (.error (reportAt "OperatorError" ("No such operator as " ++ text) op))

/-! ### Expressions -/

/-- What an expression yields in a world, and the world it leaves. Operands are evaluated from left
to right, the second one of `or` and `and` only if the first does not decide. -/
inductive Evaluates (rule : Truthiness) :
    Expr → World → Except Diagnostic Value → World → Prop where
  | literal {j : Json} {v : Value} {w : World} (h : Denotes j v) :
      Evaluates rule (.literal j) w (.ok v) w
  | group {e : Expr} {w w' : World} {r : Except Diagnostic Value} (h : Evaluates rule e w r w') :
      Evaluates rule (.group e) w r w'
  | ref {name : Token} {x : String} {w : World} {v : Value} (hname : name.lexeme = .str x)
      (h : w.lookup? x = some v) : Evaluates rule (.ref name) w (.ok v) w
  | refMissing {name : Token} {x : String} {w : World} (hname : name.lexeme = .str x)
      (h : w.lookup? x = none) :
      Evaluates rule (.ref name) w
        (.error (reportAt "NameError" ("Cannot find the variable '" ++ x ++ "' in the scope") name))
        w
  | assign {name : Token} {x : String} {e : Expr} {w w' w'' : World} {v : Value}
      (hname : name.lexeme = .str x) (h : Evaluates rule e w (.ok v) w')
      (hassign : w'.assign? x v = some w'') : Evaluates rule (.assign name e) w (.ok .nil) w''
  | assignMissing {name : Token} {x : String} {e : Expr} {w w' : World} {v : Value}
      (hname : name.lexeme = .str x) (h : Evaluates rule e w (.ok v) w')
      (hassign : w'.assign? x v = none) :
      Evaluates rule (.assign name e) w
        (.error (reportAt "NameError" ("Cannot assign to undefined variable '" ++ x ++ "'") name))
        w'
  | assignFails {name : Token} {e : Expr} {w w' : World} {d : Diagnostic}
      (h : Evaluates rule e w (.error d) w') : Evaluates rule (.assign name e) w (.error d) w'
  | unary {op : Token} {e : Expr} {w w' : World} {v : Value} {r : Except Diagnostic Value}
      (h : Evaluates rule e w (.ok v) w') (hop : UnaryYields rule op v r) :
      Evaluates rule (.unary op e) w r w'
  | unaryFails {op : Token} {e : Expr} {w w' : World} {d : Diagnostic}
      (h : Evaluates rule e w (.error d) w') : Evaluates rule (.unary op e) w (.error d) w'
  | binary {op : Token} {left right : Expr} {w w' w'' : World} {a b : Value}
      {r : Except Diagnostic Value} (hleft : Evaluates rule left w (.ok a) w')
      (hright : Evaluates rule right w' (.ok b) w'') (hop : BinaryYields op a b r) :
      Evaluates rule (.binary left op right) w r w''
  | binaryLeftFails {op : Token} {left right : Expr} {w w' : World} {d : Diagnostic}
      (hleft : Evaluates rule left w (.error d) w') :
      Evaluates rule (.binary left op right) w (.error d) w'
  | binaryRightFails {op : Token} {left right : Expr} {w w' w'' : World} {a : Value}
      {d : Diagnostic} (hleft : Evaluates rule left w (.ok a) w')
      (hright : Evaluates rule right w' (.error d) w'') :
      Evaluates rule (.binary left op right) w (.error d) w''
  | orLeft {op : Token} {left right : Expr} {w w' : World} {a : Value} (hop : op.kind = .orWord)
      (hleft : Evaluates rule left w (.ok a) w') (ha : Counts rule a) :
      Evaluates rule (.logical left op right) w (.ok a) w'
  | orRight {op : Token} {left right : Expr} {w w' w'' : World} {a : Value}
      {r : Except Diagnostic Value} (hop : op.kind = .orWord)
      (hleft : Evaluates rule left w (.ok a) w') (ha : ¬ Counts rule a)
      (hright : Evaluates rule right w' r w'') : Evaluates rule (.logical left op right) w r w''
  | andLeft {op : Token} {left right : Expr} {w w' : World} {a : Value} (hop : op.kind = .andWord)
      (hleft : Evaluates rule left w (.ok a) w') (ha : ¬ Counts rule a) :
      Evaluates rule (.logical left op right) w (.ok a) w'
  | andRight {op : Token} {left right : Expr} {w w' w'' : World} {a : Value}
      {r : Except Diagnostic Value} (hop : op.kind = .andWord)
      (hleft : Evaluates rule left w (.ok a) w') (ha : Counts rule a)
      (hright : Evaluates rule right w' r w'') : Evaluates rule (.logical left op right) w r w''
  | logicalFails {op : Token} {left right : Expr} {w w' : World} {d : Diagnostic}
      (hleft : Evaluates rule left w (.error d) w') :
      Evaluates rule (.logical left op right) w (.error d) w'

/-! ### Statements -/

/-- What can be executed: a statement, or statements one after the other. -/
inductive Code where
  | stmt (stmt : Stmt)
  | stmts (stmts : List Stmt)

/-- How statements end, started in a world, and the world they leave. -/
inductive Executes (rule : Truthiness) : Code → World → Except Diagnostic Unit → World → Prop where
  | expr {e : Expr} {w w' : World} {v : Value} (h : Evaluates rule e w (.ok v) w') :
      Executes rule (.stmt (.expr e)) w (.ok ()) w'
  | exprFails {e : Expr} {w w' : World} {d : Diagnostic} (h : Evaluates rule e w (.error d) w') :
      Executes rule (.stmt (.expr e)) w (.error d) w'
  | print {e : Expr} {w w' : World} {v : Value} (h : Evaluates rule e w (.ok v) w') :
      Executes rule (.stmt (.print e)) w (.ok ()) (w'.print v.text)
  | printFails {e : Expr} {w w' : World} {d : Diagnostic} (h : Evaluates rule e w (.error d) w') :
      Executes rule (.stmt (.print e)) w (.error d) w'
  | declare {name : Token} {x : String} {e : Expr} {w w' : World} {v : Value}
      (hname : name.lexeme = .str x) (h : Evaluates rule e w (.ok v) w') :
      Executes rule (.stmt (.declare name (some e))) w (.ok ()) (w'.bind x v)
  | declareNil {name : Token} {x : String} {w : World} (hname : name.lexeme = .str x) :
      Executes rule (.stmt (.declare name none)) w (.ok ()) (w.bind x .nil)
  | declareFails {name : Token} {e : Expr} {w w' : World} {d : Diagnostic}
      (h : Evaluates rule e w (.error d) w') :
      Executes rule (.stmt (.declare name (some e))) w (.error d) w'
  | block {body : List Stmt} {w w' : World} {r : Except Diagnostic Unit}
      (h : Executes rule (.stmts body) w.push r w') :
      Executes rule (.stmt (.block body)) w r w'.pop
  | branchTrue {c : Expr} {whenTrue : Stmt} {whenFalse : Option Stmt} {w w' w'' : World} {v : Value}
      {r : Except Diagnostic Unit} (hc : Evaluates rule c w (.ok v) w') (hv : Counts rule v)
      (h : Executes rule (.stmt whenTrue) w' r w'') :
      Executes rule (.stmt (.branch c whenTrue whenFalse)) w r w''
  | branchFalse {c : Expr} {whenTrue whenFalse : Stmt} {w w' w'' : World} {v : Value}
      {r : Except Diagnostic Unit} (hc : Evaluates rule c w (.ok v) w') (hv : ¬ Counts rule v)
      (h : Executes rule (.stmt whenFalse) w' r w'') :
      Executes rule (.stmt (.branch c whenTrue (some whenFalse))) w r w''
  | branchNone {c : Expr} {whenTrue : Stmt} {w w' : World} {v : Value}
      (hc : Evaluates rule c w (.ok v) w') (hv : ¬ Counts rule v) :
      Executes rule (.stmt (.branch c whenTrue none)) w (.ok ()) w'
  | branchFails {c : Expr} {whenTrue : Stmt} {whenFalse : Option Stmt} {w w' : World}
      {d : Diagnostic} (hc : Evaluates rule c w (.error d) w') :
      Executes rule (.stmt (.branch c whenTrue whenFalse)) w (.error d) w'
  | loopDone {c : Expr} {body : Stmt} {w w' : World} {v : Value}
      (hc : Evaluates rule c w (.ok v) w') (hv : ¬ Counts rule v) :
      Executes rule (.stmt (.loop c body)) w (.ok ()) w'
  /-- One round, and the loop again in the world that it leaves. -/
  | loopNext {c : Expr} {body : Stmt} {w w' w'' w''' : World} {v : Value}
      {r : Except Diagnostic Unit} (hc : Evaluates rule c w (.ok v) w') (hv : Counts rule v)
      (hbody : Executes rule (.stmt body) w' (.ok ()) w'')
      (hloop : Executes rule (.stmt (.loop c body)) w'' r w''') :
      Executes rule (.stmt (.loop c body)) w r w'''
  | loopBodyFails {c : Expr} {body : Stmt} {w w' w'' : World} {v : Value} {d : Diagnostic}
      (hc : Evaluates rule c w (.ok v) w') (hv : Counts rule v)
      (hbody : Executes rule (.stmt body) w' (.error d) w'') :
      Executes rule (.stmt (.loop c body)) w (.error d) w''
  | loopFails {c : Expr} {body : Stmt} {w w' : World} {d : Diagnostic}
      (hc : Evaluates rule c w (.error d) w') :
      Executes rule (.stmt (.loop c body)) w (.error d) w'
  | nil {w : World} : Executes rule (.stmts []) w (.ok ()) w
  | cons {stmt : Stmt} {stmts : List Stmt} {w w' w'' : World} {r : Except Diagnostic Unit}
      (hfirst : Executes rule (.stmt stmt) w (.ok ()) w')
      (hothers : Executes rule (.stmts stmts) w' r w'') :
      Executes rule (.stmts (stmt :: stmts)) w r w''
  | consFails {stmt : Stmt} {stmts : List Stmt} {w w' : World} {d : Diagnostic}
      (hfirst : Executes rule (.stmt stmt) w (.error d) w') :
      Executes rule (.stmts (stmt :: stmts)) w (.error d) w'

/-! ### The number of maps -/

theorem length_assignIn {x : String} {v : Value} {frames frames' : List Frame}
    (h : assignIn x v frames = some frames') : frames'.length = frames.length := by
  induction frames generalizing frames' with
  | nil => cases h
  | cons frame frames ih =>
      unfold assignIn at h
      split at h
      · cases h
        rfl
      · obtain ⟨inner, hinner, rfl⟩ := Option.map_eq_some_iff.1 h
        simp [ih hinner]

theorem World.length_assign? {w w' : World} {x : String} {v : Value}
    (h : w.assign? x v = some w') : w'.scopes.length = w.scopes.length := by
  obtain ⟨scopes, hscopes, rfl⟩ := Option.map_eq_some_iff.1 h
  exact length_assignIn hscopes

theorem World.length_bind (w : World) (x : String) (v : Value) :
    (w.bind x v).scopes.length = w.scopes.length := by
  cases hscopes : w.scopes <;> simp [World.bind, bindIn, hscopes]

/-- Evaluating neither opens nor closes a scope. -/
theorem Evaluates.length_scopes {rule : Truthiness} {e : Expr} {w w' : World}
    {r : Except Diagnostic Value} (h : Evaluates rule e w r w') :
    w'.scopes.length = w.scopes.length := by
  induction h with
  | literal | ref | refMissing => rfl
  | group _ ih => exact ih
  | assign _ _ hassign ih => rw [World.length_assign? hassign, ih]
  | assignMissing _ _ _ ih => exact ih
  | assignFails _ ih => exact ih
  | unary _ _ ih => exact ih
  | unaryFails _ ih => exact ih
  | binary _ _ _ ihleft ihright => rw [ihright, ihleft]
  | binaryLeftFails _ ih => exact ih
  | binaryRightFails _ _ ihleft ihright => rw [ihright, ihleft]
  | orLeft _ _ _ ih => exact ih
  | orRight _ _ _ _ ihleft ihright => rw [ihright, ihleft]
  | andLeft _ _ _ ih => exact ih
  | andRight _ _ _ _ ihleft ihright => rw [ihright, ihleft]
  | logicalFails _ ih => exact ih

/-- **Statements close the scopes that they open**, also when they fail. -/
theorem Executes.length_scopes {rule : Truthiness} {code : Code} {w w' : World}
    {r : Except Diagnostic Unit} (h : Executes rule code w r w') :
    w'.scopes.length = w.scopes.length := by
  induction h with
  | expr h => exact h.length_scopes
  | exprFails h => exact h.length_scopes
  | print h => exact h.length_scopes
  | printFails h => exact h.length_scopes
  | declare _ h => rw [World.length_bind, h.length_scopes]
  | declareNil _ => rw [World.length_bind]
  | declareFails h => exact h.length_scopes
  | block _ ih => simp [World.pop, ih, World.push]
  | branchTrue hc _ _ ih => rw [ih, hc.length_scopes]
  | branchFalse hc _ _ ih => rw [ih, hc.length_scopes]
  | branchNone hc => exact hc.length_scopes
  | branchFails hc => exact hc.length_scopes
  | loopDone hc => exact hc.length_scopes
  | loopNext hc _ _ _ ihbody ihloop => rw [ihloop, ihbody, hc.length_scopes]
  | loopBodyFails hc _ _ ihbody => rw [ihbody, hc.length_scopes]
  | loopFails hc => exact hc.length_scopes
  | nil => rfl
  | cons _ _ ihfirst ihothers => rw [ihothers, ihfirst]
  | consFails _ ih => exact ih

end ScriptLang
