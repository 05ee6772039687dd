import ScriptLang.Proofs.Json.RoundTrip
import ScriptLang.Proofs.Tree.Demands
import ScriptLang.Tree.Document

/-!
# Trees and the nesting of their documents

Every node of a tree is an object of its document, so the document is nested at least as deeply as
the tree is high, and limits that the document keeps are kept by the tree.

## Main Statements

* `Expr.height_le_depth`, `Stmt.height_le_depth`: the document of an expression, of a statement.
* `Document.height_le_depth_program`: the document of a program.
-/

namespace ScriptLang

theorem lt_depth_nodeJson {n : Nat} {kind key : String} {value : Json}
    {fields : List (String × Json)} (h : n ≤ value.depth) (hmem : (key, value) ∈ fields) :
    n < (nodeJson kind fields).depth :=
  Nat.lt_succ_of_le (h.trans (Json.most_le_of_mem_fields (List.mem_cons_of_mem _ hmem)))

theorem depth_nodeJson_pos (kind : String) (fields : List (String × Json)) :
    0 < (nodeJson kind fields).depth :=
  Nat.succ_pos _

variable {d : Demands}

/-- **The document of an expression** is nested at least as deeply as the expression is high. -/
theorem Expr.height_le_depth {e : Expr} (h : e.Meets d) : e.height ≤ e.toJson.depth := by
  induction e with
  | literal value => exact depth_nodeJson_pos _ _
  | group inner ih => exact lt_depth_nodeJson (ih h) (.head _)
  | unary op operand ih => exact lt_depth_nodeJson (ih h.2) (.tail _ (.head _))
  | binary left op right ihleft ihright =>
      exact max_lt (lt_depth_nodeJson (ihleft h.1) (.head _))
        (lt_depth_nodeJson (ihright h.2.2) (.tail _ (.tail _ (.head _))))
  | logical left op right ihleft ihright =>
      exact max_lt (lt_depth_nodeJson (ihleft h.1) (.head _))
        (lt_depth_nodeJson (ihright h.2.2) (.tail _ (.tail _ (.head _))))
  | ref name => exact depth_nodeJson_pos _ _
  | assign name value ih => exact lt_depth_nodeJson (ih h.2) (.tail _ (.head _))
  | misplaced => cases h

mutual

/-- **The document of a statement** is nested at least as deeply as the statement is high. -/
theorem Stmt.height_le_depth {s : Stmt} (h : s.Meets d) : s.height ≤ s.toJson.depth := by
  match s with
  | .expr value =>
      rw [Stmt.height, Stmt.toJson]
      exact lt_depth_nodeJson (Expr.height_le_depth h) (.head _)
  | .print value =>
      rw [Stmt.height, Stmt.toJson]
      exact lt_depth_nodeJson (Expr.height_le_depth h) (.head _)
  | .declare name none =>
      rw [Stmt.height, Stmt.toJson]
      exact depth_nodeJson_pos _ _
  | .declare name (some initial) =>
      rw [Stmt.height, Stmt.toJson]
      exact lt_depth_nodeJson (Expr.height_le_depth h.2) (.tail _ (.head _))
  | .block body =>
      have hbody : heightOfAll body ≤ (Json.arr (jsonOfAll body)).depth :=
        Nat.le_succ_of_le (heightOfAll_le_most h)
      rw [Stmt.height, Stmt.toJson]
      exact lt_depth_nodeJson hbody (.head _)
  | .branch condition whenTrue none =>
      rw [Stmt.height, Stmt.toJson]
      exact max_lt (lt_depth_nodeJson (Expr.height_le_depth h.1) (.head _))
        (lt_depth_nodeJson (Stmt.height_le_depth h.2) (.tail _ (.head _)))
  | .branch condition whenTrue (some whenFalse) =>
      rw [Stmt.height, Stmt.toJson]
      exact max_lt (lt_depth_nodeJson (Expr.height_le_depth h.1) (.head _))
        (max_lt (lt_depth_nodeJson (Stmt.height_le_depth h.2.1) (.tail _ (.head _)))
          (lt_depth_nodeJson (Stmt.height_le_depth h.2.2) (.tail _ (.tail _ (.head _)))))
  | .loop condition body =>
      rw [Stmt.height, Stmt.toJson]
      exact max_lt (lt_depth_nodeJson (Expr.height_le_depth h.1) (.head _))
        (lt_depth_nodeJson (Stmt.height_le_depth h.2) (.tail _ (.head _)))
  | .misplaced _ _ => cases h

theorem heightOfAll_le_most {stmts : List Stmt} (h : allMeet d stmts) :
    heightOfAll stmts ≤ Json.mostOfItems (fun _ => 0) 1 (jsonOfAll stmts) := by
  match stmts with
  | [] =>
      rw [heightOfAll]
      exact Nat.zero_le _
  | first :: others =>
      rw [heightOfAll, jsonOfAll, Json.mostOfItems]
      exact max_le_max (Stmt.height_le_depth h.1) (heightOfAll_le_most h.2)

end

/-- **The document of a program** is nested at least as deeply as the program is high. -/
theorem Document.height_le_depth_program {program : List Stmt} (h : allMeet d program) :
    (Document.program program).height ≤ (Document.program program).toJson.depth := by
  have hbody : heightOfAll program ≤ (Json.arr (jsonOfAll program)).depth :=
    Nat.le_succ_of_le (heightOfAll_le_most h)
  rw [Document.height, Document.toJson]
  exact lt_depth_nodeJson hbody (.head _)

end ScriptLang
