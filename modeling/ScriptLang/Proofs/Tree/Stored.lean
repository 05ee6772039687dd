import ScriptLang.Proofs.Json.RoundTrip
import ScriptLang.Proofs.Tree.Assembled
import ScriptLang.Proofs.Tree.Demands

/-!
# Trees that are stored and loaded

A tree is stored as a document and a document is written as text. Nothing of the tree is lost on
the way: what is loaded again is the tree itself, with all tokens, lines and values, whether it is
loaded from the document or from its text.

## Main Definitions

* `Json.Storable`: the values that a document keeps apart: no whole numbers and not NaN.
* `Demands.storable`: the literals and the tokens of a tree hold such values.
* `Document.Meets`: the demands on a tree hold of all that a document describes.

## Main Statements

* `FromSource.storable`: programs from a source can be stored.
* `Expr.reloads`, `Stmt.reloads`, `Document.reloads`: a tree is loaded from its document.
* `Document.faithful_toJson`: the document of a tree can be read back from its text.
* `Document.load_stored`: a tree that is stored is loaded again, with a text between or without.
-/

namespace ScriptLang

/-! ### What can be stored -/

/-- The values that a document keeps apart: a whole number would come back as a double, and NaN is
no value of its own. -/
def Json.Storable : Json → Prop
  | .null | .bool _ | .str _ => True
  | .num x => x.isNaN = false
  | _ => False

/-- The text of the token is a text, its line a whole number, and its value can be stored. -/
structure Token.Storable (t : Token) : Prop where
  lexeme : ∃ text, t.lexeme = .str text
  line : ∃ n, t.line = .int n
  literal : t.literal.Storable

/-- The literals and the tokens can be stored, whatever operators the tokens are. -/
def Demands.storable : Demands where
  literal := Json.Storable
  unary := Token.Storable
  binary := Token.Storable
  logical := Token.Storable
  name := Token.Storable

theorem Json.IsLexed.storable {value : Json} (h : value.IsLexed) : value.Storable := by
  cases h with
  | null => trivial
  | text _ => trivial
  | number whole fraction => exact Number.isNaN_ofDecimal _ _

theorem Demands.storable_metBy : storable.MetBy Token.Lexed :=
  have hstorable (t : Token) (ht : t.Lexed) : t.Storable :=
    ⟨ht.lexeme, ht.line, ht.literal.storable⟩
  { null := trivial
    bool := fun _ => trivial
    literal := fun _ ht => ht.literal.storable
    unary := fun t ht _ => hstorable t ht
    binary := fun t ht _ => hstorable t ht
    logical := fun t ht _ => hstorable t ht
    name := fun t ht _ => hstorable t ht }

/-- **Programs from a source can be stored.** -/
theorem FromSource.storable {program : List Stmt} (h : FromSource program) :
    allMeet .storable program :=
  h.meets Demands.storable_metBy

mutual

/-- The parts of what is described are as demanded, and none of its nodes is misplaced. -/
def Document.Meets (d : Demands) : Document → Prop
  | .absent => True
  | .list items => Document.allMeet d items
  | .program body => ScriptLang.allMeet d body
  | .stmt node => node.Meets d
  | .expr node => node.Meets d

/-- The same of all members of a list. -/
def Document.allMeet (d : Demands) : List Document → Prop
  | [] => True
  | item :: items => item.Meets d ∧ Document.allMeet d items

end

/-! ### Trees -/

namespace Document

theorem literalValue_of_storable {value : Json} (h : value.Storable) :
    literalValue value = .ok value := by
  cases value with
  | int => cases h
  | _ => rfl

end Document

open Document

/-- **An expression is loaded from its document**, if as many levels may be opened as it has. -/
theorem Expr.reloads {e : Expr} (h : e.Meets .storable) {n : Nat} (hn : e.height ≤ n) :
    Reloads n (.expr e) := by
  induction e generalizing n with
  | literal value => exact Assembled.reloads hn (.literal (literalValue_of_storable h))
  | group inner ih =>
      rw [height] at hn
      have hinner : Reloads (n - 1) (.expr inner) := ih h (by omega)
      exact Assembled.reloads (by omega) (.group hinner)
  | unary op operand ih =>
      rw [height] at hn
      have hoperand : Reloads (n - 1) (.expr operand) := ih h.2 (by omega)
      exact Assembled.reloads (by omega) (.unary hoperand)
  | binary left op right ihleft ihright =>
      rw [height] at hn
      have hleft : Reloads (n - 1) (.expr left) := ihleft h.1 (by omega)
      have hright : Reloads (n - 1) (.expr right) := ihright h.2.2 (by omega)
      exact Assembled.reloads (by omega) (.binary hleft hright)
  | logical left op right ihleft ihright =>
      rw [height] at hn
      have hleft : Reloads (n - 1) (.expr left) := ihleft h.1 (by omega)
      have hright : Reloads (n - 1) (.expr right) := ihright h.2.2 (by omega)
      exact Assembled.reloads (by omega) (.logical hleft hright)
  | ref name => exact Assembled.reloads hn .ref
  | assign name value ih =>
      rw [height] at hn
      have hvalue : Reloads (n - 1) (.expr value) := ih h.2 (by omega)
      exact Assembled.reloads (by omega) (.assign hvalue)
  | misplaced => cases h

mutual

/-- **A statement is loaded from its document**, if as many levels may be opened as it has. -/
theorem Stmt.reloads {s : Stmt} (h : s.Meets .storable) {n : Nat} (hn : s.height ≤ n) :
    Reloads n (.stmt s) := by
  match s with
  | .expr value =>
      rw [Stmt.height] at hn
      have hvalue : Reloads (n - 1) (.expr value) := Expr.reloads h (by omega)
      exact Assembled.reloads (by omega) (.exprStmt hvalue)
  | .print value =>
      rw [Stmt.height] at hn
      have hvalue : Reloads (n - 1) (.expr value) := Expr.reloads h (by omega)
      exact Assembled.reloads (by omega) (.print hvalue)
  | .declare name none =>
      have hnone : Reloads (n - 1) .absent := load_null (n - 1)
      exact Assembled.reloads hn (.declare hnone)
  | .declare name (some initial) =>
      rw [Stmt.height] at hn
      have hinitial : Reloads (n - 1) (.expr initial) := Expr.reloads h.2 (by omega)
      exact Assembled.reloads (by omega) (.declare hinitial)
  | .block body =>
      rw [Stmt.height] at hn
      have hbody := Assembled.reloads (by omega) (.block (reloads_body h (n := n - 1) (by omega)))
      rwa [List.map_map, asStmt_comp_stmt, List.map_id] at hbody
  | .branch condition whenTrue none =>
      rw [Stmt.height] at hn
      have hcondition : Reloads (n - 1) (.expr condition) := Expr.reloads h.1 (by omega)
      have hwhenTrue : Reloads (n - 1) (.stmt whenTrue) := Stmt.reloads h.2 (by omega)
      have hnone : Reloads (n - 1) .absent := load_null (n - 1)
      exact Assembled.reloads (by omega) (.branch hcondition hwhenTrue hnone)
  | .branch condition whenTrue (some whenFalse) =>
      rw [Stmt.height] at hn
      have hcondition : Reloads (n - 1) (.expr condition) := Expr.reloads h.1 (by omega)
      have hwhenTrue : Reloads (n - 1) (.stmt whenTrue) := Stmt.reloads h.2.1 (by omega)
      have hwhenFalse : Reloads (n - 1) (.stmt whenFalse) := Stmt.reloads h.2.2 (by omega)
      exact Assembled.reloads (by omega) (.branch hcondition hwhenTrue hwhenFalse)
  | .loop condition body =>
      rw [Stmt.height] at hn
      have hcondition : Reloads (n - 1) (.expr condition) := Expr.reloads h.1 (by omega)
      have hbody : Reloads (n - 1) (.stmt body) := Stmt.reloads h.2 (by omega)
      exact Assembled.reloads (by omega) (.loop hcondition hbody)
  | .misplaced _ _ => cases h

/-- The statements of a body are loaded from their documents. -/
theorem reloads_body {body : List Stmt} (h : ScriptLang.allMeet .storable body) {n : Nat}
    (hn : heightOfAll body ≤ n) : ∀ part ∈ body.map Document.stmt, Reloads n part := by
  match body with
  | [] => simp
  | first :: others =>
      rw [heightOfAll] at hn
      rw [List.map_cons, List.forall_mem_cons]
      exact ⟨Stmt.reloads h.1 (by omega), reloads_body h.2 (by omega)⟩

end

mutual

/-- **What a document describes is loaded from it**, if as many levels may be opened as it has. -/
theorem Document.reloads {document : Document} (h : document.Meets .storable) {n : Nat}
    (hn : document.height ≤ n) : Reloads n document := by
  match document with
  | .absent => exact load_null n
  | .list items =>
      rw [Document.height] at hn
      exact reloads_list (by omega) (reloads_items h (by omega))
  | .program body =>
      rw [Document.height] at hn
      have hbody := Assembled.reloads (by omega) (.program (reloads_body h (n := n - 1) (by omega)))
      rwa [List.map_map, asStmt_comp_stmt, List.map_id] at hbody
  | .stmt node => exact Stmt.reloads h hn
  | .expr node => exact Expr.reloads h hn

/-- The members of a list are loaded from their documents. -/
theorem reloads_items {items : List Document} (h : Document.allMeet .storable items) {n : Nat}
    (hn : heightAll items ≤ n) : ∀ part ∈ items, Reloads n part := by
  match items with
  | [] => simp
  | first :: others =>
      rw [heightAll] at hn
      rw [List.forall_mem_cons]
      exact ⟨Document.reloads h.1 (by omega), reloads_items h.2 (by omega)⟩

end

/-! ### Documents of trees -/

namespace Json

theorem faithful_nodeJson {kind : String} {fields : List (String × Json)}
    (hkeys : ("type" :: fields.map Prod.fst).Nodup) (h : fieldsFaithful fields) :
    (nodeJson kind fields).Faithful :=
  ⟨hkeys, trivial, h⟩

theorem Storable.faithful {value : Json} (h : value.Storable) : value.Faithful := by
  cases value with
  | num => exact h
  | arr => cases h
  | obj => cases h
  | _ => trivial

end Json

theorem Token.Storable.faithful {t : Token} (h : t.Storable) : t.toJson.Faithful := by
  obtain ⟨text, hlexeme⟩ := h.lexeme
  obtain ⟨n, hline⟩ := h.line
  refine ⟨(by decide : ["kind", "lexeme", "line", "literal"].Nodup), trivial, ?_, ?_,
    h.literal.faithful, trivial⟩
  · rw [hlexeme]
    trivial
  · rw [hline]
    trivial

/-- The document of an expression can be read back from its text. -/
theorem Expr.faithful_toJson {e : Expr} (h : e.Meets .storable) : e.toJson.Faithful := by
  induction e with
  | literal value => exact Json.faithful_nodeJson (by simp) ⟨Json.Storable.faithful h, trivial⟩
  | group inner ih => exact Json.faithful_nodeJson (by simp) ⟨ih h, trivial⟩
  | unary op operand ih =>
      exact Json.faithful_nodeJson (by simp) ⟨Token.Storable.faithful h.1, ih h.2, trivial⟩
  | binary left op right ihleft ihright =>
      exact Json.faithful_nodeJson (by simp)
        ⟨ihleft h.1, Token.Storable.faithful h.2.1, ihright h.2.2, trivial⟩
  | logical left op right ihleft ihright =>
      exact Json.faithful_nodeJson (by simp)
        ⟨ihleft h.1, Token.Storable.faithful h.2.1, ihright h.2.2, trivial⟩
  | ref name => exact Json.faithful_nodeJson (by simp) ⟨Token.Storable.faithful h, trivial⟩
  | assign name value ih =>
      exact Json.faithful_nodeJson (by simp) ⟨Token.Storable.faithful h.1, ih h.2, trivial⟩
  | misplaced => cases h

mutual

/-- The document of a statement can be read back from its text. -/
theorem Stmt.faithful_toJson {s : Stmt} (h : s.Meets .storable) : s.toJson.Faithful := by
  match s with
  | .expr value => exact Json.faithful_nodeJson (by simp) ⟨Expr.faithful_toJson h, trivial⟩
  | .print value => exact Json.faithful_nodeJson (by simp) ⟨Expr.faithful_toJson h, trivial⟩
  | .declare name none =>
      exact Json.faithful_nodeJson (by simp) ⟨Token.Storable.faithful h, trivial, trivial⟩
  | .declare name (some initial) =>
      exact Json.faithful_nodeJson (by simp)
        ⟨Token.Storable.faithful h.1, Expr.faithful_toJson h.2, trivial⟩
  | .block body => exact Json.faithful_nodeJson (by simp) ⟨allFaithful_jsonOfAll h, trivial⟩
  | .branch condition whenTrue none =>
      exact Json.faithful_nodeJson (by simp)
        ⟨Expr.faithful_toJson h.1, Stmt.faithful_toJson h.2, trivial, trivial⟩
  | .branch condition whenTrue (some whenFalse) =>
      exact Json.faithful_nodeJson (by simp)
        ⟨Expr.faithful_toJson h.1, Stmt.faithful_toJson h.2.1, Stmt.faithful_toJson h.2.2, trivial⟩
  | .loop condition body =>
      exact Json.faithful_nodeJson (by simp)
        ⟨Expr.faithful_toJson h.1, Stmt.faithful_toJson h.2, trivial⟩
  | .misplaced _ _ => cases h

theorem allFaithful_jsonOfAll {stmts : List Stmt} (h : ScriptLang.allMeet .storable stmts) :
    Json.allFaithful (jsonOfAll stmts) := by
  match stmts with
  | [] => trivial
  | _ :: _ => exact ⟨Stmt.faithful_toJson h.1, allFaithful_jsonOfAll h.2⟩

end

namespace Document

mutual

/-- **The document of a tree can be read back from its text.** -/
theorem faithful_toJson {document : Document} (h : document.Meets .storable) :
    document.toJson.Faithful := by
  match document with
  | .absent => trivial
  | .list items => exact allFaithful_toJsonAll h
  | .program body =>
      exact Json.faithful_nodeJson (by simp) ⟨ScriptLang.allFaithful_jsonOfAll h, trivial⟩
  | .stmt node => exact Stmt.faithful_toJson h
  | .expr node => exact Expr.faithful_toJson h

theorem allFaithful_toJsonAll {items : List Document} (h : Document.allMeet .storable items) :
    Json.allFaithful (toJsonAll items) := by
  match items with
  | [] => trivial
  | _ :: _ => exact ⟨faithful_toJson h.1, allFaithful_toJsonAll h.2⟩

end

/-- **A tree that is stored is loaded again**, if as many levels may be opened as it has: from its
document, and from the text of its document within any limits that the document keeps. -/
theorem load_stored {document : Document} (h : document.Meets .storable) {levels : Nat}
    (hlevels : document.height ≤ levels) :
    document.store levels = some document.toJson ∧
      load levels document.toJson = .ok document ∧
      ∀ limits : Limits, document.toJson.depth ≤ limits.nesting →
        document.toJson.longest ≤ limits.digits →
        ∃ json, Json.read limits document.toJson.write = .ok json ∧
          load levels json = .ok document := by
  have hload : load levels document.toJson = .ok document := Document.reloads h hlevels
  refine ⟨if_pos hlevels, hload, ?_⟩
  intro limits hdepth hdigits
  exact ⟨document.toJson, Json.read_write (faithful_toJson h) hdepth hdigits, hload⟩

/-- A program with a loop, nothing, and a literal in one list. Its numbers are written in three
ways: with a point, with a power of ten and by a name. -/
def mixedTree : Document :=
  let name : Token := { kind := .identifier, lexeme := .str "größe", line := .int 2 }
  let less : Token := { kind := .less, lexeme := .str "<", line := .int (-10) }
  let both : Token :=
    { kind := .andWord, lexeme := .str "and", line := .int 0, literal := .bool true }
  let minus : Token := { kind := .minus, lexeme := .str "", line := .int 3, literal := .num (-0.0) }
  .list [
    .program [
      .declare name none,
      .loop (.logical (.binary (.ref name) less (.literal (.num (1.0 / 0.0)))) both
          (.literal (.bool true)))
        (.block [
          .branch (.group (.literal (.str "\"a\\b\"\n\u0001"))) (.block []) none,
          .expr (.assign name (.unary minus (.literal (.num 0.1)))),
          .print (.literal .null)])],
    .absent,
    .expr (.literal (.num 1e22))]

theorem load_stored_mixedTree :
    mixedTree.Meets .storable ∧ mixedTree.height ≤ 8 ∧
      mixedTree.toJson.depth ≤ Limits.standard.nesting ∧
      mixedTree.toJson.longest ≤ Limits.standard.digits ∧
      ∃ json, Json.read .standard mixedTree.toJson.write = .ok json ∧
        load 8 json = .ok mixedTree := by
  have hmeets : mixedTree.Meets .storable := by
    refine ⟨⟨?name, ⟨⟨⟨?name, ?less, rfl⟩, ?both, trivial⟩, ⟨trivial, trivial⟩,
      ⟨?name, ?minus, rfl⟩, trivial, trivial⟩, trivial⟩, trivial, rfl, trivial⟩
    case minus => exact ⟨⟨_, rfl⟩, ⟨_, rfl⟩, rfl⟩
    all_goals exact ⟨⟨_, rfl⟩, ⟨_, rfl⟩, trivial⟩
  have hheight : mixedTree.height ≤ 8 := by decide
  have hdepth : mixedTree.toJson.depth ≤ Limits.standard.nesting := by decide
  have hdigits : mixedTree.toJson.longest ≤ Limits.standard.digits := by decide
  exact ⟨hmeets, hheight, hdepth, hdigits, (load_stored hmeets hheight).2.2 _ hdepth hdigits⟩

end Document

end ScriptLang
