import ScriptLang.Tree.Document

/-!
# Nodes and their parts

Loading a node looks its parts up in an object, loads each of them and puts them together; storing it
writes the parts back under the same keys. This module says once what a loaded node can be, and that
it is loaded again from the documents of its parts. What a whole tree does follows by induction on
the levels that are opened.

A part may be anything that a document describes. In the place of an expression or a statement it is
kept in its stored form, so that the document of a node is always made of the documents of its parts.

## Main Definitions

* `Document.Assembled`: the nodes, by kind, with what is asked of their parts.
* `Document.Reloads`: a part is loaded from its own document.

## Main Statements

* `Document.assembled_of_loadNode`: a loaded node is put together from loaded parts.
* `Document.loadNode_of_assembled`: a node is loaded from the documents of its parts.
* `Document.Assembled.reloads`, `Document.reloads_list`: so nodes and lists are loaded from their own
  documents.
-/

namespace ScriptLang

/-- A computation that succeeds goes on from a value. -/
theorem bind_eq_ok {ε α β : Type} {x : Except ε α} {f : α → Except ε β} {b : β}
    (h : x >>= f = .ok b) : ∃ a, x = .ok a ∧ f a = .ok b := by
  cases x with
  | error e => cases h
  | ok a => exact ⟨a, rfl, h⟩

@[simp] theorem ok_bind {ε α β : Type} (a : α) (f : α → Except ε β) :
    (Except.ok a >>= f) = f a := rfl

@[simp] theorem map_ok {ε α β : Type} (f : α → β) (a : α) :
    f <$> (Except.ok a : Except ε α) = .ok (f a) := rfl

/-! ### Fields and tokens -/

@[simp] theorem Json.field?_cons (key k : String) (value : Json) (fields : List (String × Json)) :
    field? key ((k, value) :: fields) = if key = k then some value else field? key fields := by
  by_cases h : key = k
  · simp [field?, h]
  · simp [field?, List.lookup_cons, h, beq_false_of_ne h]

@[simp] theorem required_cons (key k : String) (value : Json) (fields : List (String × Json)) :
    required key ((k, value) :: fields) =
      if key = k then .ok value else required key fields := by
  unfold required
  rw [Json.field?_cons]
  by_cases h : key = k <;> simp [h]

@[simp] theorem TokenKind.ofName?_name (kind : TokenKind) : ofName? kind.name = some kind := by
  cases kind <;> decide

/-- **A token is loaded from its document**, whatever its fields hold. -/
@[simp] theorem Token.load_toJson (t : Token) : Token.load t.toJson = .ok t := by
  simp [Token.load, toJson, loadKind]

namespace Document

/-! ### Parts in their places -/

@[simp] theorem asExpr_expr (e : Expr) : (expr e).asExpr = e := rfl

@[simp] theorem asStmt_stmt (s : Stmt) : (stmt s).asStmt = s := rfl

@[simp] theorem asExpr?_absent : absent.asExpr? = none := rfl

@[simp] theorem asExpr?_expr (e : Expr) : (expr e).asExpr? = some e := rfl

@[simp] theorem asStmt?_absent : absent.asStmt? = none := rfl

@[simp] theorem asStmt?_stmt (s : Stmt) : (stmt s).asStmt? = some s := rfl

@[simp] theorem asStmt_comp_stmt : asStmt ∘ stmt = id := rfl

/-- In the place of an expression a part keeps its document. -/
@[simp] theorem toJson_asExpr (part : Document) : part.asExpr.toJson = part.toJson := by
  cases part <;> simp [asExpr, Expr.toJson, toJson]

/-- In the place of a statement a part keeps its document. -/
@[simp] theorem toJson_asStmt (part : Document) : part.asStmt.toJson = part.toJson := by
  cases part <;> simp [asStmt, Stmt.toJson, toJson]

theorem jsonOfAll_asStmt (parts : List Document) :
    jsonOfAll (parts.map asStmt) = toJsonAll parts := by
  induction parts with
  | nil => simp [jsonOfAll, toJsonAll]
  | cons part parts ih => rw [List.map_cons, jsonOfAll, ih, toJson_asStmt, toJsonAll]

theorem toJson_declare (name : Token) (initial : Document) :
    (Stmt.declare name initial.asExpr?).toJson =
      nodeJson "VarDecl" [("name", name.toJson), ("initializer", initial.toJson)] := by
  cases initial <;> simp [asExpr?, Stmt.toJson, toJson]

theorem toJson_branch (condition : Expr) (whenTrue : Stmt) (whenFalse : Document) :
    (Stmt.branch condition whenTrue whenFalse.asStmt?).toJson =
      nodeJson "IfStmt" [("condition", condition.toJson), ("then_branch", whenTrue.toJson),
        ("else_branch", whenFalse.toJson)] := by
  cases whenFalse <;> simp [asStmt?, Stmt.toJson, toJson]

/-! ### Nodes -/

@[simp] theorem load_null (n : Nat) : load n .null = .ok absent := by
  cases n <;> rfl

/-- A node of some kind whose parts have the property `p`. The value of a literal is one that loading
leaves as it is. -/
inductive Assembled (p : Document → Prop) : Document → Prop where
  | program {parts : List Document} (h : ∀ part ∈ parts, p part) :
      Assembled p (.program (parts.map asStmt))
  | exprStmt {value : Document} (h : p value) : Assembled p (.stmt (.expr value.asExpr))
  | print {value : Document} (h : p value) : Assembled p (.stmt (.print value.asExpr))
  | declare {name : Token} {initial : Document} (h : p initial) :
      Assembled p (.stmt (.declare name initial.asExpr?))
  | block {parts : List Document} (h : ∀ part ∈ parts, p part) :
      Assembled p (.stmt (.block (parts.map asStmt)))
  | branch {condition whenTrue whenFalse : Document} (hcondition : p condition)
      (hwhenTrue : p whenTrue) (hwhenFalse : p whenFalse) :
      Assembled p (.stmt (.branch condition.asExpr whenTrue.asStmt whenFalse.asStmt?))
  | loop {condition body : Document} (hcondition : p condition) (hbody : p body) :
      Assembled p (.stmt (.loop condition.asExpr body.asStmt))
  | literal {value : Json} (h : literalValue value = .ok value) :
      Assembled p (.expr (.literal value))
  | group {inner : Document} (h : p inner) : Assembled p (.expr (.group inner.asExpr))
  | unary {op : Token} {operand : Document} (h : p operand) :
      Assembled p (.expr (.unary op operand.asExpr))
  | binary {left right : Document} {op : Token} (hleft : p left) (hright : p right) :
      Assembled p (.expr (.binary left.asExpr op right.asExpr))
  | logical {left right : Document} {op : Token} (hleft : p left) (hright : p right) :
      Assembled p (.expr (.logical left.asExpr op right.asExpr))
  | ref {name : Token} : Assembled p (.expr (.ref name))
  | assign {name : Token} {value : Document} (h : p value) :
      Assembled p (.expr (.assign name value.asExpr))

variable {p q : Document → Prop} {load : Json → Except LoadError Document} {document : Document}

theorem Assembled.mono (h : Assembled p document) (hpq : ∀ part, p part → q part) :
    Assembled q document := by
  cases h with
  | program h => exact .program fun part hmem => hpq part (h part hmem)
  | block h => exact .block fun part hmem => hpq part (h part hmem)
  | exprStmt h => exact .exprStmt (hpq _ h)
  | print h => exact .print (hpq _ h)
  | declare h => exact .declare (hpq _ h)
  | branch h h' h'' => exact .branch (hpq _ h) (hpq _ h') (hpq _ h'')
  | loop h h' => exact .loop (hpq _ h) (hpq _ h')
  | literal h => exact .literal h
  | group h => exact .group (hpq _ h)
  | unary h => exact .unary (hpq _ h)
  | binary h h' => exact .binary (hpq _ h) (hpq _ h')
  | logical h h' => exact .logical (hpq _ h) (hpq _ h')
  | ref => exact .ref
  | assign h => exact .assign (hpq _ h)

/-! ### What loading gives -/

/-- The part is loaded from some document. -/
def LoadedBy (load : Json → Except LoadError Document) (part : Document) : Prop :=
  ∃ json, load json = .ok part

theorem loadedBy_of_loadAll {jsons : List Json} {parts : List Document}
    (h : loadAll load jsons = .ok parts) : ∀ part ∈ parts, LoadedBy load part := by
  induction jsons generalizing parts with
  | nil =>
      cases h
      simp
  | cons json jsons ih =>
      obtain ⟨first, hfirst, h⟩ := bind_eq_ok h
      obtain ⟨others, hothers, h⟩ := bind_eq_ok h
      cases h
      rw [List.forall_mem_cons]
      exact ⟨⟨json, hfirst⟩, ih hothers⟩

theorem loadedBy_of_loadBody {json : Json} {body : List Stmt} (h : loadBody load json = .ok body) :
    ∃ parts : List Document, body = parts.map asStmt ∧ ∀ part ∈ parts, LoadedBy load part := by
  cases json with
  | arr items =>
      obtain ⟨parts, hparts, h⟩ := bind_eq_ok h
      cases h
      exact ⟨parts, rfl, loadedBy_of_loadAll hparts⟩
  | obj fields =>
      cases fields with
      | nil =>
          cases h
          exact ⟨[], rfl, by simp⟩
      | cons field fields => cases h
  | str text =>
      simp only [loadBody] at h
      split at h
      · cases h
        exact ⟨[], rfl, by simp⟩
      · cases h
  | _ => cases h

/-- A value that was made a literal is left as it is when it is made one again. -/
theorem literalValue_literalValue {json value : Json} (h : literalValue json = .ok value) :
    literalValue value = .ok value := by
  unfold literalValue at h
  split at h
  · simp only at h
    split at h
    · cases h
    · cases h
      rfl
  · next hint =>
    cases h
    unfold literalValue
    split
    · next n => exact absurd rfl (hint n)
    · rfl

theorem loadedBy_of_required {key : String} {fields : List (String × Json)} {part : Document}
    (h : (do load (← required key fields)) = .ok part) : LoadedBy load part := by
  obtain ⟨json, -, h⟩ := bind_eq_ok h
  exact ⟨json, h⟩

/-- **A loaded node is put together from loaded parts.** -/
theorem assembled_of_loadNode {fields : List (String × Json)}
    (h : loadNode load fields = .ok document) : Assembled (LoadedBy load) document := by
  unfold loadNode at h
  dsimp only at h
  split at h
  -- by the kind that the field `type` names, in the order of `loadNode`
  case h_1 =>
    obtain ⟨json, -, h⟩ := bind_eq_ok h
    obtain ⟨body, hbody, h⟩ := bind_eq_ok h
    obtain ⟨parts, rfl, hparts⟩ := loadedBy_of_loadBody hbody
    cases h
    exact .program hparts
  case h_2 =>
    obtain ⟨value, hvalue, h⟩ := bind_eq_ok h
    cases h
    exact .exprStmt (loadedBy_of_required hvalue)
  case h_3 =>
    obtain ⟨value, hvalue, h⟩ := bind_eq_ok h
    cases h
    exact .print (loadedBy_of_required hvalue)
  case h_4 =>
    obtain ⟨name, -, h⟩ := bind_eq_ok h
    obtain ⟨initial, hinitial, h⟩ := bind_eq_ok h
    cases h
    exact .declare ⟨_, hinitial⟩
  case h_5 =>
    obtain ⟨json, -, h⟩ := bind_eq_ok h
    obtain ⟨body, hbody, h⟩ := bind_eq_ok h
    obtain ⟨parts, rfl, hparts⟩ := loadedBy_of_loadBody hbody
    cases h
    exact .block hparts
  case h_6 =>
    obtain ⟨condition, hcondition, h⟩ := bind_eq_ok h
    obtain ⟨whenTrue, hwhenTrue, h⟩ := bind_eq_ok h
    obtain ⟨whenFalse, hwhenFalse, h⟩ := bind_eq_ok h
    cases h
    exact .branch (loadedBy_of_required hcondition) (loadedBy_of_required hwhenTrue)
      ⟨_, hwhenFalse⟩
  case h_7 =>
    obtain ⟨condition, hcondition, h⟩ := bind_eq_ok h
    obtain ⟨body, hbody, h⟩ := bind_eq_ok h
    cases h
    exact .loop (loadedBy_of_required hcondition) (loadedBy_of_required hbody)
  case h_8 =>
    obtain ⟨json, -, h⟩ := bind_eq_ok h
    obtain ⟨value, hvalue, h⟩ := bind_eq_ok h
    cases h
    exact .literal (literalValue_literalValue hvalue)
  case h_9 =>
    obtain ⟨inner, hinner, h⟩ := bind_eq_ok h
    cases h
    exact .group (loadedBy_of_required hinner)
  case h_10 =>
    obtain ⟨op, -, h⟩ := bind_eq_ok h
    obtain ⟨operand, hoperand, h⟩ := bind_eq_ok h
    cases h
    exact .unary (loadedBy_of_required hoperand)
  case h_11 =>
    obtain ⟨left, hleft, h⟩ := bind_eq_ok h
    obtain ⟨op, -, h⟩ := bind_eq_ok h
    obtain ⟨right, hright, h⟩ := bind_eq_ok h
    cases h
    exact .binary (loadedBy_of_required hleft) (loadedBy_of_required hright)
  case h_12 =>
    obtain ⟨left, hleft, h⟩ := bind_eq_ok h
    obtain ⟨op, -, h⟩ := bind_eq_ok h
    obtain ⟨right, hright, h⟩ := bind_eq_ok h
    cases h
    exact .logical (loadedBy_of_required hleft) (loadedBy_of_required hright)
  case h_13 =>
    obtain ⟨name, -, h⟩ := bind_eq_ok h
    cases h
    exact .ref
  case h_14 =>
    obtain ⟨name, -, h⟩ := bind_eq_ok h
    obtain ⟨value, hvalue, h⟩ := bind_eq_ok h
    cases h
    exact .assign (loadedBy_of_required hvalue)
  case h_15 => cases h

/-! ### Loading what was stored -/

theorem loadAll_toJsonAll_of {parts : List Document}
    (h : ∀ part ∈ parts, load part.toJson = .ok part) :
    loadAll load (toJsonAll parts) = .ok parts := by
  induction parts with
  | nil => simp [toJsonAll, loadAll]
  | cons part parts ih =>
      rw [List.forall_mem_cons] at h
      simp [toJsonAll, loadAll, h.1, ih h.2]

/-- **A node is loaded from the documents of its parts.** -/
theorem loadNode_of_assembled (h : Assembled (fun part => load part.toJson = .ok part) document) :
    ∃ fields, document.toJson = .obj fields ∧ loadNode load fields = .ok document := by
  cases h with
  | program h =>
      refine ⟨_, by rw [toJson, jsonOfAll_asStmt]; rfl, ?_⟩
      simp [loadNode, loadBody, loadAll_toJsonAll_of h]
  | block h =>
      refine ⟨_, by rw [toJson, Stmt.toJson, jsonOfAll_asStmt]; rfl, ?_⟩
      simp [loadNode, loadBody, loadAll_toJsonAll_of h]
  | exprStmt h =>
      refine ⟨_, by rw [toJson, Stmt.toJson, toJson_asExpr]; rfl, ?_⟩
      simp [loadNode, h]
  | print h =>
      refine ⟨_, by rw [toJson, Stmt.toJson, toJson_asExpr]; rfl, ?_⟩
      simp [loadNode, h]
  | declare h =>
      refine ⟨_, by rw [toJson, toJson_declare]; rfl, ?_⟩
      simp [loadNode, h]
  | branch hcondition hwhenTrue hwhenFalse =>
      refine ⟨_, by rw [toJson, toJson_branch, toJson_asExpr, toJson_asStmt]; rfl, ?_⟩
      simp [loadNode, hcondition, hwhenTrue, hwhenFalse]
  | loop hcondition hbody =>
      refine ⟨_, by rw [toJson, Stmt.toJson, toJson_asExpr, toJson_asStmt]; rfl, ?_⟩
      simp [loadNode, hcondition, hbody]
  | literal h =>
      refine ⟨_, rfl, ?_⟩
      simp [loadNode, h]
  | group h =>
      refine ⟨_, by rw [toJson, Expr.toJson, toJson_asExpr]; rfl, ?_⟩
      simp [loadNode, h]
  | unary h =>
      refine ⟨_, by rw [toJson, Expr.toJson, toJson_asExpr]; rfl, ?_⟩
      simp [loadNode, h]
  | binary hleft hright =>
      refine ⟨_, by rw [toJson, Expr.toJson, toJson_asExpr, toJson_asExpr]; rfl, ?_⟩
      simp [loadNode, hleft, hright]
  | logical hleft hright =>
      refine ⟨_, by rw [toJson, Expr.toJson, toJson_asExpr, toJson_asExpr]; rfl, ?_⟩
      simp [loadNode, hleft, hright]
  | ref =>
      refine ⟨_, rfl, ?_⟩
      simp [loadNode]
  | assign h =>
      refine ⟨_, by rw [toJson, Expr.toJson, toJson_asExpr]; rfl, ?_⟩
      simp [loadNode, h]

/-- The part is loaded from its own document, if that many levels may be opened. -/
def Reloads (n : Nat) (part : Document) : Prop :=
  Document.load n part.toJson = .ok part

/-- A node is loaded from its own document, with one level less for its parts. -/
theorem Assembled.reloads {n : Nat} (hn : 0 < n) (h : Assembled (Reloads (n - 1)) document) :
    Reloads n document := by
  obtain ⟨n, rfl⟩ := Nat.exists_eq_succ_of_ne_zero (Nat.ne_of_gt hn)
  obtain ⟨fields, hfields, hload⟩ := loadNode_of_assembled h
  rw [Reloads, hfields]
  exact hload

/-- A list is loaded from its own document, with one level less for its members. -/
theorem reloads_list {n : Nat} (hn : 0 < n) {parts : List Document}
    (h : ∀ part ∈ parts, Reloads (n - 1) part) : Reloads n (list parts) := by
  obtain ⟨n, rfl⟩ := Nat.exists_eq_succ_of_ne_zero (Nat.ne_of_gt hn)
  have hparts : loadAll (Document.load n) (toJsonAll parts) = .ok parts :=
    loadAll_toJsonAll_of h
  rw [Reloads, toJson, Document.load, hparts]
  rfl

end Document

end ScriptLang
