import Mathlib.Tactic.Common
import ScriptLang.Proofs.Tree.Assembled

/-!
# Documents that are loaded and stored

Loading takes more documents than storing writes: keys may be missing or superfluous, a number may
be whole, nothing or a list may stand where a node belongs, and an empty body has three forms. What
has been loaded is past all that. It is stored in one form, and that form is loaded as the same tree,
so that a document is normalized once and for all when it goes in and out the first time.

The proof goes by the levels that are opened. A part in the place of a node is kept in its stored
form, which is loaded as that part by the induction hypothesis.

## Main Statements

* `Document.height_le_of_load`: what is loaded is hardly deeper than its document.
* `Document.reloads_of_load`: what was loaded is loaded from its own document.
* `Document.load_normalizes`: a loaded tree can be stored, and its document is loaded as that tree.
-/

namespace ScriptLang.Document

variable {n : Nat} {json : Json} {document part : Document}

/-! ### Heights -/

theorem height_asExpr_le {k : Nat} (hk : 1 ≤ k) (h : part.height ≤ k) : part.asExpr.height ≤ k := by
  cases part with
  | expr node => exact h
  | _ => simpa [asExpr, Expr.height] using hk

theorem height_asStmt_le {k : Nat} (hk : 1 ≤ k) (h : part.height ≤ k) : part.asStmt.height ≤ k := by
  cases part with
  | stmt node => exact h
  | _ => simpa [asStmt, Stmt.height] using hk

theorem heightAll_le {k : Nat} {parts : List Document} (h : ∀ part ∈ parts, part.height ≤ k) :
    heightAll parts ≤ k := by
  induction parts with
  | nil => simp [heightAll]
  | cons part parts ih =>
      rw [List.forall_mem_cons] at h
      exact Nat.max_le.mpr ⟨h.1, ih h.2⟩

theorem heightOfAll_asStmt_le {k : Nat} (hk : 1 ≤ k) {parts : List Document}
    (h : ∀ part ∈ parts, part.height ≤ k) : heightOfAll (parts.map asStmt) ≤ k := by
  induction parts with
  | nil => simp [heightOfAll]
  | cons part parts ih =>
      rw [List.forall_mem_cons] at h
      exact Nat.max_le.mpr ⟨height_asStmt_le hk h.1, ih h.2⟩

/-- A node is one level higher than its parts. -/
theorem Assembled.height_le {k : Nat} (hk : 1 ≤ k)
    (h : Assembled (fun part => part.height ≤ k) document) : document.height ≤ k + 1 := by
  cases h with
  | program h | block h => exact Nat.succ_le_succ (heightOfAll_asStmt_le hk h)
  | exprStmt h | print h | group h | unary h | assign h =>
      exact Nat.succ_le_succ (height_asExpr_le hk h)
  | @declare name initial h =>
      have hinitial := height_asExpr_le hk h
      cases initial <;> simp only [height, asExpr?, Stmt.height] <;> omega
  | @branch condition whenTrue whenFalse hcondition hwhenTrue hwhenFalse =>
      have hcondition := height_asExpr_le hk hcondition
      have hwhenTrue := height_asStmt_le hk hwhenTrue
      have hwhenFalse := height_asStmt_le hk hwhenFalse
      cases whenFalse <;> simp only [height, asStmt?, Stmt.height] <;> omega
  | loop hcondition hbody =>
      exact Nat.succ_le_succ
        (Nat.max_le.mpr ⟨height_asExpr_le hk hcondition, height_asStmt_le hk hbody⟩)
  | binary hleft hright | logical hleft hright =>
      exact Nat.succ_le_succ
        (Nat.max_le.mpr ⟨height_asExpr_le hk hleft, height_asExpr_le hk hright⟩)
  | literal h | ref => simp [height, Expr.height]

/-! ### Levels -/

/-- **What holds of all that one level more can load**, if it holds of nothing at all, of a list if
it holds of the members, and of a node if it holds of the parts. -/
theorem load_induction {motive : Nat → Document → Prop}
    (absent : ∀ n, motive n .absent)
    (list : ∀ n parts, (∀ part ∈ parts, motive n part) → motive (n + 1) (.list parts))
    (node : ∀ n document, Assembled (motive n) document → motive (n + 1) document)
    (h : load n json = .ok document) : motive n document := by
  induction n generalizing json document with
  | zero =>
      cases json <;> cases h
      exact absent 0
  | succ n ih =>
      have hparts (part : Document) : LoadedBy (load n) part → motive n part :=
        fun ⟨_, hpart⟩ => ih hpart
      cases json with
      | null =>
          cases h
          exact absent (n + 1)
      | arr items =>
          obtain ⟨parts, hloaded, h⟩ := bind_eq_ok h
          cases h
          exact list n parts fun part hmem => hparts part (loadedBy_of_loadAll hloaded part hmem)
      | obj fields => exact node n document ((assembled_of_loadNode h).mono hparts)
      | _ => cases h

/-- **What is loaded is hardly deeper than its document.** Only nothing in the place of a node takes
a level that loading did not open. -/
theorem height_le_of_load (h : load n json = .ok document) : document.height ≤ n + 1 :=
  load_induction (motive := fun n document => document.height ≤ n + 1)
    (fun _ => Nat.zero_le _)
    (fun _ _ h => Nat.succ_le_succ (heightAll_le h))
    (fun _ _ h => h.height_le (Nat.le_add_left 1 _)) h

/-- **What was loaded is loaded from its own document**, with as many levels or more. -/
theorem reloads_of_load (h : load n json = .ok document) {m : Nat} (hm : n ≤ m) :
    Reloads m document := by
  refine load_induction (motive := fun n document => ∀ m, n ≤ m → Reloads m document)
    ?absent ?list ?node h m hm
  case absent => exact fun n m _ => load_null m
  case list =>
    intro n parts hparts m hm
    exact reloads_list (Nat.zero_lt_of_lt hm) fun part hmem =>
      hparts part hmem (m - 1) (Nat.le_sub_one_of_lt hm)
  case node =>
    intro n document hparts m hm
    exact Assembled.reloads (Nat.zero_lt_of_lt hm) (hparts.mono fun part hpart =>
      hpart (m - 1) (Nat.le_sub_one_of_lt hm))

/-- **Loading normalizes a document once and for all.** Whatever document a tree was loaded from, it
can be stored, and its document is loaded as the very same tree. -/
theorem load_normalizes (h : load n json = .ok document) :
    ∃ stored, (∀ limit, n < limit → document.store limit = some stored) ∧
      ∀ limit, n ≤ limit → load limit stored = .ok document := by
  refine ⟨document.toJson, ?_, fun limit hlimit => reloads_of_load h hlimit⟩
  intro limit hlimit
  exact if_pos (Nat.le_trans (height_le_of_load h) hlimit)

/-- A document that storing would not write: nothing and lists stand in the places of nodes, a body
is an empty object, the fields of a token are no texts, and keys are missing or mean nothing. -/
def looseJson : Json :=
  .arr [.null, .obj [("note", .bool true), ("type", .str "Program"), ("body", .arr [
    .obj [("type", .str "IfStmt"), ("condition", .arr []), ("then_branch", .null)],
    .obj [("type", .str "Block"), ("statements", .obj [])],
    .arr [.obj [("type", .str "Literal"), ("value", .int 3)]],
    .obj [("type", .str "VarDecl"), ("name", .obj [("kind", .str "PLUS"), ("lexeme", .int 7),
      ("line", .null)])]])]]

/-- What that document describes. -/
def looseTree : Document :=
  let three : Expr := .literal (.num (Float.ofInt 3))
  .list [.absent, .program [
    .branch (.misplaced (.arr [])) (.misplaced .null []) none,
    .block [],
    .misplaced (.arr [three.toJson]) [three],
    .declare { kind := .plus, lexeme := .int 7, line := .null } none]]

theorem load_normalizes_looseJson :
    load 4 looseJson = .ok looseTree ∧ ∃ stored,
      (∀ limit, 4 < limit → looseTree.store limit = some stored) ∧
      ∀ limit, 4 ≤ limit → load limit stored = .ok looseTree := by
  have hload : load 4 looseJson = .ok looseTree := rfl
  exact ⟨hload, load_normalizes hload⟩

end ScriptLang.Document
