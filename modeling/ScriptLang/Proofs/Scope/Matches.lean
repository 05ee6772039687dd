import ScriptLang.Proofs.Scope.Enclosing

/-!
# States that match the text

The open scopes of a run stand one for one for the lists of statements around the place where the
run is, and each has exactly the names that its list has declared so far. The steps on the state
keep to this, and while it holds the text says which scope a look-up finds.

## Main Definitions

* `Matches`: the open scopes are those of the lists, with their names.

## Main Statements

* `Matches.openScope`, `Matches.closeScope`: around a list.
* `Matches.define`: past a declaration.
* `Matches.assign`: assigning makes no name.
* `Matches.holder?_eq`: the scope that a look-up finds.

## Design Notes

A scope is dropped when it is closed, so the scopes that exist are the open ones. They are numbered
from the outside in, and the scope around each is the one numbered before it.
-/

namespace ScriptLang

/-! ### Names in a forest -/

/-- What a name is bound to depends on its key. -/
theorem Bindings.get?_of_key {name n : Name} (h : name.key = n.key) (bindings : Bindings) :
    get? name bindings = get? n bindings := by
  induction bindings with
  | nil => rfl
  | cons entry bindings ih => rw [get?_cons, get?_cons, h, ih]

namespace Forest

theorem own?_of_key {name n : Name} (h : name.key = n.key) (f : Forest) (i : Nat) :
    f.own? i name = f.own? i n :=
  Bindings.get?_of_key h (f.bindings i)

theorem parent?_add (f : Forest) (parent : Option Nat) (i : Nat) :
    (f.add parent).parent? i = if i = f.size then parent else f.parent? i := by
  by_cases h : i = f.scopes.size <;> simp [parent?, add, Array.getElem?_push, size, h]

/-- A new scope has no names, as little as one that does not exist. -/
@[simp] theorem own?_add (f : Forest) (parent : Option Nat) (i : Nat) (name : Name) :
    (f.add parent).own? i name = f.own? i name := by
  by_cases h : i = f.scopes.size
  · subst h
    simp [own?, bindings, add]
  · simp [own?, bindings, add, Array.getElem?_push, h]

theorem getElem?_dropNewest {f : Forest} {i : Nat} (h : i + 1 < f.size) :
    f.dropNewest.scopes[i]? = f.scopes[i]? := by
  have hi : i < f.scopes.size - 1 := Nat.lt_sub_of_add_lt h
  simp [dropNewest, hi]

theorem parent?_dropNewest {f : Forest} {i : Nat} (h : i + 1 < f.size) :
    f.dropNewest.parent? i = f.parent? i := by
  rw [parent?, getElem?_dropNewest h, parent?]

theorem own?_dropNewest {f : Forest} {i : Nat} (h : i + 1 < f.size) (name : Name) :
    f.dropNewest.own? i name = f.own? i name := by
  rw [own?, bindings, getElem?_dropNewest h, own?, bindings]

@[simp] theorem size_dropNewest (f : Forest) : f.dropNewest.size = f.size - 1 :=
  Array.size_pop

/-- Binding a name anew that a scope has gives no scope a name that it did not have. -/
theorem isSome_own?_define {f : Forest} {i : Nat} {name : Name} (value : Value)
    (h : (f.own? i name).isSome) (j : Nat) (n : Name) :
    ((f.define i name value).own? j n).isSome = (f.own? j n).isSome := by
  rw [own?_define]
  split
  · rename_i hj
    obtain ⟨rfl, -, hkey⟩ := hj
    rw [own?_of_key hkey, h]
    rfl
  · rfl

/-- Scopes numbered from the outside in. -/
theorem chain_eq_range {f : Forest} {i : Nat} (hzero : f.parent? 0 = none)
    (hsucc : ∀ j, j < i → f.parent? (j + 1) = some j) :
    f.chain i = (List.range (i + 1)).reverse := by
  induction i with
  | zero =>
      rw [chain, hzero]
      rfl
  | succ i ih =>
      have hchain := ih fun j hj => hsucc j (Nat.lt_succ_of_lt hj)
      rw [chain, hsucc i (Nat.lt_succ_self i), List.range_succ]
      simp [hchain]

end Forest

/-! ### Matching -/

/-- The open scopes are those of the lists of statements, innermost first, and each has the names
that its list declares. -/
structure Matches (lists : List (List Stmt)) (s : State) : Prop where
  stack_eq : s.stack = (List.range lists.length).reverse
  size_eq : s.forest.size = lists.length
  parent_zero : s.forest.parent? 0 = none
  parent_succ : ∀ i, i + 1 < lists.length → s.forest.parent? (i + 1) = some i
  names_eq : ∀ name : Name, s.stack.map (fun i => (s.forest.own? i name).isSome) =
    lists.map fun list => list.any (Stmt.declares name.key)

namespace Matches

variable {lists outer : List (List Stmt)} {before : List Stmt} {s t : State}

theorem length_stack (h : Matches lists s) : s.stack.length = lists.length := by
  rw [h.stack_eq, List.length_reverse, List.length_range]

/-- The state before the first run, in front of the first statement. -/
theorem initial : Matches [[]] State.initial where
  stack_eq := rfl
  size_eq := rfl
  parent_zero := rfl
  parent_succ i hi := absurd hi (by simp)
  names_eq _ := rfl

/-- The innermost scope is the newest one. -/
theorem stack_cons (h : Matches (before :: outer) s) :
    s.stack = outer.length :: (List.range outer.length).reverse := by
  rw [h.stack_eq, List.length_cons, List.range_succ, List.reverse_concat]

theorem current_eq (h : Matches (before :: outer) s) : s.current = outer.length := by
  rw [State.current, h.stack_cons, List.headD_cons]

/-- The names of the innermost scope, and those of the scopes around it. -/
theorem names_cons (h : Matches (before :: outer) s) (name : Name) :
    (s.forest.own? outer.length name).isSome = before.any (Stmt.declares name.key) ∧
      (List.range outer.length).reverse.map (fun i => (s.forest.own? i name).isSome) =
        outer.map fun list => list.any (Stmt.declares name.key) := by
  have hnames := h.names_eq name
  rw [h.stack_cons, List.map_cons, List.map_cons] at hnames
  exact List.cons.inj hnames

/-- Only scopes and their names matter, not what the names are bound to. -/
theorem of_forest (h : Matches lists s) (hstack : t.stack = s.stack)
    (hsize : t.forest.size = s.forest.size)
    (hparent : ∀ i, t.forest.parent? i = s.forest.parent? i)
    (hown : ∀ i name, (t.forest.own? i name).isSome = (s.forest.own? i name).isSome) :
    Matches lists t where
  stack_eq := hstack.trans h.stack_eq
  size_eq := hsize.trans h.size_eq
  parent_zero := (hparent 0).trans h.parent_zero
  parent_succ i hi := (hparent (i + 1)).trans (h.parent_succ i hi)
  names_eq name := by
    simp only [hstack, hown]
    exact h.names_eq name

theorem print (h : Matches lists s) (text : String) : Matches lists (s.print text) :=
  h.of_forest rfl rfl (fun _ => rfl) fun _ _ => rfl

theorem trace (h : Matches lists s) (config : Config) (event : Event) :
    Matches lists (s.trace config event) :=
  h.of_forest (by simp) (by simp) (by simp) (by simp)

/-! ### Past a statement -/

/-- Lists that declare the same names are matched alike. -/
theorem of_names {others : List (List Stmt)} (h : Matches lists s)
    (hnames : ∀ key, others.map (fun list => list.any (Stmt.declares key)) =
      lists.map fun list => list.any (Stmt.declares key)) :
    Matches others s := by
  have hlength : others.length = lists.length := by
    simpa using congrArg List.length (hnames .nothing)
  refine ⟨?_, ?_, h.parent_zero, ?_, ?_⟩
  · rw [hlength, h.stack_eq]
  · rw [hlength, h.size_eq]
  · intro i hi
    exact h.parent_succ i (hlength ▸ hi)
  · intro name
    rw [h.names_eq, hnames]

/-- A statement that is no declaration makes no name. -/
theorem append_iff {stmt : Stmt} (hstmt : stmt.isDeclare = false) :
    Matches ((before ++ [stmt]) :: outer) s ↔ Matches (before :: outer) s := by
  have hnames : ∀ key,
      ((before ++ [stmt]) :: outer).map (fun list => list.any (Stmt.declares key)) =
        (before :: outer).map fun list => list.any (Stmt.declares key) := by
    intro key
    simp [Stmt.declares_eq_false hstmt]
  exact ⟨fun h => h.of_names fun key => (hnames key).symm, fun h => h.of_names hnames⟩

/-- Past a declaration, the innermost scope has the name that it declares. -/
theorem define (h : Matches (before :: outer) s) {name : Token} {value : Value}
    (initial : Option Expr) (hdone : s.define name value = .done () t) :
    Matches ((before ++ [.declare name initial]) :: outer) t := by
  unfold State.define at hdone
  split at hdone
  · cases hdone
  · rename_i key hkey
    cases hdone
    have hsize : outer.length < s.forest.size := by
      rw [h.size_eq]
      exact Nat.lt_succ_self _
    refine ⟨h.stack_eq, by simpa using h.size_eq, by simpa using h.parent_zero, ?_, ?_⟩
    · intro i hi
      simpa using h.parent_succ i hi
    · intro n
      obtain ⟨hinner, houter⟩ := h.names_cons n
      show s.stack.map _ = _
      rw [h.stack_cons, h.current_eq, List.map_cons, List.map_cons, ← houter, List.any_append,
        ← hinner, List.any_cons, Stmt.declares_declare hkey, List.any_nil]
      -- Only the innermost scope changes; the others have smaller numbers.
      congr 1
      · by_cases hn : n.key = key.key <;> simp [Forest.own?_define, hsize, hn]
      · apply List.map_congr_left
        intro i hi
        have hne : i ≠ outer.length := by
          simp only [List.mem_reverse, List.mem_range] at hi
          omega
        simp [Forest.own?_define, hne]

/-! ### Around a list -/

/-- Inside a list, in front of its first statement. -/
theorem openScope (h : Matches (before :: outer) s) (config : Config) :
    Matches ([] :: before :: outer) (s.openScope config) := by
  have hlength : (before :: outer).length = outer.length + 1 := rfl
  refine ⟨?_, ?_, ?_, ?_, ?_⟩
  · rw [State.stack_openScope, h.size_eq, h.stack_eq, ← List.reverse_concat, ← List.range_succ]
    rfl
  · rw [State.forest_openScope, Forest.size_add, h.size_eq]
    rfl
  · rw [State.forest_openScope, Forest.parent?_add, h.size_eq, hlength]
    simpa using h.parent_zero
  · intro i hi
    -- The new scope has the largest number, and the innermost one so far the number before it.
    rw [State.forest_openScope, Forest.parent?_add, h.size_eq, h.current_eq, hlength]
    split
    · rename_i heq
      rw [Nat.succ.inj heq]
    · rename_i hne
      refine h.parent_succ i ?_
      simp only [List.length_cons] at hi ⊢
      omega
  · intro name
    have hnone : s.forest.own? s.forest.size name = none := by
      simp [Forest.own?, Forest.bindings, Forest.size]
    simp only [State.stack_openScope, State.forest_openScope, Forest.own?_add, List.map_cons, hnone]
    rw [h.names_eq name]
    rfl

/-- Behind a list, its names are gone. -/
theorem closeScope {inner : List Stmt} (h : Matches (inner :: before :: outer) s)
    (config : Config) : Matches (before :: outer) (s.closeScope config) := by
  have hsize : s.forest.size = outer.length + 2 := h.size_eq
  refine ⟨?_, ?_, ?_, ?_, ?_⟩
  · rw [State.stack_closeScope, h.stack_cons, List.tail_cons]
  · rw [State.forest_closeScope, Forest.size_dropNewest, hsize]
    rfl
  · rw [State.forest_closeScope, Forest.parent?_dropNewest (by omega), h.parent_zero]
  · intro i hi
    rw [List.length_cons] at hi
    rw [State.forest_closeScope, Forest.parent?_dropNewest (by omega)]
    exact h.parent_succ i (by simp only [List.length_cons]; omega)
  · intro name
    rw [State.stack_closeScope, State.forest_closeScope, h.stack_cons, List.tail_cons,
      ← (h.names_cons name).2]
    apply List.map_congr_left
    intro i hi
    have hi : i < outer.length + 1 := List.mem_range.1 (List.mem_reverse.1 hi)
    rw [Forest.own?_dropNewest (by omega)]

/-! ### Look-ups -/

theorem read (h : Matches lists s) {name : Token} {value : Value}
    (hdone : s.read name = .done value t) : Matches lists t := by
  unfold State.read at hdone
  split at hdone
  · cases hdone
  · split at hdone <;> cases hdone
    exact h

/-- Assigning makes no name. -/
theorem assign (h : Matches lists s) {name : Token} {value : Value}
    (hdone : s.assign name value = .done () t) : Matches lists t := by
  unfold State.assign at hdone
  split at hdone
  · cases hdone
  · rename_i key _
    split at hdone
    · rename_i forest hforest
      cases hdone
      obtain ⟨holder, hholder, hdefine⟩ := Option.bind_eq_some_iff.1 hforest
      cases hdefine
      have hhas : (s.forest.own? holder key).isSome := by
        simpa using List.find?_some hholder
      exact h.of_forest rfl (by simp) (by simp) (Forest.isSome_own?_define value hhas)
    · cases hdone

/-- The scopes seen from the innermost one are the open ones. -/
theorem chain_eq (h : Matches (before :: outer) s) : s.forest.chain s.current = s.stack := by
  rw [h.current_eq, h.stack_eq]
  refine Forest.chain_eq_range h.parent_zero ?_
  intro i hi
  exact h.parent_succ i (Nat.succ_lt_succ hi)

/-- **A look-up finds the scope of the innermost list that has declared the name.** -/
theorem holder?_eq (h : Matches lists s) (name : Name) :
    s.forest.holder? s.current name =
      (lists.findIdx? fun list => list.any (Stmt.declares name.key)).bind (s.stack[·]?) := by
  cases lists with
  | nil =>
      have hnone : ∀ i, s.forest.own? i name = none := by
        intro i
        have hsize : s.forest.scopes.size = 0 := h.size_eq
        have hi : s.forest.scopes[i]? = none := Array.getElem?_eq_none (hsize ▸ Nat.zero_le i)
        simp [Forest.own?, Forest.bindings, hi]
      simp [Forest.holder?, hnone]
  | cons before outer =>
      have hidx : s.stack.findIdx? (fun i => (s.forest.own? i name).isSome) =
          (before :: outer).findIdx? fun list => list.any (Stmt.declares name.key) := by
        have hmap := congrArg (List.findIdx? id) (h.names_eq name)
        rwa [List.findIdx?_map, List.findIdx?_map] at hmap
      rw [Forest.holder?, h.chain_eq, List.find?_eq_bind_findIdx?_getElem?, hidx]

end Matches

end ScriptLang
