import ScriptLang.Proofs.Scope.Matches
import ScriptLang.Proofs.Scope.Unbound

/-!
# Shared scopes

Many scopes may stand in one, and so a binding is seen from many places. Whoever holds a scope makes
new ones in it, binds names in it, and reads names and assigns to them from it, in any order. What
one write changes is a single binding, and the places that see the change are those whose nearest
scope with the name is the one written to.

## Main Definitions

* `Forest.Encloses`: a scope is on the way outward from another one.
* `Forest.Nearest`: a scope is the first on this way that has a name.
* `Forest.Built`: the forests that come from such operations.
* `Forest.Writes`: two forests differ in one binding of one scope.

## Main Statements

* `Forest.holder?_eq_some_iff`, `Forest.holder?_eq_none_iff`: what a look-up along the chain finds.
* `Forest.get?_of_writes`: from where a write is seen.
* `scopes_change_where_they_should`: the operations on a forest that is built.

## Design Notes

The way outward follows the scope around each scope and nothing else. A look-up goes down the
numbers of the scopes and so takes the whole way only if each scope has a larger number than the one
around it. A forest that is built is like that.
-/

namespace ScriptLang

/-- Binding a name anew keeps the names of a scope, in their order and as they are written. -/
theorem Bindings.map_fst_put {name : Name} {bindings : Bindings}
    (h : (bindings.get? name).isSome) (value : Value) :
    (bindings.put name value).map Prod.fst = bindings.map Prod.fst := by
  induction bindings with
  | nil => cases h
  | cons entry bindings ih =>
      obtain ⟨m, v⟩ := entry
      rw [get?_cons] at h
      rw [put]
      split
      · rfl
      · next hne =>
        rw [if_neg hne] at h
        rw [List.map_cons, List.map_cons, ih h]

namespace Forest

/-! ### The way outward -/

/-- The scope `j` is the scope `i` itself or on the way outward from it. -/
inductive Encloses (f : Forest) : Nat → Nat → Prop where
  | self (i : Nat) : Encloses f i i
  | outward {i p j : Nat} (hparent : f.parent? i = some p) (h : Encloses f p j) : Encloses f i j

/-- The scope `j` is the first one that has the name on the way outward from `i`. -/
inductive Nearest (f : Forest) (name : Name) : Nat → Nat → Prop where
  | here {i : Nat} (h : (f.own? i name).isSome) : Nearest f name i i
  | outward {i p j : Nat} (hnone : f.own? i name = none) (hparent : f.parent? i = some p)
      (h : Nearest f name p j) : Nearest f name i j

/-- Each scope has been made after the one around it. -/
def Inward (f : Forest) : Prop := ∀ i p, f.parent? i = some p → p < i

section Lookup

variable {f g : Forest} {i j p : Nat} {name n : Name}

theorem chain_outward (hf : f.Inward) (hparent : f.parent? i = some p) :
    f.chain i = i :: f.chain p := by
  rw [chain, hparent]
  exact if_pos (hf i p hparent)

theorem chain_outermost (hparent : f.parent? i = none) : f.chain i = [i] := by
  rw [chain, hparent]

/-- The chain holds the whole way outward. -/
theorem mem_chain_iff (hf : f.Inward) : j ∈ f.chain i ↔ f.Encloses i j := by
  induction i using Nat.strongRecOn with
  | ind i ih =>
    cases hparent : f.parent? i with
    | none =>
        rw [chain_outermost hparent, List.mem_singleton]
        constructor
        · rintro rfl
          exact .self j
        · intro h
          cases h with
          | self => rfl
          | outward hp _ => exact nomatch hparent.symm.trans hp
    | some p =>
        rw [chain_outward hf hparent, List.mem_cons, ih p (hf i p hparent)]
        constructor
        · rintro (rfl | h)
          · exact .self j
          · exact .outward hparent h
        · intro h
          cases h with
          | self => exact Or.inl rfl
          | outward hp h =>
              obtain rfl := Option.some.inj (hparent.symm.trans hp)
              exact Or.inr h

theorem holder?_self (hown : (f.own? i name).isSome) : f.holder? i name = some i := by
  rw [holder?, chain]
  split <;> try split
  all_goals simp [hown]

theorem holder?_outermost (hown : f.own? i name = none) (hparent : f.parent? i = none) :
    f.holder? i name = none := by
  simp [holder?, chain_outermost hparent, hown]

theorem holder?_outward (hf : f.Inward) (hown : f.own? i name = none)
    (hparent : f.parent? i = some p) : f.holder? i name = f.holder? p name := by
  simp [holder?, chain_outward hf hparent, hown]

/-- **A look-up finds the nearest scope that has the name.** -/
theorem holder?_eq_some_iff (hf : f.Inward) :
    f.holder? i name = some j ↔ f.Nearest name i j := by
  constructor
  · intro h
    induction i using Nat.strongRecOn with
    | ind i ih =>
      cases hown : f.own? i name with
      | some v =>
          have hsome : (f.own? i name).isSome := by rw [hown]; rfl
          obtain rfl := Option.some.inj ((holder?_self hsome).symm.trans h)
          exact .here hsome
      | none =>
          cases hparent : f.parent? i with
          | none => exact nomatch (holder?_outermost hown hparent).symm.trans h
          | some p =>
              rw [holder?_outward hf hown hparent] at h
              exact .outward hown hparent (ih p (hf i p hparent) h)
  · intro h
    induction h with
    | here hown => exact holder?_self hown
    | outward hown hparent _ ih => exact (holder?_outward hf hown hparent).trans ih

/-- **A look-up finds nothing** if and only if no scope on the way outward has the name. -/
theorem holder?_eq_none_iff (hf : f.Inward) :
    f.holder? i name = none ↔ ∀ j, f.Encloses i j → f.own? j name = none := by
  simp only [holder?, List.find?_eq_none, mem_chain_iff hf, Bool.not_eq_true,
    Option.isSome_eq_false_iff, Option.isNone_iff_eq_none]

theorem Nearest.isSome (h : f.Nearest name i j) : (f.own? j name).isSome := by
  induction h with
  | here h => exact h
  | outward _ _ _ ih => exact ih

/-- What a look-up finds depends on which scopes have the name. -/
theorem Nearest.congr (h : f.Nearest name i j) (hparent : ∀ k, g.parent? k = f.parent? k)
    (hown : ∀ k, (g.own? k n).isSome = (f.own? k name).isSome) : g.Nearest n i j := by
  induction h with
  | here h => exact .here ((hown _).trans h)
  | @outward i p j hnone hp _ ih =>
      refine .outward ?_ ((hparent i).trans hp) ih
      have := hown i
      rw [hnone] at this
      simpa using this

theorem Nearest.unique {j' : Nat} (hf : f.Inward) (h : f.Nearest name i j)
    (h' : f.Nearest name i j') : j' = j :=
  Option.some.inj (((holder?_eq_some_iff hf).2 h').symm.trans ((holder?_eq_some_iff hf).2 h))

theorem get?_of_nearest (hf : f.Inward) (h : f.Nearest name i j) :
    f.get? i name = f.own? j name := by
  rw [get?, (holder?_eq_some_iff hf).2 h]
  rfl

theorem get?_outward (hf : f.Inward) (hown : f.own? i name = none)
    (hparent : f.parent? i = some p) : f.get? i name = f.get? p name := by
  rw [get?, holder?_outward hf hown hparent, get?]

/-- **Reading finds nothing** if and only if no scope on the way outward has the name. -/
theorem get?_eq_none_iff (hf : f.Inward) :
    f.get? i name = none ↔ ∀ j, f.Encloses i j → f.own? j name = none := by
  rw [← holder?_eq_none_iff hf]
  refine ⟨holder?_eq_none_of_get?, fun h => ?_⟩
  rw [get?, h]
  rfl

/-- **Assigning finds nothing** if and only if no scope on the way outward has the name. -/
theorem assign?_eq_none_iff (hf : f.Inward) (value : Value) :
    f.assign? i name value = none ↔ ∀ j, f.Encloses i j → f.own? j name = none := by
  rw [← holder?_eq_none_iff hf]
  refine ⟨holder?_eq_none_of_assign?, fun h => ?_⟩
  rw [assign?, h]
  rfl

end Lookup

/-! ### Writing -/

/-- From the forest `f` to the forest `g` a single binding is written, that of the name in the
scope `i`. -/
structure Writes (f g : Forest) (i : Nat) (name : Name) (value : Value) : Prop where
  size_eq : g.size = f.size
  parent_eq : ∀ j, g.parent? j = f.parent? j
  own_eq : ∀ j n, g.own? j n = if j = i ∧ n.key = name.key then some value else f.own? j n

section Writing

variable {f g : Forest} {i j k : Nat} {name n : Name} {value : Value}

theorem Writes.inward (h : f.Writes g i name value) (hf : f.Inward) : g.Inward :=
  fun j p hparent => hf j p ((h.parent_eq j).symm.trans hparent)

theorem writes_define (hi : i < f.size) : f.Writes (f.define i name value) i name value where
  size_eq := size_define f i name value
  parent_eq j := parent?_define f i j name value
  own_eq j n := by
    rw [own?_define]
    simp [hi]

/-- The scope that a name is bound in has the name. -/
theorem Writes.own?_written (h : f.Writes g i name value) (hkey : n.key = name.key) :
    g.own? i n = some value := by
  rw [h.own_eq, if_pos ⟨rfl, hkey⟩]

/-- **A write is seen** from where the scope written to is the nearest one with the name, and from
nowhere else. -/
theorem get?_of_writes (hf : f.Inward) (h : f.Writes g i name value) (k : Nat) (n : Name) :
    (n.key = name.key → g.Nearest n k i → g.get? k n = some value) ∧
      (¬(n.key = name.key ∧ g.Nearest n k i) → g.get? k n = f.get? k n) := by
  have hg : g.Inward := h.inward hf
  refine ⟨fun hkey hnearest => ?_, fun hunseen => ?_⟩
  · rw [get?_of_nearest hg hnearest, h.own?_written hkey]
  -- On the way outward the write is not met before the name is found.
  · induction k using Nat.strongRecOn with
    | ind k ih =>
      have hsame : g.own? k n = f.own? k n := by
        rw [h.own_eq, if_neg]
        rintro ⟨rfl, hkey⟩
        refine hunseen ⟨hkey, .here ?_⟩
        rw [h.own?_written hkey]
        rfl
      cases hown : f.own? k n with
      | some v =>
          have hboth : (g.own? k n).isSome ∧ (f.own? k n).isSome := by simp [hsame, hown]
          rw [get?_of_nearest hg (.here hboth.1), get?_of_nearest hf (.here hboth.2), hsame]
      | none =>
          rw [hown] at hsame
          cases hparent : f.parent? k with
          | none =>
              have hparent' : g.parent? k = none := (h.parent_eq k).trans hparent
              rw [get?, get?, holder?_outermost hsame hparent', holder?_outermost hown hparent]
              rfl
          | some p =>
              have hparent' : g.parent? k = some p := (h.parent_eq k).trans hparent
              rw [get?_outward hg hsame hparent', get?_outward hf hown hparent]
              refine ih p (hf k p hparent) fun hseen => hunseen ?_
              exact ⟨hseen.1, .outward hsame hparent' hseen.2⟩

/-! ### Assigning -/

/-- An assignment that succeeds binds the name anew in the nearest scope that has it. -/
theorem define_of_assign? (hf : f.Inward) (h : f.assign? i name value = some g) :
    ∃ j, f.Nearest name i j ∧ j < f.size ∧ g = f.define j name value := by
  cases hholder : f.holder? i name with
  | none =>
      rw [assign?, hholder] at h
      cases h
  | some j =>
      rw [assign?, hholder] at h
      have hnearest : f.Nearest name i j := (holder?_eq_some_iff hf).1 hholder
      refine ⟨j, hnearest, Nat.lt_of_not_le fun hle => ?_, (Option.some.inj h).symm⟩
      have hscope : f.scopes[j]? = none := Array.getElem?_eq_none hle
      have hown := hnearest.isSome
      simp [own?, bindings, hscope] at hown

/-- Binding a name anew that a scope has keeps the names of all scopes. -/
theorem names_define (hown : (f.own? i name).isSome) (value : Value) (j : Nat) :
    ((f.define i name value).bindings j).map Prod.fst = (f.bindings j).map Prod.fst := by
  by_cases hj : i = j
  · subst hj
    cases hscope : f.scopes[i]? with
    | none => simp [bindings, define, Array.getElem?_modify, hscope]
    | some scope =>
        have hhas : (scope.bindings.get? name).isSome := by
          simpa [own?, bindings, hscope] using hown
        simp [bindings, define, Array.getElem?_modify, hscope, Bindings.map_fst_put hhas]
  · simp [bindings, define, Array.getElem?_modify, hj]

end Writing

/-! ### Histories -/

/-- The forests that come from making scopes, outermost or in others, binding names, and assigning
to names. To read a name, or to assign to one that is not found, makes no other forest. -/
inductive Built : Forest → Prop where
  | empty : Built .empty
  | new {f : Forest} (hf : Built f) (parent : Option Nat) (hparent : ∀ p ∈ parent, p < f.size) :
      Built (f.add parent)
  | define {f : Forest} (hf : Built f) {i : Nat} (hi : i < f.size) (name : Name) (value : Value) :
      Built (f.define i name value)
  | assign {f g : Forest} (hf : Built f) {i : Nat} (hi : i < f.size) {name : Name} {value : Value}
      (h : f.assign? i name value = some g) : Built g

/-- In a forest that is built each scope has been made after the one around it. -/
theorem Built.inward {f : Forest} (hf : f.Built) : f.Inward := by
  induction hf with
  | empty =>
      intro i p hparent
      simp [parent?, Forest.empty] at hparent
  | @new f hf parent hparent ih =>
      intro i p hp
      rw [parent?_add] at hp
      split at hp
      · next heq => exact heq ▸ hparent p hp
      · exact ih i p hp
  | define hf hi name value ih => exact (writes_define hi).inward ih
  | assign hf hi h ih =>
      obtain ⟨j, -, hj, rfl⟩ := define_of_assign? ih h
      exact (writes_define hj).inward ih

end Forest

/-! ### Reading and assigning in a state -/

/-- The step fails with a report of a missing name on the line of the token, and leaves the state as
it is. -/
def Result.IsNameError {α : Type} (r : Result α) (s : State) (token : Token) : Prop :=
  ∃ failure report, r = .failed failure s ∧ failure.diagnostic? = some report ∧
    report.stage = .run "NameError" ∧ report.line = token.line

section Steps

variable {s t : State} {token : Token} {name : Name}

theorem not_isNameError_done {α : Type} (value : α) :
    ¬(Result.done value t).IsNameError s token := by
  rintro ⟨_, _, h, -⟩
  cases h

/-- Reading fails for want of a name if no scope has it, and else gives a value. -/
theorem read_outcome (hf : s.forest.Inward) (hname : Name.ofLexeme? token.lexeme = some name) :
    ((∃ value, s.read token = .done value s) ∨ (s.read token).IsNameError s token) ∧
      ((s.read token).IsNameError s token ↔
        ∀ j, s.forest.Encloses s.current j → s.forest.own? j name = none) := by
  rw [← Forest.get?_eq_none_iff hf]
  cases hget : s.forest.get? s.current name with
  | some value =>
      have hread : s.read token = .done value s := by simp [State.read, hname, hget]
      refine ⟨Or.inl ⟨value, hread⟩, ?_⟩
      rw [hread]
      exact iff_of_false (not_isNameError_done value) (Option.some_ne_none value)
  | none =>
      have hread : s.read token = .failed (.undefined token.lexeme token.line) s := by
        simp [State.read, hname, hget]
      have herror : (s.read token).IsNameError s token := ⟨_, _, hread, rfl, rfl, rfl⟩
      exact ⟨Or.inr herror, iff_of_true herror rfl⟩

/-- Assigning fails for want of a name if no scope has it, and else makes the forest that assigning
from the innermost scope makes. -/
theorem assign_outcome (hf : s.forest.Inward) (hname : Name.ofLexeme? token.lexeme = some name)
    (value : Value) :
    ((∃ g, s.forest.assign? s.current name value = some g ∧
        s.assign token value = .done () { s with forest := g }) ∨
      (s.assign token value).IsNameError s token) ∧
      ((s.assign token value).IsNameError s token ↔
        ∀ j, s.forest.Encloses s.current j → s.forest.own? j name = none) := by
  rw [← Forest.assign?_eq_none_iff hf value]
  cases hassign : s.forest.assign? s.current name value with
  | some g =>
      have hdone : s.assign token value = .done () { s with forest := g } := by
        simp [State.assign, hname, hassign]
      refine ⟨Or.inl ⟨g, rfl, hdone⟩, ?_⟩
      rw [hdone]
      exact iff_of_false (not_isNameError_done ()) (Option.some_ne_none g)
  | none =>
      have hfailed : s.assign token value = .failed (.unassignable token.lexeme token.line) s := by
        simp [State.assign, hname, hassign]
      have herror : (s.assign token value).IsNameError s token := ⟨_, _, hfailed, rfl, rfl, rfl⟩
      exact ⟨Or.inr herror, iff_of_true herror rfl⟩

end Steps

/-- **Scopes that are shared change where they should.** In a forest that is built, an assignment
that succeeds writes one binding, that of the name in the nearest scope that has it, and gives no
scope another name. Binding a name writes one binding too. In either case the new value is seen from
where the scope written to is the nearest with the name, and from elsewhere nothing has changed.
Reading changes nothing, and reading and assigning fail for want of a name if and only if no scope
on the way outward has it, and then change nothing. -/
theorem scopes_change_where_they_should {f : Forest} (hf : f.Built) :
    (∀ i name value g, f.assign? i name value = some g →
      ∃ j, f.Nearest name i j ∧ f.Writes g j name value ∧
        (∀ k, (g.bindings k).map Prod.fst = (f.bindings k).map Prod.fst) ∧
        ∀ k n, (n.key = name.key → f.Nearest n k j → g.get? k n = some value) ∧
          (¬(n.key = name.key ∧ f.Nearest n k j) → g.get? k n = f.get? k n)) ∧
    (∀ i name value, i < f.size →
      f.Writes (f.define i name value) i name value ∧
        ∀ k n, (n.key = name.key → (f.define i name value).Nearest n k i →
            (f.define i name value).get? k n = some value) ∧
          (¬(n.key = name.key ∧ (f.define i name value).Nearest n k i) →
            (f.define i name value).get? k n = f.get? k n)) ∧
    (∀ (s : State) (token : Token) (name : Name), s.forest = f →
      Name.ofLexeme? token.lexeme = some name →
      ((∃ value, s.read token = .done value s) ∨ (s.read token).IsNameError s token) ∧
      ((s.read token).IsNameError s token ↔
        ∀ j, f.Encloses s.current j → f.own? j name = none) ∧
      ∀ value,
        ((∃ g, f.assign? s.current name value = some g ∧
            s.assign token value = .done () { s with forest := g }) ∨
          (s.assign token value).IsNameError s token) ∧
        ((s.assign token value).IsNameError s token ↔
          ∀ j, f.Encloses s.current j → f.own? j name = none)) := by
  refine ⟨?_, ?_, ?_⟩
  · intro i name value g hassign
    obtain ⟨j, hnearest, hj, rfl⟩ := Forest.define_of_assign? hf.inward hassign
    have hwrites : f.Writes (f.define j name value) j name value := Forest.writes_define hj
    have hsame : ∀ k n, ((f.define j name value).own? k n).isSome = (f.own? k n).isSome :=
      Forest.isSome_own?_define value hnearest.isSome
    refine ⟨j, hnearest, hwrites, Forest.names_define hnearest.isSome value, fun k n => ?_⟩
    obtain ⟨hseen, hunseen⟩ := Forest.get?_of_writes hf.inward hwrites k n
    -- No scope has another name than before, and so the nearest ones are the same.
    refine ⟨fun hkey h => hseen hkey (h.congr hwrites.parent_eq (hsame · n)), fun h => ?_⟩
    refine hunseen fun ⟨hkey, h'⟩ => h ⟨hkey, h'.congr (fun l => (hwrites.parent_eq l).symm) ?_⟩
    exact fun l => (hsame l n).symm
  · intro i name value hi
    have hwrites : f.Writes (f.define i name value) i name value := Forest.writes_define hi
    exact ⟨hwrites, Forest.get?_of_writes hf.inward hwrites⟩
  · rintro s token name rfl hname
    obtain ⟨hread, hreads⟩ := read_outcome hf.inward hname
    exact ⟨hread, hreads, assign_outcome hf.inward hname⟩

/-- Two scopes in a third one, which has a name that one of them has too. -/
def sharedOuter : Forest :=
  (((Forest.empty.add none).define 0 (.ofText "v") .nil).add (some 0)).add (some 0)
    |>.define 2 (.ofText "v") (.bool true)

/-- What is assigned from the one that has not the name is seen from it and from the outer one. -/
theorem scopes_change_where_they_should_sharedOuter :
    sharedOuter.Built ∧ ∃ g, sharedOuter.assign? 1 (.ofText "v") (.bool false) = some g ∧
      g.get? 0 (.ofText "v") = some (.bool false) ∧
      g.get? 1 (.ofText "v") = some (.bool false) ∧
      g.get? 2 (.ofText "v") = some (.bool true) := by
  have hbuilt : sharedOuter.Built :=
    .define (.new (.new (.define (.new .empty none (by simp)) (by decide) _ _) (some 0)
      (by decide)) (some 0) (by decide)) (by decide) _ _
  have hnearest : sharedOuter.Nearest (.ofText "v") 1 0 := .outward rfl rfl (.here rfl)
  have hassign : sharedOuter.assign? 1 (.ofText "v") (.bool false) =
      some (sharedOuter.define 0 (.ofText "v") (.bool false)) := by
    rw [Forest.assign?, (Forest.holder?_eq_some_iff hbuilt.inward).2 hnearest]
    rfl
  obtain ⟨j, hj, -, -, hget⟩ := (scopes_change_where_they_should hbuilt).1 _ _ _ _ hassign
  obtain rfl : j = 0 := hnearest.unique hbuilt.inward hj
  refine ⟨hbuilt, _, hassign, (hget 0 _).1 rfl (.here rfl), (hget 1 _).1 rfl hnearest, ?_⟩
  have htwo : sharedOuter.Nearest (.ofText "v") 2 2 := .here rfl
  have hother : ¬ sharedOuter.Nearest (.ofText "v") 2 0 :=
    fun h => absurd (htwo.unique hbuilt.inward h) (by decide)
  rw [(hget 2 _).2 fun h => hother h.2, Forest.get?_of_nearest hbuilt.inward htwo]
  rfl

end ScriptLang
