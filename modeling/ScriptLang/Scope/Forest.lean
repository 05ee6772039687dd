import ScriptLang.Scope.Name
import ScriptLang.Value.Basic

/-!
# Scopes

Scopes bind names to values and are nested: each has a scope around it or is outermost. Many scopes
may share the one around them, so together they form a forest. A name is looked up along the chain
of scopes from the inside out, and assigning to it changes the binding that the look-up finds, which
every chain through that scope then sees.

## Main Definitions

* `Scope`, `Forest`: one scope, and all of them by number.
* `Forest.chain`: a scope and those around it, from the inside out.
* `Forest.holder?`: the nearest scope on the chain that has a name.
* `Forest.define`, `Forest.get?`, `Forest.assign?`: binding, reading and assigning.

## Main Statements

* `Forest.own?_define`: binding a name changes one binding of one scope.
* `Forest.chain_define`: it leaves the chains as they are.

## Design Notes

A scope is made inside scopes that exist already, so the number of the scope around it is smaller
than its own. `chain` goes down these numbers and stops should one not be smaller.
-/

namespace ScriptLang

/-- The names of one scope with their values. -/
abbrev Bindings : Type := List (Name × Value)

namespace Bindings

/-- The value that a name is bound to. -/
def get? (name : Name) : Bindings → Option Value
  | [] => none
  | (n, v) :: bindings => if n.key = name.key then some v else get? name bindings

/-- The bindings with a name bound to a value: in its old place and as it was first written there if
it has one, else at the end. -/
def put (name : Name) (value : Value) : Bindings → Bindings
  | [] => [(name, value)]
  | (n, v) :: bindings =>
    if n.key = name.key then (n, value) :: bindings else (n, v) :: put name value bindings

@[simp] theorem get?_nil (name : Name) : get? name [] = none := rfl

theorem get?_cons (name n : Name) (v : Value) (bindings : Bindings) :
    get? name ((n, v) :: bindings) = if n.key = name.key then some v else get? name bindings := rfl

/-- Only the name that is bound changes its value. -/
theorem get?_put (name n : Name) (value : Value) (bindings : Bindings) :
    get? n (put name value bindings) =
      if n.key = name.key then some value else get? n bindings := by
  induction bindings with
  | nil => simp [put, get?_cons, eq_comm]
  | cons entry bindings ih =>
    obtain ⟨m, v⟩ := entry
    by_cases hm : m.key = name.key
    · by_cases hn : n.key = name.key
      · simp [put, get?_cons, hm, hn]
      · simp [put, get?_cons, hm, hn, Ne.symm hn]
    · by_cases hn : m.key = n.key
      · have hne : n.key ≠ name.key := hn ▸ hm
        simp [put, get?_cons, hn, hne]
      · simp [put, get?_cons, hm, hn, ih]

end Bindings

/-- A scope. -/
structure Scope where
  /-- The number of the scope around this one. -/
  parent : Option Nat
  bindings : Bindings

/-- The bindings of a scope in the order of their names. -/
def Scope.sorted (scope : Scope) : Bindings :=
  scope.bindings.mergeSort fun a b => a.1.le b.1

/-- Scopes by number. -/
structure Forest where
  scopes : Array Scope

namespace Forest

/-- No scopes. -/
def empty : Forest := { scopes := #[] }

/-- How many scopes there are. -/
def size (f : Forest) : Nat := f.scopes.size

/-- A new, empty scope inside another or outermost. Its number is the size of the forest. -/
def add (f : Forest) (parent : Option Nat) : Forest :=
  { scopes := f.scopes.push { parent, bindings := [] } }

/-- Without the newest scope. -/
def dropNewest (f : Forest) : Forest := { scopes := f.scopes.pop }

/-- The scope around a scope. -/
def parent? (f : Forest) (i : Nat) : Option Nat := f.scopes[i]?.bind Scope.parent

/-- The bindings of a scope. -/
def bindings (f : Forest) (i : Nat) : Bindings :=
  match f.scopes[i]? with
  | some scope => scope.bindings
  | none => []

/-- The bindings of a scope in the order of their names. -/
def sorted (f : Forest) (i : Nat) : Bindings :=
  match f.scopes[i]? with
  | some scope => scope.sorted
  | none => []

/-- A scope and the scopes around it, from the inside out. -/
def chain (f : Forest) (i : Nat) : List Nat :=
  match f.parent? i with
  | none => [i]
  | some p => if p < i then i :: chain f p else [i]
termination_by i

/-- How many scopes there are around a scope. -/
def depth (f : Forest) (i : Nat) : Nat := (f.chain i).length - 1

/-- The value that a scope itself binds a name to. -/
def own? (f : Forest) (i : Nat) (name : Name) : Option Value := (f.bindings i).get? name

/-- The nearest scope on the chain that has the name. -/
def holder? (f : Forest) (i : Nat) (name : Name) : Option Nat :=
  (f.chain i).find? fun j => (f.own? j name).isSome

/-- Binds a name in a scope itself, whatever the scopes around it have. -/
def define (f : Forest) (i : Nat) (name : Name) (value : Value) : Forest :=
  { scopes := f.scopes.modify i fun scope =>
      { scope with bindings := Bindings.put name value scope.bindings } }

/-- The value of a name, seen from a scope. -/
def get? (f : Forest) (i : Nat) (name : Name) : Option Value := do
  f.own? (← f.holder? i name) name

/-- Assigns to a name, seen from a scope, if the chain has it. -/
def assign? (f : Forest) (i : Nat) (name : Name) (value : Value) : Option Forest := do
  return f.define (← f.holder? i name) name value

/-! ### What the operations leave as it is -/

@[simp] theorem size_empty : empty.size = 0 := rfl

@[simp] theorem size_add (f : Forest) (parent : Option Nat) : (f.add parent).size = f.size + 1 :=
  Array.size_push _

@[simp] theorem size_define (f : Forest) (i : Nat) (name : Name) (value : Value) :
    (f.define i name value).size = f.size :=
  Array.size_modify

@[simp] theorem dropNewest_add (f : Forest) (parent : Option Nat) :
    (f.add parent).dropNewest = f := by
  simp [add, dropNewest]

/-- Binding a name leaves the scope around every scope as it is. -/
@[simp] theorem parent?_define (f : Forest) (i j : Nat) (name : Name) (value : Value) :
    (f.define i name value).parent? j = f.parent? j := by
  by_cases h : i = j <;> cases hj : f.scopes[j]? <;>
    simp [parent?, define, Array.getElem?_modify, h, hj]

/-- Binding a name leaves the chains as they are. -/
@[simp] theorem chain_define (f : Forest) (i j : Nat) (name : Name) (value : Value) :
    (f.define i name value).chain j = f.chain j := by
  induction j using Nat.strongRecOn with
  | ind j ih =>
    rw [chain, chain, parent?_define]
    cases f.parent? j with
    | none => rfl
    | some p => by_cases h : p < j <;> simp [h, ih]

/-- Binding a name in a scope changes what that scope itself binds the name to, and nothing else. -/
theorem own?_define (f : Forest) (i j : Nat) (name n : Name) (value : Value) :
    (f.define i name value).own? j n =
      if j = i ∧ i < f.size ∧ n.key = name.key then some value else f.own? j n := by
  by_cases h : i = j
  · subst h
    by_cases hi : i < f.size
    · have hs : f.scopes[i]? = some f.scopes[i] := Array.getElem?_eq_getElem hi
      simp [own?, bindings, define, Array.getElem?_modify, hs, hi, Bindings.get?_put]
    · have hs : f.scopes[i]? = none := Array.getElem?_eq_none (Nat.le_of_not_lt hi)
      simp [own?, bindings, define, Array.getElem?_modify, hs, hi]
  · have h' : j ≠ i := fun e => h e.symm
    simp [own?, bindings, define, Array.getElem?_modify, h, h']

end Forest

end ScriptLang
