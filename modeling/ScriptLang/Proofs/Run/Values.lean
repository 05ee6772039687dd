import ScriptLang.Proofs.Run.Call
import ScriptLang.Proofs.Tree.Demands

/-!
# The values that a run comes to

Operators yield numbers, booleans and `nil`. Every other value is a literal of the program, or a
variable held it before the run. So a property of all of these is one of every value that a run
comes to: of what expressions evaluate to, of what variables hold, and of the operands that a
failure carries.

## Main Definitions

* `Bindings.Hold`, `State.Holds`: every variable holds a value with a property.
* `OfOperators`: a property of what operators yield.
* `Demands.literals`: the literals of a tree have values with a property.
* `Failure.operands`: the values that a failure carries.

## Main Statements

* `holds_eval`, `holds_exec`, `holds_interpret`: expressions, statements and programs come to such
  values only.
-/

namespace ScriptLang

/-! ### What variables hold -/

section Holds

variable {p : Value → Prop}

/-- Every variable of the scope holds a value with the property. -/
def Bindings.Hold (p : Value → Prop) (bindings : Bindings) : Prop := ∀ entry ∈ bindings, p entry.2

theorem Bindings.Hold.put {bindings : Bindings} (h : bindings.Hold p) {name : Name} {value : Value}
    (hvalue : p value) : (put name value bindings).Hold p := by
  induction bindings with
  | nil =>
      intro entry hmem
      obtain rfl := List.mem_singleton.1 hmem
      exact hvalue
  | cons entry bindings ih =>
      obtain ⟨n, v⟩ := entry
      obtain ⟨hfirst, hothers⟩ := List.forall_mem_cons.1 h
      unfold Bindings.put
      split
      · exact List.forall_mem_cons.2 ⟨hvalue, hothers⟩
      · exact List.forall_mem_cons.2 ⟨hfirst, ih hothers⟩

theorem Bindings.Hold.get? {bindings : Bindings} (h : bindings.Hold p) {name : Name} {value : Value}
    (hget : bindings.get? name = some value) : p value := by
  induction bindings with
  | nil => cases hget
  | cons entry bindings ih =>
      obtain ⟨n, v⟩ := entry
      obtain ⟨hfirst, hothers⟩ := List.forall_mem_cons.1 h
      rw [get?_cons] at hget
      split at hget
      · cases hget
        exact hfirst
      · exact ih hothers hget

/-- Every variable in every scope holds a value with the property. -/
def State.Holds (p : Value → Prop) (s : State) : Prop := ∀ i, (s.forest.bindings i).Hold p

namespace Forest

theorem bindings_add (f : Forest) (parent : Option Nat) (i : Nat) :
    (f.add parent).bindings i = f.bindings i := by
  by_cases h : i = f.scopes.size
  · subst h
    simp [bindings, add]
  · simp [bindings, add, Array.getElem?_push, h]

theorem bindings_dropNewest (f : Forest) (i : Nat) :
    f.dropNewest.bindings i = f.bindings i ∨ f.dropNewest.bindings i = [] := by
  by_cases h : i < f.scopes.size - 1
  · exact .inl (by simp only [bindings, dropNewest, Array.getElem?_pop, h, if_true])
  · exact .inr (by simp [bindings, dropNewest, h])

theorem bindings_define (f : Forest) (i j : Nat) (name : Name) (value : Value) :
    (f.define i name value).bindings j = f.bindings j ∨
      (f.define i name value).bindings j = Bindings.put name value (f.bindings j) := by
  by_cases h : i = j
  · subst h
    cases hi : f.scopes[i]? <;> simp [bindings, define, Array.getElem?_modify, hi]
  · simp [bindings, define, Array.getElem?_modify, h]

end Forest

namespace State.Holds

variable {s : State}

theorem initial : State.initial.Holds p := by
  intro i entry hmem
  rw [State.initial, Forest.bindings_add] at hmem
  simp [Forest.bindings, Forest.empty] at hmem

theorem of_forest {t : State} (h : s.Holds p) (heq : t.forest = s.forest) : t.Holds p := by
  intro i
  rw [heq]
  exact h i

theorem trace (h : s.Holds p) (config : Config) (event : Event) :
    (s.trace config event).Holds p :=
  h.of_forest (by simp)

theorem openScope (h : s.Holds p) (config : Config) : (s.openScope config).Holds p := by
  intro i
  rw [State.forest_openScope, Forest.bindings_add]
  exact h i

theorem closeScope (h : s.Holds p) (config : Config) : (s.closeScope config).Holds p := by
  intro i
  rw [State.forest_closeScope]
  rcases s.forest.bindings_dropNewest i with heq | heq
  · rw [heq]
    exact h i
  · rw [heq]
    exact fun _ hmem => absurd hmem List.not_mem_nil

theorem forest_define (h : s.Holds p) {value : Value} (hvalue : p value) (i : Nat) (name : Name) :
    { s with forest := s.forest.define i name value }.Holds p := by
  intro j
  rcases s.forest.bindings_define i j name value with heq | heq
  · rw [heq]
    exact h j
  · rw [heq]
    exact (h j).put hvalue

/-- A variable that is seen from a scope holds such a value, too. -/
theorem get? (h : s.Holds p) {i : Nat} {name : Name} {value : Value}
    (hget : s.forest.get? i name = some value) : p value := by
  obtain ⟨scope, -, hown⟩ := Option.bind_eq_some_iff.1 hget
  exact (h scope).get? hown

theorem assign? (h : s.Holds p) {i : Nat} {name : Name} {value : Value} {forest : Forest}
    (hvalue : p value) (hassign : s.forest.assign? i name value = some forest) :
    { s with forest }.Holds p := by
  obtain ⟨scope, -, hdefine⟩ := Option.bind_eq_some_iff.1 hassign
  cases hdefine
  exact h.forest_define hvalue scope name

end State.Holds

end Holds

/-! ### What operators yield, and what failures carry -/

/-- Whatever an operator or an assignment can yield has the property. -/
structure OfOperators (p : Value → Prop) : Prop where
  num : ∀ x, p (.num x)
  bool : ∀ b, p (.bool b)
  nil : p .nil

/-- The operands that a failure carries, which its report shows. -/
def Failure.operands : Failure → List Value
  | notANumber operand _ => [operand]
  | notNumbers _ left right _ => [left, right]
  | noUnaryOperator _ operand _ => [operand]
  | _ => []

/-- The property holds of all the operands that the failure carries. -/
def Failure.Carries (p : Value → Prop) (failure : Failure) : Prop := ∀ v ∈ failure.operands, p v

/-- The literals of the tree have values with the property. -/
def Demands.literals (p : Value → Prop) : Demands where
  literal value := ∀ v, Value.ofLiteral? value = some v → p v
  unary _ := True
  binary _ := True
  logical _ := True
  name _ := True

section Steps

variable {p : Value → Prop} {s : State}

theorem Demands.literals_metBy (hp : OfOperators p) :
    (literals p).MetBy fun t => ∀ v, Value.ofLiteral? t.literal = some v → p v where
  null := by rintro v ⟨⟩; exact hp.nil
  bool b := by rintro v ⟨⟩; exact hp.bool b
  literal _ h := h
  unary _ _ _ := trivial
  binary _ _ _ := trivial
  logical _ _ _ := trivial
  name _ _ _ := trivial

theorem of_applyUnary (hp : OfOperators p) {rule : Truthiness} {op : Token} {operand value : Value}
    (h : applyUnary rule op operand = .ok value) : p value := by
  unfold applyUnary at h
  split at h <;> cases h
  · exact hp.num _
  · exact hp.bool _

theorem of_applyBinary (hp : OfOperators p) {op : Token} {left right value : Value}
    (h : applyBinary op left right = .ok value) : p value := by
  unfold applyBinary calculate at h
  repeat' split at h
  all_goals cases h
  all_goals first | exact hp.num _ | exact hp.bool _

theorem carries_of_applyUnary {rule : Truthiness} {op : Token} {operand : Value}
    {failure : Failure} (h : applyUnary rule op operand = .error failure) (hoperand : p operand) :
    failure.Carries p := by
  unfold applyUnary at h
  split at h <;> cases h
  all_goals simpa [Failure.Carries, Failure.operands] using hoperand

theorem carries_of_applyBinary {op : Token} {left right : Value} {failure : Failure}
    (h : applyBinary op left right = .error failure) (hleft : p left) (hright : p right) :
    failure.Carries p := by
  unfold applyBinary calculate at h
  repeat' split at h
  all_goals cases h
  all_goals simp [Failure.Carries, Failure.operands, hleft, hright]

/-- What a step leaves that comes to no other values. -/
def Result.Holds {α : Type} (p : Value → Prop) (done : α → Prop) (r : Result α) : Prop :=
  r.Satisfies (fun value t => done value ∧ t.Holds p) fun failure t =>
    failure.Carries p ∧ t.Holds p

theorem holds_read (hs : s.Holds p) (name : Token) : (s.read name).Holds p p := by
  unfold State.read
  split
  · exact ⟨by simp [Failure.Carries, Failure.operands], hs⟩
  · split
    · next hget => exact ⟨hs.get? hget, hs⟩
    · exact ⟨by simp [Failure.Carries, Failure.operands], hs⟩

theorem holds_assign (hs : s.Holds p) (name : Token) {value : Value} (hvalue : p value) :
    (s.assign name value).Holds p fun _ => True := by
  unfold State.assign
  split
  · exact ⟨by simp [Failure.Carries, Failure.operands], hs⟩
  · split
    · next hassign => exact ⟨trivial, hs.assign? hvalue hassign⟩
    · exact ⟨by simp [Failure.Carries, Failure.operands], hs⟩

theorem holds_define (hs : s.Holds p) (name : Token) {value : Value} (hvalue : p value) :
    (s.define name value).Holds p fun _ => True := by
  unfold State.define
  split
  · exact ⟨by simp [Failure.Carries, Failure.operands], hs⟩
  · exact ⟨trivial, hs.forest_define hvalue _ _⟩

end Steps

/-! ### Runs -/

section Runs

variable {p : Value → Prop} {s : State}

/-- **Expressions come to literals, to what variables hold and to what operators yield.** -/
theorem holds_eval (hp : OfOperators p) (config : Config) (n : Nat) {e : Expr}
    (he : e.Meets (.literals p)) (hs : s.Holds p) : (eval config n e s).Holds p p := by
  induction n generalizing e s with
  | zero => exact ⟨by simp [Failure.Carries, Failure.operands], hs⟩
  | succ n ih =>
      cases e with
      | literal value =>
          rw [eval]
          split
          · next v hv => exact ⟨he v hv, hs⟩
          · exact ⟨by simp [Failure.Carries, Failure.operands], hs⟩
      | group inner => exact ih he hs
      | ref name => exact holds_read hs name
      | assign name value =>
          refine (ih he.2 hs).andThen ?_
          rintro v t ⟨hv, ht⟩
          refine (holds_assign ht name hv).andThen ?_
          rintro _ u ⟨-, hu⟩
          exact ⟨hp.nil, hu.trace config _⟩
      | unary op operand =>
          refine (ih he.2 hs).andThen ?_
          rintro v t ⟨hv, ht⟩
          cases happly : applyUnary config.truthiness op v with
          | ok value => exact ⟨of_applyUnary hp happly, ht⟩
          | error failure => exact ⟨carries_of_applyUnary happly hv, ht⟩
      | binary left op right =>
          refine (ih he.1 hs).andThen ?_
          rintro a t ⟨ha, ht⟩
          refine (ih he.2.2 ht).andThen ?_
          rintro b u ⟨hb, hu⟩
          cases happly : applyBinary op a b with
          | ok value => exact ⟨of_applyBinary hp happly, hu⟩
          | error failure => exact ⟨carries_of_applyBinary happly ha hb, hu⟩
      | logical left op right =>
          refine (ih he.1 hs).andThen ?_
          rintro a t ⟨ha, ht⟩
          split
          · exact ⟨ha, ht⟩
          · exact ih he.2.2 ht
      | misplaced document => cases he

theorem holds_test (hp : OfOperators p) (config : Config) (statement : Conditional)
    {condition : Expr} (hcondition : condition.Meets (.literals p)) (hs : s.Holds p) :
    (test config statement condition s).Holds p fun _ => True := by
  refine (holds_eval hp config config.limit hcondition hs).andThen ?_
  rintro v t ⟨-, ht⟩
  exact ⟨trivial, ht.trace config _⟩

theorem holds_initialValue (hp : OfOperators p) (config : Config) {name : Token}
    {initial : Option Expr} (h : (Stmt.declare name initial).Meets (.literals p))
    (hs : s.Holds p) : (initialValue config initial s).Holds p p := by
  cases initial with
  | none => exact ⟨hp.nil, hs⟩
  | some value => exact holds_eval hp config config.limit h.2 hs

/-- What a statement does, if its parts come to such values only. -/
theorem holds_effect (hp : OfOperators p) (config : Config) (n : Nat)
    {run : Stmt → State → Result Unit}
    (hrun : ∀ {stmt : Stmt} {s : State}, stmt.Meets (.literals p) → s.Holds p →
      (run stmt s).Holds p fun _ => True)
    {stmt : Stmt} (hstmt : stmt.Meets (.literals p)) (hs : s.Holds p) :
    (effect config run n stmt s).Holds p fun _ => True := by
  cases stmt with
  | expr value | print value =>
      refine (holds_eval hp config config.limit hstmt hs).andThen ?_
      rintro v t ⟨-, ht⟩
      exact ⟨trivial, ht⟩
  | declare name initial =>
      refine (holds_initialValue hp config hstmt hs).andThen ?_
      rintro v t ⟨hv, ht⟩
      refine (holds_define ht name hv).andThen ?_
      rintro _ u ⟨-, hu⟩
      exact ⟨trivial, hu.trace config _⟩
  | block body =>
      apply satisfies_inScope
      have hbody : (sequence run body (s.openScope config)).Holds p fun _ => True :=
        satisfies_sequence (fun part hmem t ht => hrun (allMeet_iff.1 hstmt part hmem) ht.2)
          ⟨trivial, hs.openScope config⟩
      exact hbody.imp (fun _ t ht => ⟨trivial, ht.2.closeScope config⟩)
        fun _ t ht => ⟨ht.1, ht.2.closeScope config⟩
  | branch condition whenTrue whenFalse =>
      have hcondition : condition.Meets (.literals p) := by cases whenFalse <;> exact hstmt.1
      refine (holds_test hp config .branch hcondition hs).andThen ?_
      rintro holds t ⟨-, ht⟩
      cases whenFalse with
      | none =>
          cases holds with
          | true => exact hrun hstmt.2 ht
          | false => exact ⟨trivial, ht⟩
      | some other =>
          cases holds with
          | true => exact hrun hstmt.2.1 ht
          | false => exact hrun hstmt.2.2 ht
  | loop condition body =>
      exact satisfies_rounds (fun t ht => holds_test hp config .loop hstmt.1 ht.2)
        (fun t ht => hrun hstmt.2 ht.2) n ⟨trivial, hs⟩
  | misplaced document _ => cases hstmt

/-- **Statements come to such values only**, also when they fail. -/
theorem holds_exec (hp : OfOperators p) (config : Config) (n : Nat) {stmt : Stmt}
    (hstmt : stmt.Meets (.literals p)) (hs : s.Holds p) :
    (exec config n stmt s).Holds p fun _ => True := by
  induction n generalizing stmt s with
  | zero => trivial
  | succ n ih =>
      refine (holds_effect hp config n (fun h ht => ih h ht) hstmt (hs.trace config _)).andThen ?_
      rintro _ t ⟨-, ht⟩
      exact ⟨trivial, ht.trace config _⟩

/-- **Programs come to such values only**, also when they fail. -/
theorem holds_interpret (hp : OfOperators p) (config : Config) (fuel : Nat) {program : List Stmt}
    (hprogram : allMeet (.literals p) program) (hs : s.Holds p) :
    (interpret config fuel program s).Holds p fun _ => True := by
  refine satisfies_sequence (fun stmt hmem t ht => ?_) ⟨trivial, hs⟩
  have hexec := holds_exec hp config fuel (allMeet_iff.1 hprogram stmt hmem) ht.2
  unfold reportNesting
  split
  · next hresult =>
    exact ⟨by simp [Failure.Carries, Failure.operands], (hexec.of_failed hresult).2⟩
  · exact hexec

end Runs

end ScriptLang
