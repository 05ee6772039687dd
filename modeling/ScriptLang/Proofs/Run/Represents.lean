import ScriptLang.Proofs.Run.BigStep
import ScriptLang.Proofs.Scope.Matches

/-!
# States as worlds

A state has scopes by number, linked to one another, and a list of effects; a world has maps on a
stack and a text. A state represents a world if its scopes have the contents of the maps and its
effects have printed the text. The steps on the state do what the steps on the world do.

## Main Definitions

* `Chained`: the open scopes are those that exist, each inside the one before it.
* `Represents`: the state stands for the world.

## Main Statements

* `exists_represents`: every world with a scope is represented.
* `Represents.unique`: by a state that represents no other.
* `Represents.get?_eq`, `Represents.assign`, `Represents.define`: the steps on variables.
* `Represents.openScope`, `Represents.closeScope`: around a block.
-/

namespace ScriptLang

/-! ### Chains of scopes -/

/-- There are `n` scopes, all of them open, numbered from the outside in, and each lies inside the
one numbered before it. -/
structure Chained (n : Nat) (s : State) : Prop where
  pos : 0 < n
  stack_eq : s.stack = (List.range n).reverse
  size_eq : s.forest.size = n
  parent_zero : s.forest.parent? 0 = none
  parent_succ : ∀ i, i + 1 < n → s.forest.parent? (i + 1) = some i

namespace Chained

variable {n : Nat} {s t : State}

theorem initial : Chained 1 State.initial where
  pos := Nat.one_pos
  stack_eq := rfl
  size_eq := rfl
  parent_zero := rfl
  parent_succ i hi := absurd hi (by simp)

/-- Only the scopes and the links between them matter. -/
theorem of_forest (h : Chained n s) (hstack : t.stack = s.stack)
    (hsize : t.forest.size = s.forest.size)
    (hparent : ∀ i, t.forest.parent? i = s.forest.parent? i) : Chained n t where
  pos := h.pos
  stack_eq := hstack.trans h.stack_eq
  size_eq := hsize.trans h.size_eq
  parent_zero := (hparent 0).trans h.parent_zero
  parent_succ i hi := (hparent (i + 1)).trans (h.parent_succ i hi)

theorem stack_cons (h : Chained (n + 1) s) : s.stack = n :: (List.range n).reverse := by
  rw [h.stack_eq, List.range_succ, List.reverse_concat]

theorem current_eq (h : Chained (n + 1) s) : s.current = n := by
  rw [State.current, h.stack_cons, List.headD_cons]

/-- The scopes seen from the innermost one are the open ones. -/
theorem chain_eq (h : Chained n s) : s.forest.chain s.current = s.stack := by
  obtain ⟨m, rfl⟩ := Nat.exists_eq_succ_of_ne_zero (Nat.pos_iff_ne_zero.1 h.pos)
  rw [h.current_eq, h.stack_eq]
  refine Forest.chain_eq_range h.parent_zero ?_
  intro i hi
  exact h.parent_succ i (Nat.succ_lt_succ hi)

theorem nodup_stack (h : Chained n s) : s.stack.Nodup := by
  rw [h.stack_eq]
  exact List.nodup_reverse.2 List.nodup_range

theorem lt_size_of_mem (h : Chained n s) {i : Nat} (hi : i ∈ s.stack) : i < s.forest.size := by
  rw [h.stack_eq, List.mem_reverse, List.mem_range] at hi
  rw [h.size_eq]
  exact hi

theorem openScope (h : Chained n s) (config : Config) : Chained (n + 1) (s.openScope config) := by
  obtain ⟨m, rfl⟩ := Nat.exists_eq_succ_of_ne_zero (Nat.pos_iff_ne_zero.1 h.pos)
  refine ⟨Nat.succ_pos _, ?_, ?_, ?_, ?_⟩
  · rw [State.stack_openScope, h.size_eq, h.stack_eq, ← List.reverse_concat, ← List.range_succ]
  · rw [State.forest_openScope, Forest.size_add, h.size_eq]
  · rw [State.forest_openScope, Forest.parent?_add, h.size_eq]
    simpa using h.parent_zero
  · intro i hi
    -- The new scope has the largest number, and the innermost one so far the number before it.
    rw [State.forest_openScope, Forest.parent?_add, h.size_eq, h.current_eq]
    split
    · next heq => rw [Nat.succ.inj heq]
    · exact h.parent_succ i (by omega)

theorem closeScope (h : Chained (n + 1) s) (hn : 0 < n) (config : Config) :
    Chained n (s.closeScope config) := by
  have hsize := h.size_eq
  refine ⟨hn, ?_, ?_, ?_, ?_⟩
  · rw [State.stack_closeScope, h.stack_cons, List.tail_cons]
  · rw [State.forest_closeScope, Forest.size_dropNewest, hsize, Nat.add_sub_cancel]
  · rw [State.forest_closeScope, Forest.parent?_dropNewest (by omega), h.parent_zero]
  · intro i hi
    rw [State.forest_closeScope, Forest.parent?_dropNewest (by omega)]
    exact h.parent_succ i (by omega)

end Chained

/-! ### Printed text -/

/-- The text that effects, newest first, have printed. -/
def printedBy : List Effect → String
  | [] => ""
  | .printed text :: effects => printedBy effects ++ text ++ "\n"
  | .traced _ :: effects => printedBy effects

@[simp] theorem printedBy_trace (s : State) (config : Config) (event : Event) :
    printedBy (s.trace config event).effects = printedBy s.effects := by
  unfold State.trace
  split <;> rfl

@[simp] theorem printedBy_openScope (s : State) (config : Config) :
    printedBy (s.openScope config).effects = printedBy s.effects := by
  simp [State.openScope]

@[simp] theorem printedBy_closeScope (s : State) (config : Config) :
    printedBy (s.closeScope config).effects = printedBy s.effects := by
  simp [State.closeScope]

/-! ### Look-ups along a list of scopes -/

section Lists

variable {f : Forest} {x : String} {l : List Nat} {frames : List Frame}

/-- What is found along a list of scopes is what is found along the maps. -/
theorem bind_find?_own? (h : l.map (fun i => f.own? i (.ofText x)) = frames.map (·.lookup x)) :
    (l.find? fun i => (f.own? i (.ofText x)).isSome).bind (f.own? · (.ofText x)) =
      lookupIn x frames := by
  induction l generalizing frames with
  | nil =>
      cases frames with
      | nil => rfl
      | cons => cases h
  | cons i l ih =>
      cases frames with
      | nil => cases h
      | cons frame frames =>
          obtain ⟨hfirst, hothers⟩ := List.cons.inj h
          replace hfirst : f.own? i (.ofText x) = frame.lookup x := hfirst
          rw [List.find?_cons, lookupIn, ← hfirst]
          cases hown : f.own? i (.ofText x) with
          | none => exact ih hothers
          | some v => simp [hown]

/-- Without the name in any of the scopes, there is none in the maps to assign to. -/
theorem assignIn_eq_none (h : l.map (fun i => f.own? i (.ofText x)) = frames.map (·.lookup x))
    (hfind : (l.find? fun i => (f.own? i (.ofText x)).isSome) = none) (v : Value) :
    assignIn x v frames = none := by
  induction l generalizing frames with
  | nil =>
      cases frames with
      | nil => rfl
      | cons => cases h
  | cons i l ih =>
      cases frames with
      | nil => cases h
      | cons frame frames =>
          obtain ⟨hfirst, hothers⟩ := List.cons.inj h
          obtain ⟨hown, hfind⟩ : f.own? i (.ofText x) = none ∧
              (l.find? fun i => (f.own? i (.ofText x)).isSome) = none := by
            simpa using hfind
          have hnone : x ∉ frame := Finmap.lookup_eq_none.1 (hfirst.symm.trans hown)
          rw [assignIn, if_neg hnone, ih hothers hfind, Option.map_none]

/-- Binding a name in a scope binds it in the map of that scope. -/
theorem lookup_insert_eq {i : Nat} {frame : Frame} {v : Value} {y : String} (hi : i < f.size)
    (h : f.own? i (.ofText y) = frame.lookup y) :
    (f.define i (.ofText x) v).own? i (.ofText y) = (frame.insert x v).lookup y := by
  by_cases hy : y = x
  · subst hy
    simp [Forest.own?_define, hi]
  · simp [Forest.own?_define, hy, Finmap.lookup_insert_of_ne, h]

theorem own?_define_of_ne {i j : Nat} {v : Value} (h : i ≠ j) (name n : Name) :
    (f.define j name v).own? i n = f.own? i n := by
  simp [Forest.own?_define, h]

/-- Binding a name in the first of the scopes that has it is assigning in the maps. -/
theorem assignIn_of_find? (hnodup : l.Nodup) (hsize : ∀ i ∈ l, i < f.size)
    (h : ∀ y, l.map (fun i => f.own? i (.ofText y)) = frames.map (·.lookup y)) {j : Nat}
    (hfind : (l.find? fun i => (f.own? i (.ofText x)).isSome) = some j) (v : Value) :
    ∃ frames', assignIn x v frames = some frames' ∧
      ∀ y, l.map (fun i => (f.define j (.ofText x) v).own? i (.ofText y)) =
        frames'.map (·.lookup y) := by
  induction l generalizing frames with
  | nil => cases hfind
  | cons i l ih =>
      cases frames with
      | nil => cases h x
      | cons frame frames =>
          have hfirst : ∀ y, f.own? i (.ofText y) = frame.lookup y :=
            fun y => (List.cons.inj (h y)).1
          have hothers : ∀ y, l.map (fun i => f.own? i (.ofText y)) = frames.map (·.lookup y) :=
            fun y => (List.cons.inj (h y)).2
          rw [List.nodup_cons] at hnodup
          rw [List.forall_mem_cons] at hsize
          rw [List.find?_cons] at hfind
          cases hown : f.own? i (.ofText x) with
          | some old =>
              obtain rfl : i = j := by simpa [hown] using hfind
              have hmem : x ∈ frame :=
                Finmap.mem_of_lookup_eq_some ((hfirst x).symm.trans hown)
              refine ⟨_, by rw [assignIn, if_pos hmem], ?_⟩
              intro y
              rw [List.map_cons, List.map_cons, ← hothers y, lookup_insert_eq hsize.1 (hfirst y)]
              congr 1
              apply List.map_congr_left
              intro k hk
              have hne : k ≠ i := fun heq => hnodup.1 (heq ▸ hk)
              exact own?_define_of_ne hne _ _
          | none =>
              rw [hown] at hfind
              have hnone : x ∉ frame := Finmap.lookup_eq_none.1 ((hfirst x).symm.trans hown)
              obtain ⟨frames', hassign, hcontents⟩ := ih hnodup.2 hsize.2 hothers hfind
              refine ⟨frame :: frames', by simp [assignIn, hnone, hassign], ?_⟩
              intro y
              have hmem : j ∈ l := List.mem_of_find?_eq_some hfind
              have hne : i ≠ j := fun heq => hnodup.1 (heq ▸ hmem)
              rw [List.map_cons, List.map_cons, hcontents y, own?_define_of_ne hne, hfirst y]

end Lists

/-! ### Representing -/

/-- The state stands for the world: its scopes have the contents of the maps and no other names, and
the world's text is what was shown before followed by what the state has printed. -/
structure Represents (shown : String) (s : State) (w : World) : Prop where
  chained : Chained w.scopes.length s
  contents : ∀ x, s.stack.map (fun i => s.forest.own? i (.ofText x)) = w.scopes.map (·.lookup x)
  names : ∀ i name, (s.forest.own? i name).isSome → ∃ x, name.key = .text x
  out_eq : w.out = shown ++ printedBy s.effects

namespace Represents

variable {shown : String} {s t : State} {w w' : World}

/-- Only the scopes and what has been printed matter. -/
theorem of_forest (h : Represents shown s w) (hforest : t.forest = s.forest)
    (hstack : t.stack = s.stack) (hout : printedBy t.effects = printedBy s.effects) :
    Represents shown t w where
  chained := h.chained.of_forest hstack (by rw [hforest]) (by simp [hforest])
  contents x := by rw [hstack, hforest, h.contents x]
  names i name hname := h.names i name (by rwa [← hforest])
  out_eq := by rw [hout, h.out_eq]

theorem trace (h : Represents shown s w) (config : Config) (event : Event) :
    Represents shown (s.trace config event) w :=
  h.of_forest (by simp) (by simp) (by simp)

theorem print (h : Represents shown s w) (text : String) :
    Represents shown (s.print text) (w.print text) where
  chained := h.chained.of_forest rfl rfl fun _ => rfl
  contents := h.contents
  names := h.names
  out_eq := by simp [World.print, State.print, printedBy, h.out_eq, String.append_assoc]

/-! ### Variables -/

/-- Reading finds what the maps have. -/
theorem get?_eq (h : Represents shown s w) (x : String) :
    s.forest.get? s.current (.ofText x) = w.lookup? x := by
  rw [World.lookup?, ← bind_find?_own? (h.contents x), ← h.chained.chain_eq]
  rfl

/-- Binding a name gives no scope a name that is no text. -/
theorem names_define (h : Represents shown s w) (j : Nat) (x : String) (v : Value) (i : Nat)
    (name : Name) (hname : ((s.forest.define j (.ofText x) v).own? i name).isSome) :
    ∃ y, name.key = .text y := by
  rw [Forest.own?_define] at hname
  split at hname
  · next hcase => exact ⟨x, hcase.2.2⟩
  · exact h.names i name hname

/-- Assigning changes the scope that the maps are changed in, or fails where they have no such
name. -/
theorem assign (h : Represents shown s w) (x : String) (v : Value) :
    match w.assign? x v with
    | some w' => ∃ forest, s.forest.assign? s.current (.ofText x) v = some forest ∧
        Represents shown { s with forest } w'
    | none => s.forest.assign? s.current (.ofText x) v = none := by
  have hassign : s.forest.assign? s.current (.ofText x) v =
      (s.stack.find? fun i => (s.forest.own? i (.ofText x)).isSome).map
        (s.forest.define · (.ofText x) v) := by
    rw [Forest.assign?, Forest.holder?, h.chained.chain_eq]
    cases s.stack.find? fun i => (s.forest.own? i (.ofText x)).isSome <;> rfl
  rw [hassign, World.assign?]
  cases hfind : s.stack.find? fun i => (s.forest.own? i (.ofText x)).isSome with
  | none =>
      rw [assignIn_eq_none (h.contents x) hfind v]
      rfl
  | some j =>
      obtain ⟨frames, hframes, hcontents⟩ := assignIn_of_find? h.chained.nodup_stack
        (fun i hi => h.chained.lt_size_of_mem hi) h.contents hfind v
      rw [hframes]
      refine ⟨_, rfl, ?_, hcontents, h.names_define j x v, h.out_eq⟩
      rw [length_assignIn hframes]
      exact h.chained.of_forest rfl (by simp) (by simp)

/-- Binding a name in the innermost scope. -/
theorem define (h : Represents shown s w) (x : String) (v : Value) :
    Represents shown { s with forest := s.forest.define s.current (.ofText x) v } (w.bind x v) := by
  have hchained : Chained (w.bind x v).scopes.length
      { s with forest := s.forest.define s.current (.ofText x) v } := by
    rw [World.length_bind]
    exact h.chained.of_forest rfl (by simp) (by simp)
  refine ⟨hchained, ?_, h.names_define _ x v, h.out_eq⟩
  intro y
  have hchain := h.chained
  have hcontents := h.contents y
  cases hscopes : w.scopes with
  | nil =>
      rw [hscopes] at hchain
      exact absurd hchain.pos (Nat.lt_irrefl 0)
  | cons frame frames =>
      rw [hscopes, List.length_cons] at hchain
      rw [hscopes, hchain.stack_cons, List.map_cons, List.map_cons] at hcontents
      obtain ⟨hfirst, hothers⟩ := List.cons.inj hcontents
      have hsize : frames.length < s.forest.size := by
        rw [hchain.size_eq]
        exact Nat.lt_succ_self _
      show s.stack.map _ = _
      rw [hchain.stack_cons, hchain.current_eq, World.bind, hscopes]
      simp only [bindIn, List.map_cons]
      rw [lookup_insert_eq hsize hfirst, ← hothers]
      congr 1
      apply List.map_congr_left
      intro i hi
      rw [List.mem_reverse, List.mem_range] at hi
      exact own?_define_of_ne (Nat.ne_of_lt hi) _ _

/-! ### Around a block -/

theorem openScope (h : Represents shown s w) (config : Config) :
    Represents shown (s.openScope config) w.push where
  chained := h.chained.openScope config
  contents x := by
    have hnone : s.forest.own? s.forest.size (.ofText x) = none := by
      simp [Forest.own?, Forest.bindings, Forest.size]
    simp [World.push, hnone, h.contents x]
  names i name hname := h.names i name (by simpa using hname)
  out_eq := by simp [World.push, h.out_eq]

theorem closeScope (h : Represents shown s w) (hscopes : 1 < w.scopes.length) (config : Config) :
    Represents shown (s.closeScope config) w.pop := by
  obtain ⟨n, hn⟩ : ∃ n, w.scopes.length = n + 1 := ⟨w.scopes.length - 1, by omega⟩
  have hchained := h.chained
  rw [hn] at hchained
  have hsize := hchained.size_eq
  refine ⟨?_, ?_, ?_, ?_⟩
  · rw [World.pop, List.length_tail, hn]
    exact hchained.closeScope (by omega) config
  · intro x
    have hcontents := congrArg List.tail (h.contents x)
    rw [← List.map_tail, ← List.map_tail, hchained.stack_cons, List.tail_cons] at hcontents
    rw [State.stack_closeScope, State.forest_closeScope, World.pop, ← hcontents,
      hchained.stack_cons, List.tail_cons]
    apply List.map_congr_left
    intro i hi
    rw [List.mem_reverse, List.mem_range] at hi
    exact Forest.own?_dropNewest (by omega) _
  · intro i name hname
    rw [State.forest_closeScope] at hname
    by_cases hi : i + 1 < s.forest.size
    · exact h.names i name (by rwa [← Forest.own?_dropNewest hi])
    · have hnone : s.forest.dropNewest.scopes[i]? = none := by
        apply Array.getElem?_eq_none
        have := s.forest.size_dropNewest
        simp only [Forest.size] at this hi
        omega
      simp [Forest.own?, Forest.bindings, hnone] at hname
  · rw [printedBy_closeScope]
    exact h.out_eq

/-! ### Which worlds a state represents -/

/-- A state represents one world at most. -/
theorem unique (h : Represents shown s w) (h' : Represents shown s w') : w = w' := by
  obtain ⟨scopes, out⟩ := w
  obtain ⟨scopes', out'⟩ := w'
  have hout : out = out' := h.out_eq.trans h'.out_eq.symm
  have hlookup : ∀ x, scopes.map (·.lookup x) = scopes'.map (·.lookup x) :=
    fun x => (h.contents x).symm.trans (h'.contents x)
  have hlength : scopes.length = scopes'.length := by
    simpa using congrArg List.length (hlookup "")
  have hscopes : scopes = scopes' := by
    apply List.ext_getElem hlength
    intro i hi hi'
    apply Finmap.ext_lookup
    intro x
    have hget := congrArg (·[i]?) (hlookup x)
    simpa [hi, hi'] using hget
  rw [hout, hscopes]

theorem initial (shown : String) : Represents shown .initial { scopes := [∅], out := shown } where
  chained := .initial
  contents _ := rfl
  names i name hname := by
    have hnone : State.initial.forest.own? i name = none := by
      rw [State.initial, Forest.own?_add]
      simp [Forest.own?, Forest.bindings, Forest.empty]
    simp [hnone] at hname
  out_eq := by simp [State.initial, printedBy]

/-- The names of a map can be bound one after the other. -/
theorem exists_fill {frames : List Frame} {out : String}
    (h : ∃ s, Represents out s { scopes := ∅ :: frames, out }) (frame : Frame) :
    ∃ s, Represents out s { scopes := frame :: frames, out } := by
  induction frame using Finmap.induction_on with
  | H entries =>
      induction entries using AList.insertRec with
      | H0 => exact h
      | IH x v entries _ ih =>
          obtain ⟨s, hs⟩ := ih
          have hdefine := hs.define x v
          rw [World.bind, bindIn, Finmap.insert_toFinmap] at hdefine
          exact ⟨_, hdefine⟩

end Represents

/-- **Every stack of scopes is represented.** -/
theorem exists_represents {w : World} (h : w.scopes ≠ []) : ∃ s, Represents w.out s w := by
  obtain ⟨scopes, out⟩ := w
  induction scopes with
  | nil => exact absurd rfl h
  | cons frame frames ih =>
      apply Represents.exists_fill
      cases frames with
      | nil => exact ⟨_, .initial out⟩
      | cons outer frames =>
          obtain ⟨s, hs⟩ := ih (List.cons_ne_nil _ _)
          exact ⟨_, hs.openScope {}⟩

end ScriptLang
