import ScriptLang.Parse.Statement

/-!
# Parsers that build something

What it means for a parser to build a value without noting an error, and one equivalence for every
step that parsers are made of. The equivalences serve both directions: read from left to right they
take a finished parse apart, read from right to left they put one together.

## Main Definitions

* `Parser.Builds`: from one cursor to another, a parser builds a value and notes nothing.

## Main Statements

* `builds_bind`, `builds_accept_some`, `builds_expect`, `builds_recover`: the steps.
* `parse_eq_ok_iff`: a program is accepted if its list of declarations is built.
-/

namespace ScriptLang.Parse

/-- From the cursor `c` the parser builds `a`, leaves the cursor `c'`, and notes nothing. -/
def Parser.Builds {α : Type} (p : Parser α) (c : Cursor) (a : α) (c' : Cursor) : Prop :=
  p c = .done a c' []

section Steps

variable {α β : Type} {c c' : Cursor}

/-- The outcome of two steps is noted nothing only if both noted nothing. -/
theorem after_eq_done_nil {earlier : List Blame} {o : Outcome α} {a : α} :
    o.after earlier = .done a c [] ↔ earlier = [] ∧ o = .done a c [] := by
  cases o <;> simp [Outcome.after, and_comm, and_left_comm]

@[simp] theorem builds_pure {a b : α} :
    Parser.Builds (pure a) c b c' ↔ a = b ∧ c = c' := by
  simp [Parser.Builds, pure, Parser.pure]

/-- Two steps build something if both do. -/
@[simp] theorem builds_bind {p : Parser α} {f : α → Parser β} {b : β} :
    Parser.Builds (p >>= f) c b c' ↔
      ∃ a next, Parser.Builds p c a next ∧ Parser.Builds (f a) next b c' := by
  simp only [Parser.Builds, bind, Parser.bind]
  constructor
  · intro h
    cases hp : p c with
    | done a next noted =>
        rw [hp] at h
        obtain ⟨rfl, hf⟩ := after_eq_done_nil.1 h
        exact ⟨a, next, rfl, hf⟩
    | failed blame next noted => rw [hp] at h; cases h
    | halted cause next noted => rw [hp] at h; cases h
  · rintro ⟨a, next, hp, hf⟩
    rw [hp]
    simpa using hf

@[simp] theorem builds_map {p : Parser α} {f : α → β} {b : β} :
    Parser.Builds (f <$> p) c b c' ↔ ∃ a, Parser.Builds p c a c' ∧ f a = b := by
  have hmap : (f <$> p : Parser β) = p >>= fun a => pure (f a) := rfl
  rw [hmap]
  simp only [builds_bind, builds_pure]
  constructor
  · rintro ⟨a, next, hp, hb, rfl⟩
    exact ⟨a, hp, hb⟩
  · rintro ⟨a, hp, hb⟩
    exact ⟨a, c', hp, hb, rfl⟩

@[simp] theorem builds_halt {cause : Halt} {a : α} : ¬ Parser.Builds (halt cause) c a c' := by
  simp [Parser.Builds, halt]

@[simp] theorem builds_fail {fault : Fault} {a : α} : ¬ Parser.Builds (fail fault) c a c' := by
  unfold Parser.Builds fail
  split <;> simp

@[simp] theorem builds_note {blame : Blame} {u : Unit} : ¬ Parser.Builds (note blame) c u c' := by
  simp [Parser.Builds, note]

@[simp] theorem builds_here {i : Nat} : Parser.Builds here c i c' ↔ i = c.index ∧ c' = c := by
  simp [Parser.Builds, here, eq_comm]

@[simp] theorem builds_remaining {n : Nat} :
    Parser.Builds remaining c n c' ↔ n = c.rest.length ∧ c' = c := by
  simp [Parser.Builds, remaining, eq_comm]

@[simp] theorem builds_peek {t : Token} :
    Parser.Builds peek c t c' ↔ c' = c ∧ ∃ rest, c.rest = t :: rest := by
  obtain ⟨index, rest⟩ := c
  cases rest with
  | nil => simp [Parser.Builds, peek]
  | cons u rest => simp [Parser.Builds, peek, eq_comm, and_comm]

@[simp] theorem builds_advance {u : Unit} :
    Parser.Builds advance c u c' ↔ ∃ t rest, c.rest = t :: rest ∧ c' = ⟨c.index + 1, rest⟩ := by
  obtain ⟨index, rest⟩ := c
  cases rest with
  | nil => simp [Parser.Builds, advance]
  | cons t rest =>
      simp only [Parser.Builds, advance, Outcome.done.injEq, and_true, true_and, List.cons.injEq]
      constructor
      · rintro rfl
        exact ⟨t, rest, ⟨rfl, rfl⟩, rfl⟩
      · rintro ⟨_, _, ⟨rfl, rfl⟩, rfl⟩
        rfl

/-- Moving past a token that is there. -/
theorem builds_advance_bind {f : Unit → Parser β} {b : β} {i : Nat} {t : Token}
    {rest : List Token} :
    Parser.Builds (advance >>= f) ⟨i, t :: rest⟩ b c' ↔
      Parser.Builds (f ()) ⟨i + 1, rest⟩ b c' := by
  simp only [builds_bind, builds_advance]
  constructor
  · rintro ⟨_, _, ⟨_, _, hcons, rfl⟩, hf⟩
    cases hcons
    exact hf
  · intro hf
    exact ⟨(), _, ⟨t, rest, rfl, rfl⟩, hf⟩

/-- A parser that looks at the next token needs one. -/
theorem builds_peek_bind {f : Token → Parser β} {b : β} :
    Parser.Builds (peek >>= f) c b c' ↔
      ∃ i t rest, c = ⟨i, t :: rest⟩ ∧ Parser.Builds (f t) ⟨i, t :: rest⟩ b c' := by
  obtain ⟨i, ts⟩ := c
  simp only [builds_bind, builds_peek]
  constructor
  · rintro ⟨t, _, ⟨rfl, rest, hcons⟩, hf⟩
    cases hcons
    exact ⟨i, t, rest, rfl, hf⟩
  · rintro ⟨_, t, rest, hc, hf⟩
    cases hc
    exact ⟨t, _, ⟨rfl, rest, rfl⟩, hf⟩

/-- A token is taken if it is not the end and of a kind that is asked for. -/
@[simp] theorem builds_accept_some {kinds : TokenKind → Bool} {t : Token} :
    Parser.Builds (accept? kinds) c (some t) c' ↔
      c.rest = t :: c'.rest ∧ c'.index = c.index + 1 ∧ t.isEnd = false ∧ kinds t.kind = true := by
  obtain ⟨index, rest⟩ := c
  obtain ⟨index', rest'⟩ := c'
  cases rest with
  | nil => simp [accept?]
  | cons u rest =>
      cases hu : !u.isEnd && kinds u.kind with
      | true =>
          simp only [accept?, builds_bind, builds_peek]
          constructor
          · rintro ⟨_, _, ⟨rfl, _, hcons⟩, h⟩
            cases hcons
            simp only [hu, if_true, builds_bind, builds_advance, builds_pure] at h
            obtain ⟨_, _, ⟨_, _, hcons, rfl⟩, ht, hc⟩ := h
            cases hcons; cases ht; cases hc
            simp only [Bool.and_eq_true, Bool.not_eq_true'] at hu
            exact ⟨rfl, rfl, hu⟩
          · rintro ⟨hcons, hindex, -, -⟩
            cases hcons; subst hindex
            refine ⟨t, _, ⟨rfl, rest', rfl⟩, ?_⟩
            simp [hu]
      | false =>
          simp only [accept?, builds_bind, builds_peek]
          constructor
          · rintro ⟨_, _, ⟨rfl, _, hcons⟩, h⟩
            cases hcons
            simp [hu] at h
          · rintro ⟨hcons, -, hend, hkind⟩
            cases hcons
            simp [hend, hkind] at hu

/-- A token stays where it is if it is the end or of none of the kinds asked for. -/
@[simp] theorem builds_accept_none {kinds : TokenKind → Bool} :
    Parser.Builds (accept? kinds) c none c' ↔
      c' = c ∧ ∃ t rest, c.rest = t :: rest ∧ (t.isEnd = true ∨ kinds t.kind = false) := by
  obtain ⟨index, rest⟩ := c
  cases rest with
  | nil => simp [accept?]
  | cons u rest =>
      simp only [accept?, builds_bind, builds_peek]
      constructor
      · rintro ⟨_, _, ⟨rfl, _, hcons⟩, h⟩
        cases hcons
        cases hu : !u.isEnd && kinds u.kind with
        | true => simp [hu] at h
        | false =>
            simp only [hu, Bool.false_eq_true, if_false, builds_pure, true_and] at h
            refine ⟨h.symm, u, rest, rfl, ?_⟩
            cases hend : u.isEnd <;> simp_all
      · rintro ⟨rfl, t, _, hcons, ht⟩
        cases hcons
        refine ⟨u, _, ⟨rfl, rest, rfl⟩, ?_⟩
        rcases ht with ht | ht <;> simp [ht]

/-- A token is expected and found. -/
@[simp] theorem builds_expect {kind : TokenKind} {fault : Fault} {t : Token} :
    Parser.Builds (expect kind fault) c t c' ↔
      c.rest = t :: c'.rest ∧ c'.index = c.index + 1 ∧ t.isEnd = false ∧ t.kind = kind := by
  simp only [expect, builds_bind]
  constructor
  · rintro ⟨o, next, hmatch, h⟩
    cases o with
    | none => simp at h
    | some u =>
        simp only [builds_pure] at h
        obtain ⟨rfl, rfl⟩ := h
        simpa using hmatch
  · intro h
    exact ⟨some t, c', by simpa using h, by simp⟩

/-- Recovery notes what fails, so it builds something only if there is nothing to recover from. -/
@[simp] theorem builds_recover {p : Parser α} {o : Option α} :
    Parser.Builds (recover p) c o c' ↔ ∃ a, o = some a ∧ Parser.Builds p c a c' := by
  unfold Parser.Builds recover
  cases hp : p c with
  | done a next noted =>
      simp only [Outcome.done.injEq]
      constructor
      · rintro ⟨rfl, rfl, rfl⟩
        exact ⟨a, rfl, rfl, rfl, rfl⟩
      · rintro ⟨_, rfl, rfl, rfl, rfl⟩
        exact ⟨rfl, rfl, rfl⟩
  | halted cause next noted => simp
  | failed blame next noted => cases hs : synchronize next <;> simp [hs]

end Steps

/-- A program is accepted exactly if its declarations are built. -/
theorem parse_eq_ok_iff {limit : Nat} {tokens : List Token} {program : List Stmt} :
    parse limit tokens = .ok program ↔
      ∃ c', (declarations .endOfInput (declaration (expression limit) (statement limit))
        (tokens.length + 1)).Builds { index := 0, rest := tokens } program c' := by
  unfold parse Parser.Builds
  dsimp only
  split
  · next stmts next noted h =>
      rw [h]
      cases noted <;> simp [verdict, and_comm]
  · next blame next noted h =>
      rw [h]
      cases noted <;> simp [verdict]
  · next next noted h => simp [h]
  · next next noted h =>
      rw [h]
      split
      · simp
      · cases noted <;> simp [verdict]

end ScriptLang.Parse
