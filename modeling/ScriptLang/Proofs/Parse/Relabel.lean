import ScriptLang.Parse.Statement
import ScriptLang.Proofs.Tree.Relabel

/-!
# What a parser sees of its tokens

A parser looks at the kinds and the literals of its tokens, and at how many there are; it never
looks at texts, at lines or at its own position. Other tokens of the same kinds and literals, at
other positions, therefore make it do the same thing with the other tokens in its tree and in its
reports. On the way it never moves past the token for the end of the input, and what it reports is a
token at the position where that token stands.

## Main Definitions

* `Cursor.Within`: the cursor stands in a list of tokens, at its end or in front of it.
* `Blame.PointsInto`: the blamed token stands where the report says.
* `Relabeling`: other tokens with the same kinds and literals, and how far positions move.
* `Parser.Alike`: two parsers do the same thing up to a relabeling.

## Main Statements

* `alike_expression`, `alike_statement`, `alike_program`: so do the parsers, each to itself.
* `parse_relabel`: a parse of other tokens.
* `pointsInto_of_parse`: what a parse reports stands where the report says.

## Design Notes

Both facts are one property, since a failure carries a token and a position that were read apart:
each step is shown to keep it once.
-/

namespace ScriptLang.Parse

/-! ### Cursors and reports -/

/-- A token for the end of the input stands at the cursor or behind it. -/
def Cursor.HasEnd (c : Cursor) : Prop := ∃ t ∈ c.rest, t.isEnd = true

theorem Cursor.HasEnd.exists_cons {c : Cursor} (h : c.HasEnd) : ∃ t rest, c.rest = t :: rest := by
  obtain ⟨t, ht, -⟩ := h
  cases hrest : c.rest with
  | nil => rw [hrest] at ht; cases ht
  | cons u rest => exact ⟨u, rest, rfl⟩

/-- Behind a token that is not the end, the end is still to come. -/
theorem Cursor.HasEnd.tail {i j : Nat} {t : Token} {rest : List Token}
    (h : Cursor.HasEnd ⟨i, t :: rest⟩) (ht : t.isEnd = false) : Cursor.HasEnd ⟨j, rest⟩ := by
  obtain ⟨u, hu, hend⟩ := h
  rcases List.mem_cons.1 hu with rfl | hu
  · rw [hend] at ht; cases ht
  · exact ⟨u, hu, hend⟩

/-- The cursor stands in the list of tokens, in front of an end or at one. -/
structure Cursor.Within (tokens : List Token) (c : Cursor) : Prop where
  rest_eq : c.rest = tokens.drop c.index
  hasEnd : c.HasEnd

/-- The blamed token stands in the list of tokens at the position of the report. -/
def Blame.PointsInto (tokens : List Token) (blame : Blame) : Prop :=
  tokens[blame.index]? = some blame.token

section Within

variable {tokens rest : List Token} {i : Nat} {t : Token}

theorem Cursor.Within.getElem? (h : Cursor.Within tokens ⟨i, t :: rest⟩) : tokens[i]? = some t := by
  have hrest : t :: rest = tokens.drop i := h.rest_eq
  rw [← List.head?_drop, ← hrest, List.head?_cons]

theorem Cursor.Within.tail (h : Cursor.Within tokens ⟨i, t :: rest⟩) (ht : t.isEnd = false) :
    Cursor.Within tokens ⟨i + 1, rest⟩ := by
  refine ⟨?_, h.hasEnd.tail ht⟩
  have hrest : t :: rest = tokens.drop i := h.rest_eq
  rw [← List.tail_drop, ← hrest, List.tail_cons]

end Within

/-- Other tokens with the same kinds and literals, and how far positions move. -/
structure Relabeling where
  token : Token → Token
  kind_token : ∀ t, (token t).kind = t.kind
  literal_token : ∀ t, (token t).literal = t.literal
  offset : Nat

attribute [simp] Relabeling.kind_token Relabeling.literal_token

namespace Relabeling

/-- No other tokens at all. -/
def id : Relabeling := ⟨fun t => t, fun _ => rfl, fun _ => rfl, 0⟩

/-- The tokens `lines` further down and `tokens` further on. -/
def later (lines tokens : Nat) : Relabeling :=
  ⟨Token.later lines, Token.kind_later lines, Token.literal_later lines, tokens⟩

@[simp] theorem isEnd_token (r : Relabeling) (t : Token) : (r.token t).isEnd = t.isEnd := by
  simp [Token.isEnd]

end Relabeling

/-- The cursor among the other tokens. -/
def Cursor.relabel (r : Relabeling) (c : Cursor) : Cursor :=
  { index := c.index + r.offset, rest := c.rest.map r.token }

/-- The report about the other tokens. -/
def Blame.relabel (r : Relabeling) (blame : Blame) : Blame :=
  { blame with token := r.token blame.token, index := blame.index + r.offset }

/-! ### Parsers that do the same thing -/

/-- The outcome among the other tokens, the value being moved by `move`. -/
def Outcome.relabel {α : Type} (r : Relabeling) (move : α → α) : Outcome α → Outcome α
  | .done value next noted =>
    .done (move value) (next.relabel r) (noted.map (Blame.relabel r))
  | .failed blame next noted =>
    .failed (blame.relabel r) (next.relabel r) (noted.map (Blame.relabel r))
  | .halted cause next noted => .halted cause (next.relabel r) (noted.map (Blame.relabel r))

/-- However the outcome, the cursor stands in the tokens at the position `start` or behind it, if
the parser is done at `stop` or behind it, and every report points into the tokens. They have not run
out. -/
def Outcome.Points {α : Type} (tokens : List Token) (start stop : Nat) : Outcome α → Prop
  | .done _ next noted =>
    next.Within tokens ∧ stop ≤ next.index ∧ ∀ blame ∈ noted, blame.PointsInto tokens
  | .failed blame next noted =>
    next.Within tokens ∧ start ≤ next.index ∧ blame.PointsInto tokens ∧
      ∀ blame ∈ noted, blame.PointsInto tokens
  | .halted cause next noted =>
    next.Within tokens ∧ start ≤ next.index ∧ cause = .tooDeep ∧
      ∀ blame ∈ noted, blame.PointsInto tokens

/-- From the cursor `c` in the tokens the parser `p` does what `q` does among the other tokens. If it
is done it has moved past `n` tokens at least. -/
structure Parser.AlikeAt {α : Type} (r : Relabeling) (tokens : List Token) (n : Nat)
    (move : α → α) (p q : Parser α) (c : Cursor) : Prop where
  points : (p c).Points tokens c.index (c.index + n)
  relabel_eq : q (c.relabel r) = (p c).relabel r move

/-- In the tokens the parser `p` does what `q` does among the other tokens. If it is done it has
moved past `n` tokens at least. -/
def Parser.Alike {α : Type} (r : Relabeling) (tokens : List Token) (n : Nat) (move : α → α)
    (p q : Parser α) : Prop :=
  ∀ c : Cursor, c.Within tokens → p.AlikeAt r tokens n move q c

section Steps

variable {α β : Type} {r : Relabeling} {tokens : List Token} {move : α → α} {moveNext : β → β}
variable {p q : Parser α} {f g : α → Parser β} {k n : Nat}

theorem Outcome.Points.after {o : Outcome α} {start stop : Nat}
    (h : o.Points tokens start stop) {earlier : List Blame}
    (hearlier : ∀ blame ∈ earlier, blame.PointsInto tokens) :
    (o.after earlier).Points tokens start stop := by
  cases o with
  | done value next noted =>
      exact ⟨h.1, h.2.1, List.forall_mem_append.2 ⟨hearlier, h.2.2⟩⟩
  | failed blame next noted =>
      exact ⟨h.1, h.2.1, h.2.2.1, List.forall_mem_append.2 ⟨hearlier, h.2.2.2⟩⟩
  | halted cause next noted =>
      exact ⟨h.1, h.2.1, h.2.2.1, List.forall_mem_append.2 ⟨hearlier, h.2.2.2⟩⟩

theorem Outcome.Points.mono {o : Outcome α} {start stop start' stop' : Nat}
    (h : o.Points tokens start stop) (hstart : start' ≤ start) (hstop : stop' ≤ stop) :
    o.Points tokens start' stop' := by
  cases o with
  | done value next noted => exact ⟨h.1, Nat.le_trans hstop h.2.1, h.2.2⟩
  | failed blame next noted => exact ⟨h.1, Nat.le_trans hstart h.2.1, h.2.2⟩
  | halted cause next noted => exact ⟨h.1, Nat.le_trans hstart h.2.1, h.2.2⟩

@[simp] theorem Outcome.relabel_done (a : α) (next : Cursor) (noted : List Blame) :
    (Outcome.done a next noted).relabel r move =
      .done (move a) (next.relabel r) (noted.map (Blame.relabel r)) := rfl

@[simp] theorem Outcome.relabel_failed (blame : Blame) (next : Cursor) (noted : List Blame) :
    (Outcome.failed blame next noted).relabel r move =
      .failed (blame.relabel r) (next.relabel r) (noted.map (Blame.relabel r)) := rfl

@[simp] theorem Outcome.relabel_halted (cause : Halt) (next : Cursor) (noted : List Blame) :
    (Outcome.halted cause next noted).relabel r move =
      .halted cause (next.relabel r) (noted.map (Blame.relabel r)) := rfl

theorem Outcome.relabel_after (o : Outcome α) (earlier : List Blame) :
    (o.after earlier).relabel r move =
      (o.relabel r move).after (earlier.map (Blame.relabel r)) := by
  cases o <;> simp [Outcome.after]

theorem bind_of_done {c next : Cursor} {a : α} {noted : List Blame}
    (h : p c = .done a next noted) : (p >>= f) c = (f a next).after noted := by
  simp only [bind, Parser.bind, h]

theorem bind_of_failed {c next : Cursor} {blame : Blame} {noted : List Blame}
    (h : p c = .failed blame next noted) : (p >>= f) c = .failed blame next noted := by
  simp only [bind, Parser.bind, h]

theorem bind_of_halted {c next : Cursor} {cause : Halt} {noted : List Blame}
    (h : p c = .halted cause next noted) : (p >>= f) c = .halted cause next noted := by
  simp only [bind, Parser.bind, h]

theorem alike_pure (a : α) : Parser.Alike r tokens 0 move (pure a) (pure (move a)) :=
  fun _ h => ⟨⟨h, Nat.le_refl _, by simp⟩, rfl⟩

/-- That a step moves on can be left open. -/
theorem Parser.Alike.still (h : p.Alike r tokens n move q) : p.Alike r tokens 0 move q :=
  fun c hc => ⟨(h c hc).points.mono (Nat.le_refl _) (by omega), (h c hc).relabel_eq⟩

theorem alike_bind_at {c : Cursor} (hp : p.AlikeAt r tokens n move q c)
    (hf : ∀ a, (f a).Alike r tokens 0 moveNext (g (move a))) (hk : k ≤ n) :
    (p >>= f).AlikeAt r tokens k moveNext (q >>= g) c := by
  obtain ⟨hpoints, heq⟩ := hp
  cases hpc : p c with
  | done a next noted =>
      rw [hpc] at hpoints heq
      obtain ⟨hwithin, hstop, hnoted⟩ := hpoints
      obtain ⟨hnext, heqnext⟩ := hf a next hwithin
      constructor
      · rw [bind_of_done hpc]
        exact (hnext.mono (by omega) (by omega)).after hnoted
      · rw [bind_of_done hpc, bind_of_done heq, heqnext, Outcome.relabel_after]
  | failed blame next noted =>
      rw [hpc] at hpoints heq
      constructor
      · rw [bind_of_failed hpc]
        exact hpoints
      · rw [bind_of_failed hpc, bind_of_failed heq]
        rfl
  | halted cause next noted =>
      rw [hpc] at hpoints heq
      constructor
      · rw [bind_of_halted hpc]
        exact hpoints
      · rw [bind_of_halted hpc, bind_of_halted heq]
        rfl

/-- Two steps move past as many tokens as the first of them does. -/
theorem alike_bind (hp : p.Alike r tokens n move q)
    (hf : ∀ a, (f a).Alike r tokens 0 moveNext (g (move a))) :
    (p >>= f).Alike r tokens n moveNext (q >>= g) :=
  fun c h => alike_bind_at (hp c h) hf (Nat.le_refl n)

/-- What is done with a token at the cursor may hang on where it stands. -/
theorem alike_peek_bind {f g : Token → Parser β}
    (hf : ∀ i t rest, Cursor.Within tokens ⟨i, t :: rest⟩ →
      (f t).AlikeAt r tokens n moveNext (g (r.token t)) ⟨i, t :: rest⟩) :
    (peek >>= f).Alike r tokens n moveNext (peek >>= g) := by
  intro c h
  obtain ⟨i, ts⟩ := c
  obtain ⟨t, rest, rfl⟩ := h.hasEnd.exists_cons
  obtain ⟨hpoints, heq⟩ := hf i t rest h
  constructor
  · simpa [bind, Parser.bind, peek] using hpoints
  · simpa [bind, Parser.bind, peek, Cursor.relabel] using heq

theorem alike_advance_bind {f g : Unit → Parser β} {i : Nat} {t : Token} {rest : List Token}
    (h : Cursor.Within tokens ⟨i, t :: rest⟩) (ht : t.isEnd = false)
    (hf : (f ()).Alike r tokens (n - 1) moveNext (g ())) :
    (advance >>= f).AlikeAt r tokens n moveNext (advance >>= g) ⟨i, t :: rest⟩ := by
  obtain ⟨hpoints, heq⟩ := hf _ (h.tail ht)
  constructor
  · simpa [bind, Parser.bind, advance] using
      hpoints.mono (Nat.le_succ i) (show i + n ≤ i + 1 + (n - 1) by omega)
  · simpa [bind, Parser.bind, advance, Cursor.relabel, Nat.add_right_comm] using heq

theorem alike_here_bind {f g : Nat → Parser β} {c : Cursor}
    (hf : (f c.index).AlikeAt r tokens n moveNext (g (c.index + r.offset)) c) :
    (here >>= f).AlikeAt r tokens n moveNext (here >>= g) c := by
  obtain ⟨hpoints, heq⟩ := hf
  constructor
  · simpa [bind, Parser.bind, here] using hpoints
  · simpa [bind, Parser.bind, here, Cursor.relabel] using heq

theorem alike_remaining : Parser.Alike r tokens 0 id remaining remaining :=
  fun c h => ⟨⟨h, Nat.le_refl _, by simp⟩, by simp [remaining, Cursor.relabel, Outcome.relabel]⟩

theorem alike_tooDeep : Parser.Alike r tokens n move (halt .tooDeep) (halt .tooDeep) :=
  fun _ h => ⟨⟨h, Nat.le_refl _, rfl, by simp⟩, rfl⟩

theorem alike_fail (fault : Fault) : Parser.Alike r tokens n move (fail fault) (fail fault) := by
  intro c h
  obtain ⟨i, ts⟩ := c
  obtain ⟨t, rest, rfl⟩ := h.hasEnd.exists_cons
  exact ⟨⟨h, Nat.le_refl _, h.getElem?, by simp⟩, rfl⟩

/-- A report that points into the tokens is noted. -/
theorem alike_note {blame : Blame} (hblame : blame.PointsInto tokens) :
    Parser.Alike r tokens 0 id (note blame) (note (blame.relabel r)) :=
  fun _ h => ⟨⟨h, Nat.le_refl _, by simpa using hblame⟩, rfl⟩

/-- A token that is accepted is the one at the cursor, and not the end. -/
theorem accept_bind_of_true {f : Option Token → Parser β} {kinds : TokenKind → Bool} {i : Nat}
    {t : Token} {rest : List Token} (h : (!t.isEnd && kinds t.kind) = true) :
    (accept? kinds >>= f) ⟨i, t :: rest⟩ = f (some t) ⟨i + 1, rest⟩ := by
  have haccept : accept? kinds ⟨i, t :: rest⟩ = .done (some t) ⟨i + 1, rest⟩ [] := by
    simp [accept?, bind, Parser.bind, peek, advance, pure, Parser.pure, h, Outcome.after]
  rw [bind_of_done haccept, Outcome.after_nil]

theorem accept_bind_of_false {f : Option Token → Parser β} {kinds : TokenKind → Bool} {i : Nat}
    {t : Token} {rest : List Token} (h : (!t.isEnd && kinds t.kind) = false) :
    (accept? kinds >>= f) ⟨i, t :: rest⟩ = f none ⟨i, t :: rest⟩ := by
  have haccept : accept? kinds ⟨i, t :: rest⟩ = .done none ⟨i, t :: rest⟩ [] := by
    simp [accept?, bind, Parser.bind, peek, pure, Parser.pure, h, Outcome.after]
  rw [bind_of_done haccept, Outcome.after_nil]

/-- What is done with a token that is accepted may hang on where it stands. -/
theorem alike_accept_bind {f g : Option Token → Parser β} {kinds : TokenKind → Bool} {c : Cursor}
    (h : c.Within tokens) (hnone : (f none).Alike r tokens n moveNext (g none))
    (hsome : ∀ t, tokens[c.index]? = some t →
      (f (some t)).Alike r tokens (n - 1) moveNext (g (some (r.token t)))) :
    (accept? kinds >>= f).AlikeAt r tokens n moveNext (accept? kinds >>= g) c := by
  obtain ⟨i, ts⟩ := c
  obtain ⟨t, rest, rfl⟩ := h.hasEnd.exists_cons
  have htoken : (!(r.token t).isEnd && kinds (r.token t).kind) = (!t.isEnd && kinds t.kind) := by
    simp
  cases ht : !t.isEnd && kinds t.kind with
  | true =>
      have hend : t.isEnd = false := by
        cases hend : t.isEnd <;> simp_all
      obtain ⟨hpoints, heq⟩ := hsome t h.getElem? _ (h.tail hend)
      constructor
      · rw [accept_bind_of_true ht]
        exact hpoints.mono (Nat.le_succ i) (show i + n ≤ i + 1 + (n - 1) by omega)
      · rw [accept_bind_of_true ht, ← heq, Cursor.relabel, List.map_cons,
          accept_bind_of_true (htoken.trans ht), Cursor.relabel, Nat.add_right_comm]
  | false =>
      obtain ⟨hpoints, heq⟩ := hnone _ h
      constructor
      · rw [accept_bind_of_false ht]
        exact hpoints
      · rw [accept_bind_of_false ht, ← heq, Cursor.relabel, List.map_cons,
          accept_bind_of_false (htoken.trans ht)]

/-- A token is accepted, or not, without regard to where it stands. -/
theorem alike_accept {f g : Option Token → Parser β} {kinds : TokenKind → Bool}
    (hnone : (f none).Alike r tokens n moveNext (g none))
    (hsome : ∀ t, (f (some t)).Alike r tokens (n - 1) moveNext (g (some (r.token t)))) :
    (accept? kinds >>= f).Alike r tokens n moveNext (accept? kinds >>= g) :=
  fun _ h => alike_accept_bind h hnone fun t _ => hsome t

theorem alike_expect (kind : TokenKind) (fault : Fault) :
    Parser.Alike r tokens 1 r.token (expect kind fault) (expect kind fault) :=
  alike_accept (alike_fail fault) fun t => alike_pure t

/-! ### Recovery -/

/-- Skipping stops at the end at the latest, in front of the same token among the other ones. -/
theorem skip_within {i : Nat} {ts : List Token} (h : Cursor.Within tokens ⟨i, ts⟩)
    (previous : TokenKind) :
    ∃ c, skip previous i ts = some c ∧ c.Within tokens ∧ i ≤ c.index ∧
      skip previous (i + r.offset) (ts.map r.token) = some (c.relabel r) := by
  induction ts generalizing previous i with
  | nil =>
      obtain ⟨t, rest, hnil⟩ := h.hasEnd.exists_cons
      cases hnil
  | cons t ts ih =>
      simp only [skip, List.map_cons, Relabeling.isEnd_token, Relabeling.kind_token]
      split
      · exact ⟨_, rfl, h, Nat.le_refl _, rfl⟩
      · next hstop =>
          have ht : t.isEnd = false := by
            cases hend : t.isEnd <;> simp_all
          obtain ⟨c, hc, hwithin, hle, hskip⟩ := ih (h.tail ht) t.kind
          refine ⟨c, hc, hwithin, Nat.le_of_succ_le hle, ?_⟩
          rw [Nat.add_right_comm]
          exact hskip

/-- Recovery moves on, unless it stands at the end. -/
theorem synchronize_within {c : Cursor} (h : c.Within tokens) :
    ∃ boundary, synchronize c = some boundary ∧ boundary.Within tokens ∧
      (∀ t, tokens[c.index]? = some t → t.isEnd = false → c.index < boundary.index) ∧
      c.index ≤ boundary.index ∧ synchronize (c.relabel r) = some (boundary.relabel r) := by
  obtain ⟨i, ts⟩ := c
  obtain ⟨t, rest, rfl⟩ := h.hasEnd.exists_cons
  cases ht : t.isEnd with
  | true =>
      refine ⟨_, by simp [synchronize, ht], h, ?_, Nat.le_refl _,
        by simp [synchronize, Cursor.relabel, ht]⟩
      intro u hu hopen
      obtain rfl := Option.some.inj (h.getElem?.symm.trans hu)
      rw [ht] at hopen
      cases hopen
  | false =>
      obtain ⟨boundary, hboundary, hwithin, hlt, hskip⟩ := skip_within (r := r) (h.tail ht) t.kind
      refine ⟨boundary, by simpa [synchronize, ht] using hboundary, hwithin, fun _ _ _ => hlt,
        Nat.le_of_succ_le hlt, ?_⟩
      simpa [synchronize, Cursor.relabel, ht, Nat.add_right_comm] using hskip

theorem alike_recover (hp : p.Alike r tokens n move q) :
    (recover p).Alike r tokens 0 (Option.map move) (recover q) := by
  intro c h
  obtain ⟨hpoints, heq⟩ := hp c h
  cases hpc : p c with
  | done a next noted =>
      rw [hpc] at hpoints heq
      refine ⟨?_, by simp [recover, hpc, heq]⟩
      rw [recover, hpc]
      exact hpoints.mono (Nat.le_refl _) (Nat.le_add_right _ _)
  | halted cause next noted =>
      rw [hpc] at hpoints heq
      refine ⟨?_, by simp [recover, hpc, heq]⟩
      rw [recover, hpc]
      exact hpoints
  | failed blame next noted =>
      rw [hpc] at hpoints heq
      obtain ⟨hnext, hle, hblame, hnoted⟩ := hpoints
      obtain ⟨boundary, hboundary, hwithin, -, hon, hrelabel⟩ := synchronize_within (r := r) hnext
      constructor
      · rw [recover, hpc]
        simp only [hboundary]
        refine ⟨hwithin, Nat.le_trans hle hon, List.forall_mem_append.2 ⟨hnoted, ?_⟩⟩
        exact List.forall_mem_singleton.2 hblame
      · simp [recover, hpc, heq, hboundary, hrelabel]

end Steps

/-! ### Expressions -/

section Parsers

variable {r : Relabeling} {tokens : List Token}

theorem alike_chainTail {ops : TokenKind → Bool} {node : Expr → Token → Expr → Expr}
    (hnode : ∀ left op right, (node left op right).relabel r.token =
      node (left.relabel r.token) (r.token op) (right.relabel r.token))
    {operand : Parser Expr} (h : operand.Alike r tokens 1 (Expr.relabel r.token) operand) (k : Nat)
    (left : Expr) :
    (chainTail ops node operand k left).Alike r tokens 0 (Expr.relabel r.token)
      (chainTail ops node operand k (left.relabel r.token)) := by
  induction k generalizing left with
  | zero => exact alike_pure left
  | succ k ih =>
      refine alike_accept (alike_pure left) fun op => alike_bind h.still fun right => ?_
      rw [← hnode]
      exact ih (node left op right)

theorem alike_leftChain {ops : TokenKind → Bool} {node : Expr → Token → Expr → Expr}
    (hnode : ∀ left op right, (node left op right).relabel r.token =
      node (left.relabel r.token) (r.token op) (right.relabel r.token))
    {operand : Parser Expr} (h : operand.Alike r tokens 1 (Expr.relabel r.token) operand) :
    (leftChain ops node operand).Alike r tokens 1 (Expr.relabel r.token)
      (leftChain ops node operand) :=
  alike_bind h fun left => alike_bind alike_remaining fun k => alike_chainTail hnode h k left

theorem alike_operation {operand : Parser Expr}
    (h : operand.Alike r tokens 1 (Expr.relabel r.token) operand) :
    (operation operand).Alike r tokens 1 (Expr.relabel r.token) (operation operand) := by
  have hbinary : ∀ left op right, (Expr.binary left op right).relabel r.token =
      .binary (left.relabel r.token) (r.token op) (right.relabel r.token) := fun _ _ _ => rfl
  have hlogical : ∀ left op right, (Expr.logical left op right).relabel r.token =
      .logical (left.relabel r.token) (r.token op) (right.relabel r.token) := fun _ _ _ => rfl
  exact alike_leftChain hlogical <| alike_leftChain hlogical <| alike_leftChain hbinary <|
    alike_leftChain hbinary <| alike_leftChain hbinary <| alike_leftChain hbinary h

theorem alike_primary {inner : Parser Expr}
    (h : inner.Alike r tokens 1 (Expr.relabel r.token) inner) :
    (primary inner).Alike r tokens 1 (Expr.relabel r.token) (primary inner) := by
  apply alike_peek_bind
  intro i t rest hwithin
  simp only [Relabeling.kind_token, Relabeling.literal_token]
  split
  case h_6 hkind =>
    exact alike_advance_bind hwithin (by simp [Token.isEnd, hkind]) (alike_pure (Expr.ref t))
  case h_7 hkind =>
    refine alike_advance_bind hwithin (by simp [Token.isEnd, hkind]) ?_
    refine alike_bind h.still fun value => alike_bind (alike_expect _ _).still fun _ => ?_
    exact alike_pure (Expr.group value)
  case h_8 => exact alike_fail _ _ hwithin
  all_goals
    next hkind =>
      exact alike_advance_bind hwithin (by simp [Token.isEnd, hkind]) (alike_pure (Expr.literal _))

/-- An equals sign behind something that is no name is blamed where it stands. -/
theorem alike_assignment {equals : Token} {index : Nat} (hequals : tokens[index]? = some equals)
    (target value : Expr) :
    (assignment target equals index value).Alike r tokens 0 (Expr.relabel r.token)
      (assignment (target.relabel r.token) (r.token equals) (index + r.offset)
        (value.relabel r.token)) := by
  cases target with
  | ref name => exact alike_pure (Expr.assign name value)
  | _ =>
      have hblame : Blame.PointsInto tokens ⟨.assignmentTarget, equals, index⟩ := hequals
      exact alike_bind (alike_note hblame) fun _ => alike_pure _

theorem alike_expression_unary (n : Nat) :
    (expression n).Alike r tokens 1 (Expr.relabel r.token) (expression n) ∧
      (unary n).Alike r tokens 1 (Expr.relabel r.token) (unary n) := by
  induction n with
  | zero => exact ⟨alike_tooDeep, alike_tooDeep⟩
  | succ n ih =>
      obtain ⟨ihexpr, ihunary⟩ := ih
      constructor
      · refine alike_bind (alike_operation ihunary) fun target c h => alike_here_bind ?_
        -- The position of an equals sign is read in front of the sign itself.
        refine alike_accept_bind h (alike_pure target) fun equals hequals => ?_
        exact alike_bind ihexpr.still fun value => alike_assignment hequals target value
      · refine alike_accept (alike_primary ihexpr) fun op => ?_
        refine alike_bind ihunary.still fun operand => ?_
        exact alike_pure (Expr.unary op operand)

theorem alike_expression (n : Nat) :
    (expression n).Alike r tokens 1 (Expr.relabel r.token) (expression n) :=
  (alike_expression_unary n).1

/-! ### Statements -/

variable {expr : Parser Expr} {stmt : Parser Stmt} {decl : Parser (Option Stmt)}

theorem alike_variableDeclaration (hexpr : expr.Alike r tokens 1 (Expr.relabel r.token) expr) :
    (variableDeclaration expr).Alike r tokens 1 (Stmt.relabel r.token) (variableDeclaration expr) := by
  have hnone : Parser.Alike r tokens 0 (Option.map (Expr.relabel r.token)) (pure none) (pure none) :=
    alike_pure none
  have hsome : Parser.Alike r tokens 0 (Option.map (Expr.relabel r.token)) (some <$> expr)
      (some <$> expr) :=
    alike_bind hexpr.still fun value => alike_pure (some value)
  refine alike_bind (alike_expect _ _) fun name => ?_
  refine alike_accept (alike_bind hnone fun initial => ?_) fun _ =>
    alike_bind hsome fun initial => ?_
  all_goals
    exact alike_bind (alike_expect _ _).still fun _ => alike_pure (Stmt.declare name initial)

/-- A declaration or a statement before recovery, which moves on where it is done. -/
theorem alike_declared (hexpr : expr.Alike r tokens 1 (Expr.relabel r.token) expr)
    (hstmt : stmt.Alike r tokens 1 (Stmt.relabel r.token) stmt) :
    Parser.Alike r tokens 1 (Stmt.relabel r.token)
      (do match ← accept? (· = .varWord) with
          | some _ => variableDeclaration expr
          | none => stmt)
      (do match ← accept? (· = .varWord) with
          | some _ => variableDeclaration expr
          | none => stmt) :=
  alike_accept hstmt fun _ => (alike_variableDeclaration hexpr).still

theorem alike_declaration (hexpr : expr.Alike r tokens 1 (Expr.relabel r.token) expr)
    (hstmt : stmt.Alike r tokens 1 (Stmt.relabel r.token) stmt) :
    (declaration expr stmt).Alike r tokens 0 (Option.map (Stmt.relabel r.token))
      (declaration expr stmt) :=
  alike_recover (alike_declared hexpr hstmt)

theorem alike_declarations {closing : TokenKind}
    (h : decl.Alike r tokens 0 (Option.map (Stmt.relabel r.token)) decl) (k : Nat) :
    (declarations closing decl k).Alike r tokens 0 (relabelAll r.token)
      (declarations closing decl k) := by
  induction k with
  | zero => exact alike_pure []
  | succ k ih =>
      apply alike_peek_bind
      intro i t rest hwithin
      simp only [Relabeling.isEnd_token, Relabeling.kind_token]
      split
      · exact alike_pure [] _ hwithin
      · refine (alike_bind h fun first => alike_bind ih fun others => ?_) _ hwithin
        cases first with
        | none => exact alike_pure others
        | some first => exact alike_pure (first :: others)

theorem alike_condition (h : expr.Alike r tokens 1 (Expr.relabel r.token) expr)
    (opening closing : Fault) :
    (condition expr opening closing).Alike r tokens 1 (Expr.relabel r.token)
      (condition expr opening closing) :=
  alike_bind (alike_expect _ _) fun _ => alike_bind h.still fun value =>
  alike_bind (alike_expect _ _).still fun _ => alike_pure value

theorem alike_blockBody (h : decl.Alike r tokens 0 (Option.map (Stmt.relabel r.token)) decl) :
    (blockBody decl).Alike r tokens 0 (relabelAll r.token) (blockBody decl) :=
  alike_bind alike_remaining fun _ => alike_bind (alike_declarations h _) fun body =>
  alike_bind (alike_expect _ _).still fun _ => alike_pure body

theorem alike_statement (n : Nat) :
    (statement n).Alike r tokens 1 (Stmt.relabel r.token) (statement n) := by
  induction n with
  | zero => exact alike_tooDeep
  | succ n ih =>
      have hexpr : (expression n).Alike r tokens 1 (Expr.relabel r.token) (expression n) :=
        alike_expression n
      apply alike_peek_bind
      intro i t rest h
      simp only [Relabeling.kind_token]
      split
      · next hkind =>
          refine alike_advance_bind h (by simp [Token.isEnd, hkind]) ?_
          refine alike_bind hexpr.still fun value => alike_bind (alike_expect _ _).still fun _ => ?_
          exact alike_pure (Stmt.print value)
      · next hkind =>
          refine alike_advance_bind h (by simp [Token.isEnd, hkind]) ?_
          refine alike_bind (alike_condition hexpr _ _).still fun test => ?_
          refine alike_bind ih.still fun whenTrue => ?_
          refine alike_accept (alike_pure (Stmt.branch test whenTrue none)) fun _ => ?_
          exact alike_bind ih.still fun whenFalse =>
            alike_pure (Stmt.branch test whenTrue (some whenFalse))
      · next hkind =>
          refine alike_advance_bind h (by simp [Token.isEnd, hkind]) ?_
          refine alike_bind (alike_condition hexpr _ _).still fun test => ?_
          refine alike_bind ih.still fun body => ?_
          exact alike_pure (Stmt.loop test body)
      · next hkind =>
          refine alike_advance_bind h (by simp [Token.isEnd, hkind]) ?_
          refine alike_bind (alike_blockBody (alike_declaration hexpr ih)) fun body => ?_
          exact alike_pure (Stmt.block body)
      · refine (alike_bind hexpr fun value => alike_bind (alike_expect _ _).still fun _ => ?_) _ h
        exact alike_pure (Stmt.expr value)

/-- **The parser of a program sees kinds and literals only**, stays in front of the end, and blames
tokens where they stand. -/
theorem alike_program (closing : TokenKind) (limit k : Nat) :
    (declarations closing (declaration (expression limit) (statement limit)) k).Alike r tokens 0
      (relabelAll r.token)
      (declarations closing (declaration (expression limit) (statement limit)) k) :=
  alike_declarations (alike_declaration (alike_expression limit) (alike_statement limit)) k

end Parsers

/-! ### Parses -/

/-- The result of a parse whose parser ends in this way. -/
def Outcome.verdict : Outcome (List Stmt) → Except Failure (List Stmt)
  | .done stmts _ noted => Parse.verdict stmts noted
  | .failed blame _ noted => Parse.verdict [] (noted ++ [blame])
  | .halted .ranOff _ _ => .error .ranOff
  | .halted .tooDeep next noted =>
    match next.rest with
    | [] => .error .ranOff
    | token :: _ =>
      Parse.verdict [] (noted ++ [{ fault := .lessNesting, token, index := next.index }])

theorem parse_eq_verdict (limit : Nat) (tokens : List Token) :
    parse limit tokens =
      (declarations .endOfInput (declaration (expression limit) (statement limit))
        (tokens.length + 1) ⟨0, tokens⟩).verdict :=
  rfl

/-- The failure of a parse of other tokens. -/
def Failure.relabel (r : Relabeling) : Failure → Failure
  | .rejected first more => .rejected (first.relabel r) (more.map (Blame.relabel r))
  | .ranOff => .ranOff

/-- What fails or halts builds nothing, so only its reports are about the other tokens. -/
theorem verdict_relabel (r : Relabeling) (o : Outcome (List Stmt)) :
    (o.relabel r (relabelAll r.token)).verdict =
      match o.verdict with
      | .ok program => .ok (relabelAll r.token program)
      | .error failure => .error (failure.relabel r) := by
  cases o with
  | done stmts next noted => cases noted <;> rfl
  | failed blame next noted => cases noted <;> simp [Outcome.verdict, verdict, Failure.relabel]
  | halted cause next noted =>
      obtain ⟨index, left⟩ := next
      cases cause with
      | ranOff => rfl
      | tooDeep =>
          cases left with
          | nil => rfl
          | cons t rest =>
              cases noted <;>
                simp [Outcome.verdict, verdict, Failure.relabel, Cursor.relabel, Blame.relabel]

/-- **A parse of other tokens** of the same kinds and literals is the parse of the tokens, with the
other ones in its tree and in its reports. -/
theorem parse_relabel (limit : Nat) {tokens : List Token} (hend : ∃ t ∈ tokens, t.isEnd = true)
    {r : Relabeling} (hoffset : r.offset = 0) :
    parse limit (tokens.map r.token) =
      match parse limit tokens with
      | .ok program => .ok (relabelAll r.token program)
      | .error failure => .error (failure.relabel r) := by
  have hprogram := (alike_program (r := r) .endOfInput limit (tokens.length + 1) ⟨0, tokens⟩
    ⟨rfl, hend⟩).relabel_eq
  rw [Cursor.relabel, hoffset] at hprogram
  rw [parse_eq_verdict, parse_eq_verdict, List.length_map, ← verdict_relabel, ← hprogram]

theorem mem_of_verdict {program : List Stmt} {noted more : List Blame} {first : Blame}
    (h : verdict program noted = .error (.rejected first more)) : noted = first :: more := by
  cases noted with
  | nil => cases h
  | cons blame others =>
      cases h
      rfl

/-- **Whatever a parse reports stands where the report says.** -/
theorem pointsInto_of_parse {limit : Nat} {tokens : List Token} {first : Blame} {more : List Blame}
    (hend : ∃ t ∈ tokens, t.isEnd = true)
    (h : parse limit tokens = .error (.rejected first more)) :
    ∀ blame ∈ first :: more, blame.PointsInto tokens := by
  have hpoints := (alike_program (r := .id) .endOfInput limit (tokens.length + 1) ⟨0, tokens⟩
    ⟨rfl, hend⟩).points
  unfold parse at h
  dsimp only at h
  split at h
  · next heq =>
      rw [heq] at hpoints
      rw [← mem_of_verdict h]
      exact hpoints.2.2
  · next heq =>
      rw [heq] at hpoints
      rw [← mem_of_verdict h]
      obtain ⟨-, -, hblame, hnoted⟩ := hpoints
      exact List.forall_mem_append.2 ⟨hnoted, List.forall_mem_singleton.2 hblame⟩
  · cases h
  · next next _ heq =>
      rw [heq] at hpoints
      obtain ⟨hwithin, -, -, hnoted⟩ := hpoints
      obtain ⟨i, ts⟩ := next
      obtain ⟨t, rest, rfl⟩ := hwithin.hasEnd.exists_cons
      rw [← mem_of_verdict h]
      exact List.forall_mem_append.2 ⟨hnoted, List.forall_mem_singleton.2 hwithin.getElem?⟩

end ScriptLang.Parse
