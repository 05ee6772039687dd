import ScriptLang.Proofs.Parse.Progress

/-!
# The order of errors

A parser notes errors from the front to the back, with one exception: an invalid target is noted at
its equals sign after the value behind the sign has been read, hence after the invalid targets in
that value. A parser that is done has moved past all that it noted, and one that fails does so at
its cursor. So no token is blamed twice, except for the end, where the blocks that are still open
fail one after the other.

## Main Definitions

* `Blame.InValueOf`: an error that is noted while the value behind an equals sign is read.
* `Blame.Precedes`: when one error may be listed in front of another one.
* `Cursor.Repeats`: how often the end may have been blamed.
* `Outcome.Orderly`: the errors of a parser that stops at an error that it fails with.
* `Outcome.Resumes`: the errors of a parser that goes on behind one.

## Main Statements

* `orderly_expression`, `orderly_statement`: expressions and statements.
* `resumes_declaration`, `resumes_declarations`: declarations, and loops over them.

## Design Notes

Each block that is closed or still open has had its brace, so what is counted are the braces between
two cursors. A block in front of the end fails once more than what is inside it, which its own brace
makes up for.
-/

namespace ScriptLang.Parse

variable {α β : Type}

/-! ### Errors in a list of errors -/

/-- The error is noted while the value behind the equals sign is read that the other one blames. -/
def Blame.InValueOf (tokens : List Token) (blame equals : Blame) : Prop :=
  ∃ n value next noted,
    expression n ⟨equals.index + 1, tokens.drop (equals.index + 1)⟩ = .done value next noted ∧
    blame ∈ noted

/-- When the first error may be listed in front of the second one. -/
inductive Blame.Precedes (tokens : List Token) (blame other : Blame) : Prop where
  | earlier (h : blame.index < other.index)
  /-- Both blame the end. -/
  | atEnd (h : blame.index = other.index) (hblame : blame.token.isEnd = true)
      (hother : other.token.isEnd = true)
  /-- An invalid target in a value is listed in front of the one that the value was meant for. -/
  | inValue (h : other.index < blame.index) (hblame : blame.fault = .assignmentTarget)
      (hother : other.fault = .assignmentTarget) (hvalue : blame.InValueOf tokens other)

/-- All errors are at positions in front of this one. -/
def AllBefore (i : Nat) (noted : List Blame) : Prop := ∀ blame ∈ noted, blame.index < i

/-- How many errors blame the position. -/
def timesAt (i : Nat) (noted : List Blame) : Nat := noted.countP fun blame => blame.index = i

theorem AllBefore.append {i j : Nat} {noted more : List Blame} (h : AllBefore i noted)
    (hij : i ≤ j) (hmore : AllBefore j more) : AllBefore j (noted ++ more) :=
  List.forall_mem_append.2 ⟨fun blame hblame => Nat.lt_of_lt_of_le (h blame hblame) hij, hmore⟩

theorem AllBefore.timesAt_eq {i : Nat} {noted : List Blame} (h : AllBefore i noted) :
    timesAt i noted = 0 :=
  List.countP_eq_zero.2 fun blame hblame => by simpa using Nat.ne_of_lt (h blame hblame)

@[simp] theorem timesAt_append (i : Nat) (noted more : List Blame) :
    timesAt i (noted ++ more) = timesAt i noted + timesAt i more :=
  List.countP_append

/-- The errors that were noted on the way, without the one that the parser failed with. -/
def Outcome.noted : Outcome α → List Blame
  | .done _ _ noted => noted
  | .failed _ _ noted => noted
  | .halted _ _ noted => noted

@[simp] theorem Outcome.noted_after (earlier : List Blame) (o : Outcome α) :
    (o.after earlier).noted = earlier ++ o.noted := by
  cases o <;> rfl

/-! ### Braces that are left -/

/-- How many blocks the tokens that are left can open. -/
def Cursor.braces (c : Cursor) : Nat := c.rest.countP fun t => t.kind = .leftBrace

namespace Cursor.Reaches

variable {kinds : TokenKind → Bool} {c c' : Cursor}

theorem braces_le (h : c.Reaches kinds c') : c'.braces ≤ c.braces := by
  obtain ⟨used, hrest, -, -⟩ := h
  rw [Cursor.braces, Cursor.braces, hrest, List.countP_append]
  exact Nat.le_add_left _ _

theorem within {tokens : List Token} (h : c.Reaches kinds c') (hc : c.Within tokens) :
    c'.Within tokens := by
  obtain ⟨used, hrest, hindex, hused⟩ := h
  refine ⟨?_, ?_⟩
  · rw [hindex, ← List.drop_drop, ← hc.rest_eq, hrest, List.drop_left]
  · obtain ⟨t, ht, hend⟩ := hc.hasEnd
    rw [hrest, List.mem_append] at ht
    refine ⟨t, ht.resolve_left fun hmem => ?_, hend⟩
    rw [(hused t hmem).1] at hend
    cases hend

end Cursor.Reaches

theorem Cursor.braces_brace {i j : Nat} {t : Token} {rest : List Token} (h : t.kind = .leftBrace) :
    Cursor.braces ⟨i, t :: rest⟩ = Cursor.braces ⟨j, rest⟩ + 1 := by
  simp [Cursor.braces, h]

/-! ### What a parser that stops at an error has noted -/

/-- The cursor stands at the end, and the errors that were noted since `c` blame it at most once for
each brace in between, and `k` more times. -/
structure Cursor.Repeats (k : Nat) (c next : Cursor) (noted : List Blame) : Prop where
  atEnd : next.AtEnd
  upTo : ∀ blame ∈ noted,
    blame.index < next.index ∨ blame.index = next.index ∧ blame.token.isEnd = true
  times_le : timesAt next.index noted + next.braces ≤ k + c.braces

/-- The error blames the token at the cursor. -/
def Cursor.IsBlamedBy (c : Cursor) (blame : Blame) : Prop :=
  blame.index = c.index ∧ c.rest.head? = some blame.token

/-- Where the parser stops, if it began at `c`: behind all that it has noted, or it fails at the end
and has blamed that before. -/
def Outcome.Stops (k : Nat) (c : Cursor) : Outcome α → Prop
  | .done _ next noted => AllBefore next.index noted
  | .failed blame next noted =>
    next.IsBlamedBy blame ∧ (AllBefore next.index noted ∨ c.Repeats k next noted)
  | .halted _ next noted => AllBefore next.index noted

/-- What the outcome of a parser that began at `c` has noted: errors of these faults, at tokens from
`c` on, in order. -/
structure Outcome.Notes (tokens : List Token) (faults : Fault → Prop) (c : Cursor)
    (o : Outcome α) : Prop where
  reaches : c.Reaches anyKind o.next
  from_start : ∀ blame ∈ o.noted, c.index ≤ blame.index
  faults : ∀ blame ∈ o.noted, faults blame.fault
  ordered : o.noted.Pairwise (Blame.Precedes tokens)

/-- What has been noted, and where the parser stops. -/
structure Outcome.Orderly (tokens : List Token) (faults : Fault → Prop) (k : Nat) (c : Cursor)
    (o : Outcome α) : Prop extends o.Notes tokens faults c where
  stops : o.Stops k c

/-- From the cursor `c` the parser is orderly. -/
def Parser.OrderlyAt (tokens : List Token) (faults : Fault → Prop) (k : Nat) (p : Parser α)
    (c : Cursor) : Prop :=
  (p c).Orderly tokens faults k c

/-- In front of the end the parser is orderly. -/
def Parser.Orderly (tokens : List Token) (faults : Fault → Prop) (k : Nat) (p : Parser α) : Prop :=
  ∀ c : Cursor, c.Within tokens → p.OrderlyAt tokens faults k c

section Steps

variable {tokens : List Token} {faults wider : Fault → Prop} {k l : Nat} {c mid : Cursor}
variable {p : Parser α} {f : α → Parser β}

/-- What has been noted does not depend on what the parser gives. -/
theorem Outcome.Notes.of_eq {o : Outcome α} {o' : Outcome β} (h : o.Notes tokens faults c)
    (hnext : o'.next = o.next) (hnoted : o'.noted = o.noted) : o'.Notes tokens faults c where
  reaches := hnext ▸ h.reaches
  from_start := hnoted ▸ h.from_start
  faults := hnoted ▸ h.faults
  ordered := hnoted ▸ h.ordered

theorem Cursor.Repeats.mono {next : Cursor} {noted earlier : List Blame}
    (h : mid.Repeats k next noted) (hearlier : AllBefore mid.index earlier)
    (hon : mid.index ≤ next.index) (hk : k + mid.braces ≤ l + c.braces) :
    c.Repeats l next (earlier ++ noted) := by
  have hbefore : AllBefore next.index earlier :=
    fun blame hblame => Nat.lt_of_lt_of_le (hearlier blame hblame) hon
  refine ⟨h.atEnd, List.forall_mem_append.2 ⟨fun b hb => Or.inl (hbefore b hb), h.upTo⟩, ?_⟩
  have := h.times_le
  rw [timesAt_append, hbefore.timesAt_eq]
  omega

theorem Outcome.Stops.after {o : Outcome α} {earlier : List Blame} (h : o.Stops k mid)
    (hearlier : AllBefore mid.index earlier) (hon : mid.index ≤ o.next.index)
    (hk : k + mid.braces ≤ l + c.braces) : (o.after earlier).Stops l c := by
  cases o with
  | done value next noted => exact hearlier.append hon h
  | halted cause next noted => exact hearlier.append hon h
  | failed blame next noted =>
      refine ⟨h.1, ?_⟩
      rcases h.2 with hbefore | hrepeats
      · exact Or.inl (hearlier.append hon hbefore)
      · exact Or.inr (hrepeats.mono hearlier hon hk)

/-- The errors of a parser that went on where another one was done. -/
theorem Outcome.Notes.after {o : Outcome β} {a : α} {earlier : List Blame}
    (h : o.Notes tokens faults mid) (hdone : (Outcome.done a mid earlier).Notes tokens faults c)
    (hearlier : AllBefore mid.index earlier) : (o.after earlier).Notes tokens faults c where
  reaches := by
    rw [Outcome.next_after]
    exact hdone.reaches.trans h.reaches
  from_start := by
    have hon : c.index ≤ mid.index := hdone.reaches.index_le
    rw [Outcome.noted_after]
    exact List.forall_mem_append.2 ⟨hdone.from_start, fun blame hblame =>
      Nat.le_trans hon (h.from_start blame hblame)⟩
  faults := by
    rw [Outcome.noted_after]
    exact List.forall_mem_append.2 ⟨hdone.faults, h.faults⟩
  ordered := by
    rw [Outcome.noted_after]
    refine List.pairwise_append.2 ⟨hdone.ordered, h.ordered, fun blame hblame other hother => ?_⟩
    exact .earlier (Nat.lt_of_lt_of_le (hearlier blame hblame) (h.from_start other hother))

/-- The errors of a parser that began further on, behind tokens that no error blames. -/
theorem Outcome.Orderly.further {o : Outcome α} (h : o.Orderly tokens faults k mid)
    (hreaches : c.Reaches anyKind mid) (hk : k + mid.braces ≤ l + c.braces) :
    o.Orderly tokens faults l c := by
  have hnone : AllBefore mid.index [] := List.forall_mem_nil _
  have hdone : (Outcome.done () mid []).Notes tokens faults c :=
    ⟨hreaches, List.forall_mem_nil _, List.forall_mem_nil _, .nil⟩
  have hnotes := h.toNotes.after hdone hnone
  have hstops := h.stops.after (c := c) hnone h.reaches.index_le hk
  rw [Outcome.after_nil] at hnotes hstops
  exact ⟨hnotes, hstops⟩

theorem Parser.Orderly.mono (h : p.Orderly tokens faults k)
    (hfaults : ∀ fault, faults fault → wider fault) : p.Orderly tokens wider k := by
  intro c hc
  obtain ⟨⟨hreaches, hfrom, hnoted, hordered⟩, hstops⟩ := h c hc
  exact ⟨⟨hreaches, hfrom, fun blame hblame => hfaults _ (hnoted blame hblame), hordered⟩, hstops⟩

theorem orderly_pure (a : α) : Parser.Orderly tokens faults k (pure a) :=
  fun c _ => ⟨⟨.refl _ c, List.forall_mem_nil _, List.forall_mem_nil _, .nil⟩,
    List.forall_mem_nil _⟩

theorem orderly_bind (hp : p.Orderly tokens faults k) (hf : ∀ a, (f a).Orderly tokens faults k) :
    (p >>= f).Orderly tokens faults k := by
  intro c hc
  unfold Parser.OrderlyAt
  obtain ⟨hnotes, hstops⟩ := hp c hc
  cases hpc : p c with
  | failed blame next noted =>
      rw [hpc] at hnotes hstops
      rw [bind_of_failed hpc]
      exact ⟨hnotes.of_eq rfl rfl, hstops⟩
  | halted cause next noted =>
      rw [hpc] at hnotes hstops
      rw [bind_of_halted hpc]
      exact ⟨hnotes.of_eq rfl rfl, hstops⟩
  | done a next noted =>
      rw [hpc] at hnotes hstops
      have hreaches : c.Reaches anyKind next := hnotes.reaches
      have hnext := hf a next (hreaches.within hc)
      rw [bind_of_done hpc]
      exact ⟨hnext.toNotes.after hnotes hstops, hnext.stops.after hstops hnext.reaches.index_le
        (Nat.add_le_add_left hreaches.braces_le k)⟩

theorem orderly_map (hp : p.Orderly tokens faults k) (f : α → β) :
    (f <$> p).Orderly tokens faults k :=
  orderly_bind hp fun a => orderly_pure (f a)

theorem orderly_peek_bind {f : Token → Parser β}
    (hf : ∀ i t rest, Cursor.Within tokens ⟨i, t :: rest⟩ →
      (f t).OrderlyAt tokens faults k ⟨i, t :: rest⟩) :
    (peek >>= f).Orderly tokens faults k := by
  rintro ⟨i, ts⟩ hc
  unfold Parser.OrderlyAt
  obtain ⟨t, rest, rfl⟩ := hc.hasEnd.exists_cons
  have hpeek : peek ⟨i, t :: rest⟩ = .done t ⟨i, t :: rest⟩ [] := rfl
  rw [bind_of_done hpeek, Outcome.after_nil]
  exact hf i t rest hc

/-- A brace makes up for one error more at the end. -/
theorem orderly_advance_bind {f : Unit → Parser β} {i : Nat} {t : Token} {rest : List Token}
    (hc : Cursor.Within tokens ⟨i, t :: rest⟩) (hend : t.isEnd = false)
    (hf : (f ()).Orderly tokens faults k)
    (hk : k + Cursor.braces ⟨i + 1, rest⟩ ≤ l + Cursor.braces ⟨i, t :: rest⟩) :
    (advance >>= f).OrderlyAt tokens faults l ⟨i, t :: rest⟩ := by
  unfold Parser.OrderlyAt
  have hadvance : advance ⟨i, t :: rest⟩ = .done () ⟨i + 1, rest⟩ [] := rfl
  rw [bind_of_done hadvance, Outcome.after_nil]
  exact (hf _ (hc.tail hend)).further (.single hend rfl) hk

theorem orderly_step {f : Unit → Parser β} {i : Nat} {t : Token} {rest : List Token}
    (hc : Cursor.Within tokens ⟨i, t :: rest⟩) (hend : t.isEnd = false)
    (hf : (f ()).Orderly tokens faults k) :
    (advance >>= f).OrderlyAt tokens faults k ⟨i, t :: rest⟩ := by
  have hon : Cursor.Reaches anyKind ⟨i, t :: rest⟩ ⟨i + 1, rest⟩ := .single hend rfl
  exact orderly_advance_bind hc hend hf (Nat.add_le_add_left hon.braces_le k)

theorem orderly_accept {f : Option Token → Parser β} {accepted : TokenKind → Bool}
    (hnone : (f none).Orderly tokens faults k) (hsome : ∀ t, (f (some t)).Orderly tokens faults k) :
    (accept? accepted >>= f).Orderly tokens faults k := by
  rintro ⟨i, ts⟩ hc
  unfold Parser.OrderlyAt
  obtain ⟨t, rest, rfl⟩ := hc.hasEnd.exists_cons
  cases ht : !t.isEnd && accepted t.kind with
  | false =>
      rw [accept_bind_of_false ht]
      exact hnone _ hc
  | true =>
      have hend : t.isEnd = false := by cases hend : t.isEnd <;> simp_all
      have hon : Cursor.Reaches anyKind ⟨i, t :: rest⟩ ⟨i + 1, rest⟩ := .single hend rfl
      rw [accept_bind_of_true ht]
      exact (hsome t _ (hc.tail hend)).further hon (Nat.add_le_add_left hon.braces_le k)

theorem orderly_fail (fault : Fault) :
    Parser.Orderly tokens faults k (fail fault : Parser α) := by
  rintro ⟨i, ts⟩ hc
  obtain ⟨t, rest, rfl⟩ := hc.hasEnd.exists_cons
  exact ⟨⟨.refl _ _, List.forall_mem_nil _, List.forall_mem_nil _, .nil⟩, ⟨rfl, rfl⟩,
    Or.inl (List.forall_mem_nil _)⟩

theorem orderly_tooDeep : Parser.Orderly tokens faults k (halt .tooDeep : Parser α) :=
  fun c _ => ⟨⟨.refl _ c, List.forall_mem_nil _, List.forall_mem_nil _, .nil⟩,
    List.forall_mem_nil _⟩

theorem orderly_expect (kind : TokenKind) (fault : Fault) :
    (expect kind fault).Orderly tokens faults k :=
  orderly_accept (orderly_fail fault) fun t => orderly_pure t

theorem orderly_remaining_bind {f : Nat → Parser β} (hf : ∀ n, (f n).Orderly tokens faults k) :
    (remaining >>= f).Orderly tokens faults k := by
  intro c hc
  unfold Parser.OrderlyAt
  have hremaining : remaining c = .done c.rest.length c [] := rfl
  rw [bind_of_done hremaining, Outcome.after_nil]
  exact hf _ c hc

end Steps

/-! ### Expressions -/

/-- The fault of what is noted in an expression that is read to its end. -/
def IsTargetFault (fault : Fault) : Prop := fault = .assignmentTarget

section Expressions

variable {tokens : List Token} {faults : Fault → Prop} {k : Nat}

theorem orderly_chainTail {ops : TokenKind → Bool} {node : Expr → Token → Expr → Expr}
    {operand : Parser Expr} (h : operand.Orderly tokens faults k) (n : Nat) (left : Expr) :
    (chainTail ops node operand n left).Orderly tokens faults k := by
  induction n generalizing left with
  | zero => exact orderly_pure left
  | succ n ih =>
      refine orderly_accept (orderly_pure left) fun op => orderly_bind h fun right => ?_
      exact ih (node left op right)

theorem orderly_leftChain {ops : TokenKind → Bool} {node : Expr → Token → Expr → Expr}
    {operand : Parser Expr} (h : operand.Orderly tokens faults k) :
    (leftChain ops node operand).Orderly tokens faults k :=
  orderly_bind h fun left => orderly_remaining_bind fun n => orderly_chainTail h n left

theorem orderly_operation {operand : Parser Expr} (h : operand.Orderly tokens faults k) :
    (operation operand).Orderly tokens faults k :=
  orderly_leftChain <| orderly_leftChain <| orderly_leftChain <| orderly_leftChain <|
    orderly_leftChain <| orderly_leftChain h

theorem orderly_primary {inner : Parser Expr} (h : inner.Orderly tokens faults k) :
    (primary inner).Orderly tokens faults k := by
  apply orderly_peek_bind
  intro i t rest hc
  split
  case h_7 hkind =>
    refine orderly_step hc (by simp [Token.isEnd, hkind]) (orderly_bind h fun value => ?_)
    exact orderly_bind (orderly_expect _ _) fun _ => orderly_pure _
  case h_8 => exact orderly_fail _ _ hc
  all_goals
    next hkind => exact orderly_step hc (by simp [Token.isEnd, hkind]) (orderly_pure _)

/-- What is noted at an equals sign comes behind all that is noted in the value. -/
theorem orderly_expressionRest {n : Nat} (h : (expression n).Orderly tokens IsTargetFault k)
    (target : Expr) : (expressionRest (expression n) target).Orderly tokens IsTargetFault k := by
  rintro ⟨i, ts⟩ hc
  unfold Parser.OrderlyAt
  obtain ⟨t, rest, rfl⟩ := hc.hasEnd.exists_cons
  cases ht : !t.isEnd && decide (t.kind = .equal) with
  | false =>
      rw [expressionRest_of_false ht]
      exact orderly_pure target _ hc
  | true =>
      have hend : t.isEnd = false := by cases hend : t.isEnd <;> simp_all
      have hon : Cursor.Reaches anyKind ⟨i, t :: rest⟩ ⟨i + 1, rest⟩ := .single hend rfl
      have hwithin := hc.tail hend
      have hvalue := (h _ hwithin).further hon (Nat.add_le_add_left hon.braces_le k)
      have hfrom := (h _ hwithin).from_start
      rw [expressionRest_of_true ht]
      cases hinner : expression n ⟨i + 1, rest⟩ with
      | failed blame next noted =>
          rw [hinner] at hvalue
          rw [bind_of_failed hinner]
          exact ⟨hvalue.toNotes.of_eq rfl rfl, hvalue.stops⟩
      | halted cause next noted =>
          rw [hinner] at hvalue
          rw [bind_of_halted hinner]
          exact ⟨hvalue.toNotes.of_eq rfl rfl, hvalue.stops⟩
      | done value next noted =>
          obtain ⟨e, more, hassign, hmore⟩ := assignment_eq_done target t i value
          rw [hinner] at hvalue hfrom
          have hmoved : i + 1 ≤ next.index := by
            have := (h _ hwithin).reaches.index_le
            rwa [hinner] at this
          have hequals : ∀ other ∈ more, other = ⟨.assignmentTarget, t, i⟩ :=
            fun other hother => List.mem_singleton.1 (hmore.subset hother)
          have hin : ∀ blame ∈ noted, ∀ other ∈ more, blame.Precedes tokens other := by
            intro blame hblame other hother
            obtain rfl := hequals other hother
            refine .inValue (hfrom blame hblame) (hvalue.faults blame hblame) rfl
              ⟨n, value, next, noted, ?_, hblame⟩
            rw [← hwithin.rest_eq]
            exact hinner
          rw [bind_of_done hinner, hassign]
          refine ⟨⟨hvalue.reaches, ?_, ?_, ?_⟩, ?_⟩
          · refine List.forall_mem_append.2 ⟨hvalue.from_start, fun other hother => ?_⟩
            obtain rfl := hequals other hother
            exact Nat.le_refl i
          · refine List.forall_mem_append.2 ⟨hvalue.faults, fun other hother => ?_⟩
            obtain rfl := hequals other hother
            rfl
          · exact List.pairwise_append.2
              ⟨hvalue.ordered, (List.pairwise_singleton _ _).sublist hmore, hin⟩
          · refine List.forall_mem_append.2 ⟨hvalue.stops, fun other hother => ?_⟩
            obtain rfl := hequals other hother
            exact hmoved

theorem orderly_expression_unary (n : Nat) :
    (expression n).Orderly tokens IsTargetFault 0 ∧ (unary n).Orderly tokens IsTargetFault 0 := by
  induction n with
  | zero =>
      rw [expression, unary]
      exact ⟨orderly_tooDeep, orderly_tooDeep⟩
  | succ n ih =>
      obtain ⟨ihexpr, ihunary⟩ := ih
      constructor
      · rw [expression_succ]
        exact orderly_bind (orderly_operation ihunary) fun target =>
          orderly_expressionRest ihexpr target
      · rw [unary]
        exact orderly_accept (orderly_primary ihexpr) fun op =>
          orderly_bind ihunary fun operand => orderly_pure _

/-- **Expressions are orderly.** What is noted in an expression are invalid targets. -/
theorem orderly_expression (n : Nat) : (expression n).Orderly tokens IsTargetFault 0 :=
  (orderly_expression_unary n).1

end Expressions

/-! ### Recovery -/

/-- Every fault. -/
def AnyFault (_ : Fault) : Prop := True

/-- What a parser that recovers has noted: it does not fail, and where it is done, it is behind all
that it has noted, or stands at the end and has blamed that. -/
structure Outcome.Resumes (tokens : List Token) (c : Cursor) (o : Outcome α) : Prop
    extends o.Notes tokens AnyFault c where
  resumes : match o with
    | .done _ next noted => AllBefore next.index noted ∨ c.Repeats 1 next noted
    | .failed .. => False
    | .halted _ next noted => AllBefore next.index noted

/-- From the cursor `c` the parser goes on behind its errors. -/
def Parser.ResumesAt (tokens : List Token) (p : Parser α) (c : Cursor) : Prop :=
  (p c).Resumes tokens c

/-- In front of the end the parser goes on behind its errors. -/
def Parser.Resumes (tokens : List Token) (p : Parser α) : Prop :=
  ∀ c : Cursor, c.Within tokens → p.ResumesAt tokens c

section Recovery

variable {tokens : List Token} {c next : Cursor} {blame : Blame} {noted : List Blame}

/-- What a parser has noted when it fails, with the error that it fails with. -/
theorem Outcome.Orderly.failed {k : Nat}
    (h : (Outcome.failed blame next noted : Outcome α).Orderly tokens AnyFault k c) :
    (noted ++ [blame]).Pairwise (Blame.Precedes tokens) ∧
      (∀ b ∈ noted ++ [blame], c.index ≤ b.index ∧ b.index ≤ next.index) ∧
      (next.AtEnd → c.Repeats (k + 1) next (noted ++ [blame])) := by
  obtain ⟨⟨hreaches, hfrom, -, hordered⟩, ⟨hindex, hhead⟩, hnoted⟩ := h
  have hend : next.AtEnd → blame.token.isEnd = true := by
    rintro ⟨t, rest, hrest, ht⟩
    rw [hrest, List.head?_cons] at hhead
    rwa [← Option.some.inj hhead]
  have hupTo : ∀ b ∈ noted, b.index < next.index ∨ b.index = next.index ∧ next.AtEnd ∧
      b.token.isEnd = true := by
    intro b hb
    rcases hnoted with hbefore | hrepeats
    · exact Or.inl (hbefore b hb)
    · exact (hrepeats.upTo b hb).imp_right fun h => ⟨h.1, hrepeats.atEnd, h.2⟩
  have htimes : timesAt next.index noted + next.braces ≤ k + c.braces := by
    rcases hnoted with hbefore | hrepeats
    · rw [hbefore.timesAt_eq]
      have := hreaches.braces_le
      simp only [Outcome.next] at this
      omega
    · exact hrepeats.times_le
  have honce : timesAt next.index [blame] = 1 := by simp [timesAt, hindex]
  refine ⟨List.pairwise_append.2 ⟨hordered, List.pairwise_singleton _ _, ?_⟩, ?_, fun hat => ?_⟩
  · rintro b hb other hother
    obtain rfl := List.mem_singleton.1 hother
    rcases hupTo b hb with hlt | ⟨heq, hat, ht⟩
    · exact .earlier (hindex ▸ hlt)
    · exact .atEnd (heq.trans hindex.symm) ht (hend hat)
  · refine List.forall_mem_append.2 ⟨fun b hb => ⟨hfrom b hb, ?_⟩, ?_⟩
    · rcases hupTo b hb with hlt | ⟨heq, -, -⟩
      · exact Nat.le_of_lt hlt
      · exact Nat.le_of_eq heq
    · exact List.forall_mem_singleton.2 ⟨hindex ▸ hreaches.index_le, Nat.le_of_eq hindex⟩
  · refine ⟨hat, List.forall_mem_append.2 ⟨fun b hb => ?_, ?_⟩, ?_⟩
    · exact (hupTo b hb).imp_right fun h => ⟨h.1, h.2.2⟩
    · exact List.forall_mem_singleton.2 (Or.inr ⟨hindex, hend hat⟩)
    · rw [timesAt_append, honce]
      omega

/-- **With recovery** a parser goes on behind the error that it failed with, or stays at the end. -/
theorem resumes_recover {p : Parser α} (hp : p.Orderly tokens AnyFault 0) :
    (recover p).Resumes tokens := by
  intro c hc
  have horderly : (p c).Orderly tokens AnyFault 0 c := hp c hc
  unfold Parser.ResumesAt
  cases hpc : p c with
  | done a next noted =>
      rw [hpc] at horderly
      rw [recover_of_done hpc]
      exact ⟨horderly.toNotes.of_eq rfl rfl, Or.inl horderly.stops⟩
  | halted cause next noted =>
      rw [hpc] at horderly
      rw [recover_of_halted hpc]
      exact ⟨horderly.toNotes.of_eq rfl rfl, horderly.stops⟩
  | failed blame next noted =>
      rw [hpc] at horderly
      have hreaches : c.Reaches anyKind next := horderly.reaches
      obtain ⟨hordered, hbetween, hrepeats⟩ := horderly.failed
      have hsync := synchronize_reaches next
      obtain ⟨boundary, hboundary, -⟩ := synchronize_within (r := .id) (hreaches.within hc)
      rw [hboundary] at hsync
      obtain ⟨hon, hmoved⟩ := hsync
      rw [recover_of_failed hpc hboundary]
      refine ⟨⟨hreaches.trans hon, fun b hb => (hbetween b hb).1, fun _ _ => trivial, hordered⟩, ?_⟩
      rcases hmoved with hlt | ⟨rfl, hat⟩
      · exact Or.inl fun b hb => Nat.lt_of_le_of_lt (hbetween b hb).2 hlt
      · exact Or.inr (hrepeats hat)

/-- At the end a loop over declarations is done at once. -/
theorem declarations_of_atEnd {closing : TokenKind} {decl : Parser (Option Stmt)} (k : Nat)
    (h : c.AtEnd) : declarations closing decl k c = .done [] c [] := by
  obtain ⟨i, ts⟩ := c
  obtain ⟨t, rest, hrest, ht⟩ := h
  obtain rfl : ts = t :: rest := hrest
  cases k with
  | zero => rfl
  | succ k => rw [declarations_cons, if_pos (by simp [ht])]

theorem resumes_pure (a : α) : Parser.Resumes tokens (pure a) :=
  fun c _ => ⟨⟨.refl _ c, List.forall_mem_nil _, List.forall_mem_nil _, .nil⟩,
    Or.inl (List.forall_mem_nil _)⟩

/-- The errors of a parser that goes on where another one was done, behind all that this noted. -/
theorem Outcome.Resumes.after {o : Outcome β} {a : α} {mid : Cursor} {earlier : List Blame}
    (h : o.Resumes tokens mid) (hdone : (Outcome.done a mid earlier).Notes tokens AnyFault c)
    (hearlier : AllBefore mid.index earlier) : (o.after earlier).Resumes tokens c := by
  have hreaches : c.Reaches anyKind mid := hdone.reaches
  have hon : mid.index ≤ o.next.index := h.reaches.index_le
  refine ⟨h.toNotes.after hdone hearlier, ?_⟩
  have hresumes := h.resumes
  cases o with
  | failed blame next noted => exact hresumes
  | halted cause next noted => exact hearlier.append hon hresumes
  | done value next noted =>
      rcases hresumes with hbefore | hrepeats
      · exact Or.inl (hearlier.append hon hbefore)
      · exact Or.inr (hrepeats.mono hearlier hon (Nat.add_le_add_left hreaches.braces_le 1))

theorem resumes_map {p : Parser α} (hp : p.Resumes tokens) (f : α → β) :
    (p >>= fun a => pure (f a)).Resumes tokens := by
  intro c hc
  have hresumes : (p c).Resumes tokens c := hp c hc
  unfold Parser.ResumesAt
  cases hpc : p c with
  | failed blame next noted =>
      rw [hpc] at hresumes
      exact hresumes.resumes.elim
  | halted cause next noted =>
      rw [hpc] at hresumes
      rw [bind_of_halted hpc]
      exact ⟨hresumes.toNotes.of_eq rfl rfl, hresumes.resumes⟩
  | done a next noted =>
      rw [hpc] at hresumes
      have hpure : ((pure (f a) : Parser β) next).after noted = .done (f a) next noted := by
        simp [pure, Parser.pure, Outcome.after]
      rw [bind_of_done hpc, hpure]
      exact ⟨hresumes.toNotes.of_eq rfl rfl, hresumes.resumes⟩

/-- **Loops over declarations** go on if the declarations do. At the end they stop. -/
theorem resumes_declarations {closing : TokenKind} {decl : Parser (Option Stmt)}
    (h : decl.Resumes tokens) (k : Nat) : (declarations closing decl k).Resumes tokens := by
  induction k with
  | zero => exact resumes_pure []
  | succ k ih =>
      rintro ⟨i, ts⟩ hc
      obtain ⟨t, rest, rfl⟩ := hc.hasEnd.exists_cons
      have hfirst : (decl ⟨i, t :: rest⟩).Resumes tokens ⟨i, t :: rest⟩ := h _ hc
      unfold Parser.ResumesAt
      rw [declarations_cons]
      split
      · exact resumes_pure [] _ hc
      · cases hdecl : decl ⟨i, t :: rest⟩ with
        | failed blame next noted =>
            rw [hdecl] at hfirst
            exact hfirst.resumes.elim
        | halted cause next noted =>
            rw [hdecl] at hfirst
            rw [bind_of_halted hdecl]
            exact ⟨hfirst.toNotes.of_eq rfl rfl, hfirst.resumes⟩
        | done first next noted =>
            rw [hdecl] at hfirst
            have hreaches : Cursor.Reaches anyKind ⟨i, t :: rest⟩ next := hfirst.reaches
            have hothers := resumes_map ih (first.toList ++ ·) next (hreaches.within hc)
            rw [bind_of_done hdecl]
            rcases hfirst.resumes with hbefore | hrepeats
            · exact hothers.after hfirst.toNotes hbefore
            · -- At the end nothing more is read.
              rw [bind_of_done (declarations_of_atEnd k hrepeats.atEnd), Outcome.after_nil]
              have hpure : ((pure (first.toList ++ []) : Parser (List Stmt)) next).after noted =
                  .done (first.toList ++ []) next noted := by
                simp [pure, Parser.pure, Outcome.after]
              rw [hpure]
              exact ⟨hfirst.toNotes.of_eq rfl rfl, Or.inr hrepeats⟩

end Recovery

/-! ### Statements -/

section Statements

variable {tokens : List Token} {k : Nat} {expr : Parser Expr} {stmt : Parser Stmt}

theorem orderly_variableDeclaration (hexpr : expr.Orderly tokens AnyFault k) :
    (variableDeclaration expr).Orderly tokens AnyFault k := by
  refine orderly_bind (orderly_expect _ _) fun name => ?_
  refine orderly_accept (orderly_bind (orderly_pure none) fun initial => ?_)
    (fun _ => orderly_bind (orderly_map hexpr some) fun initial => ?_)
  all_goals exact orderly_bind (orderly_expect _ _) fun _ => orderly_pure _

theorem resumes_declared (hexpr : expr.Orderly tokens AnyFault 0)
    (hstmt : stmt.Orderly tokens AnyFault 0) : (declaration expr stmt).Resumes tokens :=
  resumes_recover (orderly_accept hstmt fun _ => orderly_variableDeclaration hexpr)

theorem orderly_condition (hexpr : expr.Orderly tokens AnyFault k) (opening closing : Fault) :
    (condition expr opening closing).Orderly tokens AnyFault k :=
  orderly_bind (orderly_expect _ _) fun _ => orderly_bind hexpr fun value =>
    orderly_bind (orderly_expect _ _) fun _ => orderly_pure value

/-- Behind its brace a block may blame the end once more than the braces in it account for. -/
theorem orderly_blockBody {decl : Parser (Option Stmt)} (h : decl.Resumes tokens) :
    (blockBody decl).Orderly tokens AnyFault 1 := by
  refine orderly_remaining_bind fun n => ?_
  intro c hc
  have hbody : (declarations .rightBrace decl (n + 1) c).Resumes tokens c :=
    resumes_declarations h _ c hc
  unfold Parser.OrderlyAt
  cases hdecls : declarations .rightBrace decl (n + 1) c with
  | failed blame next noted =>
      rw [hdecls] at hbody
      exact hbody.resumes.elim
  | halted cause next noted =>
      rw [hdecls] at hbody
      rw [bind_of_halted hdecls]
      exact ⟨hbody.toNotes.of_eq rfl rfl, hbody.resumes⟩
  | done body next noted =>
      rw [hdecls] at hbody
      have hreaches : c.Reaches anyKind next := hbody.reaches
      have hclosing : (expect .rightBrace .braceAfterBlock >>= fun _ =>
          (pure body : Parser (List Stmt))).Orderly tokens AnyFault 1 :=
        orderly_bind (orderly_expect _ _) fun _ => orderly_pure body
      have hnext := hclosing next (hreaches.within hc)
      rw [bind_of_done hdecls]
      rcases hbody.resumes with hbefore | hrepeats
      · exact ⟨hnext.toNotes.after hbody.toNotes hbefore, hnext.stops.after hbefore
          hnext.reaches.index_le (Nat.add_le_add_left hreaches.braces_le 1)⟩
      · -- The end is no brace, so the block fails there.
        obtain ⟨i, ts⟩ := next
        obtain ⟨t, rest, hrest, ht⟩ := hrepeats.atEnd
        obtain rfl : ts = t :: rest := hrest
        rw [expect_bind_of_false (by simp [ht])]
        have hfailed : ((fail .braceAfterBlock : Parser (List Stmt)) ⟨i, t :: rest⟩).after noted =
            .failed ⟨.braceAfterBlock, t, i⟩ ⟨i, t :: rest⟩ noted := by
          simp [fail, Outcome.after]
        rw [hfailed]
        exact ⟨hbody.toNotes.of_eq rfl rfl, ⟨rfl, rfl⟩, Or.inr hrepeats⟩

/-- **Statements are orderly.** -/
theorem orderly_statement (n : Nat) : (statement n).Orderly tokens AnyFault 0 := by
  induction n with
  | zero =>
      rw [statement]
      exact orderly_tooDeep
  | succ n ih =>
      have hexpr : (expression n).Orderly tokens AnyFault 0 :=
        (orderly_expression n).mono fun _ _ => trivial
      have htest := orderly_condition hexpr
      rw [statement]
      apply orderly_peek_bind
      intro i t rest hc
      split
      · next hkind =>
          refine orderly_step hc (by simp [Token.isEnd, hkind]) (orderly_bind hexpr fun value => ?_)
          exact orderly_bind (orderly_expect _ _) fun _ => orderly_pure _
      · next hkind =>
          refine orderly_step hc (by simp [Token.isEnd, hkind]) ?_
          refine orderly_bind (htest _ _) fun test => orderly_bind ih fun whenTrue => ?_
          exact orderly_accept (orderly_pure _) fun _ =>
            orderly_bind ih fun whenFalse => orderly_pure _
      · next hkind =>
          refine orderly_step hc (by simp [Token.isEnd, hkind]) ?_
          exact orderly_bind (htest _ _) fun test => orderly_bind ih fun body => orderly_pure _
      · next hkind =>
          have hbody := orderly_blockBody (resumes_declared hexpr ih)
          refine orderly_advance_bind hc (by simp [Token.isEnd, hkind])
            (orderly_bind hbody fun body => orderly_pure _) ?_
          rw [Cursor.braces_brace hkind (j := i + 1)]
          omega
      · exact orderly_bind hexpr (fun value =>
          orderly_bind (orderly_expect _ _) fun _ => orderly_pure _) _ hc

/-- **Declarations go on** behind their errors. -/
theorem resumes_declaration (n : Nat) :
    (declaration (expression n) (statement n)).Resumes tokens :=
  resumes_declared ((orderly_expression n).mono fun _ _ => trivial) (orderly_statement n)

end Statements

end ScriptLang.Parse
