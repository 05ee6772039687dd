import ScriptLang.Limits
import ScriptLang.Proofs.Parse.Accepts
import ScriptLang.Proofs.Parse.Append
import ScriptLang.Proofs.Parse.Ends

/-!
# Errors in segments

A segment is a row of tokens up to its only semicolon, such as a statement without a block, be it
well formed or not. A declaration takes exactly a segment: it is done behind the semicolon, or it
fails somewhere in front of it and recovery goes on behind it, since nothing in a segment stops the
skipping earlier. What follows the segment plays no part in this. A parse of segments one after the
other therefore ends with the errors that each of them has alone, and a broken segment neither hides
nor adds an error of another.

The one exception is a segment that is nested more deeply than the parser goes. It ends the parse,
so the segments behind it are not looked at.

## Main Definitions

* `Segment`: a row of tokens up to its only semicolon.
* `Parser.Inside`, `Parser.Closes`: what a parser does in a segment, whatever follows it.
* `reportsOfEach`: the errors of segments that are parsed alone.

## Main Statements

* `synchronize_body`: recovery goes on behind the semicolon.
* `closes_statement`, `closes_declaration`: what statements and declarations do in a segment.
* `Segment.declaration_eq`: a declaration takes exactly a segment.
* `errors_of_segments`: one parse reports every independent error.

## Design Notes

How far a parser looks ahead does not suffice here, since one that is done stands behind the
semicolon, at a token that the next parser looks at. So a parser is said to do the same *in the
tokens of a segment* whatever the tokens behind it are: expressions do because they never take a
semicolon, and the rest follows step by step. All declarations are read at position zero; what
stands further on is read there and then moved.
-/

namespace ScriptLang.Parse

variable {α β : Type}

/-! ### Segments -/

/-- The token is not one that a segment ends with, nor one that it must not hold. -/
def StandsInside (t : Token) : Prop :=
  t.kind ∉ [.semicolon, .leftBrace, .rightBrace, .endOfInput]

/-- The tokens of a segment in front of its semicolon: no braces and no end, and words that begin a
statement in the first place only. -/
structure IsBody (body : List Token) : Prop where
  inside : ∀ t ∈ body, StandsInside t
  plain : ∀ t ∈ body.tail, beginsStatement t.kind = false

/-- A row of tokens up to its only semicolon that does not begin with an `else`. -/
structure Segment where
  body : List Token
  semicolon : Token
  isBody : IsBody body
  head_ne_else : ∀ t ∈ body.head?, t.kind ≠ .elseWord
  kind_semicolon : semicolon.kind = .semicolon

/-- The tokens of the segment with its semicolon. -/
def Segment.tokens (s : Segment) : List Token := s.body ++ [s.semicolon]

instance (t : Token) : Decidable (StandsInside t) :=
  inferInstanceAs (Decidable (t.kind ∉ [.semicolon, .leftBrace, .rightBrace, .endOfInput]))

instance (body : List Token) : Decidable (IsBody body) :=
  decidable_of_iff ((∀ t ∈ body, StandsInside t) ∧ ∀ t ∈ body.tail, beginsStatement t.kind = false)
    ⟨fun h => ⟨h.1, h.2⟩, fun h => ⟨h.inside, h.plain⟩⟩

namespace IsBody

variable {used left body : List Token} {t : Token}

theorem suffix (h : IsBody (used ++ left)) : IsBody left := by
  refine ⟨fun t ht => h.inside t (List.mem_append_right _ ht), fun t ht => ?_⟩
  cases used with
  | nil => exact h.plain t ht
  | cons u used => exact h.plain t (List.mem_append_right _ (List.mem_of_mem_tail ht))

theorem tail (h : IsBody (t :: body)) : IsBody body := by
  have hsplit : IsBody ([t] ++ body) := h
  exact hsplit.suffix

theorem ne_semicolon (h : IsBody body) (ht : t ∈ body) : t.kind ≠ .semicolon :=
  fun hkind => h.inside t ht (by simp [hkind])

end IsBody

/-! ### Parsers within a segment -/

/-- Tokens of some kinds reach no further than a token of another kind. -/
theorem Cursor.Reaches.exists_left {kinds : TokenKind → Bool} {c' : Cursor} {i : Nat}
    {body rest : List Token} {stop : Token} (h : Reaches kinds ⟨i, body ++ stop :: rest⟩ c')
    (hstop : kinds stop.kind = false) :
    ∃ used left, body = used ++ left ∧ c' = ⟨i + used.length, left ++ stop :: rest⟩ := by
  obtain ⟨j, ts⟩ := c'
  obtain ⟨used, hused, hindex, hkinds⟩ := h
  dsimp only at hused hindex
  subst hindex
  rcases List.append_eq_append_iff.1 hused with ⟨more, rfl, hmore⟩ | ⟨left, rfl, rfl⟩
  · cases more with
    | nil =>
        obtain rfl : stop :: rest = ts := hmore
        exact ⟨body, [], by simp, by simp⟩
    | cons t more =>
        obtain ⟨rfl, -⟩ := List.cons.inj hmore
        cases hstop.symm.trans (hkinds stop (by simp)).2
  · exact ⟨used, left, rfl, rfl⟩

/-- The parser has broken off, but not for want of tokens. -/
def Outcome.Breaks : Outcome α → Prop
  | .done .. => False
  | .failed .. => True
  | .halted cause _ _ => cause = .tooDeep

@[simp] theorem Outcome.next_withNext (o : Outcome α) (next : Cursor) :
    (o.withNext next).next = next := by
  cases o <;> rfl

theorem Outcome.breaks_after (earlier : List Blame) (o : Outcome α) :
    (o.after earlier).Breaks ↔ o.Breaks := by
  cases o <;> rfl

section Confined

variable {semicolon : Token} {kinds : TokenKind → Bool} {least room i : Nat} {body : List Token}
variable {p q : Parser α} {f : α → Parser β}

/-- In front of the tokens of `body` the parser ends in front of the semicolon behind them, in the
same way whatever follows it. -/
def Parser.Inside (semicolon : Token) (p : Parser α) (i : Nat) (body : List Token) : Prop :=
  ∃ (o : Outcome α) (used left : List Token), body = used ++ left ∧ o.Settled True ∧
    ∀ t rest, p ⟨i, body ++ semicolon :: t :: rest⟩ =
      o.withNext ⟨i + used.length, left ++ semicolon :: t :: rest⟩

/-- In front of the tokens of `body` the parser is done right behind the semicolon, or breaks off in
front of it, in the same way whatever follows it, unless that is an `else`. -/
def Parser.Closes (semicolon : Token) (p : Parser α) (i : Nat) (body : List Token) : Prop :=
  (∃ a noted, ∀ t rest, t.kind ≠ .elseWord →
    p ⟨i, body ++ semicolon :: t :: rest⟩ = .done a ⟨i + body.length + 1, t :: rest⟩ noted) ∨
  ∃ (o : Outcome α) (used left : List Token), body = used ++ left ∧ o.Breaks ∧
    ∀ t rest, p ⟨i, body ++ semicolon :: t :: rest⟩ =
      o.withNext ⟨i + used.length, left ++ semicolon :: t :: rest⟩

/-- A parser that never takes a semicolon, and does the same in front of the same tokens, stays in
front of the semicolon. -/
theorem inside_of_leads (hsemicolon : semicolon.kind = .semicolon)
    (hkinds : kinds .semicolon = false) (htakes : p.Takes kinds least room)
    (hleads : p.Leads True p) (i : Nat) (body : List Token) : p.Inside semicolon i body := by
  have hstop : kinds semicolon.kind = false := hsemicolon ▸ hkinds
  -- One run, in front of an end, tells what all the others do.
  have hfirst := htakes ⟨i, body ++ [semicolon, bareToken .endOfInput]⟩
  have hsettled := hfirst.settled ⟨bareToken .endOfInput, by simp, rfl⟩
  obtain ⟨used, left, hsplit, hnext⟩ := hfirst.reaches.exists_left hstop
  refine ⟨_, used, left, hsplit, hsettled, fun t rest => ?_⟩
  have hagrees : Cursor.AgreesTo (i + (body ++ semicolon :: t :: rest).length) (i + body.length)
      ⟨i, body ++ [semicolon, bareToken .endOfInput]⟩ ⟨i, body ++ semicolon :: t :: rest⟩ :=
    ⟨rfl, rfl, body ++ [semicolon], [bareToken .endOfInput], t :: rest, by simp, by simp, by simp⟩
  have hle : i + used.length ≤ i + body.length := by
    rw [hsplit, List.length_append]
    omega
  obtain ⟨next', hp, hagrees'⟩ :=
    (hleads _ _).leads hagrees (by rw [hnext]; exact hle) hsettled
  have hreaches := (htakes ⟨i, body ++ semicolon :: t :: rest⟩).reaches
  rw [hp, Outcome.next_withNext] at hreaches
  obtain ⟨used', left', hsplit', rfl⟩ := hreaches.exists_left hstop
  have hindex := hagrees'.index_eq
  rw [hnext] at hindex
  obtain ⟨rfl, rfl⟩ :=
    List.append_inj (hsplit'.symm.trans hsplit) (Nat.add_left_cancel hindex)
  exact hp

/-- Two parsers that do the same in front of the tokens. -/
theorem Parser.Closes.congr (h : q.Closes semicolon i body)
    (heq : ∀ t rest, p ⟨i, body ++ semicolon :: t :: rest⟩ =
      q ⟨i, body ++ semicolon :: t :: rest⟩) :
    p.Closes semicolon i body := by
  rcases h with ⟨a, noted, hq⟩ | ⟨o, used, left, hbody, hbreaks, hq⟩
  · exact Or.inl ⟨a, noted, fun t rest ht => (heq t rest).trans (hq t rest ht)⟩
  · exact Or.inr ⟨o, used, left, hbody, hbreaks, fun t rest => (heq t rest).trans (hq t rest)⟩

/-- A parser that moves past a token and then goes on. -/
theorem Parser.Closes.step {u : Token} (h : q.Closes semicolon (i + 1) body)
    (heq : ∀ ts, p ⟨i, u :: ts⟩ = q ⟨i + 1, ts⟩) : p.Closes semicolon i (u :: body) := by
  rcases h with ⟨a, noted, hq⟩ | ⟨o, used, left, rfl, hbreaks, hq⟩
  · refine Or.inl ⟨a, noted, fun t rest ht => ?_⟩
    rw [List.cons_append, heq, hq t rest ht, List.length_cons, Nat.add_right_comm i 1,
      ← Nat.add_assoc]
  · refine Or.inr ⟨o, u :: used, left, rfl, hbreaks, fun t rest => ?_⟩
    rw [List.cons_append, heq, hq t rest, List.length_cons, Nat.add_right_comm, Nat.add_assoc i]

/-- What goes on behind a parser that stays in front of the semicolon has to close. -/
theorem closes_bind (hp : p.Inside semicolon i body)
    (hf : ∀ a used left, body = used ++ left → (f a).Closes semicolon (i + used.length) left) :
    (p >>= f).Closes semicolon i body := by
  obtain ⟨o, used, left, rfl, hsettled, hp⟩ := hp
  cases o with
  | failed blame next noted =>
      exact Or.inr ⟨.failed blame next noted, used, left, rfl, trivial,
        fun t rest => bind_of_failed (hp t rest)⟩
  | halted cause next noted =>
      cases cause with
      | ranOff => exact hsettled.elim
      | tooDeep =>
          exact Or.inr ⟨.halted .tooDeep next noted, used, left, rfl, rfl,
            fun t rest => bind_of_halted (hp t rest)⟩
  | done a next noted =>
      have hbind : ∀ t rest, (p >>= f) ⟨i, used ++ left ++ semicolon :: t :: rest⟩ =
          (f a ⟨i + used.length, left ++ semicolon :: t :: rest⟩).after noted :=
        fun t rest => bind_of_done (hp t rest)
      rcases hf a used left rfl with ⟨b, more, hfa⟩ | ⟨o, used', left', rfl, hbreaks, hfa⟩
      · refine Or.inl ⟨b, noted ++ more, fun t rest ht => ?_⟩
        rw [hbind, hfa t rest ht, List.length_append, ← Nat.add_assoc]
        rfl
      · refine Or.inr ⟨o.after noted, used ++ used', left', (List.append_assoc _ _ _).symm,
          (Outcome.breaks_after noted o).2 hbreaks, fun t rest => ?_⟩
        rw [hbind, hfa t rest, List.length_append, ← Nat.add_assoc, Outcome.withNext_after]

/-- What is done behind the semicolon is done in one way. -/
theorem closes_bind_behind (hp : p.Closes semicolon i body) (g : α → β)
    (hf : ∀ a j t rest, t.kind ≠ .elseWord → f a ⟨j, t :: rest⟩ = .done (g a) ⟨j, t :: rest⟩ []) :
    (p >>= f).Closes semicolon i body := by
  rcases hp with ⟨a, noted, hp⟩ | ⟨o, used, left, hbody, hbreaks, hp⟩
  · refine Or.inl ⟨g a, noted ++ [], fun t rest ht => ?_⟩
    rw [bind_of_done (hp t rest ht), hf a _ t rest ht]
    rfl
  · cases o with
    | done a next noted => exact hbreaks.elim
    | failed blame next noted =>
        exact Or.inr ⟨.failed blame next noted, used, left, hbody, trivial,
          fun t rest => bind_of_failed (hp t rest)⟩
    | halted cause next noted =>
        exact Or.inr ⟨.halted cause next noted, used, left, hbody, hbreaks,
          fun t rest => bind_of_halted (hp t rest)⟩

theorem closes_tooDeep : Parser.Closes semicolon (halt .tooDeep : Parser α) i body :=
  Or.inr ⟨.halted .tooDeep ⟨i, body⟩ [], [], body, rfl, rfl, fun _ _ => rfl⟩

theorem closes_peek {f : Token → Parser β}
    (hf : ∀ u us, body ++ [semicolon] = u :: us → (f u).Closes semicolon i body) :
    (peek >>= f).Closes semicolon i body := by
  cases body with
  | nil => exact (hf semicolon [] rfl).congr fun _ _ => Outcome.after_nil _
  | cons u left => exact (hf u _ rfl).congr fun _ _ => Outcome.after_nil _

theorem closes_advance {f : Unit → Parser β} {u : Token}
    (hf : (f ()).Closes semicolon (i + 1) body) : (advance >>= f).Closes semicolon i (u :: body) :=
  hf.step fun _ => Outcome.after_nil _

theorem closes_accept {f : Option Token → Parser β} {accepted : TokenKind → Bool}
    (hsemicolon : semicolon.kind = .semicolon) (haccepted : accepted .semicolon = false)
    (hnone : (f none).Closes semicolon i body)
    (hsome : ∀ u left, body = u :: left → accepted u.kind = true →
      (f (some u)).Closes semicolon (i + 1) left) :
    (accept? accepted >>= f).Closes semicolon i body := by
  cases body with
  | nil => exact hnone.congr fun _ _ => accept_bind_of_false (by simp [hsemicolon, haccepted])
  | cons u left =>
      cases hu : !u.isEnd && accepted u.kind with
      | true =>
          exact (hsome u left rfl (by simp_all)).step fun _ => accept_bind_of_true hu
      | false => exact hnone.congr fun _ _ => accept_bind_of_false hu

/-- The semicolon closes, and any other token does not stand in its place. -/
theorem closes_semicolon (hsemicolon : semicolon.kind = .semicolon)
    (hbody : ∀ t ∈ body, t.kind ≠ .semicolon) (fault : Fault) (a : α) :
    (expect .semicolon fault >>= fun _ => pure a).Closes semicolon i body := by
  cases body with
  | nil =>
      refine Or.inl ⟨a, [], fun t rest _ => ?_⟩
      exact expect_bind_of_true (by simp [Token.isEnd, hsemicolon])
  | cons u left =>
      refine Or.inr ⟨.failed ⟨fault, u, i⟩ ⟨i, u :: left⟩ [], [], u :: left, rfl, trivial,
        fun t rest => ?_⟩
      exact expect_bind_of_false (by simp [hbody u List.mem_cons_self])

/-! ### Recovery -/

/-- Nothing that stops the skipping stands in front of the semicolon. -/
theorem skip_plain (hsemicolon : semicolon.kind = .semicolon) {previous : TokenKind}
    (hprevious : previous ≠ .semicolon) (hinside : ∀ t ∈ body, StandsInside t)
    (hplain : ∀ t ∈ body, beginsStatement t.kind = false) (i : Nat) (t : Token)
    (rest : List Token) : skip previous i (body ++ semicolon :: t :: rest) =
      some ⟨i + body.length + 1, t :: rest⟩ := by
  induction body generalizing previous i with
  | nil => simp [skip, Token.isEnd, hsemicolon, hprevious, beginsStatement]
  | cons u body ih =>
      obtain ⟨hkind, hinside⟩ := List.forall_mem_cons.1 hinside
      obtain ⟨hword, hplain⟩ := List.forall_mem_cons.1 hplain
      simp only [StandsInside, List.mem_cons, not_or] at hkind
      rw [List.cons_append, skip, if_neg (by simp [Token.isEnd, hkind, hprevious, hword]),
        ih hkind.1 hinside hplain, List.length_cons, Nat.add_right_comm i 1, ← Nat.add_assoc]

/-- From anywhere in front of the semicolon, recovery goes on right behind it. The first token is
skipped whatever it is. -/
theorem synchronize_body (hsemicolon : semicolon.kind = .semicolon) (hbody : IsBody body) (i : Nat)
    (t : Token) (rest : List Token) : synchronize ⟨i, body ++ semicolon :: t :: rest⟩ =
      some ⟨i + body.length + 1, t :: rest⟩ := by
  cases body with
  | nil => simp [synchronize, skip, Token.isEnd, hsemicolon]
  | cons u body =>
      have hkind := hbody.inside u List.mem_cons_self
      simp only [StandsInside, List.mem_cons, not_or] at hkind
      have hskip := skip_plain hsemicolon hkind.1 hbody.tail.inside hbody.plain (i + 1) t rest
      rw [Nat.add_right_comm i 1] at hskip
      simpa [synchronize, Token.isEnd, hkind, Nat.add_assoc] using hskip

theorem closes_recover (hsemicolon : semicolon.kind = .semicolon) (hbody : IsBody body)
    (hp : p.Closes semicolon i body) : (recover p).Closes semicolon i body := by
  rcases hp with ⟨a, noted, hp⟩ | ⟨o, used, left, rfl, hbreaks, hp⟩
  · exact Or.inl ⟨some a, noted, fun t rest ht => recover_of_done (hp t rest ht)⟩
  · cases o with
    | done a next noted => exact hbreaks.elim
    | halted cause next noted =>
        exact Or.inr ⟨.halted cause next noted, used, left, rfl, hbreaks,
          fun t rest => recover_of_halted (hp t rest)⟩
    | failed blame next noted =>
        refine Or.inl ⟨none, noted ++ [blame], fun t rest _ => ?_⟩
        have hsync := synchronize_body hsemicolon hbody.suffix (i + used.length) t rest
        rw [recover_of_failed (hp t rest) hsync, List.length_append, Nat.add_assoc i]

end Confined

/-! ### Statements -/

section Statements

variable {semicolon : Token} {i : Nat} {body : List Token}

theorem inside_expression (hsemicolon : semicolon.kind = .semicolon) (n i : Nat)
    (body : List Token) : (expression n).Inside semicolon i body :=
  inside_of_leads hsemicolon rfl (takes_expression n)
    (leads_expression (Nat.le_refl n) fun _ => rfl) i body

theorem inside_condition (hsemicolon : semicolon.kind = .semicolon) (n : Nat)
    {opening closing : Fault} (hopening : opening ≠ .lessNesting)
    (hclosing : closing ≠ .lessNesting) (i : Nat) (body : List Token) :
    (condition (expression n) opening closing).Inside semicolon i body :=
  inside_of_leads hsemicolon rfl (takes_condition (takes_expression n) hopening hclosing)
    (leads_condition (leads_expression (Nat.le_refl n) fun _ => rfl) _ _) i body

/-- An expression with a semicolon behind it. -/
theorem closes_expression (hsemicolon : semicolon.kind = .semicolon) (n : Nat) (hbody : IsBody body)
    (fault : Fault) (f : Expr → α) :
    (expression n >>= fun value => expect .semicolon fault >>= fun _ =>
      pure (f value)).Closes semicolon i body := by
  refine closes_bind (inside_expression hsemicolon n i body) ?_
  rintro value used left rfl
  exact closes_semicolon hsemicolon (fun t ht => hbody.suffix.ne_semicolon ht) fault _

/-- In front of tokens that do not begin a statement by a word of its own stands an expression. -/
theorem closes_statement_plain (hsemicolon : semicolon.kind = .semicolon) (n : Nat)
    (hbody : IsBody body) (hplain : ∀ t ∈ body, beginsStatement t.kind = false) :
    (statement n).Closes semicolon i body := by
  cases n with
  | zero =>
      rw [statement]
      exact closes_tooDeep
  | succ n =>
      rw [statement]
      refine closes_peek fun u us hu => ?_
      have hhead : beginsStatement u.kind = false ∧ u.kind ≠ .leftBrace := by
        cases body with
        | nil =>
            obtain ⟨rfl, -⟩ := List.cons.inj hu
            simp [hsemicolon, beginsStatement]
        | cons v body =>
            obtain ⟨rfl, -⟩ := List.cons.inj hu
            have hkind := hbody.inside v List.mem_cons_self
            simp only [StandsInside, List.mem_cons, not_or] at hkind
            exact ⟨hplain v List.mem_cons_self, hkind.2.1⟩
      split
      case h_5 => exact closes_expression hsemicolon n hbody _ _
      all_goals simp_all [beginsStatement]

/-- The first token of a segment may be the word of its statement. The statements that are nested in
it begin behind that token. -/
theorem closes_statement (hsemicolon : semicolon.kind = .semicolon) (n : Nat)
    (hbody : IsBody body) : (statement n).Closes semicolon i body := by
  cases body with
  | nil => exact closes_statement_plain hsemicolon n hbody (List.forall_mem_nil _)
  | cons word body =>
      have hnested : ∀ {m j : Nat} {used left : List Token}, body = used ++ left →
          (statement m).Closes semicolon j left := by
        rintro m j used left rfl
        exact closes_statement_plain hsemicolon m hbody.tail.suffix fun t ht =>
          hbody.plain t (List.mem_append_right _ ht)
      cases n with
      | zero =>
          rw [statement]
          exact closes_tooDeep
      | succ n =>
          rw [statement]
          refine closes_peek fun u us hu => ?_
          obtain ⟨rfl, -⟩ := List.cons.inj hu
          split
          · exact closes_advance (closes_expression hsemicolon n hbody.tail _ _)
          · refine closes_advance (closes_bind (inside_condition hsemicolon n (by decide)
              (by decide) _ _) fun test used left hleft => ?_)
            refine closes_bind_behind (hnested hleft) (fun whenTrue => .branch test whenTrue none)
              fun whenTrue j t rest ht => ?_
            exact accept_bind_of_false (by simp [ht])
          · refine closes_advance (closes_bind (inside_condition hsemicolon n (by decide)
              (by decide) _ _) fun test used left hleft => ?_)
            exact closes_bind_behind (hnested hleft) (.loop test) fun _ _ _ _ _ => rfl
          · next hkind =>
              exact absurd (by simp [hkind]) (hbody.inside _ List.mem_cons_self)
          · exact closes_expression hsemicolon n hbody _ _

theorem closes_variableDeclaration (hsemicolon : semicolon.kind = .semicolon) (n : Nat)
    (hbody : IsBody body) : (variableDeclaration (expression n)).Closes semicolon i body := by
  have htakes : (expect .identifier .variableName).Takes standsInExpression 1 0 :=
    takes_expect rfl (by decide)
  refine closes_bind (inside_of_leads hsemicolon rfl htakes (leads_expect _ _) i body)
    fun name used left hleft => ?_
  obtain rfl := hleft
  have hrest := hbody.suffix
  refine closes_accept hsemicolon (by decide) ?_ fun equals more hmore _ => ?_
  · refine closes_bind (inside_of_leads hsemicolon rfl (takes_pure standsInExpression 0 none)
      (leads_pure none) _ _) ?_
    rintro initial used' left' rfl
    exact closes_semicolon hsemicolon (fun t ht => hrest.suffix.ne_semicolon ht) _ _
  · obtain rfl := hmore
    refine closes_bind (inside_of_leads hsemicolon rfl (takes_map (takes_expression n) some)
      (leads_map (leads_expression (Nat.le_refl n) fun _ => rfl) some) _ _) ?_
    rintro initial used' left' rfl
    exact closes_semicolon hsemicolon (fun t ht => hrest.tail.suffix.ne_semicolon ht) _ _

/-- **A declaration in front of a segment** is done right behind it or has too few levels. -/
theorem closes_declaration (hsemicolon : semicolon.kind = .semicolon) (n : Nat)
    (hbody : IsBody body) :
    (declaration (expression n) (statement n)).Closes semicolon i body := by
  refine closes_recover hsemicolon hbody (closes_accept hsemicolon (by decide)
    (closes_statement hsemicolon n hbody) ?_)
  rintro word left rfl -
  exact closes_variableDeclaration hsemicolon n hbody.tail

end Statements

/-! ### Programs that begin with a segment -/

namespace Segment

variable (s : Segment)

theorem length_tokens : s.tokens.length = s.body.length + 1 := by simp [tokens]

theorem tokens_append (ts : List Token) : s.tokens ++ ts = s.body ++ s.semicolon :: ts := by
  simp [tokens]

/-- The first token of a segment is neither an `else` nor the end. -/
theorem exists_cons : ∃ t rest, s.tokens = t :: rest ∧ t.kind ≠ .elseWord ∧ t.isEnd = false := by
  obtain ⟨body, semicolon, hbody, helse, hsemicolon⟩ := s
  cases body with
  | nil => exact ⟨semicolon, [], rfl, by simp [hsemicolon], by simp [Token.isEnd, hsemicolon]⟩
  | cons t rest =>
      have hkind := hbody.inside t List.mem_cons_self
      simp only [StandsInside, List.mem_cons, not_or] at hkind
      exact ⟨t, rest ++ [semicolon], rfl, helse t rfl, by simp [Token.isEnd, hkind]⟩

/-- **A declaration takes exactly a segment**, be it with a tree or after a failure, or has too few
levels for one of its tokens. What stands behind the segment does not matter. -/
theorem declaration_eq (limit : Nat) :
    (∃ first noted, ∀ t rest, t.kind ≠ .elseWord →
      declaration (expression limit) (statement limit) ⟨0, s.tokens ++ t :: rest⟩ =
        .done first ⟨s.tokens.length, t :: rest⟩ noted) ∨
    ∃ noted used u left, s.tokens = used ++ u :: left ∧ ∀ t rest,
      declaration (expression limit) (statement limit) ⟨0, s.tokens ++ t :: rest⟩ =
        .halted .tooDeep ⟨used.length, u :: left ++ t :: rest⟩ noted := by
  simp only [tokens_append, length_tokens]
  have hcloses : Parser.Closes s.semicolon (declaration (expression limit) (statement limit)) 0
      s.body := closes_declaration s.kind_semicolon limit s.isBody
  rcases hcloses with ⟨first, noted, h⟩ | ⟨o, used, left, hbody, hbreaks, h⟩
  · exact Or.inl ⟨first, noted, by simpa only [Nat.zero_add] using h⟩
  · cases o with
    | done a next noted => exact hbreaks.elim
    | failed blame next noted =>
        exact absurd (h s.semicolon []) (recovers_recover _ _ blame _ noted)
    | halted cause next noted =>
        obtain rfl : cause = .tooDeep := hbreaks
        obtain ⟨u, more, hmore⟩ : ∃ u more, left ++ [s.semicolon] = u :: more := by
          cases left with
          | nil => exact ⟨_, _, rfl⟩
          | cons u left => exact ⟨_, _, rfl⟩
        refine Or.inr ⟨noted, used, u, more, ?_, fun t rest => ?_⟩
        · rw [tokens, hbody, ← hmore, List.append_assoc]
        · rw [h t rest, ← hmore, Nat.zero_add, List.append_assoc]
          rfl

/-- A program that begins with a segment goes on behind it, or ends in it for want of levels. -/
theorem program_eq (limit : Nat) :
    (∃ first noted, ∀ k t rest, t.kind ≠ .elseWord →
      program limit (k + 1) ⟨0, s.tokens ++ t :: rest⟩ =
        ((program limit k ⟨s.tokens.length, t :: rest⟩).prepend first).after noted) ∨
    ∃ noted used u left, s.tokens = used ++ u :: left ∧ ∀ k t rest,
      program limit (k + 1) ⟨0, s.tokens ++ t :: rest⟩ =
        .halted .tooDeep ⟨used.length, u :: left ++ t :: rest⟩ noted := by
  obtain ⟨v, vs, hv, -, hopen⟩ := s.exists_cons
  have hround : ∀ k t rest, program limit (k + 1) ⟨0, s.tokens ++ t :: rest⟩ =
      (declaration (expression limit) (statement limit) >>= fun first =>
        program limit k >>= fun others => pure (first.toList ++ others))
        ⟨0, s.tokens ++ t :: rest⟩ := by
    intro k t rest
    have hkind : ¬ (v.isEnd || v.kind = .endOfInput) = true := by
      simpa [Token.isEnd] using hopen
    rw [hv, List.cons_append, program, declarations_cons, if_neg hkind]
    rfl
  rcases s.declaration_eq limit with ⟨first, noted, h⟩ | ⟨noted, used, u, left, hsplit, h⟩
  · refine Or.inl ⟨first.toList, noted, fun k t rest ht => ?_⟩
    rw [hround, bind_declarations_of_done (h t rest ht)]
  · refine Or.inr ⟨noted, used, u, left, hsplit, fun k t rest => ?_⟩
    rw [hround, bind_of_halted (h t rest)]

end Segment

/-! ### What a parse ends with -/

/-- The errors that a parse ends with. -/
def reports : Except Failure (List Stmt) → List Blame
  | .error (.rejected first more) => first :: more
  | _ => []

/-- The statements that a parse ends with, none if there are errors. -/
def built : Except Failure (List Stmt) → List Stmt
  | .ok program => program
  | .error _ => []

/-- The report that many tokens further on. -/
def Blame.onward (tokens : Nat) (blame : Blame) : Blame :=
  { blame with index := blame.index + tokens }

@[simp] theorem reports_verdict (program : List Stmt) (noted : List Blame) :
    reports (verdict program noted) = noted := by
  cases noted <;> rfl

/-- Where there are errors, statements do not matter. -/
theorem verdict_congr {program program' : List Stmt} {noted : List Blame}
    (h : noted = [] → program = program') : verdict program noted = verdict program' noted := by
  cases noted with
  | nil => rw [h rfl]
  | cons first more => rfl

theorem verdict_inj {program program' : List Stmt} {noted noted' : List Blame}
    (h : verdict program noted = verdict program' noted') :
    noted = noted' ∧ (noted = [] → program = program') := by
  cases noted <;> cases noted' <;> cases h
  · exact ⟨rfl, fun _ => rfl⟩
  · exact ⟨rfl, fun hnil => nomatch hnil⟩

/-- Errors that were noted before an outcome stand in front of those that the parse ends with. -/
theorem verdict_after {o : Outcome (List Stmt)} {program : List Stmt} {noted more : List Blame}
    (h : o.verdict = verdict program more) :
    (o.after noted).verdict = verdict program (noted ++ more) := by
  cases o with
  | done stmts next later =>
      obtain ⟨rfl, hstmts⟩ := verdict_inj h
      exact verdict_congr fun hnil => hstmts (List.append_eq_nil_iff.1 hnil).2
  | failed blame next later =>
      obtain ⟨rfl, -⟩ := verdict_inj h
      rw [← List.append_assoc]
      exact verdict_congr fun hnil => by simp at hnil
  | halted cause next later =>
      obtain ⟨i, ts⟩ := next
      cases cause with
      | ranOff => cases more <;> cases h
      | tooDeep =>
          cases ts with
          | nil => cases more <;> cases h
          | cons t rest =>
              obtain ⟨rfl, -⟩ := verdict_inj h
              rw [← List.append_assoc]
              exact verdict_congr fun hnil => by simp at hnil

/-- Statements in front of an outcome stand in front of those that the parse ends with. -/
theorem verdict_prepend_eq {o : Outcome (List Stmt)} {first program : List Stmt}
    {noted : List Blame} (h : o.verdict = verdict program noted) :
    (o.prepend first).verdict = verdict (first ++ program) noted := by
  rw [verdict_prepend, h]
  cases noted <;> rfl

/-- A program further on is the program, with its errors further on. -/
theorem verdict_onward {limit bound k : Nat} {ts : List Token} (hend : ∃ t ∈ ts, t.isEnd = true)
    {program' : List Stmt} {noted : List Blame}
    (h : (program limit bound ⟨0, ts⟩).verdict = verdict program' noted) :
    (program limit bound ⟨k, ts⟩).verdict = verdict program' (noted.map (Blame.onward k)) := by
  have halike := (alike_program (r := { Relabeling.id with offset := k }) .endOfInput limit bound
    ⟨0, ts⟩ ⟨rfl, hend⟩).relabel_eq
  have hcursor : Cursor.relabel { Relabeling.id with offset := k } ⟨0, ts⟩ = ⟨k, ts⟩ := by
    simp [Cursor.relabel, Relabeling.id]
  rw [hcursor] at halike
  rw [program, halike, verdict_relabel]
  rw [program] at h
  rw [h]
  cases noted with
  | nil => exact congrArg Except.ok (relabelAll_id program')
  | cons first more => rfl

/-! ### Segments one after the other -/

/-- What a parse of the segment alone ends with, with the token `stop` behind it. -/
def parseAlone (limit : Nat) (stop : Token) (s : Segment) : Except Failure (List Stmt) :=
  parse limit (s.tokens ++ [stop])

/-- Is the segment nested more deeply than the parser goes? -/
def isTooDeep (limit : Nat) (stop : Token) (s : Segment) : Bool :=
  (reports (parseAlone limit stop s)).any (·.fault = .lessNesting)

/-- The errors of segments that are parsed alone, each further on by the segments in front of it. A
segment that is nested too deeply is the last one that is looked at. -/
def reportsOfEach (limit : Nat) (stop : Token) : List Segment → List Blame
  | [] => []
  | s :: segments =>
    reports (parseAlone limit stop s) ++
      if isTooDeep limit stop s then []
      else (reportsOfEach limit stop segments).map (Blame.onward s.tokens.length)

section Alone

variable {limit : Nat} {stop : Token}

theorem ne_else_of_isEnd {t : Token} (h : t.isEnd = true) : t.kind ≠ .elseWord := by
  intro hkind
  simp [Token.isEnd, hkind] at h

/-- At an end a program is done. -/
theorem program_end (hstop : stop.isEnd = true) (k i : Nat) (rest : List Token) :
    program limit (k + 1) ⟨i, stop :: rest⟩ = .done [] ⟨i, stop :: rest⟩ [] := by
  rw [program, declarations_cons, if_pos (by simp [hstop])]

/-- Behind a segment stands the beginning of another one or the end. -/
theorem exists_cons_of_segments {last : Token} (hlast : last.isEnd = true)
    (segments : List Segment) : ∃ t rest,
      segments.flatMap Segment.tokens ++ [last] = t :: rest ∧ t.kind ≠ .elseWord := by
  cases segments with
  | nil => exact ⟨last, [], rfl, ne_else_of_isEnd hlast⟩
  | cons s segments =>
      obtain ⟨t, rest, ht, helse, -⟩ := s.exists_cons
      exact ⟨t, _, by rw [List.flatMap_cons, ht]; rfl, helse⟩

/-- A segment that a declaration takes ends in what that built and noted. -/
theorem parseAlone_of_program_eq {s : Segment} {first : List Stmt} {noted : List Blame}
    (hstop : stop.isEnd = true)
    (h : ∀ k t rest, t.kind ≠ .elseWord → program limit (k + 1) ⟨0, s.tokens ++ t :: rest⟩ =
      ((program limit k ⟨s.tokens.length, t :: rest⟩).prepend first).after noted) :
    parseAlone limit stop s = verdict first noted ∧
      ∀ blame ∈ noted, blame.fault ≠ .lessNesting := by
  have hprogram : program limit ((s.tokens ++ [stop]).length + 1) ⟨0, s.tokens ++ [stop]⟩ =
      .done (first ++ []) ⟨s.tokens.length, [stop]⟩ (noted ++ []) := by
    rw [h _ stop [] (ne_else_of_isEnd hstop), List.length_append, List.length_singleton,
      program_end hstop]
    rfl
  have htakes : (program limit ((s.tokens ++ [stop]).length + 1) ⟨0, s.tokens ++ [stop]⟩).Takes
      anyKind 0 limit ⟨0, s.tokens ++ [stop]⟩ := takes_program limit _ _
  rw [hprogram] at htakes
  rw [parseAlone, parse_eq_program, hprogram]
  simp only [List.append_nil] at htakes ⊢
  exact ⟨rfl, htakes.faults⟩

/-- **A parse of segments** ends with what the parses of each segment alone end with. -/
theorem parse_flatMap_tokens {last : Token} (hstop : stop.isEnd = true)
    (hlast : last.isEnd = true) (segments : List Segment) :
    parse limit (segments.flatMap Segment.tokens ++ [last]) =
      verdict (segments.flatMap fun s => built (parseAlone limit stop s))
        (reportsOfEach limit stop segments) := by
  induction segments with
  | nil =>
      rw [parse_eq_program, List.flatMap_nil, List.nil_append, List.length_singleton,
        program_end hlast]
      rfl
  | cons s segments ih =>
      obtain ⟨t, rest, hrest, ht⟩ := exists_cons_of_segments hlast segments
      have hend : ∃ u ∈ t :: rest, u.isEnd = true :=
        ⟨last, by rw [← hrest]; simp, hlast⟩
      rw [List.flatMap_cons, List.append_assoc, hrest, parse_eq_program]
      rw [hrest, parse_eq_program] at ih
      rcases s.program_eq limit with ⟨first, noted, h⟩ | ⟨noted, used, u, left, hsplit, h⟩
      · obtain ⟨halone, hfaults⟩ := parseAlone_of_program_eq hstop h
        have hnot : isTooDeep limit stop s = false := by
          rw [isTooDeep, halone, reports_verdict]
          simpa using hfaults
        -- The rounds that are left suffice for the tokens behind the segment.
        have hrounds : program limit (s.tokens ++ t :: rest).length ⟨s.tokens.length, t :: rest⟩ =
            program limit ((t :: rest).length + 1) ⟨s.tokens.length, t :: rest⟩ := by
          refine declarations_eq_of_length_lt (proceeds_declaration limit) ?_ (Nat.lt_succ_self _)
          rw [List.length_append, s.length_tokens]
          dsimp only
          omega
        rw [h _ t rest ht, hrounds, verdict_after (verdict_prepend_eq (verdict_onward hend ih)),
          reportsOfEach, halone, hnot, reports_verdict, if_neg Bool.false_ne_true,
          List.flatMap_cons, halone]
        refine verdict_congr fun hnil => ?_
        rw [(List.append_eq_nil_iff.1 hnil).1]
        rfl
      · have halone : parseAlone limit stop s =
            verdict [] (noted ++ [⟨.lessNesting, u, used.length⟩]) := by
          rw [parseAlone, parse_eq_program, h]
          rfl
        have hdeep : isTooDeep limit stop s = true := by
          rw [isTooDeep, halone, reports_verdict]
          simp
        rw [h, reportsOfEach, halone, hdeep, reports_verdict, if_pos rfl, List.append_nil]
        exact verdict_congr fun hnil => by simp at hnil

/-- With levels for twice the tokens a segment is not nested too deeply. -/
theorem isTooDeep_of_room {s : Segment} (hroom : 2 * s.tokens.length + 5 ≤ limit) :
    isTooDeep limit stop s = false := by
  unfold isTooDeep parseAlone
  cases h : parse limit (s.tokens ++ [stop]) with
  | ok program => rfl
  | error failure =>
      cases failure with
      | ranOff => rfl
      | rejected first more =>
          have hne := fault_ne_lessNesting h (by rw [List.length_append]; exact hroom)
          simpa [reports] using hne

/-- What is blamed, for what, without the position. -/
def Blame.cause (blame : Blame) : Fault × Token := (blame.fault, blame.token)

theorem reportsOfEach_of_room {segments : List Segment}
    (h : ∀ s ∈ segments, isTooDeep limit stop s = false) :
    (reportsOfEach limit stop segments).map Blame.cause =
      segments.flatMap fun s => (reports (parseAlone limit stop s)).map Blame.cause := by
  induction segments with
  | nil => rfl
  | cons s segments ih =>
      obtain ⟨hs, hsegments⟩ := List.forall_mem_cons.1 h
      have honward : Blame.cause ∘ Blame.onward s.tokens.length = Blame.cause := rfl
      rw [reportsOfEach, hs, if_neg Bool.false_ne_true, List.map_append, List.map_map, honward,
        ih hsegments, List.flatMap_cons]

/-- **One parse reports every independent error.** A parse of segments ends with the errors of each
segment alone, in order, and if there are none, with the statements of each. A segment that is
nested too deeply ends the parse; with levels for twice its tokens no segment is. -/
theorem errors_of_segments (limit : Nat) {stop last : Token} (hstop : stop.isEnd = true)
    (hlast : last.isEnd = true) (segments : List Segment) :
    parse limit (segments.flatMap Segment.tokens ++ [last]) =
      verdict (segments.flatMap fun s => built (parseAlone limit stop s))
        (reportsOfEach limit stop segments) ∧
    (∀ s ∈ segments, parseAlone limit stop s ≠ .error .ranOff) ∧
    ((∀ s ∈ segments, isTooDeep limit stop s = false) →
      (reportsOfEach limit stop segments).map Blame.cause =
        segments.flatMap fun s => (reports (parseAlone limit stop s)).map Blame.cause) ∧
    ∀ s ∈ segments, 2 * s.tokens.length + 5 ≤ limit → isTooDeep limit stop s = false := by
  refine ⟨parse_flatMap_tokens hstop hlast segments, fun s _ h => ?_, reportsOfEach_of_room,
    fun s _ => isTooDeep_of_room⟩
  have hopen := no_end_of_ranOff h stop (by simp)
  rw [hstop] at hopen
  cases hopen

end Alone

/-- A segment of tokens of these kinds. -/
def bareSegment (kinds : List TokenKind) (hbody : IsBody (kinds.map bareToken))
    (helse : ∀ t ∈ (kinds.map bareToken).head?, t.kind ≠ .elseWord) : Segment :=
  ⟨kinds.map bareToken, bareToken .semicolon, hbody, helse, rfl⟩

/-- A word without its value. -/
def emptyPrint : Segment := bareSegment [.printWord] (by decide) (by decide)

/-- Around a statement, two that are broken: `print; nil; var;`. -/
theorem errors_of_segments_emptyPrint :
    (bareToken .endOfInput).isEnd = true ∧
    parse 20 ([emptyPrint, bareSegment [.nilWord] (by decide) (by decide),
        bareSegment [.varWord] (by decide) (by decide)].flatMap Segment.tokens ++
          [bareToken .endOfInput]) =
      .error (.rejected ⟨.expression, bareToken .semicolon, 1⟩
        [⟨.variableName, bareToken .semicolon, 5⟩]) := by
  have hend : (bareToken .endOfInput).isEnd = true := by decide
  exact ⟨hend, (errors_of_segments 20 hend hend _).1.trans rfl⟩

/-- Two thousand parentheses are opened. -/
def openings : Segment where
  body := List.replicate 2000 openParen
  semicolon := bareToken .semicolon
  isBody := by
    refine ⟨fun t ht => ?_, fun t ht => ?_⟩
    · rw [List.eq_of_mem_replicate ht]
      decide
    · rw [List.eq_of_mem_replicate (List.mem_of_mem_tail ht)]
      rfl
  head_ne_else t ht := by
    rw [List.eq_of_mem_replicate (List.mem_of_mem_head? ht)]
    decide
  kind_semicolon := rfl

/-- With the standard limits the parentheses hide the error of a segment behind them. -/
theorem openings_hide_error :
    (reports (parse Limits.standard.nesting
        ([openings, emptyPrint].flatMap Segment.tokens ++ [bareToken .endOfInput]))).map
          Blame.cause ≠
      [openings, emptyPrint].flatMap fun s =>
        (reports (parseAlone Limits.standard.nesting (bareToken .endOfInput) s)).map
          Blame.cause := by
  have hdeep : Limits.standard.nesting ≤ 1999 := by decide
  have htokens : ∀ ts, openings.tokens ++ ts =
      List.replicate 2000 openParen ++ bareToken .semicolon :: ts :=
    fun ts => List.append_assoc _ _ _
  obtain ⟨i, -, hwhole⟩ := parse_openings hdeep
    (bareToken .semicolon :: (emptyPrint.tokens ++ [bareToken .endOfInput]))
  obtain ⟨j, -, hfirst⟩ := parse_openings hdeep [bareToken .semicolon, bareToken .endOfInput]
  have hsecond : parseAlone Limits.standard.nesting (bareToken .endOfInput) emptyPrint =
      .error (.rejected ⟨.expression, bareToken .semicolon, 1⟩ []) := by rfl
  rw [← htokens] at hwhole hfirst
  simp only [List.flatMap_cons, List.flatMap_nil, List.append_nil, List.append_assoc]
  rw [hwhole, hsecond, parseAlone, hfirst]
  intro h
  cases h

end ScriptLang.Parse
