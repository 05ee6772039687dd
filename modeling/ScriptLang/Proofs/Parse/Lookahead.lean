import ScriptLang.Proofs.Parse.Progress

/-!
# How far a parser looks

What a parser does is decided by the tokens up to the one that it stops at. On two lists of tokens
that agree so far it ends in the same way, with the same tree and the same reports, and the lists
agree behind it as far as they did before. The levels that it may open do not matter either, unless
it stops for want of them.

## Main Definitions

* `Cursor.AgreesTo`: two cursors at one position see the same tokens up to another one.
* `Parser.LeadsAt`: a parser that looks no further than it goes, and another one that follows it.

## Main Statements

* `leads_expression`, `leads_statement`, `leads_declaration`: the parsers look no further.
* `leads_declarations`: nor do loops over declarations, whatever their bounds.

## Design Notes

A parser that runs out of tokens is left aside, since it has looked behind the last one. So is one
that stops for want of levels, if the other parser may open more of them.
-/

namespace ScriptLang.Parse

variable {α β : Type}

/-! ### Cursors that agree -/

/-- The cursors stand at one position and see the same tokens up to the position `m`. The second
one stands in `total` tokens. -/
structure Cursor.AgreesTo (total m : Nat) (c c' : Cursor) : Prop where
  index_eq : c'.index = c.index
  total_eq : c'.index + c'.rest.length = total
  seen : ∃ seen left left', c.rest = seen ++ left ∧ c'.rest = seen ++ left' ∧
    m < c.index + seen.length

/-- Up to the position where they agree, the cursors see the same token next. -/
theorem Cursor.AgreesTo.exists_cons {total m i : Nat} {ts : List Token} {c' : Cursor}
    (h : Cursor.AgreesTo total m ⟨i, ts⟩ c') (hle : i ≤ m) :
    ∃ t rest rest', ts = t :: rest ∧ c' = ⟨i, t :: rest'⟩ ∧
      Cursor.AgreesTo total m ⟨i + 1, rest⟩ ⟨i + 1, rest'⟩ := by
  obtain ⟨hindex, htotal, seen, left, left', hrest, hrest', hlt⟩ := h
  obtain ⟨i', ts'⟩ := c'
  cases seen with
  | nil => exact absurd hlt (Nat.not_lt_of_le hle)
  | cons t seen =>
      simp only [List.length_cons] at hindex htotal hrest hrest' hlt
      subst hindex hrest'
      refine ⟨t, seen ++ left, seen ++ left', hrest, rfl, rfl, ?_, seen, left, left', rfl, rfl, ?_⟩
      · rw [← htotal, List.cons_append, List.length_cons]
        exact Nat.add_right_comm _ _ _
      · show m < i' + 1 + seen.length
        omega

/-! ### Outcomes that agree -/

namespace Outcome

/-- The outcome at another cursor. -/
def withNext (o : Outcome α) (next : Cursor) : Outcome α :=
  match o with
  | done value _ noted => .done value next noted
  | failed blame _ noted => .failed blame next noted
  | halted cause _ noted => .halted cause next noted

/-- The parser has ended within its tokens, and within its levels unless these are the same for the
other parser. -/
def Settled (same : Prop) : Outcome α → Prop
  | done .. => True
  | failed .. => True
  | halted .tooDeep _ _ => same
  | halted .ranOff _ _ => False

@[simp] theorem withNext_after (earlier : List Blame) (o : Outcome α) (next : Cursor) :
    (o.after earlier).withNext next = (o.withNext next).after earlier := by
  cases o <;> rfl

@[simp] theorem settled_after (same : Prop) (earlier : List Blame) (o : Outcome α) :
    (o.after earlier).Settled same ↔ o.Settled same := by
  cases o with
  | halted cause next noted => cases cause <;> rfl
  | _ => rfl

end Outcome

/-- In front of an end a parser ends within its tokens. -/
theorem Outcome.Takes.settled {kinds : TokenKind → Bool} {least room : Nat} {c : Cursor}
    {o : Outcome α} (h : o.Takes kinds least room c) (hend : c.HasEnd) : o.Settled True := by
  have hspends := h.spends
  cases o with
  | halted cause next noted =>
      cases cause with
      | tooDeep => trivial
      | ranOff =>
          obtain ⟨t, ht, hend⟩ := hend
          cases hend.symm.trans (hspends t ht)
  | _ => trivial

/-- From the cursor `c` the parser `p` moves on, and where another cursor agrees with `c` as far as
it goes, the parser `q` does from there what `p` does. -/
structure Parser.LeadsAt (same : Prop) (total : Nat) (p q : Parser α) (c : Cursor) : Prop where
  on : c.index ≤ (p c).next.index
  leads : ∀ {m : Nat} {c' : Cursor}, c.AgreesTo total m c' → (p c).next.index ≤ m →
    (p c).Settled same →
    ∃ next', q c' = (p c).withNext next' ∧ (p c).next.AgreesTo total m next'

/-- The parser `q` does what `p` does, wherever that begins, if the tokens agree as far as `p`
goes. -/
def Parser.Leads (same : Prop) (p q : Parser α) : Prop := ∀ total c, p.LeadsAt same total q c

section Steps

variable {same : Prop} {total : Nat} {p q : Parser α} {f g : α → Parser β} {c : Cursor}

theorem leads_pure (a : α) : Parser.Leads same (pure a) (pure a) :=
  fun _ _ => ⟨Nat.le_refl _, fun h _ _ => ⟨_, rfl, h⟩⟩

theorem leads_bind_at (hp : p.LeadsAt same total q c)
    (hf : ∀ a next noted, p c = .done a next noted → (f a).LeadsAt same total (g a) next) :
    (p >>= f).LeadsAt same total (q >>= g) c := by
  obtain ⟨hon, hleads⟩ := hp
  cases hpc : p c with
  | failed blame next noted =>
      rw [hpc] at hon hleads
      refine ⟨by rwa [bind_of_failed hpc], fun h hle _ => ?_⟩
      rw [bind_of_failed hpc] at hle ⊢
      obtain ⟨next', hq, hnext⟩ := hleads h hle trivial
      exact ⟨next', bind_of_failed hq, hnext⟩
  | halted cause next noted =>
      rw [hpc] at hon hleads
      refine ⟨by rwa [bind_of_halted hpc], fun h hle hsettled => ?_⟩
      rw [bind_of_halted hpc] at hle hsettled ⊢
      obtain ⟨next', hq, hnext⟩ := hleads h hle (by cases cause <;> exact hsettled)
      exact ⟨next', bind_of_halted hq, hnext⟩
  | done a next noted =>
      rw [hpc] at hon hleads
      obtain ⟨honward, hfollows⟩ := hf a next noted hpc
      refine ⟨?_, fun h hle hsettled => ?_⟩
      · rw [bind_of_done hpc, Outcome.next_after]
        exact Nat.le_trans hon honward
      · rw [bind_of_done hpc] at hle hsettled ⊢
        rw [Outcome.next_after] at hle ⊢
        obtain ⟨mid, hq, hmid⟩ := hleads h (Nat.le_trans honward hle) trivial
        obtain ⟨next', hg, hnext⟩ := hfollows hmid hle ((Outcome.settled_after _ _ _).1 hsettled)
        exact ⟨next', by rw [bind_of_done hq, hg, Outcome.withNext_after], hnext⟩

theorem leads_bind (hp : p.Leads same q) (hf : ∀ a, (f a).Leads same (g a)) :
    (p >>= f).Leads same (q >>= g) :=
  fun total c => leads_bind_at (hp total c) fun a next _ _ => hf a total next

theorem leads_map (hp : p.Leads same q) (f : α → β) : (f <$> p).Leads same (f <$> q) :=
  leads_bind hp fun a => leads_pure (f a)

theorem leads_peek_at {f g : Token → Parser β}
    (hf : ∀ t rest, c.rest = t :: rest → (f t).LeadsAt same total (g t) c) :
    (peek >>= f).LeadsAt same total (peek >>= g) c := by
  obtain ⟨i, ts⟩ := c
  cases ts with
  | nil => exact ⟨Nat.le_refl i, fun _ _ hsettled => hsettled.elim⟩
  | cons t rest =>
      have hpeek : ∀ (f : Token → Parser β) ts,
          (peek >>= f) ⟨i, t :: ts⟩ = f t ⟨i, t :: ts⟩ :=
        fun f ts => Outcome.after_nil _
      obtain ⟨hon, hleads⟩ := hf t rest rfl
      refine ⟨by rwa [hpeek], fun h hle hsettled => ?_⟩
      rw [hpeek] at hle hsettled ⊢
      obtain ⟨_, _, rest', hcons, rfl, -⟩ := h.exists_cons (Nat.le_trans hon hle)
      cases hcons
      rw [hpeek]
      exact hleads h hle hsettled

/-- What is done with the token at the cursor may hang on where it stands. -/
theorem leads_peek_bind {f g : Token → Parser β}
    (hf : ∀ total i t rest, (f t).LeadsAt same total (g t) ⟨i, t :: rest⟩) :
    (peek >>= f).Leads same (peek >>= g) := by
  rintro total ⟨i, ts⟩
  refine leads_peek_at fun t rest hrest => ?_
  cases hrest
  exact hf total i t rest

theorem leads_advance_bind {f g : Unit → Parser β} {i : Nat} {t : Token} {rest : List Token}
    (hf : (f ()).LeadsAt same total (g ()) ⟨i + 1, rest⟩) :
    (advance >>= f).LeadsAt same total (advance >>= g) ⟨i, t :: rest⟩ := by
  have hadvance : ∀ (f : Unit → Parser β) ts,
      (advance >>= f) ⟨i, t :: ts⟩ = f () ⟨i + 1, ts⟩ :=
    fun f ts => Outcome.after_nil _
  obtain ⟨hon, hleads⟩ := hf
  refine ⟨by rw [hadvance]; exact Nat.le_of_succ_le hon, fun h hle hsettled => ?_⟩
  rw [hadvance] at hle hsettled ⊢
  obtain ⟨_, _, rest', hcons, rfl, hrest⟩ :=
    h.exists_cons (Nat.le_trans (Nat.le_of_succ_le hon) hle)
  cases hcons
  rw [hadvance]
  exact hleads hrest hle hsettled

/-- Whether a token is accepted is decided by the token at the cursor. -/
theorem leads_accept_at {f g : Option Token → Parser β} {kinds : TokenKind → Bool}
    (hnone : (f none).LeadsAt same total (g none) c)
    (hsome : ∀ t rest, c.rest = t :: rest →
      (f (some t)).LeadsAt same total (g (some t)) ⟨c.index + 1, rest⟩) :
    (accept? kinds >>= f).LeadsAt same total (accept? kinds >>= g) c := by
  obtain ⟨i, ts⟩ := c
  cases ts with
  | nil => exact ⟨Nat.le_refl i, fun _ _ hsettled => hsettled.elim⟩
  | cons t rest =>
      cases ht : !t.isEnd && kinds t.kind with
      | false =>
          obtain ⟨hon, hleads⟩ := hnone
          refine ⟨by rwa [accept_bind_of_false ht], fun h hle hsettled => ?_⟩
          rw [accept_bind_of_false ht] at hle hsettled ⊢
          obtain ⟨_, _, rest', hcons, rfl, -⟩ := h.exists_cons (Nat.le_trans hon hle)
          cases hcons
          rw [accept_bind_of_false ht]
          exact hleads h hle hsettled
      | true =>
          obtain ⟨hon, hleads⟩ := hsome t rest rfl
          refine ⟨by rw [accept_bind_of_true ht]; exact Nat.le_of_succ_le hon,
            fun h hle hsettled => ?_⟩
          rw [accept_bind_of_true ht] at hle hsettled ⊢
          obtain ⟨_, _, rest', hcons, rfl, hrest⟩ :=
            h.exists_cons (Nat.le_trans (Nat.le_of_succ_le hon) hle)
          cases hcons
          rw [accept_bind_of_true ht]
          exact hleads hrest hle hsettled

theorem leads_accept {f g : Option Token → Parser β} {kinds : TokenKind → Bool}
    (hnone : (f none).Leads same (g none)) (hsome : ∀ t, (f (some t)).Leads same (g (some t))) :
    (accept? kinds >>= f).Leads same (accept? kinds >>= g) :=
  fun total c => leads_accept_at (hnone total c) fun t _ _ => hsome t total _

theorem leads_fail (fault : Fault) : Parser.Leads same (fail fault : Parser α) (fail fault) := by
  rintro total ⟨i, ts⟩
  cases ts with
  | nil => exact ⟨Nat.le_refl i, fun _ _ hsettled => hsettled.elim⟩
  | cons t rest =>
      refine ⟨Nat.le_refl i, fun h hle _ => ?_⟩
      obtain ⟨_, _, rest', hcons, rfl, -⟩ := h.exists_cons hle
      cases hcons
      exact ⟨⟨i, t :: rest'⟩, rfl, h⟩

theorem leads_tooDeep (hq : same → q = halt .tooDeep) : Parser.Leads same (halt .tooDeep) q :=
  fun _ _ => ⟨Nat.le_refl _, fun h _ hsettled => ⟨_, by rw [hq hsettled]; rfl, h⟩⟩

theorem leads_expect (kind : TokenKind) (fault : Fault) :
    (expect kind fault).Leads same (expect kind fault) :=
  leads_accept (leads_fail fault) fun t => leads_pure t

theorem leads_here_bind {f g : Nat → Parser β} (hf : (f c.index).LeadsAt same total (g c.index) c) :
    (here >>= f).LeadsAt same total (here >>= g) c := by
  obtain ⟨hon, hleads⟩ := hf
  refine ⟨by rwa [here_bind], fun h hle hsettled => ?_⟩
  rw [here_bind] at hle hsettled ⊢
  rw [here_bind, h.index_eq]
  exact hleads h hle hsettled

/-! ### Recovery -/

/-- Where skipping stops is decided by the tokens up to there. -/
theorem skip_agrees {m : Nat} {previous : TokenKind} {i : Nat} {ts ts' : List Token}
    {boundary : Cursor} (h : Cursor.AgreesTo total m ⟨i, ts⟩ ⟨i, ts'⟩)
    (hskip : skip previous i ts = some boundary) (hle : boundary.index ≤ m) :
    ∃ boundary', skip previous i ts' = some boundary' ∧ boundary.AgreesTo total m boundary' := by
  induction ts generalizing previous i ts' with
  | nil => cases hskip
  | cons t ts ih =>
      have hreaches := skip_reaches previous i (t :: ts)
      rw [hskip] at hreaches
      obtain ⟨_, _, rest', hcons, hcons', hrest⟩ :=
        h.exists_cons (Nat.le_trans hreaches.index_le hle)
      cases hcons
      cases hcons'
      rw [skip] at hskip ⊢
      split
      · next hstop =>
          rw [if_pos hstop] at hskip
          cases hskip
          exact ⟨_, rfl, h⟩
      · next hopen =>
          rw [if_neg hopen] at hskip
          exact ih hrest hskip

theorem synchronize_agrees {m : Nat} {c' boundary : Cursor} (h : c.AgreesTo total m c')
    (hsync : synchronize c = some boundary) (hle : boundary.index ≤ m) :
    ∃ boundary', synchronize c' = some boundary' ∧ boundary.AgreesTo total m boundary' := by
  have hreaches := synchronize_reaches c
  rw [hsync] at hreaches
  obtain ⟨i, ts⟩ := c
  obtain ⟨t, rest, rest', rfl, rfl, hrest⟩ :=
    h.exists_cons (Nat.le_trans hreaches.1.index_le hle)
  simp only [synchronize] at hsync ⊢
  split
  · next hend =>
      rw [if_pos hend] at hsync
      cases hsync
      exact ⟨_, rfl, h⟩
  · next hopen =>
      rw [if_neg hopen] at hsync
      exact skip_agrees hrest hsync hle

theorem leads_recover (hp : p.Leads same q) : (recover p).Leads same (recover q) := by
  intro total c
  obtain ⟨hon, hleads⟩ := hp total c
  cases hpc : p c with
  | done a next noted =>
      rw [hpc] at hon hleads
      have hrecover := recover_of_done hpc
      refine ⟨by rwa [hrecover], fun h hle _ => ?_⟩
      rw [hrecover] at hle ⊢
      obtain ⟨next', hq, hnext⟩ := hleads h hle trivial
      exact ⟨next', recover_of_done hq, hnext⟩
  | halted cause next noted =>
      rw [hpc] at hon hleads
      have hrecover := recover_of_halted hpc
      refine ⟨by rwa [hrecover], fun h hle hsettled => ?_⟩
      rw [hrecover] at hle hsettled ⊢
      obtain ⟨next', hq, hnext⟩ := hleads h hle (by cases cause <;> exact hsettled)
      exact ⟨next', recover_of_halted hq, hnext⟩
  | failed blame next noted =>
      rw [hpc] at hon hleads
      cases hsync : synchronize next with
      | none =>
          have hrecover := recover_of_ranOff hpc hsync
          refine ⟨by rwa [hrecover], fun _ _ hsettled => ?_⟩
          rw [hrecover] at hsettled
          exact hsettled.elim
      | some boundary =>
          have hrecover := recover_of_failed hpc hsync
          have hreaches := synchronize_reaches next
          rw [hsync] at hreaches
          have honward : next.index ≤ boundary.index := hreaches.1.index_le
          refine ⟨by rw [hrecover]; exact Nat.le_trans hon honward, fun h hle _ => ?_⟩
          rw [hrecover] at hle ⊢
          obtain ⟨next', hq, hnext⟩ := hleads h (Nat.le_trans honward hle) trivial
          obtain ⟨boundary', hsync', hboundary⟩ := synchronize_agrees hnext hsync hle
          exact ⟨boundary', recover_of_failed hq hsync', hboundary⟩

/-! ### Loops -/

theorem leads_remaining_bind {f g : Nat → Parser β}
    (hf : (f c.rest.length).LeadsAt same total (g (total - c.index)) c) :
    (remaining >>= f).LeadsAt same total (remaining >>= g) c := by
  have hremaining : ∀ (f : Nat → Parser β) c, (remaining >>= f) c = f c.rest.length c :=
    fun f c => Outcome.after_nil _
  obtain ⟨hon, hleads⟩ := hf
  refine ⟨by rwa [hremaining], fun {m c'} h hle hsettled => ?_⟩
  have hlength : c'.rest.length = total - c.index := by
    have := h.total_eq
    have := h.index_eq
    omega
  rw [hremaining] at hle hsettled ⊢
  rw [hremaining, hlength]
  exact hleads h hle hsettled

end Steps

/-! ### Expressions -/

section Expressions

variable {same : Prop} {total room : Nat} {ops : TokenKind → Bool}
variable {node : Expr → Token → Expr → Expr} {operand operand' : Parser Expr}

/-- Both chains go around as often as there are operators, if their bounds are no less than the
tokens that are left to them. -/
theorem leads_chainTail (hops : ∀ kind, ops kind = true → standsInExpression kind = true)
    (h : operand.Leads same operand') (htakes : operand.Takes standsInExpression 1 room)
    {k k' : Nat} {c : Cursor} (hk : c.rest.length ≤ k) (hk' : total ≤ c.index + k') (left : Expr) :
    (chainTail ops node operand k left).LeadsAt same total (chainTail ops node operand' k' left)
      c := by
  induction k generalizing c k' left with
  | zero =>
      refine ⟨Nat.le_refl _, fun {m c'} hagrees hle _ => ?_⟩
      obtain ⟨i, ts⟩ := c
      obtain ⟨t, rest, _, rfl, -⟩ := hagrees.exists_cons hle
      exact absurd hk (Nat.not_succ_le_zero _)
  | succ k ih =>
      have hon : c.index ≤ (chainTail ops node operand (k + 1) left c).next.index :=
        (takes_chainTail hops htakes (k + 1) left c).reaches.index_le
      refine ⟨hon, fun {m c'} hagrees hle hsettled => ?_⟩
      obtain ⟨i, ts⟩ := c
      obtain ⟨t, rest, rest', rfl, rfl, -⟩ := hagrees.exists_cons (Nat.le_trans hon hle)
      have htotal := hagrees.total_eq
      simp only [List.length_cons] at hk htotal
      obtain ⟨k', rfl⟩ : ∃ l, k' = l + 1 := ⟨k' - 1, by dsimp only at hk'; omega⟩
      have hround : (chainTail ops node operand (k + 1) left).LeadsAt same total
          (chainTail ops node operand' (k' + 1) left) ⟨i, t :: rest⟩ := by
        refine leads_accept_at (leads_pure left total _) fun op others hothers => ?_
        cases hothers
        refine leads_bind_at (h total _) fun right next noted hright => ?_
        have hoperand := htakes ⟨i + 1, rest⟩
        unfold Parser.TakesAt at hoperand
        rw [hright] at hoperand
        have hspent : i + 1 + 1 ≤ next.index := hoperand.spends
        have hleft : next.index + next.rest.length = i + 1 + rest.length :=
          hoperand.reaches.total_eq
        exact ih (by omega) (by dsimp only at hk'; omega) (node left t right)
      exact hround.leads hagrees hle hsettled

theorem leads_leftChain (hops : ∀ kind, ops kind = true → standsInExpression kind = true)
    (h : operand.Leads same operand') (htakes : operand.Takes standsInExpression 1 room) :
    (leftChain ops node operand).Leads same (leftChain ops node operand') := by
  refine leads_bind h fun left total c => leads_remaining_bind ?_
  exact leads_chainTail hops h htakes (Nat.le_refl _) (by omega) left

theorem leads_operation (h : operand.Leads same operand')
    (htakes : operand.Takes standsInExpression 1 room) :
    (operation operand).Leads same (operation operand') := by
  have step : ∀ {ops : TokenKind → Bool} {node : Expr → Token → Expr → Expr} {p q : Parser Expr},
      (∀ kind, ops kind = true → standsInExpression kind = true) →
      p.Leads same q ∧ p.Takes standsInExpression 1 room →
      (leftChain ops node p).Leads same (leftChain ops node q) ∧
        (leftChain ops node p).Takes standsInExpression 1 room :=
    fun hops hp => ⟨leads_leftChain hops hp.1 hp.2, takes_leftChain hops hp.2⟩
  refine (step (fun kind hkind => by simp [standsInExpression, hkind]) ?_).1
  refine step (fun kind hkind => by simp [standsInExpression, hkind]) ?_
  refine step (fun kind hkind => by simp [standsInExpression, hkind]) ?_
  refine step (fun kind hkind => by simp [standsInExpression, hkind]) ?_
  refine step (fun kind hkind => by simp [standsInExpression, hkind]) ?_
  exact step (fun kind hkind => by simp [standsInExpression, hkind]) ⟨h, htakes⟩

theorem leads_primary {inner inner' : Parser Expr} (h : inner.Leads same inner') :
    (primary inner).Leads same (primary inner') := by
  apply leads_peek_bind
  intro total i t rest
  split
  case h_7 =>
    refine leads_advance_bind (leads_bind h (fun value => ?_) total _)
    exact leads_bind (leads_expect _ _) fun _ => leads_pure _
  case h_8 => exact leads_fail _ total _
  all_goals exact leads_advance_bind (leads_pure _ total _)

theorem leads_assignment (target : Expr) (equals : Token) (index : Nat) (value : Expr) :
    (assignment target equals index value).Leads same (assignment target equals index value) := by
  obtain ⟨e, noted, hassign, -⟩ := assignment_eq_done target equals index value
  intro total c
  refine ⟨by rw [hassign]; exact Nat.le_refl _, fun h _ _ => ?_⟩
  rw [hassign, hassign]
  exact ⟨_, rfl, h⟩

theorem leads_expressionRest {inner inner' : Parser Expr} (h : inner.Leads same inner')
    (target : Expr) : (expressionRest inner target).Leads same (expressionRest inner' target) :=
  fun _ c => leads_here_bind <| leads_accept (leads_pure target)
    (fun equals => leads_bind h fun value => leads_assignment target equals c.index value) _ c

/-- With the same levels or with more of them, expressions and operands are parsed alike. -/
theorem leads_expression_unary {n n' : Nat} (hle : n ≤ n') (hsame : same → n' = n) :
    (expression n).Leads same (expression n') ∧ (unary n).Leads same (unary n') := by
  induction n generalizing n' with
  | zero =>
      have hnone : ∀ h : same, n' = 0 := hsame
      constructor
      · rw [expression]
        exact leads_tooDeep fun h => by rw [hnone h, expression]
      · rw [unary]
        exact leads_tooDeep fun h => by rw [hnone h, unary]
  | succ n ih =>
      obtain ⟨n', rfl⟩ : ∃ l, n' = l + 1 := ⟨n' - 1, by omega⟩
      obtain ⟨ihexpr, ihunary⟩ :=
        ih (Nat.le_of_succ_le_succ hle) (fun h => Nat.succ.inj (hsame h))
      constructor
      · rw [expression_succ, expression_succ]
        refine leads_bind (leads_operation ihunary (takes_expression_unary n).2) fun target => ?_
        exact leads_expressionRest ihexpr target
      · rw [unary, unary]
        refine leads_accept (leads_primary ihexpr) fun op => ?_
        exact leads_bind ihunary fun operand => leads_pure _

/-- **An expression is decided by the tokens up to the one that it stops at.** -/
theorem leads_expression {n n' : Nat} (hle : n ≤ n') (hsame : same → n' = n) :
    (expression n).Leads same (expression n') :=
  (leads_expression_unary hle hsame).1

end Expressions

/-! ### Statements -/

section Statements

variable {same : Prop} {total room : Nat} {expr expr' : Parser Expr} {stmt stmt' : Parser Stmt}
variable {decl decl' : Parser (Option Stmt)}

theorem leads_variableDeclaration (h : expr.Leads same expr') :
    (variableDeclaration expr).Leads same (variableDeclaration expr') := by
  refine leads_bind (leads_expect _ _) fun name => leads_accept ?_ fun _ => ?_
  · refine leads_bind (leads_pure none) fun initial => ?_
    exact leads_bind (leads_expect _ _) fun _ => leads_pure _
  · refine leads_bind (leads_map h some) fun initial => ?_
    exact leads_bind (leads_expect _ _) fun _ => leads_pure _

theorem leads_declared (hexpr : expr.Leads same expr') (hstmt : stmt.Leads same stmt') :
    (declaration expr stmt).Leads same (declaration expr' stmt') :=
  leads_recover <| leads_accept hstmt fun _ => leads_variableDeclaration hexpr

/-- Both loops go around as often as there are declarations, if their bounds are more than the
tokens that are left to them. -/
theorem leads_declarations {closing : TokenKind} (h : decl.Leads same decl')
    (hdecl : decl.Proceeds room) {k k' : Nat} {c : Cursor} (hk : c.rest.length < k)
    (hk' : total < c.index + k') :
    (declarations closing decl k).LeadsAt same total (declarations closing decl' k') c := by
  induction k generalizing c k' with
  | zero => exact absurd hk (Nat.not_lt_zero _)
  | succ k ih =>
      have hon : c.index ≤ (declarations closing decl (k + 1) c).next.index :=
        (takes_declarations (fun c => (hdecl c).1) (k + 1) c).reaches.index_le
      refine ⟨hon, fun {m c'} hagrees hle hsettled => ?_⟩
      obtain ⟨i, ts⟩ := c
      obtain ⟨t, rest, rest', rfl, rfl, -⟩ := hagrees.exists_cons (Nat.le_trans hon hle)
      have htotal := hagrees.total_eq
      simp only [List.length_cons] at hk hk' htotal
      obtain ⟨k', rfl⟩ : ∃ l, k' = l + 1 := ⟨k' - 1, by omega⟩
      have hround : (declarations closing decl (k + 1)).LeadsAt same total
          (declarations closing decl' (k' + 1)) ⟨i, t :: rest⟩ := by
        refine leads_peek_at fun u us hcons => ?_
        cases hcons
        split
        · exact leads_pure [] total _
        · next hopen =>
          have ht : t.isEnd = false := by cases hend : t.isEnd <;> simp_all
          refine leads_bind_at (h total _) fun first next noted hfirst => ?_
          obtain ⟨hlt, hleft⟩ := hdecl.moves ht hfirst
          refine leads_bind_at (ih (by omega) (by omega)) fun others last _ _ => ?_
          exact leads_pure (first.toList ++ others) total last
      exact hround.leads hagrees hle hsettled

theorem leads_condition (h : expr.Leads same expr') (opening closing : Fault) :
    (condition expr opening closing).Leads same (condition expr' opening closing) := by
  refine leads_bind (leads_expect _ _) fun _ => leads_bind h fun value => ?_
  exact leads_bind (leads_expect _ _) fun _ => leads_pure value

theorem leads_blockBody (h : decl.Leads same decl') (hdecl : decl.Proceeds room) :
    (blockBody decl).Leads same (blockBody decl') := by
  refine fun total c => leads_remaining_bind ?_
  refine leads_bind_at (leads_declarations h hdecl (Nat.lt_succ_self _) (by omega)) ?_
  exact fun body next _ _ => leads_bind (leads_expect _ _) (fun _ => leads_pure body) total next

/-- **A statement is decided by the tokens up to the one that it stops at.** -/
theorem leads_statement {n n' : Nat} (hle : n ≤ n') (hsame : same → n' = n) :
    (statement n).Leads same (statement n') := by
  induction n generalizing n' with
  | zero =>
      rw [statement]
      exact leads_tooDeep fun h => by rw [hsame h, statement]
  | succ n ih =>
      obtain ⟨n', rfl⟩ : ∃ l, n' = l + 1 := ⟨n' - 1, by omega⟩
      have hle' : n ≤ n' := Nat.le_of_succ_le_succ hle
      have hsame' : same → n' = n := fun h => Nat.succ.inj (hsame h)
      have hexpr : (expression n).Leads same (expression n') := leads_expression hle' hsame'
      have hstmt := ih hle' hsame'
      rw [statement, statement]
      apply leads_peek_bind
      intro total i t rest
      split
      · refine leads_advance_bind (leads_bind hexpr (fun value => ?_) total _)
        exact leads_bind (leads_expect _ _) fun _ => leads_pure _
      · refine leads_advance_bind (leads_bind (leads_condition hexpr _ _) (fun test => ?_) total _)
        refine leads_bind hstmt fun whenTrue => leads_accept (leads_pure _) fun _ => ?_
        exact leads_bind hstmt fun whenFalse => leads_pure _
      · refine leads_advance_bind (leads_bind (leads_condition hexpr _ _) (fun test => ?_) total _)
        exact leads_bind hstmt fun body => leads_pure _
      · refine leads_advance_bind (leads_bind ?_ (fun body => leads_pure _) total _)
        exact leads_blockBody (leads_declared hexpr hstmt) (proceeds_declaration n)
      · refine leads_bind hexpr (fun value => ?_) total _
        exact leads_bind (leads_expect _ _) fun _ => leads_pure _

/-- **A declaration is decided by the tokens up to the one that it stops at.** -/
theorem leads_declaration {n n' : Nat} (hle : n ≤ n') (hsame : same → n' = n) :
    (declaration (expression n) (statement n)).Leads same
      (declaration (expression n') (statement n')) :=
  leads_declared (leads_expression hle hsame) (leads_statement hle hsame)

end Statements

end ScriptLang.Parse
