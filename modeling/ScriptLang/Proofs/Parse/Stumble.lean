import ScriptLang.Proofs.Parse.Accepts
import ScriptLang.Proofs.Parse.Lookahead

/-!
# Where parsers stumble

A parser that reports anything has stumbled over a token: what it has read in front of that token
can still be completed to a phrase of its kind, but not with that token next. It reports nothing in
front of the token, and its first report is at the token. An equals sign is an exception, since the
parser reads the value behind it before it looks at the target.

That what has been read can be completed comes from the soundness of the parts that were built, each
of which is completed by short tokens. That it cannot be completed with the token next is said of
all parsers with more levels: none of them builds anything from tokens that agree with these as far
as that token. It comes from how far the parser looks ahead, since a parser that is led by the same
tokens does the same.

## Main Definitions

* `Outcome.Stumbles`, `Parser.StumblesAt`: where the errors of an outcome begin.
* `Begins`: the rows of tokens that a phrase of a kind can begin with.

## Main Statements

* `stumbles_bind`: two steps stumble where the first one does, or the second one behind it.
* `stumbles_expression`, `stumbles_statement`, `stumbles_declarations`: where phrases stumble.

## Design Notes

The other parsers are a family, one for each number of levels and of tokens, and a parser stumbles
against all of them at once.
-/

namespace ScriptLang.Parse

variable {α β ι : Type}

/-! ### Where a parser stumbles -/

/-- The outcome `o` of a parser that began at `c` has errors from the token `t` on. The tokens
`seen` in front of `t` are as `V` says; no error is reported in front of `t`, and unless `t` is an
equals sign, the first one is reported at `t`; and from no other cursor that agrees up to `t` does
one of the parsers `q` build anything. -/
structure Outcome.Stumbles (V : List Token → Prop) (total : ι → Nat) (q : ι → Parser β) (c : Cursor)
    (o : Outcome α) (seen : List Token) (t : Token) : Prop where
  rest_eq : ∃ left, c.rest = seen ++ t :: left
  viable : V seen
  behind : ∀ blame ∈ o.blames, c.index + seen.length ≤ blame.index
  first : t.kind = .equal ∨
    ∃ first more, o.blames = first :: more ∧ first.index = c.index + seen.length
  stuck : ∀ {j : ι} {c' : Cursor}, c.AgreesTo (total j) (c.index + seen.length) c' →
    ∀ b next, ¬ (q j).Builds c' b next

/-- From the cursor `c` the parser `p` reports nothing in front of `c`, and if it reports anything,
it has stumbled. -/
structure Parser.StumblesAt (V : List Token → Prop) (total : ι → Nat) (p : Parser α)
    (q : ι → Parser α) (c : Cursor) : Prop where
  onward : ∀ blame ∈ (p c).blames, c.index ≤ blame.index
  stumbles : (p c).blames ≠ [] → ∃ seen t, (p c).Stumbles V total q c seen t

section Steps

variable {V W : List Token → Prop} {total : ι → Nat} {least room : Nat} {kinds : TokenKind → Bool}
variable {p : Parser α} {q : ι → Parser α} {f : α → Parser β} {g : ι → α → Parser β} {c : Cursor}

theorem Parser.StumblesAt.mono (h : p.StumblesAt V total q c) (hV : ∀ ts, V ts → W ts) :
    p.StumblesAt W total q c := by
  refine ⟨h.onward, fun hblames => ?_⟩
  obtain ⟨seen, t, hs⟩ := h.stumbles hblames
  exact ⟨seen, t, hs.rest_eq, hV seen hs.viable, hs.behind, hs.first, hs.stuck⟩

/-- Without a report there is nothing to show. -/
theorem stumblesAt_of_blames_eq_nil (h : (p c).blames = []) : p.StumblesAt V total q c :=
  ⟨by rw [h]; exact List.forall_mem_nil _, fun hblames => absurd h hblames⟩

theorem stumbles_pure (a : α) : (pure a : Parser α).StumblesAt V total q c :=
  stumblesAt_of_blames_eq_nil rfl

theorem stumbles_halt (cause : Halt) : (halt cause : Parser α).StumblesAt V total q c :=
  stumblesAt_of_blames_eq_nil rfl

/-- Two steps stumble where the first of them does, or where the second does behind what the first
one has built. -/
theorem stumbles_bind (htakes : p.TakesAt kinds least room c)
    (hleads : ∀ j, p.LeadsAt False (total j) (q j) c)
    (hp : p.StumblesAt V total q c)
    (hf : ∀ a next used noted, p c = .done a next noted → c.rest = used ++ next.rest →
      (f a).StumblesAt (fun ts => noted = [] → V (used ++ ts)) total (fun j => g j a) next) :
    (p >>= f).StumblesAt V total (fun j => q j >>= g j) c := by
  have hreaches : c.Reaches kinds (p c).next := htakes.reaches
  have hbetween := htakes.between
  obtain ⟨honward, hstumbles⟩ := hp
  -- Where `q` builds nothing, neither does anything that begins with it.
  have hstuck : ∀ {j : ι} {c' : Cursor}, (∀ a next, ¬ (q j).Builds c' a next) →
      ∀ b next, ¬ (q j >>= g j).Builds c' b next := by
    intro j c' hq b next h
    obtain ⟨a, mid, ha, -⟩ := builds_bind.1 h
    exact hq a mid ha
  cases hpc : p c with
  | failed blame next noted =>
      rw [hpc] at honward hstumbles
      refine ⟨by rwa [bind_of_failed hpc], fun hblames => ?_⟩
      rw [bind_of_failed hpc] at hblames ⊢
      obtain ⟨seen, t, hs⟩ := hstumbles hblames
      exact ⟨seen, t, hs.rest_eq, hs.viable, hs.behind, hs.first,
        fun hagrees => hstuck (hs.stuck hagrees)⟩
  | halted cause next noted =>
      rw [hpc] at honward hstumbles
      refine ⟨by rwa [bind_of_halted hpc], fun hblames => ?_⟩
      rw [bind_of_halted hpc] at hblames ⊢
      obtain ⟨seen, t, hs⟩ := hstumbles hblames
      exact ⟨seen, t, hs.rest_eq, hs.viable, hs.behind, hs.first,
        fun hagrees => hstuck (hs.stuck hagrees)⟩
  | done a next noted =>
      rw [hpc] at honward hstumbles hreaches hbetween
      obtain ⟨used, hused, hindex, -⟩ := hreaches
      simp only [Outcome.next] at hused hindex hbetween
      obtain ⟨honward', hstumbles'⟩ := hf a next used noted hpc hused
      have hbehind : ∀ blame ∈ (f a next).blames, c.index ≤ blame.index := fun blame hblame => by
        have := honward' blame hblame
        omega
      refine ⟨?_, fun hblames => ?_⟩
      · rw [bind_of_done hpc, Outcome.blames_after]
        exact List.forall_mem_append.2 ⟨honward, hbehind⟩
      · rw [bind_of_done hpc] at hblames ⊢
        rw [Outcome.blames_after] at hblames
        cases noted with
        | nil =>
            obtain ⟨seen, t, ⟨left, hleft⟩, hviable, hlater, hfirst, hnext⟩ := hstumbles' hblames
            have hplace : c.index + (used ++ seen).length = next.index + seen.length := by
              rw [List.length_append]
              omega
            refine ⟨used ++ seen, t, ⟨left, by rw [hused, hleft, List.append_assoc]⟩, hviable rfl,
              ?_, ?_, fun hagrees b last hbuilds => ?_⟩
            · rw [Outcome.blames_after, hplace]
              exact hlater
            · rw [Outcome.blames_after, hplace]
              exact hfirst
            · rw [hplace] at hagrees
              obtain ⟨mid, hq, hmid⟩ := (hleads _).leads hagrees
                (by rw [hpc]; exact Nat.le_add_right _ _) (by rw [hpc]; trivial)
              obtain ⟨a', mid', ha', hg⟩ := builds_bind.1 hbuilds
              rw [hpc] at hq hmid
              cases ha'.symm.trans hq
              exact hnext hmid b last hg
        | cons first more =>
            obtain ⟨seen, t, hs⟩ := hstumbles (List.cons_ne_nil first more)
            refine ⟨seen, t, hs.rest_eq, hs.viable, ?_, ?_,
              fun hagrees => hstuck (hs.stuck hagrees)⟩
            · rw [Outcome.blames_after]
              have hle := hs.behind first List.mem_cons_self
              have hle' := (hbetween first List.mem_cons_self).2
              refine List.forall_mem_append.2 ⟨hs.behind, fun blame hblame => ?_⟩
              exact Nat.le_trans (Nat.le_trans hle hle') (honward' blame hblame)
            · rcases hs.first with hequal | ⟨first', more', hcons, hindex⟩
              · exact Or.inl hequal
              · cases hcons
                exact Or.inr ⟨first, more ++ (f a next).blames, Outcome.blames_after _ _, hindex⟩

theorem stumbles_map (htakes : p.TakesAt kinds least room c)
    (hleads : ∀ j, p.LeadsAt False (total j) (q j) c) (hp : p.StumblesAt V total q c) (f : α → β) :
    (f <$> p).StumblesAt V total (fun j => f <$> q j) c :=
  stumbles_bind htakes hleads hp fun _ _ _ _ _ _ => stumbles_pure _

/-- Parsers stumble where others do that do the same at the cursor, and wherever the same token
comes next and as many tokens are there in all. -/
theorem Parser.StumblesAt.congr {p' : Parser α} {q' : ι → Parser α}
    (h : p'.StumblesAt V total q' c) (hp : p c = p' c)
    (hq : ∀ j t rest rest', c.rest = t :: rest → c.index + (rest'.length + 1) = total j →
      q j ⟨c.index, t :: rest'⟩ = q' j ⟨c.index, t :: rest'⟩) : p.StumblesAt V total q c := by
  obtain ⟨i, ts⟩ := c
  obtain ⟨honward, hstumbles⟩ := h
  refine ⟨by rwa [hp], fun hblames => ?_⟩
  rw [hp] at hblames ⊢
  obtain ⟨seen, u, hs⟩ := hstumbles hblames
  refine ⟨seen, u, hs.rest_eq, hs.viable, hs.behind, hs.first,
    fun {j c'} hagrees b next hbuilds => ?_⟩
  have htotal := hagrees.total_eq
  obtain ⟨t, rest, rest', hrest, rfl, -⟩ := hagrees.exists_cons (Nat.le_add_right _ _)
  unfold Parser.Builds at hbuilds
  rw [hq j t rest rest' hrest htotal] at hbuilds
  exact hs.stuck hagrees b next hbuilds

theorem stumbles_peek {f : Token → Parser β} {g : ι → Token → Parser β}
    (hf : ∀ t rest, c.rest = t :: rest → (f t).StumblesAt V total (fun j => g j t) c) :
    (peek >>= f).StumblesAt V total (fun j => peek >>= g j) c := by
  obtain ⟨i, ts⟩ := c
  cases ts with
  | nil => exact stumblesAt_of_blames_eq_nil rfl
  | cons t rest =>
      refine (hf t rest rfl).congr (Outcome.after_nil _) fun j u us us' hcons _ => ?_
      obtain ⟨rfl, -⟩ := List.cons.inj hcons
      exact Outcome.after_nil _

/-- Parsers that move past the token at the cursor stumble where what they do then does. -/
theorem stumbles_step {p' : Parser α} {q' : ι → Parser α} {i : Nat} {t : Token} {rest : List Token}
    (hp : p ⟨i, t :: rest⟩ = p' ⟨i + 1, rest⟩) (hq : ∀ j ts, q j ⟨i, t :: ts⟩ = q' j ⟨i + 1, ts⟩)
    (h : p'.StumblesAt (fun ts => V (t :: ts)) total q' ⟨i + 1, rest⟩) :
    p.StumblesAt V total q ⟨i, t :: rest⟩ := by
  obtain ⟨honward, hstumbles⟩ := h
  refine ⟨fun blame hblame => ?_, fun hblames => ?_⟩
  · rw [hp] at hblame
    exact Nat.le_of_succ_le (honward blame hblame)
  · rw [hp] at hblames ⊢
    obtain ⟨seen, u, ⟨left, hleft⟩, hviable, hbehind, hfirst, hstuck⟩ := hstumbles hblames
    have hplace : i + (t :: seen).length = i + 1 + seen.length := by
      rw [List.length_cons]
      omega
    refine ⟨t :: seen, u, ⟨left, by rw [List.cons_append, ← hleft]⟩, hviable, ?_, ?_,
      fun {j c'} hagrees b next hbuilds => ?_⟩
    · exact fun blame hblame => hplace ▸ hbehind blame hblame
    · exact hplace ▸ hfirst
    · obtain ⟨_, _, ts, hcons, rfl, hrest⟩ := hagrees.exists_cons (Nat.le_add_right _ _)
      cases hcons
      unfold Parser.Builds at hbuilds
      rw [hq] at hbuilds
      exact hstuck (hplace ▸ hrest) b next hbuilds

theorem stumbles_advance {f : Unit → Parser β} {g : ι → Unit → Parser β} {i : Nat} {t : Token}
    {rest : List Token}
    (hf : (f ()).StumblesAt (fun ts => V (t :: ts)) total (fun j => g j ()) ⟨i + 1, rest⟩) :
    (advance >>= f).StumblesAt V total (fun j => advance >>= g j) ⟨i, t :: rest⟩ :=
  stumbles_step (Outcome.after_nil _) (fun _ _ => Outcome.after_nil _) hf

theorem stumbles_accept {f : Option Token → Parser β} {g : ι → Option Token → Parser β}
    {accepted : TokenKind → Bool} (hnone : (f none).StumblesAt V total (fun j => g j none) c)
    (hsome : ∀ t rest, c.rest = t :: rest → accepted t.kind = true →
      (f (some t)).StumblesAt (fun ts => V (t :: ts)) total (fun j => g j (some t))
        ⟨c.index + 1, rest⟩) :
    (accept? accepted >>= f).StumblesAt V total (fun j => accept? accepted >>= g j) c := by
  obtain ⟨i, ts⟩ := c
  cases ts with
  | nil => exact stumblesAt_of_blames_eq_nil rfl
  | cons t rest =>
      cases ht : !t.isEnd && accepted t.kind with
      | true =>
          obtain ⟨-, hkind⟩ : t.isEnd = false ∧ accepted t.kind = true := by simpa using ht
          exact stumbles_step (accept_bind_of_true ht) (fun _ _ => accept_bind_of_true ht)
            (hsome t rest rfl hkind)
      | false =>
          refine hnone.congr (accept_bind_of_false ht) fun j u us us' hcons _ => ?_
          obtain ⟨rfl, -⟩ := List.cons.inj hcons
          exact accept_bind_of_false ht

/-- A parser that fails stumbles at the token that it fails at. -/
theorem stumbles_fail {fault : Fault} (hV : V []) :
    (fail fault : Parser α).StumblesAt V total (fun _ => fail fault) c := by
  obtain ⟨i, ts⟩ := c
  cases ts with
  | nil => exact stumblesAt_of_blames_eq_nil rfl
  | cons t rest =>
      refine ⟨List.forall_mem_singleton.2 (Nat.le_refl i), fun _ => ⟨[], t, ⟨rest, rfl⟩, hV, ?_, ?_,
        fun _ _ _ => builds_fail⟩⟩
      · exact List.forall_mem_singleton.2 (Nat.le_refl i)
      · exact Or.inr ⟨_, [], rfl, rfl⟩

/-- Where a token is expected, the tokens in front of it can go on with it. -/
theorem stumbles_expect {f : Token → Parser β} {g : ι → Token → Parser β} {kind : TokenKind}
    {fault : Fault} (hV : V [])
    (hf : ∀ t rest, c.rest = t :: rest → t.kind = kind →
      (f t).StumblesAt (fun ts => V (t :: ts)) total (fun j => g j t) ⟨c.index + 1, rest⟩) :
    (expect kind fault >>= f).StumblesAt V total (fun j => expect kind fault >>= g j) c := by
  obtain ⟨i, ts⟩ := c
  cases ts with
  | nil => exact stumblesAt_of_blames_eq_nil rfl
  | cons t rest =>
      cases ht : !t.isEnd && decide (t.kind = kind) with
      | true =>
          obtain ⟨-, hkind⟩ : t.isEnd = false ∧ t.kind = kind := by simpa using ht
          exact stumbles_step (expect_bind_of_true ht) (fun _ _ => expect_bind_of_true ht)
            (hf t rest rfl hkind)
      | false =>
          refine (stumbles_fail hV).congr (expect_bind_of_false ht) fun j u us us' hcons _ => ?_
          obtain ⟨rfl, -⟩ := List.cons.inj hcons
          exact expect_bind_of_false ht

theorem stumbles_remaining {f : Nat → Parser β} {g : ι → Nat → Parser β}
    (hf : (f c.rest.length).StumblesAt V total (fun j => g j (total j - c.index)) c) :
    (remaining >>= f).StumblesAt V total (fun j => remaining >>= g j) c := by
  have hremaining : ∀ (f : Nat → Parser β) c, (remaining >>= f) c = f c.rest.length c :=
    fun f c => Outcome.after_nil _
  refine hf.congr (hremaining f c) fun j t rest rest' _ htotal => ?_
  have hlength : (t :: rest').length = total j - c.index := by
    rw [List.length_cons]
    omega
  rw [hremaining, hlength]

/-- Recovery reports what the parser does, and builds something only if the parser does. -/
theorem stumbles_recover (hp : p.StumblesAt V total q c) :
    (recover p).StumblesAt V total (fun j => recover (q j)) c := by
  have hblames : (recover p c).blames = (p c).blames := by
    cases hpc : p c with
    | done a next noted => rw [recover_of_done hpc]; rfl
    | halted cause next noted => rw [recover_of_halted hpc]; rfl
    | failed blame next noted =>
        cases hsync : synchronize next with
        | some boundary => rw [recover_of_failed hpc hsync]; rfl
        | none => rw [recover_of_ranOff hpc hsync]; rfl
  refine ⟨by rw [hblames]; exact hp.onward, fun hne => ?_⟩
  rw [hblames] at hne
  obtain ⟨seen, t, hs⟩ := hp.stumbles hne
  refine ⟨seen, t, hs.rest_eq, hs.viable, by rw [hblames]; exact hs.behind,
    by rw [hblames]; exact hs.first, fun hagrees b next h => ?_⟩
  obtain ⟨a, -, ha⟩ := builds_recover.1 h
  exact hs.stuck hagrees a next ha

end Steps

/-! ### Beginnings of phrases -/

/-- A phrase of this kind can begin with the tokens. -/
def Begins (phrase : α → Phrase) (ts : List Token) : Prop :=
  ∃ a more, Derives (phrase a) (ts ++ more)

/-- What has been read of a phrase is derived. -/
theorem Spans.derives {phrase : Phrase} {c c' : Cursor} {used : List Token}
    (h : Spans phrase c c') (hused : c.rest = used ++ c'.rest) : Derives phrase used := by
  obtain ⟨ts, hts, hderives⟩ := h
  rwa [List.append_cancel_right (hts.symm.trans hused)] at hderives

/-- What is known of a parser for a rung: what it takes, how far it looks, what it builds, and where
it stumbles. -/
structure Parser.Located (rung : Rung) (n room : Nat) (p : Parser Expr) (q : ι → Parser Expr) :
    Prop where
  takes : p.Takes standsInExpression 1 room
  leads : ∀ j, p.Leads False (q j)
  sound : SoundOn rung n p
  stumbles : ∀ total c, p.StumblesAt (Begins (.expr rung)) total q c

section Chain

variable (rung : Rung) {n room : Nat} {total : ι → Nat} {ops : TokenKind → Bool}
variable {operand : Parser Expr} {operand' : ι → Parser Expr}

/-- A chain stumbles in one of its operands, behind what it has built of them. -/
theorem stumbles_chainTail (hops : ∀ kind, ops kind = true → kind ∈ rung.operators)
    (h : operand.Located rung.next n room operand') {k : Nat} {k' : ι → Nat} {c : Cursor}
    (hk : c.rest.length ≤ k) (hk' : ∀ j, total j ≤ c.index + k' j) (left : Expr)
    (ls : List Token) :
    (chainTail ops rung.node operand k left).StumblesAt
      (fun ts => Derives (.expr rung left) ls → Begins (.expr rung) (ls ++ ts)) total
      (fun j => chainTail ops rung.node (operand' j) (k' j) left) c := by
  induction k generalizing c k' left ls with
  | zero => exact stumbles_pure left
  | succ k ih =>
      have hround : (chainTail ops rung.node operand (k + 1) left).StumblesAt
          (fun ts => Derives (.expr rung left) ls → Begins (.expr rung) (ls ++ ts)) total
          (fun j => chainTail ops rung.node (operand' j) (k' j - 1 + 1) left) c := by
        refine stumbles_accept (stumbles_pure left) fun op rest hrest hop => ?_
        refine stumbles_bind (h.takes _) (fun j => h.leads j _ _) ((h.stumbles total _).mono ?_) ?_
        · rintro ts ⟨right, more, hright⟩ hleft
          exact ⟨rung.node left op right, more, by
            simpa using hleft.operator (hops _ hop) hright⟩
        · intro right next used noted hright hused
          have htakes : (operand ⟨c.index + 1, rest⟩).Takes standsInExpression 1 room
            ⟨c.index + 1, rest⟩ := h.takes _
          rw [hright] at htakes
          have hspent : c.index + 1 + 1 ≤ next.index := htakes.spends
          have hleft : next.index + next.rest.length = c.index + 1 + rest.length :=
            htakes.reaches.total_eq
          rw [hrest, List.length_cons] at hk
          have hbound : ∀ j, total j ≤ next.index + (k' j - 1) := fun j => by
            have := hk' j
            omega
          refine (ih (by omega) hbound (rung.node left op right) (ls ++ op :: used)).mono ?_
          rintro ts hts rfl hderives
          have hright : Derives (.expr rung.next right) used := (h.sound hright).1.derives hused
          simpa using hts (hderives.operator (hops _ hop) hright)
      refine hround.congr rfl fun j t rest rest' _ htotal => ?_
      have := hk' j
      rw [Nat.sub_add_cancel (by omega)]

theorem located_leftChain (hops : ∀ kind, ops kind = true → kind ∈ rung.operators)
    (hkinds : ∀ kind, ops kind = true → standsInExpression kind = true)
    (h : operand.Located rung.next n room operand') :
    (leftChain ops rung.node operand).Located rung n room
      (fun j => leftChain ops rung.node (operand' j)) := by
  refine ⟨takes_leftChain hkinds h.takes, fun j => leads_leftChain hkinds (h.leads j) h.takes,
    leftChain_sound rung hops h.sound, fun total c => ?_⟩
  refine stumbles_bind (h.takes c) (fun j => h.leads j _ c) ((h.stumbles total c).mono ?_) ?_
  · rintro ts ⟨e, more, he⟩
    exact ⟨e, more, .loosen he⟩
  · intro first next used noted hfirst hused
    refine stumbles_remaining ((stumbles_chainTail rung hops h (Nat.le_refl _) (fun j => by omega)
      first used).mono ?_)
    rintro ts hts rfl
    exact hts (.loosen ((h.sound hfirst).1.derives hused))

end Chain

theorem kind_bareToken (kind : TokenKind) : (bareToken kind).kind = kind := rfl

/-! ### Expressions -/

section Expressions

variable {n room : Nat} {n' : ι → Nat} {total : ι → Nat} {c : Cursor}

theorem located_operation {operand : Parser Expr} {operand' : ι → Parser Expr}
    (h : operand.Located .unary n room operand') :
    (operation operand).Located .disjunction n room (fun j => operation (operand' j)) := by
  refine located_leftChain .disjunction (by simp [isOrOp, Rung.operators])
    (fun kind hkind => by simp [standsInExpression, hkind]) ?_
  refine located_leftChain .conjunction (by simp [isAndOp, Rung.operators])
    (fun kind hkind => by simp [standsInExpression, hkind]) ?_
  refine located_leftChain .equality (by simp [isEqualityOp, Rung.operators])
    (fun kind hkind => by simp [standsInExpression, hkind]) ?_
  refine located_leftChain .comparison (by simp [isComparisonOp, Rung.operators, or_assoc])
    (fun kind hkind => by simp [standsInExpression, hkind]) ?_
  refine located_leftChain .term (by simp [isTermOp, Rung.operators])
    (fun kind hkind => by simp [standsInExpression, hkind]) ?_
  exact located_leftChain .factor (by simp [isFactorOp, Rung.operators])
    (fun kind hkind => by simp [standsInExpression, hkind]) h

/-- What has been read of an expression, if the parser built one from it. -/
theorem derives_of_builds {n : Nat} {c next : Cursor} {e : Expr} {used : List Token}
    (h : (expression n).Builds c e next) (hused : c.rest = used ++ next.rest) :
    Derives (.expr .assignment e) used :=
  (expression_sound h).1.derives hused

theorem stumbles_primary (hle : ∀ j, n ≤ n' j)
    (h : ∀ total c, (expression n).StumblesAt (Begins (.expr .assignment)) total
      (fun j => expression (n' j)) c) :
    (primary (expression n)).StumblesAt (Begins (.expr .primary)) total
      (fun j => primary (expression (n' j))) c := by
  refine stumbles_peek fun t rest hrest => ?_
  split
  case h_7 hkind =>
    obtain ⟨i, ts⟩ := c
    cases hrest
    refine stumbles_advance (stumbles_bind (takes_expression n _)
      (fun j => leads_expression (hle j) False.elim _ _) ((h total _).mono ?_) ?_)
    · rintro ts ⟨inner, more, hinner⟩
      refine ⟨.group inner, more ++ [bareToken .rightParen], ?_⟩
      simpa using Derives.group hkind hinner (kind_bareToken .rightParen)
    · intro inner next used noted hinner hused
      refine stumbles_expect ?_ fun closing _ _ _ => stumbles_pure _
      rintro rfl
      refine ⟨.group inner, [bareToken .rightParen], ?_⟩
      simpa using Derives.group hkind (derives_of_builds hinner hused) (kind_bareToken .rightParen)
  case h_8 =>
    exact stumbles_fail ⟨_, [bareToken .nilWord], .nilWord (kind_bareToken .nilWord)⟩
  all_goals
    obtain ⟨i, ts⟩ := c
    cases hrest
    exact stumbles_advance (stumbles_pure _)

/-- Behind an operation, an equals sign goes on from a name only. Behind anything else the parser
stumbles at the equals sign, even if it reads the value before it reports it. -/
theorem stumbles_expressionRest (hle : ∀ j, n ≤ n' j)
    (h : ∀ total c, (expression n).StumblesAt (Begins (.expr .assignment)) total
      (fun j => expression (n' j)) c) (target : Expr) (used : List Token) :
    (expressionRest (expression n) target).StumblesAt
      (fun ts => Derives (.expr .disjunction target) used →
        Begins (.expr .assignment) (used ++ ts)) total
      (fun j => expressionRest (expression (n' j)) target) c := by
  have htakes : (expressionRest (expression n) target c).Takes standsInExpression 0 (n + 1) c :=
    takes_expressionRest (takes_expression n) (Nat.le_add_right _ _) target c
  have honward := fun blame hblame => (htakes.between blame hblame).1
  obtain ⟨i, ts⟩ := c
  cases ts with
  | nil => exact stumblesAt_of_blames_eq_nil rfl
  | cons t rest =>
      cases ht : !t.isEnd && decide (t.kind = .equal) with
      | false => exact stumblesAt_of_blames_eq_nil (by rw [expressionRest_of_false ht]; rfl)
      | true =>
          obtain ⟨-, hequal⟩ : t.isEnd = false ∧ t.kind = .equal := by simpa using ht
          by_cases hname : ∃ name, target = .ref name
          · obtain ⟨name, rfl⟩ := hname
            refine stumbles_step (expressionRest_of_true ht)
              (fun _ _ => expressionRest_of_true ht) ?_
            refine stumbles_bind (takes_expression n _)
              (fun j => leads_expression (hle j) False.elim _ _) ((h total _).mono ?_)
              fun value _ _ _ _ _ => stumbles_pure (Expr.assign name value)
            rintro ts ⟨value, more, hvalue⟩ hderives
            obtain ⟨rfl, hkind⟩ := hderives.eq_of_ref
            exact ⟨.assign name value, more, .assign hkind hequal hvalue⟩
          · refine ⟨honward, fun _ => ⟨[], t, ⟨rest, rfl⟩, ?_, honward, Or.inl hequal, ?_⟩⟩
            · intro hderives
              have hloose : Derives (.expr .assignment target) used := .loosen hderives
              exact ⟨target, [], by simpa using hloose⟩
            · intro j c' hagrees b next hbuilds
              obtain ⟨_, _, _, hcons, rfl, -⟩ := hagrees.exists_cons (Nat.le_refl i)
              cases hcons
              unfold Parser.Builds at hbuilds
              rw [expressionRest_of_true ht] at hbuilds
              obtain ⟨value, mid, -, hassign⟩ := builds_bind.1 hbuilds
              obtain ⟨name, rfl, -⟩ := builds_assignment.1 hassign
              exact hname ⟨name, rfl⟩

theorem located_unary (hle : ∀ j, n ≤ n' j)
    (h : ∀ total c, (unary n).StumblesAt (Begins (.expr .unary)) total
      (fun j => unary (n' j)) c) :
    (unary n).Located .unary n (n + 2) (fun j => unary (n' j)) :=
  ⟨(takes_expression_unary n).2, fun j => (leads_expression_unary (hle j) False.elim).2,
    (expression_unary_sound n).2, h⟩

/-- Other levels, each at least one more than `n`. -/
theorem exists_levels (hle : ∀ j, n + 1 ≤ n' j) :
    ∃ m : ι → Nat, n' = (fun j => m j + 1) ∧ ∀ j, n ≤ m j := by
  refine ⟨fun j => n' j - 1, funext fun j => ?_, fun j => Nat.le_sub_one_of_lt (hle j)⟩
  exact (Nat.sub_add_cancel (Nat.le_trans (Nat.le_add_left 1 n) (hle j))).symm

/-- Where expressions and operands stumble, by induction on the levels that they may open. -/
theorem stumbles_expression_unary (hle : ∀ j, n ≤ n' j) :
    (∀ total c, (expression n).StumblesAt (Begins (.expr .assignment)) total
      (fun j => expression (n' j)) c) ∧
      ∀ total c, (unary n).StumblesAt (Begins (.expr .unary)) total (fun j => unary (n' j)) c := by
  induction n generalizing n' with
  | zero =>
      rw [expression, unary]
      exact ⟨fun _ _ => stumbles_halt .tooDeep, fun _ _ => stumbles_halt .tooDeep⟩
  | succ n ih =>
      obtain ⟨m, rfl, hle'⟩ := exists_levels hle
      obtain ⟨ihexpr, ihunary⟩ := ih hle'
      have hoperand := located_unary hle' ihunary
      have hoperation := located_operation hoperand
      refine ⟨fun total c => ?_, fun total c => ?_⟩
      · simp only [expression_succ]
        refine stumbles_bind (hoperation.takes c) (fun j => hoperation.leads j _ c)
          ((hoperation.stumbles total c).mono ?_) fun target next used noted htarget hused => ?_
        · rintro ts ⟨e, more, he⟩
          exact ⟨e, more, .loosen he⟩
        · refine (stumbles_expressionRest hle' ihexpr target used).mono ?_
          rintro ts hts rfl
          exact hts ((hoperation.sound htarget).1.derives hused)
      · simp only [unary]
        refine stumbles_accept ?_ fun op rest hrest hop => ?_
        · refine (stumbles_primary hle' ihexpr).mono ?_
          rintro ts ⟨e, more, he⟩
          exact ⟨e, more, .loosen he⟩
        · refine stumbles_bind (hoperand.takes _) (fun j => hoperand.leads j _ _)
            ((ihunary total _).mono ?_) fun operand _ _ _ _ _ => stumbles_pure _
          rintro ts ⟨operand, more, he⟩
          exact ⟨.unary op operand, more, .unary (by simpa [isUnaryOp] using hop) he⟩

/-- **Where an expression stumbles**: what has been read begins an expression. -/
theorem stumbles_expression (hle : ∀ j, n ≤ n' j) (total : ι → Nat) (c : Cursor) :
    (expression n).StumblesAt (Begins (.expr .assignment)) total (fun j => expression (n' j)) c :=
  (stumbles_expression_unary hle).1 total c

end Expressions

/-! ### Statements -/

/-- A condition in its parentheses. -/
def IsCondition (test : Expr) (ts : List Token) : Prop :=
  ∃ left cs right, ts = left :: cs ++ [right] ∧ left.kind = .leftParen ∧
    Derives (.expr .assignment test) cs ∧ right.kind = .rightParen

section Conditions

variable {word : Token} {test : Expr} {stmt other : Stmt} {us ts vs : List Token}

theorem IsCondition.branch (h : IsCondition test us) (hword : word.kind = .ifWord)
    (hstmt : Derives (.stmt stmt) ts) :
    Derives (.stmt (.branch test stmt none)) (word :: us ++ ts) := by
  obtain ⟨left, cs, right, rfl, hleft, htest, hright⟩ := h
  simpa using Derives.branch hword hleft htest hright hstmt

theorem IsCondition.branchElse (h : IsCondition test us) (hword : word.kind = .ifWord)
    (hstmt : Derives (.stmt stmt) ts) (hopen : stmt.awaitsElse = false) {elseWord : Token}
    (helse : elseWord.kind = .elseWord) (hother : Derives (.stmt other) vs) :
    Derives (.stmt (.branch test stmt (some other))) (word :: us ++ ts ++ elseWord :: vs) := by
  obtain ⟨left, cs, right, rfl, hleft, htest, hright⟩ := h
  simpa using Derives.branchElse hword hleft htest hright hstmt hopen helse hother

theorem IsCondition.loop (h : IsCondition test us) (hword : word.kind = .whileWord)
    (hstmt : Derives (.stmt stmt) ts) :
    Derives (.stmt (.loop test stmt)) (word :: us ++ ts) := by
  obtain ⟨left, cs, right, rfl, hleft, htest, hright⟩ := h
  simpa using Derives.loop hword hleft htest hright hstmt

end Conditions

theorem derives_of_primary {e : Expr} {ts : List Token} (h : Derives (.expr .primary e) ts) :
    Derives (.expr .assignment e) ts :=
  .loosen <| .loosen <| .loosen <| .loosen <| .loosen <| .loosen <| .loosen <| .loosen h

/-- A short expression, which completes what waits for one. -/
theorem derives_nil : Derives (.expr .assignment (.literal .null)) [bareToken .nilWord] :=
  derives_of_primary (.nilWord (kind_bareToken .nilWord))

/-- A short statement. -/
theorem derives_nilStmt : Derives (.stmt (.expr (.literal .null)))
    [bareToken .nilWord, bareToken .semicolon] :=
  .exprStmt derives_nil rfl

section Statements

variable {n : Nat} {n' : ι → Nat} {total : ι → Nat} {c : Cursor} {opening closing : Fault}

theorem stumbles_condition (hle : ∀ j, n ≤ n' j) :
    (condition (expression n) opening closing).StumblesAt
      (fun ts => ∃ test more, IsCondition test (ts ++ more)) total
      (fun j => condition (expression (n' j)) opening closing) c := by
  refine stumbles_expect ?_ fun left rest hrest hleft => ?_
  · exact ⟨_, [bareToken .leftParen, bareToken .nilWord, bareToken .rightParen],
      bareToken .leftParen, _, bareToken .rightParen, rfl, rfl, derives_nil, rfl⟩
  · refine stumbles_bind (takes_expression n _) (fun j => leads_expression (hle j) False.elim _ _)
      ((stumbles_expression hle total _).mono ?_) fun test next used noted htest hused => ?_
    · rintro ts ⟨test, more, htest⟩
      exact ⟨test, more ++ [bareToken .rightParen], left, ts ++ more, bareToken .rightParen,
        by simp, hleft, htest, rfl⟩
    · refine stumbles_expect ?_ fun _ _ _ _ => stumbles_pure test
      rintro rfl
      exact ⟨test, [bareToken .rightParen], left, used, bareToken .rightParen, by simp, hleft,
        derives_of_builds htest hused, rfl⟩

/-- What has been read of a condition, if the parser built one from it. -/
theorem isCondition_of_builds {test : Expr} {next : Cursor} {used : List Token}
    (h : (condition (expression n) opening closing).Builds c test next)
    (hused : c.rest = used ++ next.rest) : IsCondition test used := by
  obtain ⟨left, cs, right, hcs, hleft, htest, hright, -⟩ := condition_sound h
  refine ⟨left, cs, right, ?_, hleft, htest, hright⟩
  refine List.append_cancel_right (hused.symm.trans (hcs.trans ?_))
  simp

/-- What has been read of a statement, if the parser built one from it. -/
theorem derives_of_statement {stmt : Stmt} {next : Cursor} {used : List Token}
    (h : (statement n).Builds c stmt next) (hused : c.rest = used ++ next.rest) :
    Derives (.stmt stmt) used :=
  (statement_sound n h).1.derives hused

theorem stumbles_variableDeclaration (hle : ∀ j, n ≤ n' j) {word : Token}
    (hword : word.kind = .varWord) :
    (variableDeclaration (expression n)).StumblesAt (fun ts => Begins .decl (word :: ts)) total
      (fun j => variableDeclaration (expression (n' j))) c := by
  refine stumbles_expect ?_ fun name rest _ hname => ?_
  · exact ⟨_, [bareToken .identifier, bareToken .semicolon], .declare hword rfl rfl⟩
  · refine stumbles_accept ?_ fun equals rest' _ hequals => ?_
    · refine stumbles_bind (takes_pure anyKind 0 none _) (fun j => leads_pure none _ _)
        (stumbles_pure none) fun initial next used noted hinitial hused => ?_
      cases hinitial
      obtain rfl : used = [] := by simpa using hused
      refine stumbles_expect ?_ fun _ _ _ _ => stumbles_pure _
      rintro -
      exact ⟨_, [bareToken .semicolon], .declare hword hname rfl⟩
    · have hequals : equals.kind = .equal := by simpa using hequals
      refine stumbles_bind (takes_map (takes_expression n) some _)
        (fun j => leads_map (leads_expression (hle j) False.elim) some _ _)
        (stumbles_map (takes_expression n _) (fun j => leads_expression (hle j) False.elim _ _)
          ((stumbles_expression hle total _).mono ?_) some)
        fun initial next used noted hinitial hused => ?_
      · rintro ts ⟨value, more, hvalue⟩
        refine ⟨.declare name (some value), more ++ [bareToken .semicolon], ?_⟩
        simpa using Derives.declareInit hword hname hequals hvalue (kind_bareToken .semicolon)
      · refine stumbles_expect ?_ fun _ _ _ _ => stumbles_pure _
        rintro rfl
        obtain ⟨value, hvalue, rfl⟩ := builds_map.1 hinitial
        refine ⟨.declare name (some value), [bareToken .semicolon], ?_⟩
        simpa using Derives.declareInit hword hname hequals (derives_of_builds hvalue hused)
          (kind_bareToken .semicolon)

theorem stumbles_declaration_of (hle : ∀ j, n ≤ n' j)
    (hstmt : ∀ total c, (statement n).StumblesAt (Begins .stmt) total
      (fun j => statement (n' j)) c) :
    (declaration (expression n) (statement n)).StumblesAt (Begins .decl) total
      (fun j => declaration (expression (n' j)) (statement (n' j))) c := by
  refine stumbles_recover (stumbles_accept ((hstmt total c).mono ?_) fun word rest _ hword => ?_)
  · rintro ts ⟨stmt, more, h⟩
    exact ⟨stmt, more, .stmtDecl h⟩
  · exact stumbles_variableDeclaration hle (by simpa using hword)

/-- A list of declarations stumbles in one of them, behind those that it has built. -/
theorem stumbles_declarations {kind : TokenKind} (hle : ∀ j, n ≤ n' j)
    (hstmt : ∀ total c, (statement n).StumblesAt (Begins .stmt) total
      (fun j => statement (n' j)) c) {k : Nat} {k' : ι → Nat} (hk : c.rest.length < k)
    (hk' : ∀ j, total j < c.index + k' j) :
    (declarations kind (declaration (expression n) (statement n)) k).StumblesAt (Begins .decls)
      total (fun j => declarations kind (declaration (expression (n' j)) (statement (n' j))) (k' j))
      c := by
  induction k generalizing c k' with
  | zero => exact absurd hk (Nat.not_lt_zero _)
  | succ k ih =>
      have hround : (declarations kind (declaration (expression n) (statement n))
          (k + 1)).StumblesAt (Begins .decls) total
          (fun j => declarations kind (declaration (expression (n' j)) (statement (n' j)))
            (k' j - 1 + 1)) c := by
        refine stumbles_peek fun t rest hrest => ?_
        split
        · exact stumbles_pure []
        · next hopen =>
          have ht : t.isEnd = false := by cases hend : t.isEnd <;> simp_all
          have hdecl := proceeds_declaration n
          refine stumbles_bind (hdecl c).1 (fun j => leads_declaration (hle j) False.elim _ c)
            ((stumbles_declaration_of hle hstmt).mono ?_)
            fun first next used noted hfirst hused => ?_
          · rintro ts ⟨stmt, more, h⟩
            refine ⟨[stmt], more, ?_⟩
            simpa using Derives.cons h .nil
          · obtain ⟨i, ts⟩ := c
            cases hrest
            obtain ⟨hlt, hleft⟩ := hdecl.moves ht hfirst
            simp only [List.length_cons] at hk hk'
            have hbound : ∀ j, total j < next.index + (k' j - 1) := fun j => by
              have := hk' j
              omega
            refine stumbles_bind (takes_declarations (fun c => (hdecl c).1) k next)
              (fun j => leads_declarations (leads_declaration (hle j) False.elim) hdecl (by omega)
                (hbound j)) ((ih (by omega) hbound).mono ?_)
              fun others _ _ _ _ _ => stumbles_pure _
            rintro ts ⟨others, more, hothers⟩ rfl
            obtain ⟨stmt, rfl, hspans, -⟩ := declaration_sound (statement_sound n) hfirst
            exact ⟨stmt :: others, more, by simpa using (hspans.derives hused).cons hothers⟩
      refine hround.congr rfl fun j t rest rest' _ htotal => ?_
      have := hk' j
      rw [Nat.sub_add_cancel (by omega)]

theorem stumbles_blockBody (hle : ∀ j, n ≤ n' j)
    (hstmt : ∀ total c, (statement n).StumblesAt (Begins .stmt) total
      (fun j => statement (n' j)) c) {brace : Token} (hbrace : brace.kind = .leftBrace) :
    (blockBody (declaration (expression n) (statement n))).StumblesAt
      (fun ts => Begins .stmt (brace :: ts)) total
      (fun j => blockBody (declaration (expression (n' j)) (statement (n' j)))) c := by
  have hdecl := proceeds_declaration n
  refine stumbles_remaining (stumbles_bind (takes_declarations (fun c => (hdecl c).1) _ c)
    (fun j => leads_declarations (leads_declaration (hle j) False.elim) hdecl
      (Nat.lt_succ_self _) (by omega))
    ((stumbles_declarations hle hstmt (Nat.lt_succ_self _) (fun j => by omega)).mono ?_)
    fun body next used noted hbody hused => ?_)
  · rintro ts ⟨body, more, h⟩
    refine ⟨.block body, more ++ [bareToken .rightBrace], ?_⟩
    simpa using Derives.block hbrace h (kind_bareToken .rightBrace)
  · refine stumbles_expect ?_ fun _ _ _ _ => stumbles_pure body
    rintro rfl
    obtain ⟨hspans, -⟩ := declarations_sound (declaration_sound (statement_sound n)) _
      (Nat.lt_succ_self _) hbody
    refine ⟨.block body, [bareToken .rightBrace], ?_⟩
    simpa using Derives.block hbrace (hspans.derives hused) (kind_bareToken .rightBrace)

/-- **Where a statement stumbles**: what has been read begins a statement. -/
theorem stumbles_statement (hle : ∀ j, n ≤ n' j) (total : ι → Nat) (c : Cursor) :
    (statement n).StumblesAt (Begins .stmt) total (fun j => statement (n' j)) c := by
  induction n generalizing n' total c with
  | zero =>
      rw [statement]
      exact stumbles_halt .tooDeep
  | succ n ih =>
      obtain ⟨m, rfl, hle'⟩ := exists_levels hle
      have hleads : ∀ j, (statement n).Leads False (statement (m j)) :=
        fun j => leads_statement (hle' j) False.elim
      have hcondition : ∀ c, (condition (expression n) .parenAfterIf
          .parenAfterIfCondition).TakesAt standsInExpression 1 (n + 1) c :=
        takes_condition (takes_expression n) (by decide) (by decide)
      have hwhile : ∀ c, (condition (expression n) .parenAfterWhile
          .parenAfterWhileCondition).TakesAt standsInExpression 1 (n + 1) c :=
        takes_condition (takes_expression n) (by decide) (by decide)
      have htest : ∀ opening closing j, (condition (expression n) opening closing).Leads False
          (condition (expression (m j)) opening closing) :=
        fun opening closing j => leads_condition (leads_expression (hle' j) False.elim) _ _
      simp only [statement]
      refine stumbles_peek fun word rest hrest => ?_
      obtain ⟨i, ts⟩ := c
      cases hrest
      split
      · next hword =>
          refine stumbles_advance (stumbles_bind (takes_expression n _)
            (fun j => leads_expression (hle' j) False.elim _ _)
            ((stumbles_expression hle' total _).mono ?_)
            fun value next used noted hvalue hused => ?_)
          · rintro ts ⟨value, more, h⟩
            refine ⟨.print value, more ++ [bareToken .semicolon], ?_⟩
            simpa using Derives.print hword h (kind_bareToken .semicolon)
          · refine stumbles_expect ?_ fun _ _ _ _ => stumbles_pure _
            rintro rfl
            refine ⟨.print value, [bareToken .semicolon], ?_⟩
            simpa using Derives.print hword (derives_of_builds hvalue hused)
              (kind_bareToken .semicolon)
      · next hword =>
          refine stumbles_advance (stumbles_bind (hcondition _) (fun j => htest _ _ j _ _)
            ((stumbles_condition hle').mono ?_) fun test next used noted htest hused => ?_)
          · rintro ts ⟨test, more, h⟩
            refine ⟨.branch test (.expr (.literal .null)) none,
              more ++ [bareToken .nilWord, bareToken .semicolon], ?_⟩
            simpa using h.branch hword derives_nilStmt
          · refine stumbles_bind (takes_statement n _) (fun j => hleads j _ _)
              ((ih hle' total _).mono ?_) fun whenTrue next' used' noted' htrue hused' => ?_
            · rintro ts ⟨stmt, more, h⟩ rfl
              refine ⟨.branch test stmt none, more, ?_⟩
              simpa using (isCondition_of_builds htest hused).branch hword h
            · refine stumbles_accept (stumbles_pure _) fun other rest' hrest' hother => ?_
              refine stumbles_bind (takes_statement n _) (fun j => hleads j _ _)
                ((ih hle' total _).mono ?_) fun _ _ _ _ _ _ => stumbles_pure _
              rintro ts ⟨stmt, more, h⟩ rfl rfl
              have helse : other.kind = .elseWord := by simpa using hother
              -- A body that waits for an `else` would have taken this one.
              have hopen : whenTrue.awaitsElse = false := by
                obtain ⟨-, -, hawaits⟩ := statement_sound n htrue
                cases hwaits : whenTrue.awaitsElse with
                | false => rfl
                | true => exact absurd helse (hawaits hwaits other (by simp [hrest']))
              refine ⟨.branch test whenTrue (some stmt), more, ?_⟩
              simpa using (isCondition_of_builds htest hused).branchElse hword
                (derives_of_statement htrue hused') hopen helse h
      · next hword =>
          refine stumbles_advance (stumbles_bind (hwhile _) (fun j => htest _ _ j _ _)
            ((stumbles_condition hle').mono ?_) fun test next used noted htest hused => ?_)
          · rintro ts ⟨test, more, h⟩
            refine ⟨.loop test (.expr (.literal .null)),
              more ++ [bareToken .nilWord, bareToken .semicolon], ?_⟩
            simpa using h.loop hword derives_nilStmt
          · refine stumbles_bind (takes_statement n _) (fun j => hleads j _ _)
              ((ih hle' total _).mono ?_) fun _ _ _ _ _ _ => stumbles_pure _
            rintro ts ⟨stmt, more, h⟩ rfl
            refine ⟨.loop test stmt, more, ?_⟩
            simpa using (isCondition_of_builds htest hused).loop hword h
      · next hbrace =>
          have hbody : (blockBody (declaration (expression n) (statement n))).Takes anyKind 1 n :=
            takes_blockBody fun c => (proceeds_declaration n c).1
          exact stumbles_advance (stumbles_bind (hbody _)
            (fun j => leads_blockBody (leads_declaration (hle' j) False.elim)
              (proceeds_declaration n) _ _)
            (stumbles_blockBody hle' (ih hle') hbrace) fun _ _ _ _ _ _ => stumbles_pure _)
      · refine stumbles_bind (takes_expression n _)
          (fun j => leads_expression (hle' j) False.elim _ _)
          ((stumbles_expression hle' total _).mono ?_) fun value next used noted hvalue hused => ?_
        · rintro ts ⟨value, more, h⟩
          refine ⟨.expr value, more ++ [bareToken .semicolon], ?_⟩
          simpa using Derives.exprStmt h (kind_bareToken .semicolon)
        · refine stumbles_expect ?_ fun _ _ _ _ => stumbles_pure _
          rintro rfl
          refine ⟨.expr value, [bareToken .semicolon], ?_⟩
          simpa using Derives.exprStmt (derives_of_builds hvalue hused) (kind_bareToken .semicolon)

end Statements

end ScriptLang.Parse
