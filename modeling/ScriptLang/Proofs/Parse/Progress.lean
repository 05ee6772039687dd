import ScriptLang.Proofs.Parse.Relabel

/-!
# What a parser takes

Wherever a parser begins, it takes a row of tokens off the front of those that are left, none of
them the end of the input, and it blames tokens between the place where it began and the one where
it stops. A parser that is done has moved on, a declaration that fails has moved on after recovery
unless it stands at the end, and tokens run out only where there is no end. How deep a parser may
nest matters only for rows of tokens longer than half of that.

## Main Definitions

* `Outcome.next`, `Outcome.blames`: the cursor that an outcome leaves, and all that it reports.
* `Cursor.Reaches`: the tokens between two cursors.
* `Parser.Takes`: what a parser takes, wherever it begins.

## Main Statements

* `takes_expression`, `takes_statement`, `proceeds_declaration`: what the parsers take.
* `declarations_eq_of_length_lt`: a loop over declarations ends before its bound.

## Design Notes

Nothing is assumed of the tokens here: they need not hold an end. The levels that a parser may open
are compared with the tokens that are left, two levels for every token, since an operand in
parentheses opens two.
-/

namespace ScriptLang.Parse

variable {α β : Type}

/-! ### What an outcome leaves and reports -/

namespace Outcome

/-- The cursor that is left. -/
def next : Outcome α → Cursor
  | done _ next _ => next
  | failed _ next _ => next
  | halted _ next _ => next

/-- All errors: those that were noted and the one that the parser failed with. -/
def blames : Outcome α → List Blame
  | done _ _ noted => noted
  | failed blame _ noted => noted ++ [blame]
  | halted _ _ noted => noted

@[simp] theorem next_after (earlier : List Blame) (o : Outcome α) :
    (o.after earlier).next = o.next := by
  cases o <;> rfl

@[simp] theorem blames_after (earlier : List Blame) (o : Outcome α) :
    (o.after earlier).blames = earlier ++ o.blames := by
  cases o <;> simp [after, blames]

end Outcome

/-- Two steps are done only if both are. -/
theorem done_of_bind {p : Parser α} {f : α → Parser β} {c next : Cursor} {b : β}
    {noted : List Blame} (h : (p >>= f) c = .done b next noted) :
    ∃ a mid earlier more, p c = .done a mid earlier ∧ f a mid = .done b next more ∧
      noted = earlier ++ more := by
  cases hp : p c with
  | failed blame mid earlier =>
      rw [bind_of_failed hp] at h
      cases h
  | halted cause mid earlier =>
      rw [bind_of_halted hp] at h
      cases h
  | done a mid earlier =>
      rw [bind_of_done hp] at h
      cases hf : f a mid with
      | done b' next' more =>
          rw [hf] at h
          cases h
          exact ⟨a, mid, earlier, more, rfl, hf, rfl⟩
      | _ =>
          rw [hf] at h
          cases h

/-! ### The tokens between two cursors -/

/-- From the cursor `c` the cursor `c'` is reached over tokens of these kinds, none of them the
end. -/
def Cursor.Reaches (kinds : TokenKind → Bool) (c c' : Cursor) : Prop :=
  ∃ used, c.rest = used ++ c'.rest ∧ c'.index = c.index + used.length ∧
    ∀ t ∈ used, t.isEnd = false ∧ kinds t.kind = true

namespace Cursor.Reaches

variable {kinds wider : TokenKind → Bool} {c c' c'' : Cursor}

theorem refl (kinds : TokenKind → Bool) (c : Cursor) : c.Reaches kinds c :=
  ⟨[], rfl, rfl, by simp⟩

theorem trans (h : c.Reaches kinds c') (h' : c'.Reaches kinds c'') : c.Reaches kinds c'' := by
  obtain ⟨used, hrest, hindex, hused⟩ := h
  obtain ⟨more, hrest', hindex', hmore⟩ := h'
  refine ⟨used ++ more, ?_, ?_, List.forall_mem_append.2 ⟨hused, hmore⟩⟩
  · rw [hrest, hrest', List.append_assoc]
  · rw [hindex', hindex, List.length_append, Nat.add_assoc]

theorem single {i : Nat} {t : Token} {rest : List Token} (hend : t.isEnd = false)
    (hkind : kinds t.kind = true) : Reaches kinds ⟨i, t :: rest⟩ ⟨i + 1, rest⟩ :=
  ⟨[t], rfl, rfl, by simp [hend, hkind]⟩

theorem mono (h : c.Reaches kinds c') (hkinds : ∀ kind, kinds kind = true → wider kind = true) :
    c.Reaches wider c' := by
  obtain ⟨used, hrest, hindex, hused⟩ := h
  exact ⟨used, hrest, hindex, fun t ht => ⟨(hused t ht).1, hkinds _ (hused t ht).2⟩⟩

theorem index_le (h : c.Reaches kinds c') : c.index ≤ c'.index := by
  obtain ⟨used, -, hindex, -⟩ := h
  omega

/-- What has been read and what is left stay as many tokens. -/
theorem total_eq (h : c.Reaches kinds c') :
    c'.index + c'.rest.length = c.index + c.rest.length := by
  obtain ⟨used, hrest, hindex, -⟩ := h
  rw [hrest, hindex, List.length_append, Nat.add_assoc]

/-- An end that was not to be found further on was not to be found before. -/
theorem no_end (h : c.Reaches kinds c') (hno : ∀ t ∈ c'.rest, t.isEnd = false) :
    ∀ t ∈ c.rest, t.isEnd = false := by
  obtain ⟨used, hrest, -, hused⟩ := h
  rw [hrest]
  exact List.forall_mem_append.2 ⟨fun t ht => (hused t ht).1, hno⟩

end Cursor.Reaches

/-! ### What a parser takes -/

/-- How the outcome of a parser that began at `c` ends: done at least `least` tokens further on,
without room only where `room` is too little for the tokens that were left, and without tokens only
where there was no end. -/
def Outcome.Spends (least room : Nat) (c : Cursor) : Outcome α → Prop
  | .done _ next _ => c.index + least ≤ next.index
  | .failed .. => True
  | .halted .tooDeep _ _ => room < 2 * c.rest.length + 3
  | .halted .ranOff _ _ => ∀ t ∈ c.rest, t.isEnd = false

/-- What the outcome of a parser that began at `c` has taken and reports. That the levels do not
suffice is reported by the parse as a whole and by no parser. -/
structure Outcome.Takes (kinds : TokenKind → Bool) (least room : Nat) (c : Cursor)
    (o : Outcome α) : Prop where
  reaches : c.Reaches kinds o.next
  between : ∀ blame ∈ o.blames, c.index ≤ blame.index ∧ blame.index ≤ o.next.index
  faults : ∀ blame ∈ o.blames, blame.fault ≠ .lessNesting
  spends : o.Spends least room c

/-- From the cursor `c` the parser takes tokens of these kinds, at least `least` of them if it is
done, and has room enough unless the tokens are more than half of `room`. -/
def Parser.TakesAt (kinds : TokenKind → Bool) (least room : Nat) (p : Parser α) (c : Cursor) :
    Prop :=
  (p c).Takes kinds least room c

/-- So does the parser wherever it begins. -/
def Parser.Takes (kinds : TokenKind → Bool) (least room : Nat) (p : Parser α) : Prop :=
  ∀ c, p.TakesAt kinds least room c

section Steps

variable {kinds wider : TokenKind → Bool} {least least' room room' k l : Nat} {c : Cursor}
variable {p : Parser α} {f : α → Parser β}

theorem Outcome.Takes.mono {o : Outcome α} (h : o.Takes kinds least room c)
    (hkinds : ∀ kind, kinds kind = true → wider kind = true) (hleast : least' ≤ least)
    (hroom : room' ≤ room) : o.Takes wider least' room' c := by
  refine ⟨h.reaches.mono hkinds, h.between, h.faults, ?_⟩
  have hspends := h.spends
  cases o with
  | done value next noted => exact Nat.le_trans (Nat.add_le_add_left hleast _) hspends
  | failed blame next noted => trivial
  | halted cause next noted =>
      cases cause with
      | tooDeep => exact Nat.lt_of_le_of_lt hroom hspends
      | ranOff => exact hspends

theorem Parser.Takes.mono (h : p.Takes kinds least room)
    (hkinds : ∀ kind, kinds kind = true → wider kind = true) (hleast : least' ≤ least)
    (hroom : room' ≤ room) : p.Takes wider least' room' :=
  fun c => (h c).mono hkinds hleast hroom

/-- How many tokens are taken can be left open. -/
theorem Parser.Takes.still (h : p.Takes kinds least room) : p.Takes kinds 0 room :=
  h.mono (fun _ hkind => hkind) (Nat.zero_le _) (Nat.le_refl _)

theorem takes_pure (kinds : TokenKind → Bool) (room : Nat) (a : α) :
    Parser.Takes kinds 0 room (pure a) :=
  fun c => ⟨.refl kinds c, List.forall_mem_nil _, List.forall_mem_nil _, Nat.le_refl _⟩

/-- A token that has been taken makes room for two levels. -/
theorem takes_bind_at (hp : p.TakesAt kinds k room c)
    (hf : ∀ a next noted, p c = .done a next noted → (f a).TakesAt kinds l room' next)
    (hroom : room ≤ room' + 2 * k) : (p >>= f).TakesAt kinds (k + l) room c := by
  unfold Parser.TakesAt at hp ⊢
  cases hpc : p c with
  | failed blame next noted =>
      rw [hpc] at hp
      rw [bind_of_failed hpc]
      exact ⟨hp.reaches, hp.between, hp.faults, trivial⟩
  | halted cause next noted =>
      rw [hpc] at hp
      rw [bind_of_halted hpc]
      exact ⟨hp.reaches, hp.between, hp.faults, by cases cause <;> exact hp.spends⟩
  | done a next noted =>
      rw [hpc] at hp
      have hnext : (f a next).Takes kinds l room' next := hf a next noted hpc
      have hreaches : c.Reaches kinds next := hp.reaches
      have hmoved : c.index + k ≤ next.index := hp.spends
      have htotal := hreaches.total_eq
      have hfurther := hnext.reaches.index_le
      rw [bind_of_done hpc]
      refine ⟨?_, ?_, ?_, ?_⟩
      · rw [Outcome.next_after]
        exact hreaches.trans hnext.reaches
      · rw [Outcome.blames_after, Outcome.next_after]
        intro blame hblame
        rcases List.mem_append.1 hblame with hblame | hblame
        · obtain ⟨hle, hle'⟩ := hp.between blame hblame
          exact ⟨hle, Nat.le_trans hle' hfurther⟩
        · obtain ⟨hle, hle'⟩ := hnext.between blame hblame
          exact ⟨by omega, hle'⟩
      · rw [Outcome.blames_after]
        exact List.forall_mem_append.2 ⟨hp.faults, hnext.faults⟩
      · have hspends := hnext.spends
        cases hfa : f a next with
        | done b last more =>
            rw [hfa] at hspends
            simp only [Outcome.after, Outcome.Spends] at hspends ⊢
            omega
        | failed blame last more => trivial
        | halted cause last more =>
            rw [hfa] at hspends
            cases cause with
            | tooDeep =>
                simp only [Outcome.after, Outcome.Spends] at hspends ⊢
                omega
            | ranOff => exact hreaches.no_end hspends

/-- Two steps take what the first of them does, at least. -/
theorem takes_bind (hp : p.Takes kinds k room) (hf : ∀ a, (f a).Takes kinds 0 room')
    (hroom : room ≤ room' + 2 * k) : (p >>= f).Takes kinds k room :=
  fun c => takes_bind_at (hp c) (fun a next _ _ => hf a next) hroom

/-- Two steps take what the second of them does, at least. -/
theorem takes_bind_then (hp : p.Takes kinds k room) (hf : ∀ a, (f a).Takes kinds l room) :
    (p >>= f).Takes kinds l room :=
  fun c => Outcome.Takes.mono
    (takes_bind_at (hp c) (fun a next _ _ => hf a next) (Nat.le_add_right _ _))
    (fun _ h => h) (Nat.le_add_left l k) (Nat.le_refl _)

theorem takes_map (hp : p.Takes kinds k room) (f : α → β) : (f <$> p).Takes kinds k room :=
  takes_bind hp (fun a => takes_pure kinds room (f a)) (Nat.le_add_right _ _)

/-- Where there is no token to look at, none of those that are left is the end. -/
theorem takes_peek_bind {f : Token → Parser β}
    (hf : ∀ i t rest, (f t).TakesAt kinds l room ⟨i, t :: rest⟩) :
    (peek >>= f).Takes kinds l room := by
  rintro ⟨i, ts⟩
  unfold Parser.TakesAt
  cases ts with
  | nil => exact ⟨.refl _ _, List.forall_mem_nil _, List.forall_mem_nil _, List.forall_mem_nil _⟩
  | cons t rest =>
      have hpeek : peek ⟨i, t :: rest⟩ = .done t ⟨i, t :: rest⟩ [] := rfl
      rw [bind_of_done hpeek, Outcome.after_nil]
      exact hf i t rest

theorem takes_advance_bind {f : Unit → Parser β} {i : Nat} {t : Token} {rest : List Token}
    (hend : t.isEnd = false) (hkind : kinds t.kind = true) (hf : (f ()).Takes kinds (l - 1) room')
    (hroom : room ≤ room' + 2) : (advance >>= f).TakesAt kinds l room ⟨i, t :: rest⟩ := by
  have hadvance : advance ⟨i, t :: rest⟩ = .done () ⟨i + 1, rest⟩ [] := rfl
  have htakes : advance.TakesAt kinds 1 room ⟨i, t :: rest⟩ :=
    ⟨.single hend hkind, List.forall_mem_nil _, List.forall_mem_nil _, Nat.le_refl _⟩
  refine (takes_bind_at htakes (fun _ next _ _ => hf next) hroom).mono (fun _ h => h) ?_
    (Nat.le_refl _)
  omega

/-- A token is accepted if it is not the end, so what is accepted counts as taken. -/
theorem takes_accept {f : Option Token → Parser β} {accepted : TokenKind → Bool}
    (hkinds : ∀ kind, accepted kind = true → kinds kind = true)
    (hnone : (f none).Takes kinds l room) (hsome : ∀ t, (f (some t)).Takes kinds (l - 1) room')
    (hroom : room ≤ room' + 2) : (accept? accepted >>= f).Takes kinds l room := by
  rintro ⟨i, ts⟩
  unfold Parser.TakesAt
  cases ts with
  | nil => exact ⟨.refl _ _, List.forall_mem_nil _, List.forall_mem_nil _, List.forall_mem_nil _⟩
  | cons t rest =>
      cases ht : !t.isEnd && accepted t.kind with
      | false =>
          rw [accept_bind_of_false ht]
          exact hnone _
      | true =>
          obtain ⟨hend, hkind⟩ : t.isEnd = false ∧ accepted t.kind = true := by simpa using ht
          have hadvance : (accept? accepted >>= f) ⟨i, t :: rest⟩ =
              (advance >>= fun _ => f (some t)) ⟨i, t :: rest⟩ := by
            rw [accept_bind_of_true ht]
            exact (Outcome.after_nil _).symm
          rw [hadvance]
          exact takes_advance_bind hend (hkinds _ hkind) (hsome t) hroom

theorem expect_bind_of_true {f : Token → Parser β} {kind : TokenKind} {fault : Fault} {i : Nat}
    {t : Token} {rest : List Token} (h : (!t.isEnd && decide (t.kind = kind)) = true) :
    (expect kind fault >>= f) ⟨i, t :: rest⟩ = f t ⟨i + 1, rest⟩ := by
  have hexpect : expect kind fault ⟨i, t :: rest⟩ = .done t ⟨i + 1, rest⟩ [] :=
    accept_bind_of_true h
  rw [bind_of_done hexpect, Outcome.after_nil]

theorem expect_bind_of_false {f : Token → Parser β} {kind : TokenKind} {fault : Fault} {i : Nat}
    {t : Token} {rest : List Token} (h : (!t.isEnd && decide (t.kind = kind)) = false) :
    (expect kind fault >>= f) ⟨i, t :: rest⟩ = fail fault ⟨i, t :: rest⟩ := by
  have hexpect : expect kind fault ⟨i, t :: rest⟩ =
      .failed ⟨fault, t, i⟩ ⟨i, t :: rest⟩ [] := accept_bind_of_false h
  rw [bind_of_failed hexpect]
  rfl

theorem takes_fail (kinds : TokenKind → Bool) (least room : Nat) {fault : Fault}
    (hfault : fault ≠ .lessNesting) :
    Parser.Takes kinds least room (fail fault : Parser α) := by
  rintro ⟨i, ts⟩
  cases ts with
  | nil => exact ⟨.refl _ _, List.forall_mem_nil _, List.forall_mem_nil _, List.forall_mem_nil _⟩
  | cons t rest =>
      exact ⟨.refl _ _, List.forall_mem_singleton.2 ⟨Nat.le_refl i, Nat.le_refl i⟩,
        List.forall_mem_singleton.2 hfault, trivial⟩

theorem takes_tooDeep (kinds : TokenKind → Bool) (least : Nat) (hroom : room < 3) :
    Parser.Takes kinds least room (halt .tooDeep : Parser α) :=
  fun c => ⟨.refl kinds c, List.forall_mem_nil _, List.forall_mem_nil _,
    Nat.lt_of_lt_of_le hroom (Nat.le_add_left _ _)⟩

theorem takes_expect {kind : TokenKind} (hkind : kinds kind = true) {fault : Fault}
    (hfault : fault ≠ .lessNesting) : (expect kind fault).Takes kinds 1 room := by
  have hkinds : ∀ other : TokenKind, (decide (other = kind)) = true → kinds other = true := by
    intro other hother
    rwa [of_decide_eq_true hother]
  exact takes_accept hkinds (takes_fail kinds 1 room hfault) (fun t => takes_pure kinds room t)
    (Nat.le_add_right _ _)

theorem takes_remaining : remaining.Takes kinds 0 room :=
  fun c => ⟨.refl kinds c, List.forall_mem_nil _, List.forall_mem_nil _, Nat.le_refl _⟩

/-! ### Recovery -/

/-- Every kind of token. -/
def anyKind (_ : TokenKind) : Bool := true

/-- Skipping ends further on, unless there is no end. -/
theorem skip_reaches (previous : TokenKind) (i : Nat) (ts : List Token) :
    match skip previous i ts with
    | some boundary => Cursor.Reaches anyKind ⟨i, ts⟩ boundary
    | none => ∀ t ∈ ts, t.isEnd = false := by
  induction ts generalizing previous i with
  | nil => exact List.forall_mem_nil _
  | cons t ts ih =>
      rw [skip]
      split
      · next hstop =>
          split at hstop
          · cases hstop
            exact .refl _ _
          · next hopen =>
              have hend : t.isEnd = false := by cases hend : t.isEnd <;> simp_all
              have hrest := ih t.kind (i + 1)
              rw [hstop] at hrest
              exact (Cursor.Reaches.single hend rfl).trans hrest
      · next hnone =>
          split at hnone
          · cases hnone
          · next hopen =>
              have hend : t.isEnd = false := by cases hend : t.isEnd <;> simp_all
              have hrest := ih t.kind (i + 1)
              rw [hnone] at hrest
              exact List.forall_mem_cons.2 ⟨hend, hrest⟩

/-- The cursor stands at the end of the input. -/
def Cursor.AtEnd (c : Cursor) : Prop := ∃ t rest, c.rest = t :: rest ∧ t.isEnd = true

/-- Recovery moves on, unless it stands at the end. -/
theorem synchronize_reaches (c : Cursor) :
    match synchronize c with
    | some boundary =>
      c.Reaches anyKind boundary ∧ (c.index < boundary.index ∨ boundary = c ∧ c.AtEnd)
    | none => ∀ t ∈ c.rest, t.isEnd = false := by
  obtain ⟨i, ts⟩ := c
  cases ts with
  | nil => exact List.forall_mem_nil _
  | cons t rest =>
      cases hend : t.isEnd with
      | true =>
          have hstays : synchronize ⟨i, t :: rest⟩ = some ⟨i, t :: rest⟩ := by
            simp [synchronize, hend]
          rw [hstays]
          exact ⟨.refl _ _, Or.inr ⟨rfl, t, rest, rfl, hend⟩⟩
      | false =>
          have hskip := skip_reaches t.kind (i + 1) rest
          simp only [synchronize, hend, Bool.false_eq_true, if_false]
          split
          · next boundary hboundary =>
              rw [hboundary] at hskip
              have hreaches := (Cursor.Reaches.single (i := i) hend rfl).trans hskip
              exact ⟨hreaches, Or.inl hskip.index_le⟩
          · next hnone =>
              rw [hnone] at hskip
              exact List.forall_mem_cons.2 ⟨hend, hskip⟩

section Recover

variable {next boundary : Cursor} {a : α} {blame : Blame} {noted : List Blame}

theorem recover_of_done (h : p c = .done a next noted) :
    recover p c = .done (some a) next noted := by
  simp only [recover, h]

theorem recover_of_halted {cause : Halt} (h : p c = .halted cause next noted) :
    recover p c = .halted cause next noted := by
  simp only [recover, h]

theorem recover_of_failed (h : p c = .failed blame next noted)
    (hsync : synchronize next = some boundary) :
    recover p c = .done none boundary (noted ++ [blame]) := by
  simp only [recover, h, hsync]

theorem recover_of_ranOff (h : p c = .failed blame next noted) (hsync : synchronize next = none) :
    recover p c = .halted .ranOff next (noted ++ [blame]) := by
  simp only [recover, h, hsync]

end Recover

/-- Wherever it begins, the parser takes any tokens. If it is done, be it with a tree or after a
failure, it has moved on or stands at the end. -/
def Parser.Proceeds (room : Nat) (p : Parser α) : Prop :=
  ∀ c, p.TakesAt anyKind 0 room c ∧
    ∀ a next noted, p c = .done a next noted → c.index < next.index ∨ next.AtEnd

/-- A parser that takes a token proceeds with recovery as well. -/
theorem proceeds_recover (hp : p.Takes kinds 1 room) : (recover p).Proceeds room := by
  intro c
  have htakes : (p c).Takes anyKind 1 room c :=
    (hp c).mono (fun _ _ => rfl) (Nat.le_refl _) (Nat.le_refl _)
  unfold Parser.TakesAt
  cases hpc : p c with
  | done a next noted =>
      rw [hpc] at htakes
      rw [recover_of_done hpc]
      refine ⟨⟨htakes.reaches, htakes.between, htakes.faults, Nat.le_of_succ_le htakes.spends⟩, ?_⟩
      rintro o last more heq
      cases heq
      exact Or.inl htakes.spends
  | halted cause next noted =>
      rw [hpc] at htakes
      rw [recover_of_halted hpc]
      exact ⟨⟨htakes.reaches, htakes.between, htakes.faults,
        by cases cause <;> exact htakes.spends⟩,
        fun _ _ _ heq => nomatch heq⟩
  | failed blame next noted =>
      rw [hpc] at htakes
      have hreaches : c.Reaches anyKind next := htakes.reaches
      have hsync := synchronize_reaches next
      cases hnext : synchronize next with
      | some boundary =>
          rw [hnext] at hsync
          obtain ⟨hon, hmoved⟩ := hsync
          rw [recover_of_failed hpc hnext]
          refine ⟨⟨hreaches.trans hon, ?_, htakes.faults,
            Nat.le_trans hreaches.index_le hon.index_le⟩, ?_⟩
          · intro b hb
            obtain ⟨hle, hle'⟩ := htakes.between b hb
            exact ⟨hle, Nat.le_trans hle' hon.index_le⟩
          · rintro o last more heq
            cases heq
            rcases hmoved with hmoved | ⟨rfl, hend⟩
            · exact Or.inl (Nat.lt_of_le_of_lt hreaches.index_le hmoved)
            · exact Or.inr hend
      | none =>
          rw [hnext] at hsync
          rw [recover_of_ranOff hpc hnext]
          exact ⟨⟨hreaches, htakes.between, htakes.faults, hreaches.no_end hsync⟩,
            fun _ _ _ heq => nomatch heq⟩

end Steps

/-! ### Expressions -/

/-- The kinds of token that stand in expressions. -/
def standsInExpression (kind : TokenKind) : Bool :=
  isOrOp kind || isAndOp kind || isEqualityOp kind || isComparisonOp kind || isTermOp kind ||
    isFactorOp kind || isUnaryOp kind || kind = .equal || kind = .falseWord || kind = .trueWord ||
    kind = .nilWord || kind = .number || kind = .string || kind = .identifier ||
    kind = .leftParen || kind = .rightParen

section Expressions

variable {least room room' : Nat}

theorem takes_chainTail {ops : TokenKind → Bool} {node : Expr → Token → Expr → Expr}
    {operand : Parser Expr} (hops : ∀ kind, ops kind = true → standsInExpression kind = true)
    (h : operand.Takes standsInExpression 1 room) (k : Nat) (left : Expr) :
    (chainTail ops node operand k left).Takes standsInExpression 0 room := by
  induction k generalizing left with
  | zero => exact takes_pure _ room left
  | succ k ih =>
      refine takes_accept hops (takes_pure _ room left) (fun op => ?_) (Nat.le_add_right _ _)
      exact takes_bind_then h fun right => ih (node left op right)

theorem takes_leftChain {ops : TokenKind → Bool} {node : Expr → Token → Expr → Expr}
    {operand : Parser Expr} (hops : ∀ kind, ops kind = true → standsInExpression kind = true)
    (h : operand.Takes standsInExpression 1 room) :
    (leftChain ops node operand).Takes standsInExpression 1 room :=
  takes_bind h (fun left => takes_bind_then takes_remaining fun k =>
    takes_chainTail hops h k left) (Nat.le_add_right _ _)

theorem takes_operation {operand : Parser Expr} (h : operand.Takes standsInExpression 1 room) :
    (operation operand).Takes standsInExpression 1 room := by
  refine takes_leftChain (fun kind hkind => by simp [standsInExpression, hkind]) ?_
  refine takes_leftChain (fun kind hkind => by simp [standsInExpression, hkind]) ?_
  refine takes_leftChain (fun kind hkind => by simp [standsInExpression, hkind]) ?_
  refine takes_leftChain (fun kind hkind => by simp [standsInExpression, hkind]) ?_
  refine takes_leftChain (fun kind hkind => by simp [standsInExpression, hkind]) ?_
  exact takes_leftChain (fun kind hkind => by simp [standsInExpression, hkind]) h

theorem takes_primary {inner : Parser Expr} (h : inner.Takes standsInExpression 1 room')
    (hroom : room ≤ room' + 2) : (primary inner).Takes standsInExpression 1 room := by
  apply takes_peek_bind
  intro i t rest
  split
  case h_7 hkind =>
    refine takes_advance_bind (by simp [Token.isEnd, hkind]) (by simp [standsInExpression, hkind])
      ?_ hroom
    refine takes_bind_then h fun value => ?_
    exact takes_bind_then (takes_expect rfl (by decide)) fun _ => takes_pure _ room' _
  case h_8 => exact takes_fail _ _ _ (by decide) _
  all_goals
    next hkind =>
      exact takes_advance_bind (by simp [Token.isEnd, hkind])
        (by simp [standsInExpression, hkind]) (takes_pure _ room _) (Nat.le_add_right _ _)

/-- An assignment stays where it is, and what it notes, if anything, is the equals sign. -/
theorem assignment_eq_done (target : Expr) (equals : Token) (index : Nat) (value : Expr) :
    ∃ e noted, (∀ c, assignment target equals index value c = .done e c noted) ∧
      noted.Sublist [{ fault := .assignmentTarget, token := equals, index }] := by
  cases target with
  | ref name => exact ⟨_, [], fun _ => rfl, List.nil_sublist _⟩
  | _ => exact ⟨_, _, fun _ => rfl, .refl _⟩

/-- The rest of an expression behind its operation: an equals sign and a value, or nothing. -/
def expressionRest (expression : Parser Expr) (target : Expr) : Parser Expr := do
  let index ← here
  match ← accept? (· = .equal) with
  | none => return target
  | some equals =>
    let value ← expression
    assignment target equals index value

theorem here_bind {β : Type} (f : Nat → Parser β) (c : Cursor) : (here >>= f) c = f c.index c :=
  Outcome.after_nil _

/-- Behind an equals sign a value is read, then what stands in front of the sign is looked at. -/
theorem expressionRest_of_true {expression : Parser Expr} {target : Expr} {i : Nat} {t : Token}
    {rest : List Token} (h : (!t.isEnd && decide (t.kind = .equal)) = true) :
    expressionRest expression target ⟨i, t :: rest⟩ =
      (expression >>= fun value => assignment target t i value) ⟨i + 1, rest⟩ := by
  rw [expressionRest, here_bind]
  exact accept_bind_of_true h

theorem expressionRest_of_false {expression : Parser Expr} {target : Expr} {i : Nat} {t : Token}
    {rest : List Token} (h : (!t.isEnd && decide (t.kind = .equal)) = false) :
    expressionRest expression target ⟨i, t :: rest⟩ = .done target ⟨i, t :: rest⟩ [] := by
  rw [expressionRest, here_bind]
  exact accept_bind_of_false h

theorem takes_expressionRest {inner : Parser Expr} (h : inner.Takes standsInExpression 1 room')
    (hroom : room ≤ room' + 2) (target : Expr) :
    (expressionRest inner target).Takes standsInExpression 0 room := by
  rintro ⟨i, ts⟩
  unfold Parser.TakesAt
  cases ts with
  | nil => exact ⟨.refl _ _, List.forall_mem_nil _, List.forall_mem_nil _, List.forall_mem_nil _⟩
  | cons t rest =>
      cases ht : !t.isEnd && decide (t.kind = .equal) with
      | false =>
          rw [expressionRest_of_false ht]
          exact takes_pure _ room target _
      | true =>
          obtain ⟨hend, hkind⟩ : t.isEnd = false ∧ t.kind = .equal := by simpa using ht
          rw [expressionRest_of_true ht]
          have hon : Cursor.Reaches standsInExpression ⟨i, t :: rest⟩ ⟨i + 1, rest⟩ :=
            .single hend (by simp [standsInExpression, hkind])
          have hvalue : (inner ⟨i + 1, rest⟩).Takes standsInExpression 1 room' ⟨i + 1, rest⟩ :=
            h ⟨i + 1, rest⟩
          have hspends := hvalue.spends
          have hbetween : ∀ blame ∈ (inner ⟨i + 1, rest⟩).blames,
              i ≤ blame.index ∧ blame.index ≤ (inner ⟨i + 1, rest⟩).next.index := by
            intro blame hblame
            have := hvalue.between blame hblame
            exact ⟨Nat.le_of_succ_le this.1, this.2⟩
          cases hinner : inner ⟨i + 1, rest⟩ with
          | failed blame next noted =>
              rw [bind_of_failed hinner]
              rw [hinner] at hvalue hbetween
              exact ⟨hon.trans hvalue.reaches, hbetween, hvalue.faults, trivial⟩
          | halted cause next noted =>
              rw [bind_of_halted hinner]
              rw [hinner] at hvalue hbetween hspends
              refine ⟨hon.trans hvalue.reaches, hbetween, hvalue.faults, ?_⟩
              cases cause with
              | tooDeep =>
                  simp only [Outcome.Spends, List.length_cons] at hspends ⊢
                  omega
              | ranOff => exact List.forall_mem_cons.2 ⟨hend, hspends⟩
          | done value next noted =>
              rw [hinner] at hvalue hbetween hspends
              simp only [Outcome.Spends, Outcome.next] at hspends hbetween
              obtain ⟨e, more, hassign, hmore⟩ := assignment_eq_done target t i value
              rw [bind_of_done hinner, hassign]
              -- The equals sign is blamed after the value behind it has been read.
              refine ⟨hon.trans hvalue.reaches, ?_, ?_, show i + 0 ≤ next.index by omega⟩
              · refine List.forall_mem_append.2 ⟨hbetween, fun blame hblame => ?_⟩
                obtain rfl := List.mem_singleton.1 (hmore.subset hblame)
                exact ⟨Nat.le_refl i, show i ≤ next.index by omega⟩
              · refine List.forall_mem_append.2 ⟨hvalue.faults, fun blame hblame => ?_⟩
                obtain rfl := List.mem_singleton.1 (hmore.subset hblame)
                show Fault.assignmentTarget ≠ .lessNesting
                decide

theorem expression_succ (n : Nat) :
    expression (n + 1) = operation (unary n) >>= expressionRest (expression n) := by
  rw [expression]
  rfl

/-- What expressions and operands take. An expression that opens `n` levels has room enough for
`n + 1`, an operand for one more. -/
theorem takes_expression_unary (n : Nat) :
    (expression n).Takes standsInExpression 1 (n + 1) ∧
      (unary n).Takes standsInExpression 1 (n + 2) := by
  induction n with
  | zero =>
      rw [expression, unary]
      exact ⟨takes_tooDeep _ 1 (by decide), takes_tooDeep _ 1 (by decide)⟩
  | succ n ih =>
      obtain ⟨ihexpr, ihunary⟩ := ih
      constructor
      · rw [expression_succ]
        exact takes_bind (takes_operation ihunary)
          (fun target => takes_expressionRest ihexpr (Nat.le_succ _) target) (Nat.le_add_right _ _)
      · rw [unary]
        refine takes_accept (fun kind hkind => by simp [standsInExpression, hkind])
          (takes_primary ihexpr (Nat.le_refl _)) (fun op => ?_) (show n + 3 ≤ n + 2 + 2 by omega)
        exact takes_bind_then ihunary fun operand => takes_pure _ _ _

/-- **What an expression takes**, wherever it begins: tokens of expressions, at least one. -/
theorem takes_expression (n : Nat) : (expression n).Takes standsInExpression 1 (n + 1) :=
  (takes_expression_unary n).1

end Expressions

/-! ### Statements -/

section Statements

variable {room room' : Nat} {expr : Parser Expr} {stmt : Parser Stmt}
variable {decl : Parser (Option Stmt)}

theorem takes_variableDeclaration (hexpr : expr.Takes standsInExpression 1 room')
    (hroom : room ≤ room' + 2) : (variableDeclaration expr).Takes anyKind 1 room := by
  have hvalue : expr.Takes anyKind 0 room' :=
    hexpr.mono (fun _ _ => rfl) (Nat.zero_le _) (Nat.le_refl _)
  refine takes_bind (takes_expect rfl (by decide)) (fun name => ?_) hroom
  refine takes_accept (fun _ _ => rfl) (takes_bind_then (takes_pure _ room' none) fun initial => ?_)
    (fun _ => takes_bind_then (takes_map hvalue some) fun initial => ?_) (Nat.le_add_right _ _)
  all_goals
    exact takes_bind_then (takes_expect rfl (by decide)) fun _ => takes_pure _ room' _

/-- A declaration or a statement before recovery. -/
theorem takes_declared (hexpr : expr.Takes standsInExpression 1 room') (hroom : room ≤ room' + 2)
    (hstmt : stmt.Takes anyKind 1 room) :
    Parser.Takes anyKind 1 room
      (do match ← accept? (· = .varWord) with
          | some _ => variableDeclaration expr
          | none => stmt) :=
  takes_accept (fun _ _ => rfl) hstmt
    (fun _ => (takes_variableDeclaration hexpr hroom).still) (Nat.le_add_right _ _)

theorem proceeds_declared (hexpr : expr.Takes standsInExpression 1 room')
    (hroom : room ≤ room' + 2) (hstmt : stmt.Takes anyKind 1 room) :
    (declaration expr stmt).Proceeds room :=
  proceeds_recover (takes_declared hexpr hroom hstmt)

theorem takes_declarations {closing : TokenKind} (h : decl.Takes anyKind 0 room) (k : Nat) :
    (declarations closing decl k).Takes anyKind 0 room := by
  induction k with
  | zero => exact takes_pure _ room []
  | succ k ih =>
      apply takes_peek_bind
      intro i t rest
      split
      · exact takes_pure _ room [] _
      · refine takes_bind_then h (fun first => takes_bind_then ih fun others => ?_) _
        exact takes_pure _ room (first.toList ++ others)

theorem takes_condition (hexpr : expr.Takes standsInExpression 1 room) {opening closing : Fault}
    (hopening : opening ≠ .lessNesting) (hclosing : closing ≠ .lessNesting) :
    (condition expr opening closing).Takes standsInExpression 1 room := by
  have hvalue : expr.Takes standsInExpression 0 room := hexpr.still
  refine takes_bind (takes_expect rfl hopening) (fun _ => ?_) (Nat.le_add_right _ _)
  refine takes_bind_then hvalue fun value => ?_
  exact takes_bind_then (takes_expect rfl hclosing) fun _ => takes_pure _ room value

theorem takes_blockBody (h : decl.Takes anyKind 0 room) :
    (blockBody decl).Takes anyKind 1 room := by
  refine takes_bind_then takes_remaining fun k => ?_
  refine takes_bind_then (takes_declarations h _) fun body => ?_
  exact takes_bind (takes_expect rfl (by decide)) (fun _ => takes_pure _ room body)
    (Nat.le_add_right _ _)

/-- **What a statement takes**, wherever it begins. -/
theorem takes_statement (n : Nat) : (statement n).Takes anyKind 1 n := by
  induction n with
  | zero =>
      rw [statement]
      exact takes_tooDeep _ 1 (by decide)
  | succ n ih =>
      have hexpr := takes_expression n
      have hvalue : (expression n).Takes anyKind 1 (n + 1) :=
        hexpr.mono (fun _ _ => rfl) (Nat.le_refl _) (Nat.le_refl _)
      have htest : ∀ {opening closing : Fault}, opening ≠ .lessNesting → closing ≠ .lessNesting →
          (condition (expression n) opening closing).Takes anyKind 1 n :=
        fun hopening hclosing => (takes_condition hexpr hopening hclosing).mono (fun _ _ => rfl)
          (Nat.le_refl _) (Nat.le_succ n)
      rw [statement]
      apply takes_peek_bind
      intro i t rest
      split
      · next hkind =>
          refine takes_advance_bind (by simp [Token.isEnd, hkind]) rfl ?_ (Nat.le_add_right _ _)
          refine takes_bind_then hvalue fun value => ?_
          exact takes_bind_then (takes_expect rfl (by decide)) fun _ => takes_pure _ (n + 1) _
      · next hkind =>
          refine takes_advance_bind (by simp [Token.isEnd, hkind]) rfl ?_ (Nat.le_succ (n + 1))
          refine takes_bind_then (htest (by decide) (by decide)) fun test =>
            takes_bind_then ih fun whenTrue => ?_
          refine takes_accept (fun _ _ => rfl) (takes_pure _ n _) (fun _ => ?_)
            (Nat.le_add_right _ _)
          exact takes_bind_then ih fun whenFalse => takes_pure _ n _
      · next hkind =>
          refine takes_advance_bind (by simp [Token.isEnd, hkind]) rfl ?_ (Nat.le_succ (n + 1))
          refine takes_bind_then (htest (by decide) (by decide)) fun test => ?_
          exact takes_bind_then ih fun body => takes_pure _ n _
      · next hkind =>
          have hdecl : (declaration (expression n) (statement n)).Takes anyKind 0 n :=
            fun c => (proceeds_declared hexpr (by omega) ih c).1
          refine takes_advance_bind (by simp [Token.isEnd, hkind]) rfl ?_ (Nat.le_succ (n + 1))
          exact takes_bind_then (takes_blockBody hdecl) fun body => takes_pure _ n _
      · refine takes_bind hvalue (fun value => ?_) (Nat.le_add_right _ _) _
        exact takes_bind_then (takes_expect rfl (by decide)) fun _ => takes_pure _ (n + 1) _

/-- **What a declaration takes.** If it is done, be it with a tree or after a failure, it has moved
on or stands at the end. -/
theorem proceeds_declaration (n : Nat) : (declaration (expression n) (statement n)).Proceeds n :=
  proceeds_declared (takes_expression n) (by omega) (takes_statement n)

end Statements

/-! ### Loops end before their bounds -/

section Loops

variable {closing : TokenKind} {decl : Parser (Option Stmt)} {room k k' : Nat} {c : Cursor}

theorem declarations_cons {i : Nat} {t : Token} {rest : List Token} :
    declarations closing decl (k + 1) ⟨i, t :: rest⟩ =
      if t.isEnd || t.kind = closing then .done [] ⟨i, t :: rest⟩ []
      else (decl >>= fun first => declarations closing decl k >>= fun others =>
        pure (first.toList ++ others)) ⟨i, t :: rest⟩ := by
  have hpeek : peek ⟨i, t :: rest⟩ = .done t ⟨i, t :: rest⟩ [] := rfl
  rw [declarations, bind_of_done hpeek, Outcome.after_nil]
  split <;> rfl

/-- In front of a token that is not the end, a parser that proceeds moves on. -/
theorem Parser.Proceeds.moves {α : Type} {p : Parser α} (h : p.Proceeds room) {i : Nat} {t : Token}
    {rest : List Token} (ht : t.isEnd = false) {a : α} {next : Cursor} {noted : List Blame}
    (hp : p ⟨i, t :: rest⟩ = .done a next noted) :
    i < next.index ∧ next.index + next.rest.length = i + 1 + rest.length := by
  obtain ⟨htakes, hmoved⟩ := h ⟨i, t :: rest⟩
  have hreaches : Cursor.Reaches anyKind ⟨i, t :: rest⟩ next := by
    have := htakes.reaches
    rwa [hp] at this
  have htotal := hreaches.total_eq
  simp only [List.length_cons] at htotal
  refine ⟨?_, by omega⟩
  rcases hmoved a next noted hp with hlt | ⟨u, us, hu, hend⟩
  · exact hlt
  · -- Without a token taken, the end would have to be the token at the cursor.
    obtain ⟨used, hused, hindex, -⟩ := hreaches
    cases used with
    | nil =>
        rw [List.nil_append, hu] at hused
        cases hused
        rw [hend] at ht
        cases ht
    | cons v used =>
        simp only [List.length_cons] at hindex
        omega

/-- **A loop over declarations ends before its bound**, if that is more than the tokens that are
left. -/
theorem declarations_eq_of_length_lt (hdecl : decl.Proceeds room) (hk : c.rest.length < k)
    (hk' : c.rest.length < k') :
    declarations closing decl k c = declarations closing decl k' c := by
  induction k generalizing c k' with
  | zero => cases hk
  | succ k ih =>
      obtain ⟨k', rfl⟩ : ∃ m, k' = m + 1 := ⟨k' - 1, by omega⟩
      obtain ⟨i, ts⟩ := c
      cases ts with
      | nil => rfl
      | cons t rest =>
          rw [declarations_cons, declarations_cons]
          split
          · rfl
          · next hopen =>
            have ht : t.isEnd = false := by cases hend : t.isEnd <;> simp_all
            cases hfirst : decl ⟨i, t :: rest⟩ with
            | failed blame next noted => rw [bind_of_failed hfirst, bind_of_failed hfirst]
            | halted cause next noted => rw [bind_of_halted hfirst, bind_of_halted hfirst]
            | done first next noted =>
                obtain ⟨hlt, htotal⟩ := hdecl.moves ht hfirst
                simp only [List.length_cons] at hk hk'
                have hothers : declarations closing decl k next =
                    declarations closing decl k' next :=
                  ih (by omega) (by omega)
                rw [bind_of_done hfirst, bind_of_done hfirst]
                simp only [bind, Parser.bind, hothers]

/-- What closes a list of declarations is looked at before the loop over them is done. -/
theorem declarations_closed (hdecl : decl.Proceeds room) (hk : c.rest.length < k)
    {stmts : List Stmt} {next : Cursor} {noted : List Blame}
    (h : declarations closing decl k c = .done stmts next noted) :
    ∃ t rest, next.rest = t :: rest ∧ (t.isEnd = true ∨ t.kind = closing) := by
  induction k generalizing c stmts noted with
  | zero => cases hk
  | succ k ih =>
      obtain ⟨i, ts⟩ := c
      cases ts with
      | nil => cases h
      | cons t rest =>
          rw [declarations_cons] at h
          split at h
          · next hclosed =>
              cases h
              exact ⟨t, rest, rfl, by simpa using hclosed⟩
          · next hopen =>
            have ht : t.isEnd = false := by cases hend : t.isEnd <;> simp_all
            obtain ⟨first, mid, more, more', hfirst, h, -⟩ := done_of_bind h
            obtain ⟨others, _, _, _, hothers, hpure, -⟩ := done_of_bind h
            cases hpure
            obtain ⟨hlt, htotal⟩ := hdecl.moves ht hfirst
            simp only [List.length_cons] at hk
            exact ih (by omega) hothers

end Loops

end ScriptLang.Parse
