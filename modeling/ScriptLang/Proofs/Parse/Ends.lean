import ScriptLang.Limits
import ScriptLang.Proofs.Parse.Lookahead

/-!
# How a parse ends

A parse ends on every list of tokens. It runs out of tokens only where there is no end, and what
stands behind the first end does not matter. Without an end the tokens run out, unless the parse has
stopped before for want of levels; that needs a row of more tokens than half of the levels.

## Main Definitions

* `Parser.Recovers`: a parser that does not fail.

## Main Statements

* `parse_append_end`: what stands behind an end does not matter.
* `parse_of_no_end`: without an end, the tokens run out or the levels do.
* `parse_ends`: both, and that every failed declaration moves on.
* `parse_openings`: a long row of opening parentheses is nested too deeply.
-/

namespace ScriptLang.Parse

variable {α β : Type}

/-! ### Verdicts -/

/-- A verdict depends on the token at the cursor, and not on those behind it. -/
theorem verdict_withNext {total m : Nat} {o : Outcome (List Stmt)} {next' : Cursor}
    (h : o.next.AgreesTo total m next') (hle : o.next.index ≤ m) :
    (o.withNext next').verdict = o.verdict := by
  cases o with
  | done stmts next noted => rfl
  | failed blame next noted => rfl
  | halted cause next noted =>
      obtain ⟨t, rest, rest', hrest, rfl, -⟩ := h.exists_cons hle
      cases cause with
      | ranOff => rfl
      | tooDeep =>
          obtain ⟨i, ts⟩ := next
          cases hrest
          rfl

/-! ### Parsers that do not fail -/

/-- The parser does not fail, wherever it begins. -/
def Parser.Recovers (p : Parser α) : Prop :=
  ∀ c blame next noted, p c ≠ .failed blame next noted

theorem recovers_recover (p : Parser α) : (recover p).Recovers := by
  intro c blame next noted h
  cases hp : p c with
  | done a mid earlier =>
      rw [recover_of_done hp] at h
      cases h
  | halted cause mid earlier =>
      rw [recover_of_halted hp] at h
      cases h
  | failed first mid earlier =>
      cases hsync : synchronize mid with
      | some boundary =>
          rw [recover_of_failed hp hsync] at h
          cases h
      | none =>
          rw [recover_of_ranOff hp hsync] at h
          cases h

theorem recovers_bind {p : Parser α} {f : α → Parser β} (hp : p.Recovers)
    (hf : ∀ a, (f a).Recovers) : (p >>= f).Recovers := by
  intro c blame next noted h
  cases hpc : p c with
  | done a mid earlier =>
      rw [bind_of_done hpc] at h
      cases hfa : f a mid with
      | failed second last more => exact hf a mid second last more hfa
      | _ =>
          rw [hfa] at h
          cases h
  | halted cause mid earlier =>
      rw [bind_of_halted hpc] at h
      cases h
  | failed first mid earlier => exact hp c first mid earlier hpc

/-- A loop over declarations does not fail if these recover. -/
theorem recovers_declarations {closing : TokenKind} {decl : Parser (Option Stmt)}
    (hdecl : decl.Recovers) (k : Nat) : (declarations closing decl k).Recovers := by
  have hpure : ∀ stmts : List Stmt, Parser.Recovers (pure stmts) := by
    rintro stmts c blame next noted ⟨⟩
  induction k with
  | zero => exact hpure []
  | succ k ih =>
      rintro ⟨i, ts⟩
      cases ts with
      | nil => rintro blame next noted ⟨⟩
      | cons t rest =>
          rw [declarations_cons]
          split
          · rintro blame next noted ⟨⟩
          · exact recovers_bind hdecl (fun first => recovers_bind ih fun others => hpure _) _

/-! ### The tokens that a parse depends on -/

/-- The parser of a program with the bound that a parse gives it. -/
def program (limit bound : Nat) : Parser (List Stmt) :=
  declarations .endOfInput (declaration (expression limit) (statement limit)) bound

theorem parse_eq_program (limit : Nat) (tokens : List Token) :
    parse limit tokens = (program limit (tokens.length + 1) ⟨0, tokens⟩).verdict :=
  rfl

theorem takes_program (limit bound : Nat) : (program limit bound).Takes anyKind 0 limit :=
  takes_declarations (fun c => (proceeds_declaration limit c).1) bound

/-- A row of tokens without an end does not reach behind one. -/
theorem length_le_of_append_eq {used left body rest : List Token} {last : Token}
    (hused : ∀ t ∈ used, t.isEnd = false) (hlast : last.isEnd = true)
    (h : body ++ last :: rest = used ++ left) : used.length ≤ body.length := by
  rcases List.append_eq_append_iff.1 h with ⟨more, rfl, hmore⟩ | ⟨more, rfl, -⟩
  · cases more with
    | nil => simp
    | cons t more =>
        obtain ⟨rfl, -⟩ := List.cons.inj hmore
        have hopen := hused last (by simp)
        rw [hlast] at hopen
        cases hopen
  · simp

/-- **What stands behind an end does not matter.** -/
theorem parse_append_end (limit : Nat) (body rest : List Token) {last : Token}
    (hlast : last.isEnd = true) :
    parse limit (body ++ last :: rest) = parse limit (body ++ [last]) := by
  have htakes : (program limit ((body ++ last :: rest).length + 1)
      ⟨0, body ++ last :: rest⟩).Takes anyKind 0 limit ⟨0, body ++ last :: rest⟩ :=
    takes_program limit _ _
  have hleads : (program limit ((body ++ last :: rest).length + 1)).LeadsAt True
      (body ++ [last]).length (program limit ((body ++ [last]).length + 1))
      ⟨0, body ++ last :: rest⟩ :=
    leads_declarations (leads_declaration (Nat.le_refl limit) fun _ => rfl)
      (proceeds_declaration limit) (Nat.lt_succ_self _) (by omega)
  rw [parse_eq_program, parse_eq_program]
  generalize program limit ((body ++ last :: rest).length + 1) = p at htakes hleads ⊢
  obtain ⟨used, hused, hindex, hopen⟩ := htakes.reaches
  have hlength := length_le_of_append_eq (fun t ht => (hopen t ht).1) hlast hused
  have hle : (p ⟨0, body ++ last :: rest⟩).next.index ≤ body.length := by
    dsimp only at hindex
    omega
  have hsettled := htakes.settled ⟨last, by simp, hlast⟩
  have hagrees : Cursor.AgreesTo (body ++ [last]).length body.length ⟨0, body ++ last :: rest⟩
      ⟨0, body ++ [last]⟩ :=
    ⟨rfl, Nat.zero_add _, body ++ [last], rest, [], by simp, by simp, by simp⟩
  obtain ⟨next', heq, hnext⟩ := hleads.leads hagrees hle hsettled
  rw [heq, verdict_withNext hnext hle]

/-- What a parse rejects its tokens for is what the parser of a program reports, or else it is the
want of levels, reported behind the rest. -/
theorem blames_of_rejected {o : Outcome (List Stmt)} {first : Blame} {more : List Blame}
    (h : o.verdict = .error (.rejected first more)) :
    o.blames = first :: more ∨ ∃ next noted blame, o = .halted .tooDeep next noted ∧
      blame.fault = .lessNesting ∧ blame.index = next.index ∧ first :: more = noted ++ [blame] := by
  cases o with
  | done stmts next noted => exact Or.inl (mem_of_verdict h)
  | failed blame next noted => exact Or.inl (mem_of_verdict h)
  | halted cause next noted =>
      cases cause with
      | ranOff => cases h
      | tooDeep =>
          obtain ⟨i, ts⟩ := next
          cases ts with
          | nil => cases h
          | cons t rest => exact Or.inr ⟨_, noted, _, rfl, rfl, rfl, (mem_of_verdict h).symm⟩

/-- With levels for twice the tokens the want of levels is no error. -/
theorem fault_ne_lessNesting {limit : Nat} {tokens : List Token} {first : Blame} {more : List Blame}
    (h : parse limit tokens = .error (.rejected first more))
    (hroom : 2 * tokens.length + 3 ≤ limit) :
    ∀ blame ∈ first :: more, blame.fault ≠ .lessNesting := by
  have htakes : (program limit (tokens.length + 1) ⟨0, tokens⟩).Takes anyKind 0 limit ⟨0, tokens⟩ :=
    takes_program limit _ _
  rw [parse_eq_program] at h
  rcases blames_of_rejected h with hblames | ⟨next, noted, blame, ho, -, -, -⟩
  · exact hblames ▸ htakes.faults
  · rw [ho] at htakes
    exact absurd htakes.spends (Nat.not_lt_of_le hroom)

/-- The tokens run out only where there is no end. -/
theorem no_end_of_ranOff {limit : Nat} {tokens : List Token}
    (h : parse limit tokens = .error .ranOff) : ∀ t ∈ tokens, t.isEnd = false := by
  have htakes : (program limit (tokens.length + 1) ⟨0, tokens⟩).Takes anyKind 0 limit ⟨0, tokens⟩ :=
    takes_program limit _ _
  rw [parse_eq_program] at h
  cases hp : program limit (tokens.length + 1) ⟨0, tokens⟩ with
  | done stmts next noted =>
      rw [hp] at h
      cases noted <;> cases h
  | failed blame next noted =>
      rw [hp] at h
      cases noted <;> cases h
  | halted cause next noted =>
      rw [hp] at h htakes
      cases cause with
      | ranOff => exact htakes.spends
      | tooDeep =>
          obtain ⟨i, ts⟩ := next
          cases ts with
          | nil => exact htakes.reaches.no_end (List.forall_mem_nil _)
          | cons t rest => cases noted <;> cases h

/-- **Without an end** the tokens run out, unless the parse stops before for want of levels. -/
theorem parse_of_no_end {limit : Nat} {tokens : List Token} (h : ∀ t ∈ tokens, t.isEnd = false) :
    parse limit tokens = .error .ranOff ∨
      limit < 2 * tokens.length + 3 ∧ ∃ first more,
        parse limit tokens = .error (.rejected first more) ∧
        ∃ blame, (first :: more).getLast? = some blame ∧ blame.fault = .lessNesting := by
  have htakes : (program limit (tokens.length + 1) ⟨0, tokens⟩).Takes anyKind 0 limit ⟨0, tokens⟩ :=
    takes_program limit _ _
  rw [parse_eq_program]
  cases hp : program limit (tokens.length + 1) ⟨0, tokens⟩ with
  | done stmts next noted =>
      -- The loop over declarations is done only where it sees an end.
      obtain ⟨t, rest, hnext, hend⟩ :=
        declarations_closed (proceeds_declaration limit) (Nat.lt_succ_self _) hp
      rw [hp] at htakes
      obtain ⟨used, hused, -, -⟩ := htakes.reaches
      have hopen := h t (by rw [show tokens = used ++ next.rest from hused, hnext]; simp)
      simp [Token.isEnd] at hend hopen
      exact absurd hend hopen
  | failed blame next noted =>
      exact absurd hp (recovers_declarations (recovers_recover _) _ _ blame next noted)
  | halted cause next noted =>
      cases cause with
      | ranOff => exact Or.inl rfl
      | tooDeep =>
          rw [hp] at htakes
          obtain ⟨i, ts⟩ := next
          cases ts with
          | nil => exact Or.inl rfl
          | cons t rest =>
              refine Or.inr ⟨htakes.spends, ?_⟩
              cases noted with
              | nil => exact ⟨_, [], rfl, _, rfl, rfl⟩
              | cons first more =>
                  have hlast : ∀ blame, (first :: (more ++ [blame])).getLast? = some blame :=
                    fun blame => List.getLast?_concat (l := first :: more)
                  exact ⟨first, more ++ [_], rfl, _, hlast _, rfl⟩

/-- An opening parenthesis. -/
def openParen : Token := { kind := .leftParen, lexeme := .str "(", line := .int 1 }

/-- **How a parse ends.** It runs out of tokens only where there is no end, and in every other case
depends on the tokens up to the first end only. Without an end the tokens run out, unless the parse
stops before for want of levels, which it reports as its last error; that needs more tokens than
half of the levels. Every declaration that fails, on the outside or in a block, has moved on after
recovery or stands at an end, and so no loop over declarations is cut short by its bound. -/
theorem parse_ends (limit : Nat) (tokens : List Token) :
    (parse limit tokens = .error .ranOff → ∀ t ∈ tokens, t.isEnd = false) ∧
    (∀ body last rest, tokens = body ++ last :: rest → last.isEnd = true →
      parse limit tokens = parse limit (body ++ [last])) ∧
    ((∀ t ∈ tokens, t.isEnd = false) → parse limit tokens = .error .ranOff ∨
      limit < 2 * tokens.length + 3 ∧ ∃ first more,
        parse limit tokens = .error (.rejected first more) ∧
        ∃ blame, (first :: more).getLast? = some blame ∧ blame.fault = .lessNesting) ∧
    (∀ n c next noted, declaration (expression n) (statement n) c = .done none next noted →
      c.index < next.index ∨ next.AtEnd) ∧
    (∀ closing n k c, c.rest.length < k →
      declarations closing (declaration (expression n) (statement n)) k c =
        declarations closing (declaration (expression n) (statement n)) (c.rest.length + 1) c) := by
  refine ⟨no_end_of_ranOff, ?_, parse_of_no_end, ?_, ?_⟩
  · rintro body last rest rfl hlast
    exact parse_append_end limit body rest hlast
  · exact fun n c => (proceeds_declaration n c).2 none
  · intro closing n k c hk
    exact declarations_eq_of_length_lt (proceeds_declaration n) hk (Nat.lt_succ_self _)

/-- An opening parenthesis alone has neither an end nor too many levels. -/
theorem parse_ends_openParen :
    (∀ t ∈ [openParen], t.isEnd = false) ∧ parse 5 [openParen] = .error .ranOff := by
  have hopen : ∀ t ∈ [openParen], t.isEnd = false := by decide
  refine ⟨hopen, ?_⟩
  rcases (parse_ends 5 [openParen]).2.2.1 hopen with h | ⟨hlt, -⟩
  · exact h
  · exact absurd hlt (by decide)

/-! ### Deep nesting -/

/-- Behind an opening parenthesis stands an expression, and behind it a closing one. -/
theorem primary_of_leftParen {inner : Parser Expr} {i : Nat} {t : Token} {rest : List Token}
    (h : t.kind = .leftParen) :
    primary inner ⟨i, t :: rest⟩ =
      (inner >>= fun value => expect .rightParen .parenAfterExpression >>= fun _ =>
        pure (.group value)) ⟨i + 1, rest⟩ := by
  have hpeek : peek ⟨i, t :: rest⟩ = .done t ⟨i, t :: rest⟩ [] := rfl
  rw [primary, bind_of_done hpeek, Outcome.after_nil]
  simp only [h]
  exact Outcome.after_nil _

theorem leftChain_of_halted {ops : TokenKind → Bool} {node : Expr → Token → Expr → Expr}
    {operand : Parser Expr} {c next : Cursor} {cause : Halt} {noted : List Blame}
    (h : operand c = .halted cause next noted) :
    leftChain ops node operand c = .halted cause next noted :=
  bind_of_halted h

theorem operation_of_halted {operand : Parser Expr} {c next : Cursor} {cause : Halt}
    {noted : List Blame} (h : operand c = .halted cause next noted) :
    operation operand c = .halted cause next noted :=
  leftChain_of_halted <| leftChain_of_halted <| leftChain_of_halted <| leftChain_of_halted <|
    leftChain_of_halted <| leftChain_of_halted h

/-- In front of `k` opening parentheses the parser stops for want of levels at one of them. -/
def Parser.StopsIn (p : Parser α) (k : Nat) : Prop :=
  ∀ i rest, ∃ j left, j < i + k ∧
    p ⟨i, List.replicate k openParen ++ rest⟩ = .halted .tooDeep ⟨j, openParen :: left⟩ []

theorem stopsIn_tooDeep (k : Nat) : Parser.StopsIn (halt .tooDeep : Parser α) (k + 1) :=
  fun i rest => ⟨i, List.replicate k openParen ++ rest, by omega, rfl⟩

/-- A row of opening parentheses that is longer than there are levels is nested too deeply. -/
theorem stopsIn_expression_unary (n : Nat) {k : Nat} (hk : n ≤ k) :
    (expression n).StopsIn (k + 1) ∧ (unary n).StopsIn (k + 1) := by
  induction n generalizing k with
  | zero =>
      rw [expression, unary]
      exact ⟨stopsIn_tooDeep k, stopsIn_tooDeep k⟩
  | succ n ih =>
      obtain ⟨k, rfl⟩ : ∃ l, k = l + 1 := ⟨k - 1, by omega⟩
      constructor
      · intro i rest
        obtain ⟨j, left, hj, hunary⟩ := (ih (Nat.le_of_succ_le hk)).2 i rest
        refine ⟨j, left, hj, ?_⟩
        rw [expression_succ]
        exact bind_of_halted (operation_of_halted hunary)
      · intro i rest
        obtain ⟨j, left, hj, hinner⟩ := (ih (Nat.le_of_succ_le_succ hk)).1 (i + 1) rest
        refine ⟨j, left, by omega, ?_⟩
        rw [unary, List.replicate_succ, List.cons_append, accept_bind_of_false rfl]
        exact (primary_of_leftParen rfl).trans (bind_of_halted hinner)

theorem stopsIn_statement (n : Nat) {k : Nat} (hk : n ≤ k) : (statement n).StopsIn (k + 1) := by
  cases n with
  | zero =>
      rw [statement]
      exact stopsIn_tooDeep k
  | succ n =>
      intro i rest
      obtain ⟨j, left, hj, hexpr⟩ := (stopsIn_expression_unary n (Nat.le_of_succ_le hk)).1 i rest
      refine ⟨j, left, hj, ?_⟩
      rw [List.replicate_succ, List.cons_append] at hexpr ⊢
      have hpeek : ∀ ts, peek ⟨i, openParen :: ts⟩ = .done openParen ⟨i, openParen :: ts⟩ [] :=
        fun _ => rfl
      rw [statement, bind_of_done (hpeek _), Outcome.after_nil]
      exact bind_of_halted hexpr

theorem stopsIn_declaration (n : Nat) {k : Nat} (hk : n ≤ k) :
    (declaration (expression n) (statement n)).StopsIn (k + 1) := by
  intro i rest
  obtain ⟨j, left, hj, hstmt⟩ := stopsIn_statement n hk i rest
  refine ⟨j, left, hj, recover_of_halted ?_⟩
  rw [List.replicate_succ, List.cons_append] at hstmt ⊢
  rw [accept_bind_of_false rfl]
  exact hstmt

/-- **A row of opening parentheses** that is longer than there are levels is reported as nested too
deeply, at one of the parentheses, and nothing behind it is looked at. -/
theorem parse_openings {limit k : Nat} (hk : limit ≤ k) (rest : List Token) :
    ∃ index, index < k + 1 ∧ parse limit (List.replicate (k + 1) openParen ++ rest) =
      .error (.rejected { fault := .lessNesting, token := openParen, index } []) := by
  obtain ⟨j, left, hj, hdecl⟩ := stopsIn_declaration limit hk 0 rest
  refine ⟨j, by omega, ?_⟩
  rw [parse_eq_program, program]
  rw [List.replicate_succ, List.cons_append] at hdecl ⊢
  rw [List.length_cons, declarations_cons, if_neg (by decide), bind_of_halted hdecl]
  rfl

/-- With the standard limits the tokens of two thousand opening parentheses do not run out. -/
theorem openings_not_ranOff :
    (∀ t ∈ List.replicate 2000 openParen, t.isEnd = false) ∧
      parse Limits.standard.nesting (List.replicate 2000 openParen) ≠ .error .ranOff := by
  constructor
  · intro t ht
    rw [List.eq_of_mem_replicate ht]
    rfl
  · intro h
    obtain ⟨index, -, hrejected⟩ :=
      parse_openings (show Limits.standard.nesting ≤ 1999 by decide) []
    rw [List.append_nil, h] at hrejected
    cases hrejected

end ScriptLang.Parse
