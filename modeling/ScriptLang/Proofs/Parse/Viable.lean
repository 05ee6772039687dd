import ScriptLang.Proofs.Parse.Ends
import ScriptLang.Proofs.Parse.Stumble

/-!
# Where errors are reported

A row of tokens is viable if a program begins with it. Errors begin at the first token with which
the tokens stop being viable: no error is reported in front of that token, and the first one is
reported at it, unless it is an equals sign.

The want of levels is an exception. It may be reported in tokens that are viable still, where a
parser with more levels would go on.

## Main Definitions

* `Viable`: the rows of tokens that a program can begin with.
* `FirstUnviable`: the first token with which the tokens are not viable.

## Main Statements

* `Outcome.Stumbles.firstUnviable`: the parser of a program stumbles at the first unviable token.
* `errors_begin_where_unviable`: errors begin there.
* `firstUnviable_openings`: opening parentheses are viable, and an end behind them is not.
-/

namespace ScriptLang.Parse

/-! ### Beginnings of programs -/

/-- A list of tokens that the grammar accepts begins with the tokens: those of a program and an end
behind them. -/
def Viable (ts : List Token) : Prop :=
  ∃ program body last rest, Derives (.decls program) body ∧ last.isEnd = true ∧
    body ++ [last] = ts ++ rest

theorem viable_of_begins {ts : List Token} (h : Begins .decls ts) : Viable ts := by
  obtain ⟨program, more, h⟩ := h
  exact ⟨program, ts ++ more, bareToken .endOfInput, more ++ [bareToken .endOfInput], h, rfl,
    List.append_assoc _ _ _⟩

theorem Viable.of_append {ts us : List Token} (h : Viable (ts ++ us)) : Viable ts := by
  obtain ⟨program, body, last, rest, h, hlast, hsplit⟩ := h
  exact ⟨program, body, last, us ++ rest, h, hlast, by rw [hsplit, List.append_assoc]⟩

/-- With an end behind it, a row of tokens goes on only if it is a program. -/
theorem viable_append_end {ts : List Token} {last : Token} (hts : ∀ t ∈ ts, t.isEnd = false)
    (hlast : last.isEnd = true) (h : Viable (ts ++ [last])) :
    ∃ program, Derives (.decls program) ts := by
  obtain ⟨program, body, stop, rest, hderives, hstop, hsplit⟩ := h
  have hparse := parse_of_derives [] hderives hstop (Nat.le_refl _)
  rw [hsplit, List.append_assoc, List.singleton_append, parse_append_end _ _ _ hlast] at hparse
  exact ⟨program, (((parse_accepts_grammar _ ts last hts hlast).1 program).1 hparse).1⟩

/-- The parser of a program stumbles where its tokens stop being viable, whatever levels other
parsers may open. -/
theorem stumbles_program (limit : Nat) (tokens : List Token) :
    (program limit (tokens.length + 1)).StumblesAt (Begins .decls) (fun j : Nat × Nat => j.2)
      (fun j => program (limit + j.1) (j.2 + 1)) ⟨0, tokens⟩ := by
  have hle : ∀ j : Nat × Nat, limit ≤ limit + j.1 := fun j => Nat.le_add_right _ _
  exact stumbles_declarations hle (fun total c => stumbles_statement hle total c)
    (Nat.lt_succ_self _) (fun j => by omega)

/-- The token `t` at position `k` is the first with which the tokens begin no program. -/
structure FirstUnviable (tokens : List Token) (k : Nat) (t : Token) : Prop where
  getElem?_eq : tokens[k]? = some t
  viable : ∀ j ≤ k, Viable (tokens.take j)
  not_viable : ¬ Viable (tokens.take (k + 1))

/-- The token that the parser of a program stumbles at is the first unviable one. -/
theorem Outcome.Stumbles.firstUnviable {limit : Nat} {tokens : List Token} {o : Outcome (List Stmt)}
    {seen : List Token} {t : Token}
    (h : o.Stumbles (Begins .decls) (fun j : Nat × Nat => j.2)
      (fun j => program (limit + j.1) (j.2 + 1)) ⟨0, tokens⟩ seen t) :
    FirstUnviable tokens seen.length t := by
  obtain ⟨left, hleft⟩ := h.rest_eq
  obtain rfl : tokens = seen ++ t :: left := hleft
  have htake : (seen ++ t :: left).take (seen.length + 1) = seen ++ [t] := by
    simp [List.take_append, List.take_of_length_le]
  refine ⟨by simp, fun j hj => ?_, ?_⟩
  · rw [List.take_append_of_le_length hj]
    have hseen : Viable (seen.take j ++ seen.drop j) := by
      rw [List.take_append_drop]
      exact viable_of_begins h.viable
    exact hseen.of_append
  · rw [htake]
    rintro ⟨program, body, last, rest, hderives, hlast, hsplit⟩
    have hparse := parse_of_derives [] hderives hlast (Nat.le_add_left (levelsOfAll program) limit)
    obtain ⟨next, hbuilds⟩ := parse_eq_ok_iff.1 hparse
    have hagrees : Cursor.AgreesTo (body ++ [last]).length (0 + seen.length)
        ⟨0, seen ++ t :: left⟩ ⟨0, body ++ [last]⟩ :=
      ⟨rfl, Nat.zero_add _, seen ++ [t], left, rest, by simp, hsplit, by simp⟩
    exact h.stuck (j := (levelsOfAll program, (body ++ [last]).length)) hagrees program next hbuilds

/-- **Errors begin where the tokens stop being viable.** If a parse rejects its tokens, and the
first of its errors is not the want of levels, the tokens hold a first one with which they begin no
program. No error is reported in front of it, and unless it is an equals sign, the first one is
reported there. With levels for twice the tokens the want of levels is no error. -/
theorem errors_begin_where_unviable {limit : Nat} {tokens : List Token}
    (hend : ∃ t ∈ tokens, t.isEnd = true) {first : Blame} {more : List Blame}
    (h : parse limit tokens = .error (.rejected first more)) :
    (2 * tokens.length + 3 ≤ limit → ∀ blame ∈ first :: more, blame.fault ≠ .lessNesting) ∧
    (first.fault ≠ .lessNesting → ∃ k t, FirstUnviable tokens k t ∧
      (∀ blame ∈ first :: more, k ≤ blame.index) ∧
      (t.kind ≠ .equal → first.index = k ∧ first.token = t)) := by
  refine ⟨fault_ne_lessNesting h, fun hne => ?_⟩
  have hpoints : tokens[first.index]? = some first.token :=
    pointsInto_of_parse hend h first List.mem_cons_self
  have htakes : (program limit (tokens.length + 1) ⟨0, tokens⟩).Takes anyKind 0 limit ⟨0, tokens⟩ :=
    takes_program limit _ _
  have hstumbles := (stumbles_program limit tokens).stumbles
  rw [parse_eq_program] at h
  generalize program limit (tokens.length + 1) ⟨0, tokens⟩ = o at h htakes hstumbles
  -- If the want of levels is reported at all, it is behind the others, where the parser stops.
  obtain ⟨shown, hshown, hrest⟩ : ∃ shown, o.blames = first :: shown ∧
      ∀ blame ∈ first :: more, blame ∈ o.blames ∨ blame.index = o.next.index := by
    rcases blames_of_rejected h with hblames | ⟨next, noted, blame, rfl, hfault, hindex, hsplit⟩
    · exact ⟨more, hblames, fun blame hblame => Or.inl (hblames ▸ hblame)⟩
    · cases noted with
      | nil =>
          cases hsplit
          exact absurd hfault hne
      | cons noted others =>
          obtain ⟨rfl, rfl⟩ : first = noted ∧ more = others ++ [blame] := List.cons.inj hsplit
          refine ⟨others, rfl, fun other hother => ?_⟩
          rw [hsplit, List.mem_append, List.mem_singleton] at hother
          rcases hother with hother | rfl
          · exact Or.inl hother
          · exact Or.inr hindex
  obtain ⟨seen, t, hs⟩ := hstumbles (by rw [hshown]; exact List.cons_ne_nil _ _)
  have hfirst := hs.firstUnviable
  have hbehind : ∀ blame ∈ o.blames, seen.length ≤ blame.index := by
    simpa only [Nat.zero_add] using hs.behind
  refine ⟨seen.length, t, hfirst, fun blame hblame => ?_, fun hkind => ?_⟩
  · rcases hrest blame hblame with hblame | hindex
    · exact hbehind blame hblame
    · have hmem : first ∈ o.blames := by
        rw [hshown]
        exact List.mem_cons_self
      rw [hindex]
      exact Nat.le_trans (hbehind first hmem) (htakes.between first hmem).2
  · obtain ⟨_, _, hcons, hat⟩ := hs.first.resolve_left hkind
    cases hshown.symm.trans hcons
    rw [Nat.zero_add] at hat
    rw [hat, hfirst.getElem?_eq] at hpoints
    exact ⟨hat, (Option.some.inj hpoints).symm⟩

/-- A sum that ends too early: `print nil + ;`. -/
def brokenSum : List Token :=
  [.printWord, .nilWord, .plus, .semicolon, .endOfInput].map bareToken

/-- The first error of the broken sum is at the semicolon, where the tokens stop being viable. -/
theorem error_of_brokenSum :
    (∃ t ∈ brokenSum, t.isEnd = true) ∧
    parse 10 brokenSum = .error (.rejected ⟨.expression, bareToken .semicolon, 3⟩ []) ∧
    FirstUnviable brokenSum 3 (bareToken .semicolon) := by
  have hend : ∃ t ∈ brokenSum, t.isEnd = true := by decide
  have hparse : parse 10 brokenSum =
      .error (.rejected ⟨.expression, bareToken .semicolon, 3⟩ []) := by rfl
  have hequal : ∀ t ∈ brokenSum, t.kind ≠ .equal := by decide
  obtain ⟨k, t, hfirst, -, hat⟩ := (errors_begin_where_unviable hend hparse).2 (by decide)
  obtain ⟨rfl, rfl⟩ := hat (hequal t (List.mem_of_getElem? hfirst.getElem?_eq))
  exact ⟨hend, hparse, hfirst⟩

/-! ### Errors in viable tokens -/

/-- What is said of a phrase: a statement or a declaration holds a token that closes it. -/
def HoldsClosing : Phrase → List Token → Prop
  | .stmt _, ts | .decl _, ts => ∃ t ∈ ts, t.kind = .semicolon ∨ t.kind = .rightBrace
  | .expr _ _, _ | .decls _, _ => True

theorem holdsClosing_of_derives {phrase : Phrase} {ts : List Token} (h : Derives phrase ts) :
    HoldsClosing phrase ts := by
  induction h with
  | exprStmt _ hsemicolon => exact ⟨_, by simp, Or.inl hsemicolon⟩
  | print _ _ hsemicolon => exact ⟨_, by simp, Or.inl hsemicolon⟩
  | declare _ _ hsemicolon => exact ⟨_, by simp, Or.inl hsemicolon⟩
  | declareInit _ _ _ _ hsemicolon => exact ⟨_, by simp, Or.inl hsemicolon⟩
  | block _ _ hclosing => exact ⟨_, by simp, Or.inr hclosing⟩
  | branch _ _ _ _ _ _ ih =>
      obtain ⟨t, ht, hkind⟩ := ih
      exact ⟨t, by simp [ht], hkind⟩
  | branchElse _ _ _ _ _ _ _ _ _ ih =>
      obtain ⟨t, ht, hkind⟩ := ih
      exact ⟨t, by simp [ht], hkind⟩
  | loop _ _ _ _ _ _ ih =>
      obtain ⟨t, ht, hkind⟩ := ih
      exact ⟨t, by simp [ht], hkind⟩
  | stmtDecl _ ih => exact ih
  | _ => trivial

/-- Any number of parentheses may stand around an expression. -/
theorem derives_parentheses (k : Nat) : ∃ e, Derives (.expr .assignment e)
    (List.replicate k openParen ++ bareToken .nilWord ::
      List.replicate k (bareToken .rightParen)) := by
  induction k with
  | zero => exact ⟨_, derives_nil⟩
  | succ k ih =>
      obtain ⟨e, he⟩ := ih
      have hgroup : Derives (.expr .primary (.group e)) (openParen ::
          (List.replicate k openParen ++ bareToken .nilWord ::
            List.replicate k (bareToken .rightParen)) ++ [bareToken .rightParen]) :=
        .group rfl he rfl
      refine ⟨.group e, derives_of_primary ?_⟩
      rw [List.replicate_succ, List.replicate_succ']
      simpa using hgroup

/-- Opening parentheses are viable, but not with an end behind them. -/
theorem firstUnviable_openings (k : Nat) {last : Token} (hlast : last.isEnd = true) :
    FirstUnviable (List.replicate (k + 1) openParen ++ [last]) (k + 1) last := by
  have hviable : Viable (List.replicate (k + 1) openParen) := by
    obtain ⟨e, he⟩ := derives_parentheses (k + 1)
    refine viable_of_begins ⟨[.expr e], bareToken .nilWord ::
      List.replicate (k + 1) (bareToken .rightParen) ++ [bareToken .semicolon], ?_⟩
    simpa using Derives.cons (.stmtDecl (.exprStmt he (kind_bareToken .semicolon))) .nil
  refine ⟨by simp, fun j hj => ?_, fun h => ?_⟩
  · rw [List.take_append_of_le_length (by simpa using hj)]
    have hsplit := List.take_append_drop j (List.replicate (k + 1) openParen)
    exact Viable.of_append (hsplit.symm ▸ hviable)
  · rw [List.take_of_length_le (by simp)] at h
    obtain ⟨program, hprogram⟩ := viable_append_end (fun t ht => by
      rw [List.eq_of_mem_replicate ht]; rfl) hlast h
    generalize hrow : List.replicate (k + 1) openParen = row at hprogram
    cases hprogram with
    | nil => cases hrow
    | cons hfirst hothers =>
        obtain ⟨t, ht, hkind⟩ := holdsClosing_of_derives hfirst
        have hopen : t = openParen := by
          refine List.eq_of_mem_replicate (n := k + 1) ?_
          rw [hrow]
          exact List.mem_append_left _ ht
        rw [hopen] at hkind
        revert hkind
        decide

/-- With the standard limits an error is reported in front of the first unviable token: two thousand
parentheses are opened, and it is the end that cannot stand behind them. -/
theorem openings_blamed_early :
    ∃ tokens k t first, (∃ u ∈ tokens, u.isEnd = true) ∧ FirstUnviable tokens k t ∧
      t.kind ≠ .equal ∧ parse Limits.standard.nesting tokens = .error (.rejected first []) ∧
      first.index < k := by
  obtain ⟨index, hindex, hparse⟩ :=
    parse_openings (show Limits.standard.nesting ≤ 1999 by decide) [bareToken .endOfInput]
  have hend : ∃ u ∈ List.replicate 2000 openParen ++ [bareToken .endOfInput], u.isEnd = true :=
    ⟨bareToken .endOfInput, List.mem_append_right _ (List.mem_singleton_self _), rfl⟩
  exact ⟨_, _, _, _, hend, firstUnviable_openings 1999 rfl, by decide, hparse, hindex⟩

end ScriptLang.Parse
