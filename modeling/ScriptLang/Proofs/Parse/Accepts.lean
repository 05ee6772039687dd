import ScriptLang.Proofs.Parse.Complete
import ScriptLang.Proofs.Parse.Relabel
import ScriptLang.Proofs.Parse.Sound

/-!
# The language of the parser

The parser accepts exactly the programs of the grammar. On a list of tokens that ends in its only
token for the end of the input, the answer is the program that the tokens derive, or else a list of
errors; the tokens never run out.

## Main Definitions

* `Parser.Stays`: a parser never moves past the token for the end of the input.

## Main Statements

* `stays_program`: no parser moves past the end.
* `parse_accepts_grammar`: what is accepted, what is refused, and that derivations are unique.
-/

namespace ScriptLang.Parse

/-! ### Staying in front of the end -/

/-- However the outcome, the end has not been passed and the tokens have not run out. -/
def Outcome.Stays {α : Type} : Outcome α → Prop
  | .done _ next _ => next.HasEnd
  | .failed _ next _ => next.HasEnd
  | .halted cause next _ => cause = .tooDeep ∧ next.HasEnd

/-- From the cursor `c` the parser does not pass the end. -/
def Parser.StaysAt {α : Type} (p : Parser α) (c : Cursor) : Prop := (p c).Stays

/-- A parser that begins in front of the end stays in front of it. -/
def Parser.Stays {α : Type} (p : Parser α) : Prop := ∀ c : Cursor, c.HasEnd → p.StaysAt c

theorem Outcome.Points.stays {α : Type} {tokens : List Token} {start stop : Nat} {o : Outcome α}
    (h : o.Points tokens start stop) : o.Stays := by
  cases o with
  | done value next noted => exact h.1.hasEnd
  | failed blame next noted => exact h.1.hasEnd
  | halted cause next noted => exact ⟨h.2.2.1, h.1.hasEnd⟩

/-- The parser of a program stays in front of the end. -/
theorem stays_program (limit k : Nat) :
    (declarations .endOfInput (declaration (expression limit) (statement limit)) k).Stays := by
  intro c h
  have hwithin : c.Within (List.replicate c.index default ++ c.rest) := ⟨by simp, h⟩
  exact (alike_program (r := .id) _ limit k c hwithin).points.stays

/-! ### The language -/

/-- With a token for the end, a list of tokens that is no program is refused with errors. -/
theorem rejected_of_not_ok {limit : Nat} {tokens : List Token}
    (hend : ∃ t ∈ tokens, t.isEnd = true)
    (h : ∀ program, parse limit tokens ≠ .ok program) :
    ∃ first more, parse limit tokens = .error (.rejected first more) := by
  have hstays := stays_program limit (tokens.length + 1) ⟨0, tokens⟩ hend
  unfold Parser.StaysAt at hstays
  have hrejected : ∀ program noted, (∀ p, verdict program noted ≠ .ok p) →
      ∃ first more, verdict program noted = .error (.rejected first more) := by
    intro program noted hno
    cases noted with
    | nil => exact absurd rfl (hno program)
    | cons first more => exact ⟨first, more, rfl⟩
  -- A parser that stays within its tokens does not run off them; all else ends in a verdict.
  unfold parse at h ⊢
  dsimp only at h ⊢
  split at h
  · exact hrejected _ _ h
  · exact hrejected _ _ h
  · next next noted hp =>
      rw [hp] at hstays
      cases hstays.1
  · next next noted hp =>
      rw [hp] at hstays
      obtain ⟨t, rest, hrest⟩ := hstays.2.exists_cons
      simp only [hrest] at h ⊢
      exact hrejected _ _ h

/-- The tokens in front of the first end are determined. -/
theorem eq_of_append_end {body used rest : List Token} {last stop : Token}
    (hbody : ∀ t ∈ body, t.isEnd = false) (hstop : stop.isEnd = true)
    (h : body ++ [last] = used ++ stop :: rest) : used = body := by
  induction body generalizing used with
  | nil =>
      cases used with
      | nil => rfl
      | cons u used => simp at h
  | cons t body ih =>
      cases used with
      | nil =>
          obtain ⟨rfl, -⟩ := List.cons.inj h
          have := hbody t List.mem_cons_self
          rw [hstop] at this
          cases this
      | cons u used =>
          obtain ⟨rfl, htail⟩ := List.cons.inj h
          rw [ih (fun v hv => hbody v (List.mem_cons_of_mem _ hv)) htail]

/-- **The parser accepts exactly the grammar.** On tokens with their only end at the end, the answer
is a program exactly if the tokens in front of the end derive it and it opens no more levels than
the limit. In every other case the answer is a list of errors. No tokens derive two programs. -/
theorem parse_accepts_grammar (limit : Nat) (body : List Token) (last : Token)
    (hbody : ∀ t ∈ body, t.isEnd = false) (hlast : last.isEnd = true) :
    (∀ program, parse limit (body ++ [last]) = .ok program ↔
      Derives (.decls program) body ∧ levelsOfAll program ≤ limit) ∧
    ((∀ program, ¬ (Derives (.decls program) body ∧ levelsOfAll program ≤ limit)) →
      ∃ first more, parse limit (body ++ [last]) = .error (.rejected first more)) ∧
    (∀ program other, Derives (.decls program) body → Derives (.decls other) body →
      program = other) := by
  have hiff : ∀ program, parse limit (body ++ [last]) = .ok program ↔
      Derives (.decls program) body ∧ levelsOfAll program ≤ limit := by
    intro program
    constructor
    · intro h
      obtain ⟨used, stop, rest, hsplit, hstop, hderives, hlevels⟩ := derives_of_parse h
      obtain rfl := eq_of_append_end hbody hstop hsplit
      exact ⟨hderives, hlevels⟩
    · rintro ⟨hderives, hlevels⟩
      exact parse_of_derives [] hderives hlast hlevels
  refine ⟨hiff, ?_, ?_⟩
  · intro hno
    refine rejected_of_not_ok ⟨last, by simp, hlast⟩ ?_
    intro program h
    exact hno program ((hiff program).1 h)
  · intro program other h h'
    have hfirst := parse_of_derives [] h hlast (Nat.le_max_left _ (levelsOfAll other))
    have hsecond := parse_of_derives [] h' hlast (Nat.le_max_right (levelsOfAll program) _)
    exact Except.ok.inj (hfirst.symm.trans hsecond)

/-- A token of which only the kind matters. -/
def bareToken (kind : TokenKind) : Token := { kind, lexeme := .str "", line := .int 1 }

/-- The tokens of a branch in a branch, with one `else` behind both. -/
def nestedBranches : List Token :=
  [.ifWord, .leftParen, .identifier, .rightParen, .ifWord, .leftParen, .trueWord, .rightParen,
    .printWord, .nilWord, .semicolon, .elseWord, .identifier, .equal, .identifier, .semicolon].map
    bareToken

/-- The `else` belongs to the inner branch. -/
theorem parse_accepts_grammar_nestedBranches :
    (∀ t ∈ nestedBranches, t.isEnd = false) ∧ (bareToken .endOfInput).isEnd = true ∧
    Derives (.decls [.branch (.ref (bareToken .identifier))
      (.branch (.literal (.bool true)) (.print (.literal .null))
        (some (.expr (.assign (bareToken .identifier) (.ref (bareToken .identifier)))))) none])
      nestedBranches := by
  have hbody : ∀ t ∈ nestedBranches, t.isEnd = false := by decide
  have hlast : (bareToken .endOfInput).isEnd = true := by decide
  exact ⟨hbody, hlast, (((parse_accepts_grammar 6 _ _ hbody hlast).1 _).1 rfl).1⟩

end ScriptLang.Parse
