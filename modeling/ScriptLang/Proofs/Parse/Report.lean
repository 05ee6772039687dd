import Mathlib.Data.List.Perm.Subperm
import ScriptLang.Proofs.Parse.Accepts
import ScriptLang.Proofs.Parse.Ends
import ScriptLang.Proofs.Parse.Order

/-!
# The report of a parse

What the order of errors means for a parse that rejects its tokens. Every token is blamed once at
most, apart from the end, which each block that is still open blames once more. So the errors are
not more than the tokens and their braces together.

The errors come in the order of the tokens, invalid targets apart: one that stands in a value is
listed in front of the one that the value was meant for. The report of the whole parse is headed by
the first error, which is then not always the earliest one, though it has the same message.

## Main Statements

* `rejected_orderly`: what a parse rejects its tokens for.
* `tokens_blamed_once`: how often a token is blamed.
* `errors_in_order`: the order of the errors, and which of them heads the report.
* `errors_out_of_order`: two invalid targets that are listed from the back.
-/

namespace ScriptLang.Parse

variable {limit : Nat} {tokens body : List Token} {last : Token}
variable {first : Blame} {more : List Blame}

/-! ### The errors of a whole parse -/

theorem timesAt_le_of_stops {c next : Cursor} {noted : List Blame} {i : Nat}
    (h : AllBefore next.index noted ∨ c.Repeats 1 next noted) (hi : next.index ≤ i) :
    timesAt i noted ≤ 1 + c.braces := by
  have hbefore : AllBefore i noted ∨ i = next.index ∧ c.Repeats 1 next noted := by
    rcases h with hbefore | hrepeats
    · exact Or.inl fun blame hblame => Nat.lt_of_lt_of_le (hbefore blame hblame) hi
    · rcases Nat.eq_or_lt_of_le hi with heq | hlt
      · exact Or.inr ⟨heq.symm, hrepeats⟩
      · refine Or.inl fun blame hblame => ?_
        rcases hrepeats.upTo blame hblame with hupTo | ⟨hupTo, -⟩
        · exact Nat.lt_trans hupTo hlt
        · exact hupTo ▸ hlt
  rcases hbefore with hbefore | ⟨rfl, hrepeats⟩
  · rw [hbefore.timesAt_eq]
    exact Nat.zero_le _
  · exact Nat.le_trans (Nat.le_add_right _ _) hrepeats.times_le

/-- **What a parse rejects its tokens for** comes in order, and blames an end once more at most than
there are braces. -/
theorem rejected_orderly (hend : ∃ t ∈ tokens, t.isEnd = true)
    (h : parse limit tokens = .error (.rejected first more)) :
    (first :: more).Pairwise (Blame.Precedes tokens) ∧
      ∀ i t, tokens[i]? = some t → t.isEnd = true →
        timesAt i (first :: more) ≤ 1 + tokens.countP fun t => t.kind = .leftBrace := by
  have hresumes : (program limit (tokens.length + 1) ⟨0, tokens⟩).Resumes tokens ⟨0, tokens⟩ :=
    resumes_declarations (resumes_declaration limit) _ _ ⟨rfl, hend⟩
  rw [parse_eq_program] at h
  generalize program limit (tokens.length + 1) ⟨0, tokens⟩ = o at h hresumes
  obtain ⟨used, hused, hindex, hopen⟩ := hresumes.reaches
  -- An end is not behind the tokens that were read.
  have hreached : ∀ i t, tokens[i]? = some t → t.isEnd = true → o.next.index ≤ i := by
    intro i t ht htend
    refine Nat.le_of_not_lt fun hlt => ?_
    have hi : i < used.length := by simpa [hindex] using hlt
    rw [show tokens = used ++ o.next.rest from hused, List.getElem?_append_left hi] at ht
    have := (hopen t (List.mem_of_getElem? ht)).1
    simp [htend] at this
  cases o with
  | failed blame next noted => exact hresumes.resumes.elim
  | done stmts next noted =>
      obtain rfl : noted = first :: more := mem_of_verdict h
      refine ⟨hresumes.ordered, fun i t ht htend => ?_⟩
      exact timesAt_le_of_stops hresumes.resumes (hreached i t ht htend)
  | halted cause next noted =>
      -- The want of levels is reported behind the rest, where the parse stops.
      obtain ⟨blame, hblame, hsplit⟩ :
          ∃ blame, blame.index = next.index ∧ first :: more = noted ++ [blame] := by
        cases cause with
        | ranOff => cases h
        | tooDeep =>
            obtain ⟨i, ts⟩ := next
            cases ts with
            | nil => cases h
            | cons t rest => exact ⟨_, rfl, (mem_of_verdict h).symm⟩
      have hbefore : AllBefore next.index noted := hresumes.resumes
      rw [hsplit]
      refine ⟨List.pairwise_append.2 ⟨hresumes.ordered, List.pairwise_singleton _ _, ?_⟩, ?_⟩
      · intro b hb other hother
        obtain rfl := List.mem_singleton.1 hother
        exact .earlier (hblame ▸ hbefore b hb)
      · intro i t ht htend
        have hi : next.index ≤ i := hreached i t ht htend
        have hnoted : AllBefore i noted := fun b hb => Nat.lt_of_lt_of_le (hbefore b hb) hi
        have hone : timesAt i [blame] ≤ 1 := List.countP_le_length
        rw [timesAt_append, hnoted.timesAt_eq]
        omega

/-! ### How often a token is blamed -/

theorem length_le_of_nodup {indices : List Nat} {n : Nat} (hnodup : indices.Nodup)
    (h : ∀ i ∈ indices, i < n) : indices.length ≤ n := by
  have hsubset : indices ⊆ List.range n := fun i hi => List.mem_range.2 (h i hi)
  simpa using (hnodup.subperm hsubset).length_le

/-- Among tokens that end in their only end, the end is the one behind all others. -/
theorem isEnd_iff_index_eq (hbody : ∀ t ∈ body, t.isEnd = false) (hlast : last.isEnd = true)
    {blame : Blame} (h : blame.PointsInto (body ++ [last])) :
    blame.index ≤ body.length ∧ (blame.token.isEnd = true ↔ blame.index = body.length) := by
  have hpoints : (body ++ [last])[blame.index]? = some blame.token := h
  have hle : blame.index ≤ body.length := by
    have := (List.getElem?_eq_some_iff.1 hpoints).1
    simpa [Nat.lt_succ_iff] using this
  refine ⟨hle, ?_⟩
  rcases Nat.lt_or_eq_of_le hle with hlt | heq
  · rw [List.getElem?_append_left hlt] at hpoints
    simp [hbody _ (List.mem_of_getElem? hpoints), Nat.ne_of_lt hlt]
  · have htoken : last = blame.token := by simpa [heq] using hpoints
    simp [← htoken, hlast, heq]

/-- **No token is blamed twice**, apart from the end, which is blamed at most once more than there
are braces. So there are no more errors than tokens and braces together. -/
theorem tokens_blamed_once (hbody : ∀ t ∈ body, t.isEnd = false) (hlast : last.isEnd = true)
    (h : parse limit (body ++ [last]) = .error (.rejected first more)) :
    (∀ blame ∈ first :: more, blame.PointsInto (body ++ [last])) ∧
    (first :: more).Pairwise (fun blame other =>
      blame.index ≠ other.index ∨ blame.token.isEnd = true ∧ other.token.isEnd = true) ∧
    (first :: more).countP (fun blame => blame.token.isEnd) ≤
      1 + (body ++ [last]).countP (fun t => t.kind = .leftBrace) ∧
    (first :: more).length ≤
      (body ++ [last]).length + (body ++ [last]).countP (fun t => t.kind = .leftBrace) := by
  have hend : ∃ t ∈ body ++ [last], t.isEnd = true := ⟨last, by simp, hlast⟩
  have hpoints := pointsInto_of_parse hend h
  obtain ⟨hordered, htimes⟩ := rejected_orderly hend h
  have hends : (first :: more).countP (fun blame => blame.token.isEnd) ≤
      1 + (body ++ [last]).countP (fun t => t.kind = .leftBrace) := by
    refine Nat.le_trans (Nat.le_of_eq ?_) (htimes body.length last (by simp) hlast)
    exact List.countP_congr fun blame hblame => by
      simpa using (isEnd_iff_index_eq hbody hlast (hpoints blame hblame)).2
  have hdistinct : (first :: more).Pairwise (fun blame other =>
      blame.index ≠ other.index ∨ blame.token.isEnd = true ∧ other.token.isEnd = true) := by
    refine hordered.imp fun {blame other} hprecedes => ?_
    cases hprecedes with
    | earlier hlt => exact Or.inl (Nat.ne_of_lt hlt)
    | atEnd heq hblame hother => exact Or.inr ⟨hblame, hother⟩
    | inValue hlt hblame hother hvalue => exact Or.inl (Nat.ne_of_gt hlt)
  refine ⟨hpoints, hdistinct, hends, ?_⟩
  -- The errors that do not blame the end stand at different positions in front of it.
  have hothers : (first :: more).countP (fun blame => ¬ blame.token.isEnd) ≤ body.length := by
    rw [List.countP_eq_length_filter, ← List.length_map Blame.index]
    refine length_le_of_nodup (List.pairwise_map.2 (List.pairwise_filter.2 ?_)) ?_
    · refine hdistinct.imp fun {blame other} hne hblame hother => ?_
      exact hne.resolve_right fun hboth => by simp [hboth.1] at hblame
    · intro i hi
      obtain ⟨blame, hblame, rfl⟩ := List.mem_map.1 hi
      obtain ⟨hmem, hopen⟩ := List.mem_filter.1 hblame
      obtain ⟨hle, hiff⟩ := isEnd_iff_index_eq hbody hlast (hpoints blame hmem)
      refine Nat.lt_of_le_of_ne hle fun heq => ?_
      simp [hiff.2 heq] at hopen
  have hlength := List.length_eq_countP_add_countP (fun blame : Blame => blame.token.isEnd)
    (l := first :: more)
  simp only [List.length_append, List.length_singleton]
  omega

/-- The tokens of two blocks that are left open, with two invalid targets and no value to print:
`{ nil = nil = nil; { print`. -/
def openBlocks : List Token :=
  [.leftBrace, .nilWord, .equal, .nilWord, .equal, .nilWord, .semicolon, .leftBrace,
    .printWord].map bareToken

/-- Three of their errors blame the end: the print, and each of the blocks. -/
theorem tokens_blamed_once_openBlocks :
    (∀ t ∈ openBlocks, t.isEnd = false) ∧ (bareToken .endOfInput).isEnd = true ∧
    ∃ first more,
      parse 10 (openBlocks ++ [bareToken .endOfInput]) = .error (.rejected first more) ∧
      (first :: more).map Blame.index = [4, 2, 9, 9, 9] ∧
      (first :: more).countP (fun blame => blame.token.isEnd) ≤
        1 + (openBlocks ++ [bareToken .endOfInput]).countP (fun t => t.kind = .leftBrace) := by
  have hbody : ∀ t ∈ openBlocks, t.isEnd = false := by decide
  have hlast : (bareToken .endOfInput).isEnd = true := by decide
  have hparse : parse 10 (openBlocks ++ [bareToken .endOfInput]) = .error (.rejected
      ⟨.assignmentTarget, bareToken .equal, 4⟩ [⟨.assignmentTarget, bareToken .equal, 2⟩,
        ⟨.expression, bareToken .endOfInput, 9⟩, ⟨.braceAfterBlock, bareToken .endOfInput, 9⟩,
        ⟨.braceAfterBlock, bareToken .endOfInput, 9⟩]) := by rfl
  exact ⟨hbody, hlast, _, _, hparse, rfl, (tokens_blamed_once hbody hlast hparse).2.2.1⟩

/-! ### The order of the errors -/

/-- What the message of a report says of the errors behind the first one. -/
def moreText (n : Nat) : String :=
  if n = 0 then "" else " (and " ++ Number.wholeText n ++ " more)"

/-- The report of a whole parse is that of its first error, apart from what it says of the rest. -/
theorem group_blames (first : Blame) (more : List Blame) :
    Diagnostic.group ((first :: more).map Blame.diagnostic) =
      some { first.diagnostic with
        message := first.fault.message ++ moreText more.length } := by
  cases more with
  | nil => simp [Diagnostic.group, moreText, Blame.diagnostic, Diagnostic.blaming]
  | cons blame others =>
      simp [Diagnostic.group, moreText, Blame.diagnostic, Diagnostic.blaming, String.append_assoc]

/-- The first error is listed in front of the others because it is the earliest one, or because it
stands in the value of that one. -/
theorem exists_earliest (hordered : (first :: more).Pairwise (Blame.Precedes tokens)) :
    ∃ earliest ∈ first :: more, (∀ blame ∈ first :: more, earliest.index ≤ blame.index) ∧
      (first = earliest ∨ first.fault = .assignmentTarget ∧ earliest.fault = .assignmentTarget ∧
        first.InValueOf tokens earliest) := by
  by_cases hfirst : ∀ blame ∈ more, first.index ≤ blame.index
  · exact ⟨first, List.mem_cons_self, List.forall_mem_cons.2 ⟨Nat.le_refl _, hfirst⟩, Or.inl rfl⟩
  · obtain ⟨blame, hblame, hlt⟩ : ∃ blame ∈ more, blame.index < first.index := by
      simpa using hfirst
    have hne : first :: more ≠ [] := List.cons_ne_nil _ _
    have hleast : ∀ b ∈ first :: more,
        (List.minOn Blame.index (first :: more) hne).index ≤ b.index :=
      fun b hb => List.apply_minOn_le_of_mem hb
    have hmem : List.minOn Blame.index (first :: more) hne ∈ first :: more := List.minOn_mem
    generalize List.minOn Blame.index (first :: more) hne = earliest at hleast hmem
    have hearlier : earliest.index < first.index :=
      Nat.lt_of_le_of_lt (hleast blame (List.mem_cons_of_mem _ hblame)) hlt
    refine ⟨earliest, hmem, hleast, Or.inr ?_⟩
    rcases List.mem_cons.1 hmem with rfl | hmore
    · exact absurd hearlier (Nat.lt_irrefl _)
    · cases List.rel_of_pairwise_cons hordered hmore with
      | earlier h => exact absurd h (Nat.not_lt_of_lt hearlier)
      | atEnd h _ _ => exact absurd h (Nat.ne_of_gt hearlier)
      | inValue _ hfault hother hvalue => exact ⟨hfault, hother, hvalue⟩

/-- **Errors come in the order of the tokens**, except that an invalid target is listed in front of
another one if it stands in the value that was meant for that. The report of the whole parse has the
place of the first error. This is the earliest one, or it stands in the value of the earliest one,
and the message is in either case that of the earliest one. -/
theorem errors_in_order (hend : ∃ t ∈ tokens, t.isEnd = true)
    (h : parse limit tokens = .error (.rejected first more)) :
    (first :: more).Pairwise (fun blame other => blame.index ≤ other.index ∨
      blame.fault = .assignmentTarget ∧ other.fault = .assignmentTarget ∧
        blame.InValueOf tokens other) ∧
    ∃ earliest ∈ first :: more, (∀ blame ∈ first :: more, earliest.index ≤ blame.index) ∧
      (first = earliest ∨ first.fault = .assignmentTarget ∧ earliest.fault = .assignmentTarget ∧
        first.InValueOf tokens earliest) ∧
      ∃ report, Diagnostic.group ((first :: more).map Blame.diagnostic) = some report ∧
        report.line = first.token.line ∧ report.place = Diagnostic.placeOf first.token ∧
        report.message = earliest.fault.message ++ moreText more.length := by
  obtain ⟨hordered, -⟩ := rejected_orderly hend h
  obtain ⟨earliest, hmem, hleast, hfirst⟩ := exists_earliest hordered
  have hfault : first.fault = earliest.fault := by
    rcases hfirst with rfl | ⟨hblame, hother, -⟩
    · rfl
    · rw [hblame, hother]
  refine ⟨hordered.imp fun {blame other} hprecedes => ?_, earliest, hmem, hleast, hfirst,
    _, group_blames first more, rfl, rfl, by rw [hfault]⟩
  cases hprecedes with
  | earlier hlt => exact Or.inl (Nat.le_of_lt hlt)
  | atEnd heq _ _ => exact Or.inl (Nat.le_of_eq heq)
  | inValue _ hblame hother hvalue => exact Or.inr ⟨hblame, hother, hvalue⟩

/-- The tokens of `print; nil = nil = nil;`. -/
def brokenPrint : List Token :=
  [.printWord, .semicolon, .nilWord, .equal, .nilWord, .equal, .nilWord, .semicolon,
    .endOfInput].map bareToken

/-- In `print; nil = nil = nil;` the second invalid target is listed in front of the first one, and
behind the error in front of both. -/
theorem errors_in_order_print :
    (∃ t ∈ brokenPrint, t.isEnd = true) ∧ ∃ first more,
      parse 10 brokenPrint = .error (.rejected first more) ∧
      (first :: more).map Blame.index = [1, 5, 3] ∧
      ∃ report, Diagnostic.group ((first :: more).map Blame.diagnostic) = some report ∧
        report.line = first.token.line := by
  have hend : ∃ t ∈ brokenPrint, t.isEnd = true := by decide
  have hparse : parse 10 brokenPrint = .error (.rejected
      ⟨.expression, bareToken .semicolon, 1⟩ [⟨.assignmentTarget, bareToken .equal, 5⟩,
        ⟨.assignmentTarget, bareToken .equal, 3⟩]) := by rfl
  obtain ⟨-, _, -, -, -, report, hreport, hline, -⟩ := errors_in_order hend hparse
  exact ⟨hend, _, _, hparse, rfl, report, hreport, hline⟩

/-- Two assignments to what is no name, the second one the value of the first:
`nil =\nnil = nil;`. -/
def targetsOnTwoLines : List Token :=
  let word (kind : TokenKind) (text : String) (line : Int) : Token :=
    { kind, lexeme := .str text, line := .int line }
  [word .nilWord "nil" 1, word .equal "=" 1, word .nilWord "nil" 2, word .equal "=" 2,
    word .nilWord "nil" 2, word .semicolon ";" 2]

/-- **Errors need not come in the order of the tokens.** The error on the second line is listed in
front of the one on the first line, and the report of the whole parse has its line. -/
theorem errors_out_of_order :
    (∀ t ∈ targetsOnTwoLines, t.isEnd = false) ∧ ∃ first second,
      parse Limits.standard.nesting
        (targetsOnTwoLines ++ [{ kind := .endOfInput, lexeme := .str "", line := .int 2 }]) =
          .error (.rejected first [second]) ∧
      ¬ [first, second].Pairwise (fun blame other => blame.index ≤ other.index) ∧
      second.index < first.index ∧ second.token.line = .int 1 ∧
      ∃ report, Diagnostic.group ([first, second].map Blame.diagnostic) = some report ∧
        report.line = .int 2 :=
  ⟨by decide, ⟨.assignmentTarget, { kind := .equal, lexeme := .str "=", line := .int 2 }, 3⟩,
    ⟨.assignmentTarget, { kind := .equal, lexeme := .str "=", line := .int 1 }, 1⟩,
    by rfl, by simp, by decide, rfl, _, group_blames _ _, rfl⟩

end ScriptLang.Parse
