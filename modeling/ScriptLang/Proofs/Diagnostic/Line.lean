import ScriptLang.Proofs.Parse.Accepts
import ScriptLang.Proofs.Run.Chain
import ScriptLang.Proofs.Run.Fault
import ScriptLang.Proofs.Source.Line

/-!
# The lines of reports

From the source to the report: tokens carry the lines on which their lexemes end, a parse blames
tokens of the scan, a run fails at tokens of the program, and each report has the line of what it
blames. One report has no line, that of a statement whose expressions are nested too deeply to be
run.

## Main Statements

* `blames_tokens`: what a parse reports of a source.
* `fails_at_token`: what a run of a source reports.
* `reports_name_lines`: the lines of all reports about a source.
* `report_of_chain`: the report without a line.
-/

namespace ScriptLang

variable {limit : Nat} {source : String} {scanned : Scan}

/-- A source that is a program has tokens that are parsed. -/
theorem programOf_eq_ok {loaded : Loaded} (h : programOf limit source = .ok loaded) :
    ∃ scanned, scan source = .ok scanned ∧
      Parse.parse limit scanned.tokens = .ok loaded.program := by
  unfold programOf at h
  split at h
  · cases h
  · next scanned hscan =>
    split at h
    · cases h
    · next program hparse =>
      cases h
      exact ⟨scanned, hscan, hparse⟩

/-- The tokens of a scan end in one for the end of the input. -/
theorem exists_end_of_scan (h : scan source = .ok scanned) :
    ∃ t ∈ scanned.tokens, t.isEnd = true := by
  obtain ⟨tokens, last, htokens, -⟩ := tokensFrom_yields 1 (tile source.toList).pieces
  exact ⟨endToken last, by simp [tiled_of_scan h, htokens], rfl⟩

/-- **A parse of a source that fails reports tokens of the scan**, each where it stands. -/
theorem blames_tokens (h : scan source = .ok scanned) {failure : Parse.Failure}
    (hparse : Parse.parse limit scanned.tokens = .error failure) :
    ∃ first more, failure = .rejected first more ∧
      ∀ blame ∈ first :: more, scanned.tokens[blame.index]? = some blame.token := by
  have hend := exists_end_of_scan h
  have hno : ∀ program, Parse.parse limit scanned.tokens ≠ .ok program := by
    intro program hok
    rw [hok] at hparse
    cases hparse
  obtain ⟨first, more, hrejected⟩ := Parse.rejected_of_not_ok hend hno
  obtain rfl : failure = .rejected first more := by
    rw [hrejected] at hparse
    exact (Except.error.inj hparse).symm
  exact ⟨first, more, rfl, Parse.pointsInto_of_parse hend hrejected⟩

/-- The names and operators of the program that a scan is are tokens of the scan. -/
theorem tokens_of_parse {program : List Stmt}
    (hparse : Parse.parse limit scanned.tokens = .ok program) :
    allMeet (.ofTokens (· ∈ scanned.tokens)) program :=
  meets_of_parse (Demands.ofTokens_metBy _) hparse fun _ ht => ht

/-- **A run of a source that fails reports the token that it fails at**, one of the scan, or that
there is too much nesting. -/
theorem fails_at_token (h : scan source = .ok scanned) {program : List Stmt}
    (hparse : Parse.parse limit scanned.tokens = .ok program) {session : Session} {fuel : Nat}
    {failure : Failure} (hfails : (session.run fuel program).2 = .failed failure) :
    failure = .statementTooDeep ∨
      ∃ d c token, failure.diagnostic? = some d ∧
        CallOf session.config fuel program session.state c ∧
        c.FailsAt session.config failure token ∧ token ∈ scanned.tokens ∧ d.line = token.line := by
  have hload : programOf limit source = .ok { program, recovered := scanned.recovered } := by
    simp only [programOf, h, hparse]
  have hknown : allMeet .known program := (FromSource.parser hload).known
  obtain ⟨t, hrun⟩ := Session.ending_run hfails
  refine (failsAt_of_interpret hknown hrun).imp_right ?_
  rintro ⟨c, token, hcall, hat⟩
  obtain ⟨d, hd, -⟩ := hat.expected (hcall.meets hknown)
  have htoken : token ∈ scanned.tokens := hat.token (hcall.meets (tokens_of_parse hparse))
  exact ⟨d, c, token, hd, hcall, hat, htoken, hat.line_eq hd⟩

/-- The report of a whole parse has the line of the first of its reports. -/
theorem line_of_group {first : Diagnostic} {more : List Diagnostic} {d : Diagnostic}
    (h : Diagnostic.group (first :: more) = some d) : d.line = first.line := by
  cases more <;> cases h <;> rfl

/-- **Every report about a source names the right line**, the one of too much nesting apart, which
has none. A token carries the line on which its lexeme ends. A scan that fails reports the line of
the character at which it fails, and what it leaves open on the last line. A parse reports each
token that it blames with the line of that token. A run reports the name or operator whose look-up,
assignment or application fails, its operands being done. Each line is one of the source. -/
theorem reports_name_lines (limit : Nat) (source : String) :
    match scan source with
    | .error e =>
      (∃ pieces c after, Lexes source.toList pieces (some c) ∧
        source.toList = pieces.flatMap Piece.chars ++ c :: after ∧ e.fault = .unidentified c ∧
        e.line = lineAfter (pieces.flatMap Piece.chars ++ [c])) ∧
      e.diagnostic.line.IsLineOf source
    | .ok scanned =>
      (∃ pieces, Lexes source.toList pieces none ∧ source.toList = pieces.flatMap Piece.chars ∧
        ∀ i t, scanned.tokens[i]? = some t → StandsAt 1 pieces i t ∧ t.line.IsLineOf source) ∧
      (∀ e, scanned.recovered = some e →
        e.line = lineAfter source.toList ∧ e.diagnostic.line.IsLineOf source) ∧
      match Parse.parse limit scanned.tokens with
      | .error failure =>
        ∃ first more, failure = .rejected first more ∧
          (∀ blame ∈ first :: more, scanned.tokens[blame.index]? = some blame.token ∧
            blame.diagnostic.line = blame.token.line ∧ blame.diagnostic.line.IsLineOf source) ∧
          ∀ d, Diagnostic.group ((first :: more).map Parse.Blame.diagnostic) = some d →
            d.line = first.token.line
      | .ok program =>
        ∀ (session : Session) (fuel : Nat) (failure : Failure),
          (session.run fuel program).2 = .failed failure →
          ∃ d, failure.diagnostic? = some d ∧
            (failure = .statementTooDeep ∧ d.line = .null ∨
              ∃ c token, CallOf session.config fuel program session.state c ∧
                c.FailsAt session.config failure token ∧ token ∈ scanned.tokens ∧
                d.line = token.line ∧ d.line.IsLineOf source) := by
  cases hscan : scan source with
  | error e =>
      obtain ⟨pieces, c, after, hlexes, hsource, hfault, hline⟩ := error_of_scan hscan
      refine ⟨⟨pieces, c, after, hlexes, hsource, hfault, hline⟩, ?_⟩
      have hdiagnostic : e.diagnostic.line = .int e.line := rfl
      rw [hdiagnostic, hline]
      exact isLineOf_lineAfter after (by rw [hsource, List.append_assoc]; rfl)
  | ok scanned =>
      obtain ⟨pieces, hlexes, hsource, hstands, hrecovered⟩ := standsAt_of_scan hscan
      refine ⟨⟨pieces, hlexes, hsource, fun i t ht =>
        ⟨hstands i t ht, (hstands i t ht).isLineOf hsource⟩⟩, ?_, ?_⟩
      · intro e he
        have hdiagnostic : e.diagnostic.line = .int e.line := rfl
        refine ⟨hrecovered e he, ?_⟩
        rw [hdiagnostic, hrecovered e he]
        exact isLineOf_lineAfter [] (List.append_nil _).symm
      · cases hparse : Parse.parse limit scanned.tokens with
        | error failure =>
            obtain ⟨first, more, rfl, hblames⟩ := blames_tokens hscan hparse
            refine ⟨first, more, rfl, fun blame hmem => ⟨hblames blame hmem, rfl, ?_⟩,
              fun d hd => line_of_group hd⟩
            exact isLineOf_of_scan hscan (List.mem_of_getElem? (hblames blame hmem))
        | ok program =>
            intro session fuel failure hfails
            rcases fails_at_token hscan hparse hfails with
              rfl | ⟨d, c, token, hd, hcall, hat, htoken, hline⟩
            · exact ⟨_, rfl, .inl ⟨rfl, rfl⟩⟩
            · refine ⟨d, hd, .inr ⟨c, token, hcall, hat, htoken, hline, ?_⟩⟩
              rw [hline]
              exact isLineOf_of_scan hscan htoken

/-- A source that fails on its third line, behind a comment that spans two. -/
def unknownOnThirdLine : String :=
  "var a;\n/* \n */ print a + b;"

/-- The program that it is. -/
def unknownOnThirdLineProgram : List Stmt :=
  let word (kind : TokenKind) (text : String) (line : Int) : Token :=
    { kind, lexeme := .str text, line := .int line }
  [.declare (word .identifier "a" 1) none,
    .print (.binary (.ref (word .identifier "a" 3)) (word .plus "+" 3)
      (.ref (word .identifier "b" 3)))]

/-- A run of it reports the name that it fails at, on the line of that name. -/
theorem reports_name_lines_unknownOnThirdLine :
    programOf 9 unknownOnThirdLine =
        .ok { program := unknownOnThirdLineProgram, recovered := none } ∧
      ∃ failure d, ((Session.fresh { limit := 9 } .file none).run 9 unknownOnThirdLineProgram).2 =
          .failed failure ∧
        failure.diagnostic? = some d ∧ d.line = .int 3 ∧ d.line.IsLineOf unknownOnThirdLine := by
  have hload : programOf 9 unknownOnThirdLine =
      .ok { program := unknownOnThirdLineProgram, recovered := none } := by
    cbv
  have hfails : ((Session.fresh { limit := 9 } .file none).run 9 unknownOnThirdLineProgram).2 =
      .failed (.undefined (.str "b") (.int 3)) := by
    cbv
  obtain ⟨scanned, hscan, hparse⟩ := programOf_eq_ok hload
  have hreports := reports_name_lines 9 unknownOnThirdLine
  simp only [hscan, hparse] at hreports
  obtain ⟨d, hd, hwhere⟩ := hreports.2.2 _ 9 _ hfails
  refine ⟨hload, _, d, hfails, hd, ?_, ?_⟩
  · cases hd
    rfl
  · rcases hwhere with ⟨hdeep, -⟩ | ⟨-, -, -, -, -, -, hline⟩
    · cases hdeep
    · exact hline

/-- **The report without a line**: a chain of four thousand operators loads within a thousand levels
of nesting, and every run of it fails with a report that has no line. -/
theorem report_of_chain :
    programOf Limits.standard.nesting (chainSource 4000) =
        .ok { program := chainProgram 4000, recovered := none } ∧
      ∀ fuel, ∃ d, ((Session.fresh {} .file none).run (fuel + 1) (chainProgram 4000)).2 =
          .failed .statementTooDeep ∧
        Failure.statementTooDeep.diagnostic? = some d ∧ d.line = .null ∧
        ¬ d.line.IsLineOf (chainSource 4000) := by
  refine ⟨programOf_chainSource (by decide) 4000, fun fuel => ?_⟩
  have hlimit : Config.limit {} ≤ 4000 := by decide
  obtain ⟨t, ht⟩ := interpret_chain hlimit fuel State.initial
  refine ⟨_, ?_, rfl, rfl, ?_⟩
  · simp only [Session.run, Session.interpret, Session.fresh, ht, Session.settle, Session.ending]
  · rintro ⟨n, hn, -⟩
    cases hn

end ScriptLang
