import ScriptLang.Proofs.Json.Plain
import ScriptLang.Proofs.Parse.Report
import ScriptLang.Proofs.Run.Layout
import ScriptLang.Proofs.Run.Values

/-!
# Reports on one line

A report is put together from fixed words, a number for the line and what it quotes. What is quoted
fits on a line, with one exception: a string may span several, and is quoted as it stands. So a
report takes more than one line exactly if it blames such a string or shows one as an operand. The
strings that it shows are literals of the source, or variables held them before the run.

## Main Definitions

* `OneLine`: the text has no newline.
* `Token.SpansLines`, `Value.SpansLines`: strings that have one.
* `Failure.lexemes`: the names and operators that a report of a run shows.
* `State.HoldsText`, `Value.ComesFrom`: some variable holds the text, or it is the literal of a token.

## Main Statements

* `Token.IsLexeme.oneLine_iff`: no other lexeme has a newline.
* `Failure.oneLine_iff`: what it depends on whether a report of a run takes one line.
* `operands_of_failed`: where the strings come from that a report shows.
* `report_on_one_line_iff`: all reports about a source.
-/

namespace ScriptLang

/-! ### Texts without newlines -/

/-- The text has no newline in it. -/
def OneLine (text : String) : Prop := '\n' ∉ text.toList

instance : DecidablePred OneLine :=
  fun text => inferInstanceAs (Decidable ('\n' ∉ text.toList))

@[simp] theorem oneLine_append {text text' : String} :
    OneLine (text ++ text') ↔ OneLine text ∧ OneLine text' := by
  simp [OneLine]

theorem oneLine_of_plain {text : String} (h : ∀ c ∈ text.toList, Json.IsPlain c) :
    OneLine text := by
  intro hmem
  exact absurd (h _ hmem) (by decide)

theorem oneLine_wholeText (n : Int) : OneLine (Number.wholeText n) := by
  refine oneLine_of_plain ?_
  rw [Number.wholeText, String.toList_ofList]
  exact Json.plain_signed (Json.plain_toDigits _) _

theorem oneLine_printed (x : Float) : OneLine (Number.printed x) := by
  refine oneLine_of_plain ?_
  unfold Number.printed
  split
  · exact Json.plain_of_all (by decide)
  · split
    · split <;> exact Json.plain_of_all (by decide)
    · rw [String.toList_ofList]
      refine Json.plain_signed ?_ _
      unfold Number.printedDigits
      split
      · exact Json.plain_toDigits _
      · exact Json.plain_pointed (Json.plain_positional _).1 (Json.plain_positional _).2

/-- The line of a token of a source is a number. -/
theorem Token.Lexed.oneLine_lineText {t : Token} (h : t.Lexed) :
    OneLine (Diagnostic.lineText t.line) := by
  obtain ⟨n, hn⟩ := h.line
  rw [hn]
  exact oneLine_append.2 ⟨by decide, oneLine_wholeText n⟩

/-! ### Values and tokens -/

/-- The value is a string with a newline. -/
def Value.SpansLines : Value → Prop
  | .str text => ¬ OneLine text
  | _ => False

theorem Value.oneLine_text_iff {v : Value} : OneLine v.text ↔ ¬ v.SpansLines := by
  cases v with
  | num x => simp [text, SpansLines, oneLine_printed]
  | str text => exact not_not.symm
  | bool b => cases b <;> simp [text, SpansLines] <;> decide
  | nil | unset => simp [text, SpansLines]; decide

/-- The token is that of a string with a newline. -/
def Token.SpansLines (t : Token) : Prop :=
  t.kind = .string ∧ ∃ text, t.literal = .str text ∧ ¬ OneLine text

/-- **No lexeme has a newline** but that of a string that spans lines. -/
theorem Token.IsLexeme.oneLine_iff {t : Token} (h : t.IsLexeme) :
    OneLine t.lexeme.shown ↔ ¬ t.SpansLines := by
  obtain ⟨piece, hpiece, hyields⟩ := h
  have hother : ∀ {chars : List Char}, '\n' ∉ chars → t.lexeme = .str (String.ofList chars) →
      (∀ text, t.literal ≠ .str text) → (OneLine t.lexeme.shown ↔ ¬ t.SpansLines) := by
    intro chars hchars hlexeme hliteral
    have hspans : ¬ t.SpansLines := fun ⟨_, text, htext, _⟩ => hliteral text htext
    simpa [hlexeme, hspans, OneLine] using hchars
  have hdigit : ∀ {c : Char}, isDigit c = true → c ≠ '\n' := by
    rintro c hc rfl
    cases hc
  cases hyields with
  | mark =>
      have htable : ∀ entry ∈ operators, '\n' ∉ entry.1 := by decide
      exact hother (htable _ hpiece) rfl fun _ => by simp
  | keyword | identifier =>
      obtain ⟨c, cs, rfl, hc, hcs⟩ := hpiece
      refine hother ?_ rfl fun _ => by simp
      intro hmem
      rcases List.mem_cons.1 hmem with rfl | hmem
      · cases hc
      · cases hcs _ hmem
  | @number whole fraction =>
      obtain ⟨-, hwhole, hfraction⟩ := hpiece
      refine hother ?_ rfl fun _ => by simp
      intro hmem
      rcases List.mem_append.1 hmem with hmem | hmem
      · exact hdigit (hwhole _ hmem) rfl
      · cases fraction with
        | nil => cases hmem
        | cons d ds =>
            rcases List.mem_cons.1 hmem with heq | hmem
            · cases heq
            · exact hdigit (hfraction _ hmem) rfl
  | string => simp [Token.SpansLines, OneLine]

section Tokens

variable {source : String} {scanned : Scan} {t : Token}

theorem oneLine_iff_of_scan (h : scan source = .ok scanned) (ht : t ∈ scanned.tokens) :
    OneLine t.lexeme.shown ↔ ¬ t.SpansLines := by
  rcases isLexeme_or_end_of_scan h ht with hlexeme | ⟨line, rfl⟩
  · exact hlexeme.oneLine_iff
  · have hspans : ¬ (endToken line).SpansLines := fun ⟨hkind, _⟩ => by cases hkind
    exact iff_of_true (show OneLine "" by decide) hspans

/-- Names and operators fit on a line. -/
theorem oneLine_metBy (h : scan source = .ok scanned) :
    (Demands.ofTokens fun t => OneLine t.lexeme.shown).MetBy (· ∈ scanned.tokens) := by
  have hkind : ∀ t ∈ scanned.tokens, t.kind ≠ .string → OneLine t.lexeme.shown :=
    fun t ht hne => (oneLine_iff_of_scan h ht).2 fun hspans => hne hspans.1
  refine ⟨trivial, fun _ => trivial, fun _ _ => trivial, ?unary, ?binary, ?logical, ?name⟩
  case unary | logical =>
    rintro t ht (hop | hop) <;> exact hkind t ht (by simp [hop])
  case binary =>
    rintro t ht hop
    refine hkind t ht fun hstring => ?_
    rw [hstring] at hop
    exact absurd hop (by decide)
  case name =>
    intro t ht hname
    exact hkind t ht (by simp [hname])

/-- A token whose value is a text is that of a string. -/
theorem kind_of_literal (h : scan source = .ok scanned) (ht : t ∈ scanned.tokens) {text : String}
    (hliteral : t.literal = .str text) : t.kind = .string := by
  rcases isLexeme_or_end_of_scan h ht with ⟨piece, -, hyields⟩ | ⟨line, rfl⟩
  · cases hyields <;> cases hliteral
    rfl
  · cases hliteral

end Tokens

/-! ### Reports of scans and parses -/

/-- A report that has no class takes one line if its parts do. -/
theorem Diagnostic.oneLine_iff (d : Diagnostic) (hstage : d.stage = .scan ∨ d.stage = .parse)
    (hline : OneLine (lineText d.line)) :
    OneLine d.text ↔ OneLine d.place ∧ OneLine d.message := by
  have hplace : OneLine (if d.place = "" then "" else " " ++ d.place) ↔ OneLine d.place := by
    split
    · next hempty => rw [hempty]
    · rw [oneLine_append]
      exact and_iff_right (by decide)
  have htitle : OneLine "ScanError at " ∧ OneLine "ParseError at " ∧ OneLine ": " := by decide
  rcases hstage with hstage | hstage <;>
    simp [Diagnostic.text, hstage, Stage.title, hplace, hline, htitle]

theorem ScanError.oneLine {e : ScanError} (h : e.fault ≠ .unidentified '\n') :
    OneLine e.diagnostic.text := by
  have hmessage : OneLine e.fault.message := by
    cases hfault : e.fault with
    | unidentified c =>
        have hc : c ≠ '\n' := fun heq => h (by rw [hfault, heq])
        have hchar : OneLine (String.ofList [c]) := by simpa [OneLine] using hc.symm
        exact oneLine_append.2 ⟨oneLine_append.2 ⟨by decide, hchar⟩, by decide⟩
    | unterminatedString | unterminatedComment => exact (by decide)
  have hline : OneLine (Diagnostic.lineText e.diagnostic.line) :=
    oneLine_append.2 ⟨by decide, oneLine_wholeText _⟩
  have hplace : OneLine e.diagnostic.place := show OneLine "" by decide
  exact (e.diagnostic.oneLine_iff (.inl rfl) hline).2 ⟨hplace, hmessage⟩

/-- What a scan recovers from is no character. -/
theorem ne_unidentified_of_recovered {source : String} {scanned : Scan} {e : ScanError}
    (h : scan source = .ok scanned) (he : scanned.recovered = some e) {c : Char} :
    e.fault ≠ .unidentified c := by
  rw [(tiled_of_scan h).2.2] at he
  obtain ⟨fault, hfault, rfl⟩ := Option.map_eq_some_iff.1 he
  obtain ⟨piece, -, hopen⟩ := Option.bind_eq_some_iff.1 hfault
  rintro rfl
  cases piece <;> cases hopen

namespace Parse

theorem Fault.oneLine (fault : Fault) : OneLine fault.message := by
  cases fault <;> decide

theorem oneLine_moreText (n : Nat) : OneLine (moreText n) := by
  unfold moreText
  split
  · decide
  · exact oneLine_append.2 ⟨oneLine_append.2 ⟨by decide, oneLine_wholeText n⟩, by decide⟩

section Blames

variable {source : String} {scanned : Scan} {blame : Blame}

theorem oneLine_placeOf (h : scan source = .ok scanned) {t : Token} (ht : t ∈ scanned.tokens) :
    OneLine (Diagnostic.placeOf t) ↔ ¬ t.SpansLines := by
  unfold Diagnostic.placeOf
  split
  · next hend =>
    have hspans : ¬ t.SpansLines := by
      rintro ⟨hkind, -⟩
      simp [Token.isEnd, hkind] at hend
    exact iff_of_true (by decide) hspans
  · have hquotes : OneLine "at '" ∧ OneLine "'" := by decide
    simp [hquotes, oneLine_iff_of_scan h ht]

/-- **A report of a parse takes one line** unless it blames a string that does not. -/
theorem oneLine_of_blame (h : scan source = .ok scanned) (ht : blame.token ∈ scanned.tokens)
    {message : String} (hmessage : OneLine message) :
    OneLine { blame.diagnostic with message }.text ↔ ¬ blame.token.SpansLines := by
  have hline : OneLine (Diagnostic.lineText { blame.diagnostic with message }.line) :=
    (lexed_of_mem_scan h ht).oneLine_lineText
  have hparts := { blame.diagnostic with message }.oneLine_iff (.inr rfl) hline
  exact hparts.trans ((and_iff_left hmessage).trans (oneLine_placeOf h ht))

end Blames

end Parse

/-! ### Reports of runs -/

section Runs

variable {config : Config} {failure : Failure} {token : Token} {d : Diagnostic}

/-- A report of a run takes one line if its parts do. -/
theorem Diagnostic.oneLine_iff_of_run {name : String} (hstage : d.stage = .run name) :
    OneLine d.text ↔ OneLine (lineText d.line) ∧ OneLine name ∧ OneLine d.message := by
  have htitle : OneLine "RuntimeError at " ∧ OneLine ": " := by decide
  simp [Diagnostic.text, hstage, Stage.title, htitle, and_assoc]

/-- The names and operators that the report of a failure shows. -/
def Failure.lexemes : Failure → List Json
  | undefined name _ | unassignable name _ => [name]
  | notNumbers op _ _ _ | noUnaryOperator op _ _ | noBinaryOperator op _ => [op]
  | _ => []

/-- **A report of a run takes one line** if its line, its names and operators and its operands
do. -/
theorem Failure.oneLine_iff (hd : failure.diagnostic? = some d) :
    OneLine d.text ↔ OneLine (Diagnostic.lineText d.line) ∧
      (∀ lexeme ∈ failure.lexemes, OneLine lexeme.shown) ∧
      ∀ v ∈ failure.operands, ¬ v.SpansLines := by
  cases failure <;> cases hd <;> rw [Diagnostic.oneLine_iff_of_run rfl, and_congr_right_iff]
  all_goals
    intro _
    simp +decide [Failure.lexemes, Failure.operands, Value.oneLine_text_iff, and_assoc]

/-- The name or operator that a report shows is the one that the call fails at. -/
theorem Call.FailsAt.lexeme_eq {c : Call} (h : c.FailsAt config failure token) :
    ∀ lexeme ∈ failure.lexemes, lexeme = token.lexeme := by
  cases h with
  | lookUp h =>
      unfold State.read at h
      repeat' split at h
      all_goals cases h
      all_goals simp [Failure.lexemes]
  | assignment _ h =>
      unfold State.assign at h
      repeat' split at h
      all_goals cases h
      all_goals simp [Failure.lexemes]
  | unary _ h =>
      unfold applyUnary at h
      split at h <;> cases h <;> simp [Failure.lexemes]
  | binary _ _ h =>
      unfold applyBinary calculate at h
      repeat' split at h
      all_goals cases h
      all_goals simp [Failure.lexemes]

end Runs

/-! ### Where the strings come from -/

/-- Some variable holds the text. -/
def State.HoldsText (s : State) (text : String) : Prop :=
  ∃ i, ∃ entry ∈ s.forest.bindings i, entry.2 = .str text

/-- If the value is a string, it is the literal of one of the tokens, or a variable holds it. -/
def Value.ComesFrom (tokens : List Token) (s : State) (v : Value) : Prop :=
  ∀ text, v = .str text →
    (∃ t ∈ tokens, t.kind = .string ∧ t.literal = .str text) ∨ s.HoldsText text

/-- Operators yield no strings. -/
theorem ofOperators_comesFrom (tokens : List Token) (s : State) :
    OfOperators (Value.ComesFrom tokens s) where
  num _ _ h := by cases h
  bool _ _ h := by cases h
  nil _ h := by cases h

section Origins

variable {limit : Nat} {source : String} {scanned : Scan} {program : List Stmt}

/-- **The strings that a failure shows** are literals of the source, or variables held them before
the run. -/
theorem operands_of_failed (h : scan source = .ok scanned)
    (hparse : Parse.parse limit scanned.tokens = .ok program) {session : Session} {fuel : Nat}
    {failure : Failure} (hfails : (session.run fuel program).2 = .failed failure) {text : String}
    (htext : .str text ∈ failure.operands) :
    (∃ t ∈ scanned.tokens, t.kind = .string ∧ t.literal = .str text) ∨
      session.state.HoldsText text := by
  have hoperators := ofOperators_comesFrom scanned.tokens session.state
  have hliterals : allMeet (.literals (Value.ComesFrom scanned.tokens session.state)) program := by
    refine meets_of_parse (Demands.literals_metBy hoperators) hparse ?_
    rintro t hmem v hv text rfl
    have hliteral : t.literal = .str text := by
      cases hvalue : t.literal <;> rw [hvalue] at hv <;> cases hv
      rfl
    exact .inl ⟨t, hmem, kind_of_literal h hmem hliteral, hliteral⟩
  have hholds : session.state.Holds (Value.ComesFrom scanned.tokens session.state) := by
    intro i entry hentry text hvalue
    exact .inr ⟨i, entry, hentry, hvalue⟩
  obtain ⟨t, hrun⟩ := Session.ending_run hfails
  have hcarries := (holds_interpret hoperators session.config fuel hliterals hholds).of_failed hrun
  exact hcarries.1 _ htext text rfl

/-- The report of a run of a source takes one line unless it shows an operand that does not. -/
theorem exists_report_of_failed (h : scan source = .ok scanned)
    (hparse : Parse.parse limit scanned.tokens = .ok program) {session : Session} {fuel : Nat}
    {failure : Failure} (hfails : (session.run fuel program).2 = .failed failure) :
    ∃ d, failure.diagnostic? = some d ∧
      (OneLine d.text ↔ ∀ v ∈ failure.operands, ¬ v.SpansLines) := by
  have hload : programOf limit source = .ok { program, recovered := scanned.recovered } := by
    simp only [programOf, h, hparse]
  rcases fails_at_token h hparse hfails with rfl | ⟨d, c, token, hd, hcall, hat, htoken, hline⟩
  · exact ⟨_, rfl, iff_of_true (by decide) (by simp [Failure.operands])⟩
  · have hlexemes : ∀ lexeme ∈ failure.lexemes, OneLine lexeme.shown := by
      have hprogram := meets_of_parse (oneLine_metBy h) hparse fun _ ht => ht
      intro lexeme hmem
      rw [hat.lexeme_eq lexeme hmem]
      exact hat.token (hcall.meets hprogram)
    refine ⟨d, hd, (Failure.oneLine_iff hd).trans ?_⟩
    rw [hline]
    exact (and_iff_right (lexed_of_mem_scan h htoken).oneLine_lineText).trans
      (and_iff_right hlexemes)

end Origins

/-- **A report takes one line, unless it quotes a string that does not.** A scan reports on one line
whatever is wrong. A report of a parse takes one line unless the token that it blames is a string
that spans lines, and the report of the whole parse if the first of them does. A report of a run
takes one line unless one of the operands that it shows is such a string. That string is a literal
of the source, or a variable held it before the run. -/
theorem report_on_one_line_iff (limit : Nat) (source : String) :
    match scan source with
    | .error e => OneLine e.diagnostic.text
    | .ok scanned =>
      (∀ e, scanned.recovered = some e → OneLine e.diagnostic.text) ∧
      match Parse.parse limit scanned.tokens with
      | .error failure =>
        ∃ first more, failure = .rejected first more ∧
          (∀ blame ∈ first :: more, blame.token ∈ scanned.tokens ∧
            (OneLine blame.diagnostic.text ↔ ¬ blame.token.SpansLines)) ∧
          ∀ d, Diagnostic.group ((first :: more).map Parse.Blame.diagnostic) = some d →
            (OneLine d.text ↔ ¬ first.token.SpansLines)
      | .ok program =>
        ∀ (session : Session) (fuel : Nat) (failure : Failure),
          (session.run fuel program).2 = .failed failure →
          (∃ d, failure.diagnostic? = some d ∧
            (OneLine d.text ↔ ∀ v ∈ failure.operands, ¬ v.SpansLines)) ∧
          ∀ text, .str text ∈ failure.operands →
            (∃ t ∈ scanned.tokens, t.kind = .string ∧ t.literal = .str text) ∨
              session.state.HoldsText text := by
  cases hscan : scan source with
  | error e =>
      obtain ⟨pieces, c, after, hlexes, -, hfault, -⟩ := error_of_scan hscan
      refine ScanError.oneLine fun heq => ?_
      rw [hfault, ScanFault.unidentified.injEq] at heq
      exact ne_newline_of_not_admitted hlexes.not_admitted heq
  | ok scanned =>
      refine ⟨fun e he => ScanError.oneLine (ne_unidentified_of_recovered hscan he), ?_⟩
      cases hparse : Parse.parse limit scanned.tokens with
      | error failure =>
          obtain ⟨first, more, rfl, hblames⟩ := blames_tokens hscan hparse
          have hmem : ∀ blame ∈ first :: more, blame.token ∈ scanned.tokens :=
            fun blame hblame => List.mem_of_getElem? (hblames blame hblame)
          have hone : ∀ blame ∈ first :: more, ∀ message, OneLine message →
              (OneLine { blame.diagnostic with message }.text ↔ ¬ blame.token.SpansLines) :=
            fun blame hblame _ => Parse.oneLine_of_blame hscan (hmem blame hblame)
          refine ⟨first, more, rfl, fun blame hblame => ⟨hmem blame hblame, ?_⟩, fun d hd => ?_⟩
          · exact hone blame hblame _ blame.fault.oneLine
          · rw [Parse.group_blames, Option.some.injEq] at hd
            rw [← hd]
            exact hone first List.mem_cons_self _
              (oneLine_append.2 ⟨first.fault.oneLine, Parse.oneLine_moreText _⟩)
      | ok program =>
          intro session fuel failure hfails
          exact ⟨exists_report_of_failed hscan hparse hfails,
            fun text => operands_of_failed hscan hparse hfails⟩

/-- A comparison with a string that spans two lines, which its report does not show. -/
def comparedLines : String := "print \"\n\" < nil;"

/-- The program that it is. -/
def comparedLinesProgram : List Stmt :=
  [.print (.binary (.literal (.str "\n")) { kind := .less, lexeme := .str "<", line := .int 2 }
    (.literal .null))]

/-- The report of the comparison takes one line. -/
theorem report_on_one_line_iff_comparedLines :
    programOf 9 comparedLines = .ok { program := comparedLinesProgram, recovered := none } ∧
      ∃ failure d, ((Session.fresh { limit := 9 } .file none).run 9 comparedLinesProgram).2 =
          .failed failure ∧
        failure.diagnostic? = some d ∧ OneLine d.text := by
  have hload : programOf 9 comparedLines =
      .ok { program := comparedLinesProgram, recovered := none } := by
    cbv
  have hfails : ((Session.fresh { limit := 9 } .file none).run 9 comparedLinesProgram).2 =
      .failed (.notComparable (.int 2)) := by
    cbv
  obtain ⟨scanned, hscan, hparse⟩ := programOf_eq_ok hload
  have hreports := report_on_one_line_iff 9 comparedLines
  simp only [hscan, hparse] at hreports
  obtain ⟨⟨d, hd, hone⟩, -⟩ := hreports.2 _ 9 _ hfails
  exact ⟨hload, _, d, hfails, hd, hone.2 (by simp [Failure.operands])⟩

/-- A declaration with a string that spans two lines in the place of the name. -/
def linesForName : String := "var \"\n\";"

/-- Its tokens. -/
def linesForNameTokens : List Token :=
  [{ kind := .varWord, lexeme := .str "var", line := .int 1 },
    { kind := .string, lexeme := .str "\"\n\"", line := .int 2, literal := .str "\n" },
    { kind := .semicolon, lexeme := .str ";", line := .int 2 }, endToken 2]

/-- A string that spans two lines, negated. -/
def negatedLines : String := "-\"\n\";"

/-- The program that it is. -/
def negatedLinesProgram : List Stmt :=
  [.expr (.unary { kind := .minus, lexeme := .str "-", line := .int 1 } (.literal (.str "\n")))]

/-- **Not every report takes one line**: neither that of a parse that blames such a string, nor that
of a run that fails at it as an operand. -/
theorem reports_span_lines :
    (∃ blame, scan linesForName = .ok { tokens := linesForNameTokens, recovered := none } ∧
      Parse.parse 9 linesForNameTokens = .error (.rejected blame []) ∧
      blame.diagnostic.text = "ParseError at line 2 at '\"\n\"': Expect variable name." ∧
      ¬ OneLine blame.diagnostic.text) ∧
    programOf 9 negatedLines = .ok { program := negatedLinesProgram, recovered := none } ∧
      ∃ failure d, ((Session.fresh { limit := 9 } .file none).run 9 negatedLinesProgram).2 =
          .failed failure ∧
        failure.diagnostic? = some d ∧
        d.text = "RuntimeError at line 1: TypeError: Cannot apply - to a non-number '\n'" ∧
        ¬ OneLine d.text := by
  have hscan : scan linesForName = .ok { tokens := linesForNameTokens, recovered := none } := by
    cbv
  have hparse : Parse.parse 9 linesForNameTokens =
      .error (.rejected ⟨.variableName, linesForNameTokens[1], 1⟩ []) := by
    cbv
  have hload : programOf 9 negatedLines =
      .ok { program := negatedLinesProgram, recovered := none } := by
    cbv
  have hfails : ((Session.fresh { limit := 9 } .file none).run 9 negatedLinesProgram).2 =
      .failed (.notANumber (.str "\n") (.int 1)) := by
    cbv
  exact ⟨⟨_, hscan, hparse, by decide, by decide⟩, hload, _, _, hfails, rfl, by decide, by decide⟩

end ScriptLang
