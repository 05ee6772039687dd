import ScriptLang.Proofs.Diagnostic.Line
import ScriptLang.Proofs.Parse.Relabel
import ScriptLang.Proofs.Run.Transport

/-!
# Layout

Two sources that differ in blanks, newlines and comments, or in what they leave open at the end,
have the same tokens on different lines. They are the same program, or are rejected for the same
reasons, and do the same thing when they are run. Only the lines of their reports may differ.

The kind and the text of a token settle its value, since a piece of a source is known by its
characters. Neither a parse nor a run looks at a line, so both may be compared with those of the
tokens without any lines.

## Main Definitions

* `Token.unlined`, `Diagnostic.unlined`: tokens and reports without their lines.
* `Ending.SameButLine`: two endings, the same but for the line of a report.

## Main Statements

* `literal_eq_of_scan`: kind and text settle the value.
* `Session.run_unlined`: programs that are the same but for their lines.
* `layout_is_irrelevant`: sources of the same kinds and texts.
-/

namespace ScriptLang

/-- The token without its line. -/
def Token.unlined (t : Token) : Token := { t with line := .null }

/-- The report without its line. -/
def Diagnostic.unlined (d : Diagnostic) : Diagnostic := { d with line := .null }

theorem map_eq_map_iff {α β : Type} {f : α → β} {xs ys : List α} :
    xs.map f = ys.map f ↔ List.Forall₂ (fun x y => f x = f y) xs ys := by
  rw [← List.forall₂_eq_eq_eq, List.forall₂_map_left_iff, List.forall₂_map_right_iff]

/-! ### Tokens -/

section Tokens

variable {source source' : String} {scanned scanned' : Scan} {t t' : Token}

/-- A token of a scan is the one of a lexeme, or the one for the end. -/
theorem isLexeme_or_end_of_scan (h : scan source = .ok scanned) (ht : t ∈ scanned.tokens) :
    t.IsLexeme ∨ ∃ line, t = endToken line := by
  obtain ⟨pieces, hlexes, -, hstands, -⟩ := standsAt_of_scan h
  obtain ⟨i, hi⟩ := List.getElem?_of_mem ht
  cases hstands i t hi with
  | @lexeme before after piece hpieces _ hyields _ =>
      have hmem : piece ∈ pieces := by simp [hpieces]
      exact .inl ⟨piece, hlexes.wellFormed_of_mem hmem, hyields⟩
  | endOfInput _ hend => exact .inr ⟨_, hend⟩

/-- **Kind and text of a token settle its value.** -/
theorem literal_eq_of_scan (h : scan source = .ok scanned) (h' : scan source' = .ok scanned')
    (ht : t ∈ scanned.tokens) (ht' : t' ∈ scanned'.tokens) (hlexeme : t.lexeme = t'.lexeme) :
    t.literal = t'.literal := by
  rcases isLexeme_or_end_of_scan h ht with ht | ⟨line, rfl⟩ <;>
    rcases isLexeme_or_end_of_scan h' ht' with ht' | ⟨line', rfl⟩
  · exact ht.literal_eq ht' hlexeme
  · exact absurd hlexeme (ht.lexeme_ne_end line')
  · exact absurd hlexeme.symm (ht'.lexeme_ne_end line)
  · rfl

/-- Tokens of the same kinds and texts are the same but for their lines. -/
theorem map_unlined_of_scan (h : scan source = .ok scanned) (h' : scan source' = .ok scanned')
    (hsame : List.Forall₂ (fun t t' => t.kind = t'.kind ∧ t.lexeme = t'.lexeme)
      scanned.tokens scanned'.tokens) :
    scanned.tokens.map Token.unlined = scanned'.tokens.map Token.unlined := by
  obtain ⟨hlength, hpairs⟩ := List.forall₂_iff_get.1 hsame
  rw [map_eq_map_iff, List.forall₂_iff_get]
  refine ⟨hlength, fun i hi hi' => ?_⟩
  obtain ⟨hkind, hlexeme⟩ := hpairs i hi hi'
  have hliteral := literal_eq_of_scan h h' (List.get_mem _ _) (List.get_mem _ _) hlexeme
  simp only [Token.unlined, hkind, hlexeme, hliteral]

end Tokens

/-! ### Runs -/

/-- Two endings, the same but for the line of a report. -/
inductive Ending.SameButLine : Ending → Ending → Prop where
  | completed : SameButLine .completed .completed
  | failed {failure failure' : Failure} {d d' : Diagnostic} (h : failure.diagnostic? = some d)
      (h' : failure'.diagnostic? = some d') (hsame : d.unlined = d'.unlined) :
      SameButLine (.failed failure) (.failed failure')
  | unfinished : SameButLine .unfinished .unfinished

/-- No lines at all, under the same configuration and with the same effects. -/
def Transport.unlined (config : Config) : Transport config config :=
  .sameConfig config (fun _ => .null) id fun _ _ => rfl

section Runs

variable (config : Config) {program program' : List Stmt}

/-- Programs that are the same but for their lines end in the same way up to the lines. -/
theorem interpret_unlined (h : relabelAll Token.unlined program = relabelAll Token.unlined program')
    (fuel : Nat) (s : State) :
    (Transport.unlined config).result (interpret config fuel program s) =
      (Transport.unlined config).result (interpret config fuel program' s) := by
  have hprogram := (Transport.unlined config).interpret fuel program s
  have hprogram' := (Transport.unlined config).interpret fuel program' s
  exact hprogram.symm.trans ((congrArg (interpret config fuel · _) h).trans hprogram')

/-- Failures that are the same up to their lines have the same report up to its line. -/
theorem Ending.sameButLine_of_reline {failure failure' : Failure} {d : Diagnostic}
    (hsame : failure.reline (fun _ => .null) = failure'.reline fun _ => .null)
    (hd : failure.diagnostic? = some d) :
    Ending.SameButLine (.failed failure) (.failed failure') := by
  have hreports := congrArg Failure.diagnostic? hsame
  rw [Failure.diagnostic?_reline rfl, Failure.diagnostic?_reline rfl, hd] at hreports
  obtain ⟨d', hd', hline⟩ := Option.map_eq_some_iff.1 hreports.symm
  exact .failed hd hd' hline.symm

/-- **Programs that are the same but for their lines** leave the same session and end in the same
way, if each failure of theirs has a report. -/
theorem Session.run_unlined
    (h : relabelAll Token.unlined program = relabelAll Token.unlined program') (session : Session)
    (fuel : Nat) (hreported : ∀ failure, (session.run fuel program).2 = .failed failure →
      ∃ d, failure.diagnostic? = some d) :
    (session.run fuel program).1 = (session.run fuel program').1 ∧
      (session.run fuel program).2.SameButLine (session.run fuel program').2 := by
  have hsame := interpret_unlined session.config h fuel session.state
  simp only [Session.run] at hreported ⊢
  cases hrun : ScriptLang.interpret session.config fuel program session.state with
  | done value t =>
      cases hrun' : ScriptLang.interpret session.config fuel program' session.state with
      | failed | unfinished => rw [hrun, hrun'] at hsame; cases hsame
      | done value' t' =>
          rw [hrun, hrun'] at hsame
          obtain rfl : t = t' := (Result.done.inj hsame).2
          rw [interpret_of_done hrun, interpret_of_done hrun']
          exact ⟨rfl, .completed⟩
  | failed failure t =>
      cases hrun' : ScriptLang.interpret session.config fuel program' session.state with
      | done | unfinished => rw [hrun, hrun'] at hsame; cases hsame
      | failed failure' t' =>
          rw [hrun, hrun'] at hsame
          obtain rfl : t = t' := (Result.failed.inj hsame).2
          rw [interpret_of_failed hrun] at hreported ⊢
          rw [interpret_of_failed hrun']
          obtain ⟨d, hd⟩ := hreported failure rfl
          exact ⟨rfl, Ending.sameButLine_of_reline (Result.failed.inj hsame).1 hd⟩
  | unfinished =>
      cases hrun' : ScriptLang.interpret session.config fuel program' session.state with
      | done | failed => rw [hrun, hrun'] at hsame; cases hsame
      | unfinished =>
          rw [interpret_of_unfinished hrun, interpret_of_unfinished hrun']
          exact ⟨rfl, .unfinished⟩

end Runs

/-! ### Sources -/

/-- No lines at all, every token standing where it stood. -/
def Parse.Relabeling.unlined : Parse.Relabeling :=
  ⟨Token.unlined, fun _ => rfl, fun _ => rfl, 0⟩

/-- The reports about tokens without lines are the reports without their lines. -/
theorem Parse.map_unlined (blames : List Parse.Blame) :
    blames.map (·.diagnostic.unlined) =
      (blames.map (Parse.Blame.relabel .unlined)).map Parse.Blame.diagnostic := by
  rw [List.map_map]
  rfl

/-- A run of a source that fails has a report. -/
theorem exists_report_of_run {limit : Nat} {source : String} {scanned : Scan}
    (h : scan source = .ok scanned) {program : List Stmt}
    (hparse : Parse.parse limit scanned.tokens = .ok program) {session : Session} {fuel : Nat}
    {failure : Failure} (hfails : (session.run fuel program).2 = .failed failure) :
    ∃ d, failure.diagnostic? = some d := by
  rcases fails_at_token h hparse hfails with rfl | ⟨d, -, -, hd, -⟩
  · exact ⟨_, rfl⟩
  · exact ⟨d, hd⟩

/-- **Layout is irrelevant.** Let two sources be scanned to the end, and let their tokens agree in
kind and text one by one. Then they are the same program but for the lines of its tokens, and a run
of either, in whatever session, prints and traces the same, leaves the same scopes and ends in the
same way, up to the line of its report. Or neither is a program, and the reports on both are the
same in their order, up to their lines. -/
theorem layout_is_irrelevant (limit : Nat) {source source' : String} {scanned scanned' : Scan}
    (h : scan source = .ok scanned) (h' : scan source' = .ok scanned')
    (hsame : List.Forall₂ (fun t t' => t.kind = t'.kind ∧ t.lexeme = t'.lexeme)
      scanned.tokens scanned'.tokens) :
    match Parse.parse limit scanned.tokens, Parse.parse limit scanned'.tokens with
    | .ok program, .ok program' =>
      relabelAll Token.unlined program = relabelAll Token.unlined program' ∧
        ∀ (session : Session) (fuel : Nat),
          (session.run fuel program).1 = (session.run fuel program').1 ∧
            (session.run fuel program).2.SameButLine (session.run fuel program').2
    | .error (.rejected first more), .error (.rejected first' more') =>
      (first :: more).map (·.diagnostic.unlined) = (first' :: more').map (·.diagnostic.unlined)
    | _, _ => False := by
  have hunlined := Parse.parse_relabel limit (exists_end_of_scan h)
    (r := .unlined) rfl
  have hunlined' := Parse.parse_relabel limit (exists_end_of_scan h')
    (r := .unlined) rfl
  have htokens : scanned.tokens.map Parse.Relabeling.unlined.token =
      scanned'.tokens.map Parse.Relabeling.unlined.token := map_unlined_of_scan h h' hsame
  rw [htokens, hunlined'] at hunlined
  cases hparse : Parse.parse limit scanned.tokens with
  | ok program =>
      cases hparse' : Parse.parse limit scanned'.tokens with
      | error failure' =>
          simp only [hparse, hparse'] at hunlined
          cases hunlined
      | ok program' =>
          simp only [hparse, hparse'] at hunlined
          have hprograms := (Except.ok.inj hunlined).symm
          exact ⟨hprograms, fun session fuel => Session.run_unlined hprograms session fuel
            fun failure => exists_report_of_run h hparse⟩
  | error failure =>
      obtain ⟨first, more, rfl, -⟩ := blames_tokens h hparse
      cases hparse' : Parse.parse limit scanned'.tokens with
      | ok program' =>
          simp only [hparse, hparse'] at hunlined
          cases hunlined
      | error failure' =>
          obtain ⟨first', more', rfl, -⟩ := blames_tokens h' hparse'
          simp only [hparse, hparse'] at hunlined
          obtain ⟨hfirst, hmore⟩ := Parse.Failure.rejected.inj (Except.error.inj hunlined)
          dsimp only
          rw [Parse.map_unlined, Parse.map_unlined, List.map_cons, ← hfirst, ← hmore,
            ← List.map_cons]

/-- A source that fails on its second line. -/
def denseSource : String :=
  "var a = true;\nprint a + b;"

/-- The same tokens with other layout, in front of a comment that is left open. -/
def looseSource : String :=
  "var a /* \n */ = true; // a\n  print a\n+ b; /* c"

/-- The program that both are, its tokens on these lines. -/
def spreadProgram (declared printed added : Int) : List Stmt :=
  let word (kind : TokenKind) (text : String) (line : Int) : Token :=
    { kind, lexeme := .str text, line := .int line }
  [.declare (word .identifier "a" declared) (some (.literal (.bool true))),
    .print (.binary (.ref (word .identifier "a" printed)) (word .plus "+" added)
      (.ref (word .identifier "b" added)))]

/-- Both fail at the same name, each on the line where it has it. -/
theorem layout_is_irrelevant_looseSource :
    ∃ scanned scanned', scan denseSource = .ok scanned ∧ scan looseSource = .ok scanned' ∧
      List.Forall₂ (fun t t' => t.kind = t'.kind ∧ t.lexeme = t'.lexeme)
        scanned.tokens scanned'.tokens ∧
      Parse.parse 9 scanned.tokens = .ok (spreadProgram 1 2 2) ∧
      Parse.parse 9 scanned'.tokens = .ok (spreadProgram 1 3 4) ∧
      let session := Session.fresh { limit := 9 } .file none
      (session.run 9 (spreadProgram 1 2 2)).1 = (session.run 9 (spreadProgram 1 3 4)).1 ∧
        (session.run 9 (spreadProgram 1 2 2)).2 = .failed (.undefined (.str "b") (.int 2)) ∧
        (session.run 9 (spreadProgram 1 2 2)).2.SameButLine
          (session.run 9 (spreadProgram 1 3 4)).2 := by
  have hdense : programOf 9 denseSource =
      .ok { program := spreadProgram 1 2 2, recovered := none } := by
    cbv
  have hloose : programOf 9 looseSource =
      .ok { program := spreadProgram 1 3 4, recovered := some ⟨.unterminatedComment, 4⟩ } := by
    cbv
  have hfails : ((Session.fresh { limit := 9 } .file none).run 9
      (spreadProgram 1 2 2)).2 = .failed (.undefined (.str "b") (.int 2)) := by
    cbv
  obtain ⟨scanned, hscan, hparse⟩ := programOf_eq_ok hdense
  obtain ⟨scanned', hscan', hparse'⟩ := programOf_eq_ok hloose
  have htokens : (scan denseSource).toOption.map
        (fun scanned => scanned.tokens.map fun t => (t.kind, t.lexeme)) =
      (scan looseSource).toOption.map
        (fun scanned => scanned.tokens.map fun t => (t.kind, t.lexeme)) := by
    cbv
  simp only [hscan, hscan', Except.toOption, Option.map_some, Option.some.injEq] at htokens
  have hsame : List.Forall₂ (fun t t' => t.kind = t'.kind ∧ t.lexeme = t'.lexeme)
      scanned.tokens scanned'.tokens :=
    (map_eq_map_iff.1 htokens).imp fun t t' hpair => Prod.mk.inj hpair
  have hboth := layout_is_irrelevant 9 hscan hscan' hsame
  simp only [hparse, hparse'] at hboth
  obtain ⟨hrun, hending⟩ := hboth.2 (Session.fresh { limit := 9 } .file none) 9
  exact ⟨scanned, scanned', hscan, hscan', hsame, hparse, hparse', hrun, hfails, hending⟩

end ScriptLang
