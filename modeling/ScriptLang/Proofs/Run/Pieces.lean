import ScriptLang.Proofs.Diagnostic.Line
import ScriptLang.Proofs.Grammar.Accepts
import ScriptLang.Proofs.Parse.Append
import ScriptLang.Proofs.Run.Later
import ScriptLang.Proofs.Source.Seam

/-!
# Programs in pieces

A source that leaves nothing open and is a program may be put in front of any other source that does
not begin with an `else`. The two are loaded and run as one like each alone, from the characters to
the end of the run.

## Main Definitions

* `LoadFailure.diagnostics`: what is reported of a source that is no program.

## Main Statements

* `programOf_joined`: the program that two sources are.
* `load_and_run_joined`: two sources loaded and run as one.
-/

namespace ScriptLang

/-! ### Reports of sources -/

/-- What is reported of something that is no program, in the order of the reports. -/
def LoadFailure.diagnostics : LoadFailure → List Diagnostic
  | .scan error => [error.diagnostic]
  | .parse (.rejected first more) => (first :: more).map Parse.Blame.diagnostic
  | .parse .ranOff => []

/-- The report of a scan further down. -/
theorem ScanError.diagnostic_later (k : Nat) (e : ScanError) :
    (e.later k).diagnostic = e.diagnostic.later k := by
  simp only [ScanError.diagnostic, ScanError.later, Diagnostic.later, Json.later, Nat.cast_add]

/-- The reports of a parse further down. -/
theorem Parse.diagnostics_later (k j : Nat) (failure : Parse.Failure) :
    (LoadFailure.parse (failure.relabel (.later k j))).diagnostics =
      (LoadFailure.parse failure).diagnostics.map (Diagnostic.later k) := by
  cases failure with
  | ranOff => rfl
  | rejected first more =>
      have hblame : ∀ blame : Blame,
          (blame.relabel (.later k j)).diagnostic = blame.diagnostic.later k := fun _ => rfl
      simp only [LoadFailure.diagnostics, Failure.relabel, List.map_cons, List.map_map, hblame]
      rfl

/-! ### Loading -/

variable {limit : Nat} {a b : String} {first : List Stmt}

/-- **What two sources are**, if the first leaves nothing open and is a program, and the second does
not begin with an `else`: a program exactly if the second is one, with its statements behind those
of the first. Else the reports are those about the second. What belongs to the second is as many
lines further down as the first has. -/
theorem programOf_joined (ha : programOf limit a = .ok { program := first, recovered := none })
    (hb : ∀ scanned, scan b = .ok scanned →
      ∀ t, scanned.tokens.head? = some t → t.kind ≠ .elseWord) :
    match programOf limit b with
    | .error failure =>
      ∃ whole, programOf limit (joined a b) = .error whole ∧
        whole.diagnostics = failure.diagnostics.map (Diagnostic.later (linesOf a))
    | .ok second =>
      programOf limit (joined a b) = .ok {
        program := first ++ relabelAll (Token.later (linesOf a)) second.program
        recovered := second.recovered.map (ScanError.later (linesOf a)) } := by
  obtain ⟨scanned, hscan, hparse⟩ := programOf_eq_ok ha
  have hrecovered : scanned.recovered = none := by
    simp only [programOf, hscan, hparse] at ha
    exact congrArg Loaded.recovered (Except.ok.inj ha)
  obtain ⟨last, htokens, hderives, hlevels⟩ := Grammar.derives_of_scan hscan hparse
  have hjoined := scan_joined (b := b) hscan hrecovered
  rw [htokens, List.dropLast_concat] at hjoined
  cases hsecond : scan b with
  | error e =>
      simp only [hsecond] at hjoined
      simp only [programOf, hsecond, hjoined]
      exact ⟨_, rfl, congrArg (fun d => [d]) (e.diagnostic_later (linesOf a))⟩
  | ok second =>
      obtain ⟨j, hwhole⟩ := Parse.parse_append hderives hlevels (exists_end_of_scan hsecond)
        (hb second hsecond) (.later (linesOf a) 0)
      simp only [hsecond] at hjoined
      simp only [programOf, hsecond, hjoined]
      simp only [Parse.Relabeling.later] at hwhole
      rw [hwhole]
      cases Parse.parse limit second.tokens with
      | ok program => rfl
      | error failure => exact ⟨_, rfl, Parse.diagnostics_later (linesOf a) j failure⟩

/-! ### Loading and running -/

/-- **A program in two pieces is the whole program**, if the first piece leaves nothing open and is
a program, and the second does not begin with an `else`. The whole is loaded exactly if the second
piece is, and else reported as the second piece is. In every session it prints, traces, binds and
reports what the first piece and then, if that ends well, the second one do. What belongs to the
second piece is as many lines further down as the first has. -/
theorem load_and_run_joined
    (ha : programOf limit a = .ok { program := first, recovered := none })
    (hb : ∀ scanned, scan b = .ok scanned →
      ∀ t, scanned.tokens.head? = some t → t.kind ≠ .elseWord) :
    match programOf limit b with
    | .error failure =>
      ∃ whole, programOf limit (joined a b) = .error whole ∧
        whole.diagnostics = failure.diagnostics.map (Diagnostic.later (linesOf a))
    | .ok second =>
      ∃ program, programOf limit (joined a b) =
          .ok { program, recovered := second.recovered.map (ScanError.later (linesOf a)) } ∧
        program = first ++ relabelAll (Token.later (linesOf a)) second.program ∧
        ∀ (session : Session) (fuel : Nat),
          match session.interpret fuel first with
          | (afterFirst, .completed) =>
            match afterFirst.interpret fuel second.program with
            | (afterBoth, .completed) =>
              session.interpret fuel program = (afterBoth, .completed)
            | (afterBoth, .failed failure) =>
              session.interpret fuel program = (afterBoth, .failed (failure.later (linesOf a)))
            | (_, .unfinished) => (session.interpret fuel program).2 = .unfinished
          | (afterFirst, .failed failure) =>
            session.interpret fuel program = (afterFirst, .failed failure)
          | (_, .unfinished) => (session.interpret fuel program).2 = .unfinished := by
  have hload := programOf_joined ha hb
  cases hsecond : programOf limit b with
  | error failure => simpa only [hsecond] using hload
  | ok second =>
      simp only [hsecond] at hload
      exact ⟨_, hload, rfl, fun session fuel =>
        session.interpret_append fuel (linesOf a) first second.program⟩

/-- A piece of two lines. -/
def definingPiece : String := "var a = true;\nprint a;"

/-- A piece that fails on its second line. -/
def failingPiece : String := "a = nil; // else\nprint a + b;"

/-- The program that the first piece is. -/
def definingProgram : List Stmt :=
  let name (line : Int) : Token := { kind := .identifier, lexeme := .str "a", line := .int line }
  [.declare (name 1) (some (.literal (.bool true))), .print (.ref (name 2))]

/-- The program that the second piece is. -/
def failingProgram : List Stmt :=
  let word (kind : TokenKind) (text : String) (line : Int) : Token :=
    { kind, lexeme := .str text, line := .int line }
  [.expr (.assign (word .identifier "a" 1) (.literal .null)),
    .print (.binary (.ref (word .identifier "a" 2)) (word .plus "+" 2)
      (.ref (word .identifier "b" 2)))]

/-- In the whole, the second piece fails on the fourth line. -/
theorem load_and_run_joined_failingPiece :
    programOf 9 definingPiece = .ok { program := definingProgram, recovered := none } ∧
      (∀ scanned, scan failingPiece = .ok scanned →
        ∀ t, scanned.tokens.head? = some t → t.kind ≠ .elseWord) ∧
      ∃ program,
        programOf 9 (joined definingPiece failingPiece) = .ok { program, recovered := none } ∧
        ((Session.fresh { limit := 9 } .file none).interpret 9 program).2 =
          .failed (.undefined (.str "b") (.int 4)) := by
  have hdefining : programOf 9 definingPiece =
      .ok { program := definingProgram, recovered := none } := by
    cbv
  have hfailing : programOf 9 failingPiece =
      .ok { program := failingProgram, recovered := none } := by
    cbv
  have hbegin : ∀ scanned, scan failingPiece = .ok scanned →
      ∀ t, scanned.tokens.head? = some t → t.kind ≠ .elseWord := by
    have hhead : ((scan failingPiece).toOption.bind fun scanned => scanned.tokens.head?).map
        Token.kind = some .identifier := by
      cbv
    intro scanned hscan t ht hkind
    rw [hscan] at hhead
    simp [Except.toOption, ht, hkind] at hhead
  have hwhole := load_and_run_joined hdefining hbegin
  simp only [hfailing] at hwhole
  obtain ⟨program, hload, -, hruns⟩ := hwhole
  refine ⟨hdefining, hbegin, program, hload, ?_⟩
  let session := Session.fresh { limit := 9 } .file none
  have hfirst : (session.interpret 9 definingProgram).2 = .completed := by
    cbv
  have hsecond : ((session.interpret 9 definingProgram).1.interpret 9 failingProgram).2 =
      .failed (.undefined (.str "b") (.int 2)) := by
    cbv
  have hrun := hruns session 9
  rw [← Prod.eta (session.interpret 9 definingProgram), hfirst] at hrun
  dsimp only at hrun
  rw [← Prod.eta (Session.interpret _ 9 failingProgram), hsecond] at hrun
  exact congrArg Prod.snd hrun

end ScriptLang
