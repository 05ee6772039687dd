import ScriptLang.Proofs.Grammar.Accepts
import ScriptLang.Proofs.Grammar.Sound
import ScriptLang.Proofs.Number.Printed
import ScriptLang.Proofs.Source.Seam
import ScriptLang.Run.Session

/-!
# Printed numbers as sources

What a program prints for a number is a source again. Without a sign in front it is a single lexeme,
whose value is the number, so that a statement that prints this text prints it once more. With a sign
the source has two lexemes, since a minus is no part of a number.

## Main Definitions

* `numberToken`: the token of a printed number.
* `printSource`: a statement that prints the value of a text.

## Main Statements

* `Number.Shows.scan_printed`: a printed number is scanned as one token with its value.
* `Number.Shows.programOf_printSource`: the statement that prints it loads.
* `interpret_printNumber`: the statement prints the text of the number.
* `printed_reads_back`: all that holds of a printed number.
-/

namespace ScriptLang

open Number

/-! ### One lexeme -/

theorem isDigit_eq (c : Char) : isDigit c = c.isDigit := by
  simp [isDigit, Char.isDigit]
  rfl

/-- The piece of a printed number. -/
theorem Number.Shows.wellFormed {whole fraction : List Char} {x : Float}
    (h : Shows whole fraction x) : (Piece.number whole fraction).WellFormed := by
  refine ⟨?_, ?_, ?_⟩
  · obtain ⟨c, hhead, -⟩ := head?_pointed h.isWholePart []
    rintro rfl
    cases hhead
  · intro d hd
    rw [isDigit_eq]
    exact h.isWholePart.digits d hd
  · intro d hd
    rw [isDigit_eq]
    exact h.isFraction.digits d hd

theorem chars_number (whole fraction : List Char) :
    (Piece.number whole fraction).chars = pointed (whole, fraction) := by
  cases fraction with
  | nil => exact List.append_nil whole
  | cons d ds => rfl

/-- The token of a printed number on the first line. -/
def numberToken (x : Float) : Token :=
  { kind := .number, lexeme := .str (printed x), line := .int 1, literal := .num x }

section Numeral

variable {whole fraction : List Char} {x : Float}

/-- The characters of the piece are the printed text, if no sign is in front. -/
theorem Number.Shows.chars_eq (h : Shows whole fraction x) (hx : isNegative x = false) :
    (Piece.number whole fraction).chars = (printed x).toList := by
  rw [h.text, hx, chars_number]
  rfl

/-- The tokens of pieces that begin with the number. -/
theorem Number.Shows.tokensFrom_eq (h : Shows whole fraction x) (hx : isNegative x = false)
    (pieces : List Piece) :
    tokensFrom 1 (.number whole fraction :: pieces) = numberToken x :: tokensFrom 1 pieces := by
  have hread : ofPointed whole fraction = x := by
    have hread := h.readBack
    rwa [hx] at hread
  rw [tokensFrom_cons, newlines_chars_number h.wellFormed.2.1 h.wellFormed.2.2]
  simp only [Piece.token?, h.chars_eq hx, hread, String.ofList_toList]
  rfl

/-- **A printed number is scanned as one token with its value**, if no sign is in front. -/
theorem Number.Shows.scan_printed (h : Shows whole fraction x) (hx : isNegative x = false) :
    scan (printed x) = .ok { tokens := [numberToken x, endToken 1], recovered := none } := by
  obtain ⟨c, cs, hchars, hnext⟩ := h.wellFormed.next_chars
  rw [h.chars_eq hx] at hchars
  have htile : tile (printed x).toList =
      { pieces := [.number whole fraction], stuck := none } := by
    rw [hchars, tile_of_next hnext, tile_nil]
  simp only [scan, scanChars, htile, h.tokensFrom_eq hx]
  rfl

/-! ### The statement that prints it -/

/-- A statement that prints the value of a text. -/
def printSource (text : String) : String := "print " ++ text ++ ";"

/-- The program that prints a number. -/
def printNumber (x : Float) : List Stmt := [.print (.literal (.num x))]

/-- The pieces of the statement: a word, a blank, the number and a semicolon. -/
theorem Number.Shows.tile_printSource (h : Shows whole fraction x) (hx : isNegative x = false) :
    tile (printSource (printed x)).toList =
      { pieces := [.word "print".toList, .blank ' ', .number whole fraction, .mark .semicolon [';']]
        stuck := none } := by
  obtain ⟨c, cs, hchars, hnext⟩ := h.wellFormed.next_chars
  rw [h.chars_eq hx] at hchars
  have hword : Piece.next 'p' ['r', 'i', 'n', 't'] = some (.word "print".toList, []) := rfl
  have hblank (rest : List Char) : Piece.next ' ' rest = some (.blank ' ', rest) := rfl
  have hsemicolon : Piece.next ';' [] = some (.mark .semicolon [';'], []) := rfl
  have htext : (printSource (printed x)).toList =
      'p' :: (['r', 'i', 'n', 't'] ++ ' ' :: c :: (cs ++ [';'])) := by
    rw [printSource, String.toList_append, String.toList_append, hchars]
    rfl
  rw [htext, tile_of_next (next_append separates_blank hword trivial _), List.nil_append,
    tile_of_next (hblank _), tile_of_next (next_append separates_semicolon hnext trivial _),
    List.nil_append, tile_of_next hsemicolon, tile_nil]

/-- **The statement that prints a printed number loads**, if no sign is in front. -/
theorem Number.Shows.programOf_printSource (h : Shows whole fraction x)
    (hx : isNegative x = false) {limit : Nat} (hlimit : 3 ≤ limit) :
    programOf limit (printSource (printed x)) =
      .ok { program := printNumber x, recovered := none } := by
  let printToken : Token := { kind := .printWord, lexeme := .str "print", line := .int 1 }
  let semicolonToken : Token := { kind := .semicolon, lexeme := .str ";", line := .int 1 }
  have hscan : scan (printSource (printed x)) = .ok {
      tokens := [printToken, numberToken x, semicolonToken] ++ [endToken 1]
      recovered := none } := by
    have htokens := h.tokensFrom_eq hx [.mark .semicolon [';']]
    simp only [scan, scanChars, h.tile_printSource hx]
    change Except.ok (Scan.mk
      (printToken :: tokensFrom 1 [.number whole fraction, .mark .semicolon [';']]) none) = _
    rw [htokens]
    rfl
  have hliteral : Derives (.expr .primary (.literal (numberToken x).literal)) [numberToken x] :=
    .literal (.inl rfl)
  have hexpr : Derives (.expr .assignment (.literal (.num x))) [numberToken x] :=
    Grammar.derives_of_index_le hliteral (by decide)
  have hprint : printToken.kind = .printWord := rfl
  have hsemicolon : semicolonToken.kind = .semicolon := rfl
  have hstmt : Derives (.decl (.print (.literal (.num x))))
      [printToken, numberToken x, semicolonToken] :=
    .stmtDecl (.print hprint hexpr hsemicolon)
  have hprogram : Derives (.decls (printNumber x)) [printToken, numberToken x, semicolonToken] :=
    hstmt.cons .nil
  have hparse : Parse.parse limit ([printToken, numberToken x, semicolonToken] ++ [endToken 1]) =
      .ok (printNumber x) :=
    Parse.parse_of_derives [] hprogram rfl hlimit
  simp only [programOf, hscan, hparse]

/-- **The statement prints the text of the number**, and nothing else but its trace. -/
theorem interpret_printNumber {config : Config} (hlimit : 0 < config.limit) (fuel : Nat)
    (s : State) :
    interpret config (fuel + 1) (printNumber x) s =
      .done () (((s.trace config (.execute "PrintStmt")).print (printed x)).trace config
        (.finish "PrintStmt")) := by
  have heval (t : State) : evaluate config (.literal (.num x)) t = .done (.num x) t := by
    obtain ⟨n, hn⟩ := Nat.exists_eq_succ_of_ne_zero hlimit.ne'
    rw [evaluate, hn]
    rfl
  rw [interpret, printNumber, sequence_cons, exec_succ, effect, heval]
  rfl

/-- The session in which nothing is traced: the line is all that reaches the outside. -/
theorem Session.interpret_printNumber {session : Session} (hlevel : session.config.level ≤ 0)
    (hlimit : 0 < session.config.limit) (heffects : session.state.effects = []) (fuel : Nat) :
    session.interpret (fuel + 1) (printNumber x) =
      ({ session with outside := session.outside.line (printed x) }, .completed) := by
  have hquiet (event : Event) (hevent : 0 < event.level) (s : State) :
      s.trace session.config event = s := by
    rw [State.trace, if_neg (by omega)]
  rw [Session.interpret_of_done (ScriptLang.interpret_printNumber hlimit fuel session.state),
    hquiet _ (by decide), hquiet _ (by decide)]
  obtain ⟨config, ⟨forest, stack, effects⟩, outside⟩ := session
  simp only at heffects
  subst heffects
  rfl

/-- **Printed numbers read back as the same number.** The text of a finite number is a sign and
digits with a point where there is a fraction; the number that they denote rounds to the number
itself. Without a sign the text is one token with the number for its value, and the statement that
prints this text prints it again, with a trace around it or, where nothing is traced, by itself. -/
theorem printed_reads_back (hfinite : IsFinite x) :
    (∃ whole fraction, Shows whole fraction x) ∧
      (isNegative x = false →
        scan (printed x) = .ok { tokens := [numberToken x, endToken 1], recovered := none } ∧
        ∀ limit, 3 ≤ limit → ∃ program,
          programOf limit (printSource (printed x)) = .ok { program, recovered := none } ∧
          (∀ config : Config, 0 < config.limit → ∀ fuel s, interpret config (fuel + 1) program s =
            .done () (((s.trace config (.execute "PrintStmt")).print (printed x)).trace config
              (.finish "PrintStmt"))) ∧
          ∀ session : Session, session.config.level ≤ 0 → 0 < session.config.limit →
            session.state.effects = [] → ∀ fuel, session.interpret (fuel + 1) program =
              ({ session with outside := session.outside.line (printed x) }, .completed)) := by
  obtain ⟨whole, fraction, hshows⟩ := exists_shows hfinite
  refine ⟨⟨whole, fraction, hshows⟩, fun hx => ⟨hshows.scan_printed hx, ?_⟩⟩
  intro limit hlimit
  refine ⟨printNumber x, hshows.programOf_printSource hx hlimit, ?_, ?_⟩
  · intro config hlimit fuel s
    exact interpret_printNumber hlimit fuel s
  · intro session hlevel hlimit heffects fuel
    exact Session.interpret_printNumber hlevel hlimit heffects fuel

end Numeral

/-- The least number above zero: its text has 323 zeros behind the point, and then a five. -/
def leastNumber : Float := Float.ofBits 1

theorem printed_reads_back_leastNumber :
    IsFinite leastNumber ∧ isNegative leastNumber = false ∧
      (∃ whole fraction, Shows whole fraction leastNumber) ∧
      scan (printed leastNumber) =
        .ok { tokens := [numberToken leastNumber, endToken 1], recovered := none } ∧
      ∃ program, programOf 3 (printSource (printed leastNumber)) =
          .ok { program, recovered := none } ∧
        (Session.fresh {} .console none).interpret 1 program =
          ({ Session.fresh {} .console none with
              outside := (Session.fresh {} .console none).outside.line (printed leastNumber) },
            .completed) := by
  have hfinite : IsFinite leastNumber := ⟨rfl, rfl⟩
  have hpositive : isNegative leastNumber = false := rfl
  obtain ⟨hshows, hrest⟩ := printed_reads_back hfinite
  obtain ⟨hscan, hprint⟩ := hrest hpositive
  obtain ⟨program, hprogram, -, hrun⟩ := hprint 3 (le_refl 3)
  exact ⟨hfinite, hpositive, hshows, hscan, program, hprogram,
    hrun _ (le_refl 0) (by decide) rfl 0⟩

end ScriptLang
