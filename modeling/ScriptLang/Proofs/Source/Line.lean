import ScriptLang.Proofs.Source.Munch

/-!
# Lines

Where the lines come from that tokens and reports of the scan carry. A line is counted from the
front of the source: it is one more than the number of newlines up to the place that it belongs to,
which for a token is the end of its lexeme.

## Main Definitions

* `lineAfter`: the line on which a text ends.
* `Json.IsLineOf`: a line that a source has.
* `StandsAt`: the place in a reading that the token of a given number stands at.

## Main Statements

* `standsAt_of_scan`: every token of a scan stands where its line says.
* `error_of_scan`: a scan that fails names the line of the character that it fails at.
* `isLineOf_of_scan`: tokens have lines of their source.
-/

namespace ScriptLang

/-- The line on which a text ends that begins on the first one. -/
def lineAfter (text : List Char) : Nat :=
  1 + newlines text

/-- The line is one of the source: from the first to the one that the source ends on. -/
def Json.IsLineOf (source : String) (line : Json) : Prop :=
  ∃ n : Nat, line = .int n ∧ 1 ≤ n ∧ n ≤ lineAfter source.toList

/-- The line on which a part of the source ends that it begins with is one of its lines. -/
theorem isLineOf_lineAfter {source : String} {before : List Char} (after : List Char)
    (h : source.toList = before ++ after) : Json.IsLineOf source (.int (lineAfter before)) := by
  refine ⟨_, rfl, Nat.le_add_right _ _, ?_⟩
  rw [h, lineAfter, lineAfter, Grammar.newlines_append]
  omega

/-! ### Tokens -/

/-- In the row of pieces the token of number `i` is the one of its lexeme of that number, counted
from zero, or the one for the end behind all lexemes. Its line is the one on which the lexeme ends,
the first piece beginning on `line`. -/
inductive StandsAt (line : Nat) (pieces : List Piece) (i : Nat) (t : Token) : Prop where
  | lexeme (before : List Piece) {after : List Piece} {piece : Piece}
      (hpieces : pieces = before ++ piece :: after)
      (hnumber : (before.filter Piece.isLexeme).length = i)
      (hyields : Yields piece t)
      (hline : t.line = .int (line + newlines ((before ++ [piece]).flatMap Piece.chars) : Nat))
  | endOfInput (hnumber : (pieces.filter Piece.isLexeme).length = i)
      (hend : t = endToken (line + newlines (pieces.flatMap Piece.chars)))

/-- What stands in a row of pieces stands in the row with one more in front of it. -/
theorem StandsAt.cons {line i : Nat} {pieces : List Piece} {piece : Piece} {t : Token}
    (h : StandsAt (line + newlines piece.chars) pieces i t) :
    StandsAt line (piece :: pieces) (i + if piece.isLexeme then 1 else 0) t := by
  have hcount : ∀ others : List Piece, ((piece :: others).filter Piece.isLexeme).length =
      (others.filter Piece.isLexeme).length + if piece.isLexeme then 1 else 0 := by
    intro others
    rw [List.filter_cons]
    split <;> simp
  cases h with
  | lexeme before hpieces hnumber hyields hline =>
      refine .lexeme (piece :: before) (by rw [hpieces]; rfl) ?_ hyields ?_
      · rw [hcount, hnumber]
      · rw [hline, List.cons_append, List.flatMap_cons, Grammar.newlines_append, Nat.add_assoc]
  | endOfInput hnumber hend =>
      refine .endOfInput ?_ ?_
      · rw [hcount, hnumber]
      · rw [hend, List.flatMap_cons, Grammar.newlines_append, Nat.add_assoc]

theorem line_of_token? {line : Nat} {piece : Piece} {t : Token} (h : piece.token? line = some t) :
    t.line = .int line := by
  cases piece <;> cases h <;> rfl

/-- **Every token of a row of pieces stands where its line says.** -/
theorem standsAt_of_tokensFrom {line i : Nat} {pieces : List Piece} {t : Token}
    (h : (tokensFrom line pieces)[i]? = some t) : StandsAt line pieces i t := by
  induction pieces generalizing line i with
  | nil =>
      obtain ⟨hi, ht⟩ := List.getElem?_eq_some_iff.1 h
      have hzero : i = 0 := by simpa using hi
      subst hzero
      exact .endOfInput rfl ht.symm
  | cons piece pieces ih =>
      rw [tokensFrom_cons] at h
      cases htoken : piece.token? (line + newlines piece.chars) with
      | none =>
          rw [htoken] at h
          simpa [isLexeme_eq_false_of_token? htoken] using (ih h).cons
      | some first =>
          rw [htoken] at h
          obtain ⟨hlexeme, hyields⟩ := yields_of_token? htoken
          cases i with
          | zero =>
              cases h
              refine .lexeme [] rfl rfl hyields ?_
              rw [line_of_token? htoken, List.nil_append, List.flatMap_singleton]
          | succ i => simpa [hlexeme] using (ih h).cons

/-! ### Scans -/

/-- A text that is read up to a character that no class admits. -/
theorem Lexes.flatMap_chars_of_stuck {text : List Char} {pieces : List Piece} {c : Char}
    (h : Lexes text pieces (some c)) : ∃ after, text = pieces.flatMap Piece.chars ++ c :: after := by
  generalize hstuck : some c = stuck at h
  induction h with
  | done => cases hstuck
  | @stuck d cs _ =>
      cases hstuck
      exact ⟨cs, rfl⟩
  | piece hpiece _ ih =>
      obtain ⟨after, hrest⟩ := ih hstuck
      refine ⟨after, ?_⟩
      rw [hpiece.begins.text_eq, hrest, List.flatMap_cons, List.append_assoc]

/-- A newline is a piece of its own, so no scan is stuck at one. -/
theorem ne_newline_of_not_admitted {c : Char} (h : ¬ Admitted c) : c ≠ '\n' := by
  rintro rfl
  exact h ⟨.newline, [], trivial, rfl⟩

theorem Lexes.not_admitted {text : List Char} {pieces : List Piece} {c : Char}
    (h : Lexes text pieces (some c)) : ¬ Admitted c := by
  generalize hstuck : some c = stuck at h
  induction h with
  | done => cases hstuck
  | stuck hnot =>
      cases hstuck
      exact hnot
  | piece _ _ ih => exact ih hstuck

/-- **A scan that fails names the line of the character that it fails at**, a character that no
class admits behind the pieces in front of it. -/
theorem error_of_scan {source : String} {e : ScanError} (h : scan source = .error e) :
    ∃ pieces c after, Lexes source.toList pieces (some c) ∧
      source.toList = pieces.flatMap Piece.chars ++ c :: after ∧ e.fault = .unidentified c ∧
      e.line = lineAfter (pieces.flatMap Piece.chars ++ [c]) := by
  simp only [scan, scanChars] at h
  split at h
  · next c hstuck =>
    cases h
    have hlexes : Lexes source.toList (tile source.toList).pieces (some c) :=
      lexes_iff.2 (by rw [← hstuck])
    obtain ⟨after, htext⟩ := hlexes.flatMap_chars_of_stuck
    refine ⟨_, c, after, hlexes, htext, rfl, ?_⟩
    have hnewline : newlines [c] = 0 :=
      List.count_eq_zero.2 fun hmem =>
        ne_newline_of_not_admitted hlexes.not_admitted (List.mem_singleton.1 hmem).symm
    rw [lastLine, lineAfter, Grammar.newlines_append, hnewline, Nat.add_zero]
  · cases h

/-- **Every token of a scan stands where its line says**, and what the scan leaves open is reported
on the last line. -/
theorem standsAt_of_scan {source : String} {scanned : Scan} (h : scan source = .ok scanned) :
    ∃ pieces, Lexes source.toList pieces none ∧ source.toList = pieces.flatMap Piece.chars ∧
      (∀ i t, scanned.tokens[i]? = some t → StandsAt 1 pieces i t) ∧
      ∀ e, scanned.recovered = some e → e.line = lineAfter source.toList := by
  obtain ⟨hstuck, htokens, hrecovered⟩ := tiled_of_scan h
  have hlexes : Lexes source.toList (tile source.toList).pieces none :=
    lexes_iff.2 (by rw [← hstuck])
  rw [htokens, hrecovered]
  refine ⟨_, hlexes, hlexes.flatMap_chars, fun i t => standsAt_of_tokensFrom, ?_⟩
  intro e he
  obtain ⟨fault, -, rfl⟩ := Option.map_eq_some_iff.1 he
  rw [lastLine, ← hlexes.flatMap_chars, lineAfter]

/-- The line of what stands in the pieces of a source is one of its lines. -/
theorem StandsAt.isLineOf {source : String} {pieces : List Piece} {i : Nat} {t : Token}
    (h : StandsAt 1 pieces i t) (hsource : source.toList = pieces.flatMap Piece.chars) :
    t.line.IsLineOf source := by
  cases h with
  | @lexeme before after piece hpieces hnumber hyields hline =>
      rw [hline]
      refine isLineOf_lineAfter (after.flatMap Piece.chars) ?_
      rw [hsource, hpieces]
      simp
  | endOfInput hnumber hend =>
      rw [hend]
      exact isLineOf_lineAfter [] (by rw [hsource, List.append_nil])

/-- **Tokens have lines of their source.** -/
theorem isLineOf_of_scan {source : String} {scanned : Scan} (h : scan source = .ok scanned)
    {t : Token} (ht : t ∈ scanned.tokens) : t.line.IsLineOf source := by
  obtain ⟨pieces, -, hsource, hstands, -⟩ := standsAt_of_scan h
  obtain ⟨i, hi⟩ := List.getElem?_of_mem ht
  exact (hstands i t hi).isLineOf hsource

end ScriptLang
