import ScriptLang.Proofs.Source.Line
import ScriptLang.Proofs.Tree.Relabel

/-!
# Sources one after the other

Two sources with a newline between them are scanned like each alone, if the first leaves no string
and no comment open: no piece goes on over the newline but those. The tokens of the second are then
as many lines further down as the first has, and so is what the scan reports about it.

## Main Definitions

* `Separates`: characters that no number, no word and no mark goes on with.
* `joined`: a source, a newline, and another source.
* `ScanError.later`: what a scan reports, further down.

## Main Statements

* `next_append`: a piece ends in front of a blank, a newline or a semicolon.
* `tile_append`: the pieces of two sources.
* `scan_joined`: the scan of two sources.
-/

namespace ScriptLang

/-! ### Pieces in front of what separates them -/

section Pieces

variable {c : Char} {cs rest : List Char} {piece : Piece}

/-- What is taken while a property holds ends at a character without it. -/
theorem takeWhile_append_stop {p : Char → Bool} {d : Char} (h : p d = false) (cs ds : List Char) :
    (cs ++ d :: ds).takeWhile p = cs.takeWhile p ∧
      (cs ++ d :: ds).dropWhile p = cs.dropWhile p ++ d :: ds := by
  induction cs with
  | nil => simp [h]
  | cons c cs ih =>
      cases hc : p c with
      | true => simpa [hc] using ih
      | false => simp [hc]

theorem splitComment?_append_right {body after : List Char}
    (h : splitComment? cs = some (body, after)) (ds : List Char) :
    splitComment? (cs ++ ds) = some (body, after ++ ds) := by
  rw [splitComment?_eq_some h, List.append_assoc]
  exact splitComment?_append (not_infix_of_splitComment? h)

theorem nextQuote_append {body after : List Char} (h : Piece.nextQuote cs = (.string body, after))
    (ds : List Char) : Piece.nextQuote (cs ++ ds) = (.string body, after ++ ds) := by
  have htext : '"' :: body ++ '"' :: after = '"' :: cs := by
    have hchars := Piece.chars_nextQuote cs
    rw [h] at hchars
    simpa [Piece.chars] using hchars
  obtain rfl : body ++ '"' :: after = cs := by simpa using htext
  obtain ⟨htake, hdrop⟩ := takeWhile_of_not_mem (wellFormed_of_nextQuote h) (after ++ ds)
  rw [List.append_assoc, List.cons_append]
  simp only [Piece.nextQuote, htake, hdrop]

theorem splitFraction_append {d : Char} (hdigit : isDigit d = false) (hpoint : d ≠ '.')
    (ds : List Char) :
    splitFraction (cs ++ d :: ds) = ((splitFraction cs).1, (splitFraction cs).2 ++ d :: ds) := by
  fun_cases splitFraction cs with
  | case1 e rest he =>
      obtain ⟨htake, hdrop⟩ := takeWhile_append_stop (p := isDigit) hdigit rest ds
      simp only [List.cons_append, splitFraction, he, htake, hdrop, if_true]
  | case2 e rest he =>
      simp only [List.cons_append, splitFraction, he, Bool.false_eq_true, if_false]
  | case3 rest hrest =>
      cases cs with
      | nil =>
          rw [List.nil_append, splitFraction]
          intro e es heq
          exact hpoint (List.cons.inj heq).1
      | cons c more =>
          cases more with
          | nil =>
              by_cases hc : c = '.'
              · subst hc
                simp [splitFraction, hdigit]
              · rw [splitFraction]
                simpa using hc
          | cons e cs =>
              rw [List.cons_append, splitFraction]
              rintro e' es heq
              obtain ⟨rfl, -⟩ := List.cons.inj heq
              exact hrest e cs rfl

/-- A character that no number, no word and no mark goes on with. -/
structure Separates (d : Char) : Prop where
  notDigit : isDigit d = false
  notWordChar : isWordChar d = false
  notInMark : d ∉ ['=', '/', '*', '.']

theorem separates_blank : Separates ' ' := ⟨rfl, rfl, by decide⟩

theorem separates_newline : Separates '\n' := ⟨rfl, rfl, by decide⟩

theorem separates_semicolon : Separates ';' := ⟨rfl, rfl, by decide⟩

/-- The piece does not go on over the separating character `d`: it is closed, and a comment at the
end of a line takes everything but a newline. -/
def Piece.EndsAt (d : Char) : Piece → Prop
  | lineComment _ => d = '\n'
  | openString _ | openComment _ => False
  | _ => True

theorem Piece.endsAt_newline (h : piece.isOpen = false) : piece.EndsAt '\n' := by
  cases piece with
  | lineComment => rfl
  | openString | openComment => cases h
  | _ => trivial

theorem Piece.endsAt_of_isLexeme {d : Char} (h : piece.isLexeme = true) : piece.EndsAt d := by
  cases piece with
  | mark | word | number | string => trivial
  | _ => cases h

/-- **A piece ends in front of a separating character.** -/
theorem next_append {d : Char} (hd : Separates d) (h : Piece.next c cs = some (piece, rest))
    (hends : piece.EndsAt d) (ds : List Char) :
    Piece.next c (cs ++ d :: ds) = some (piece, rest ++ d :: ds) := by
  obtain ⟨hdigit, hword, hmark⟩ := hd
  simp only [List.mem_cons, List.not_mem_nil, not_or] at hmark
  obtain ⟨hequalMark, hslash, hstar, hpoint, -⟩ := hmark
  have hne : ∀ (e : Char) (es : List Char), d ≠ e → (∀ rest, es ≠ e :: rest) →
      ∀ rest, es ++ d :: ds ≠ e :: rest := by
    intro e es he hes rest heq
    cases es with
    | nil => exact he (List.cons.inj heq).1
    | cons f es => exact hes es (by rw [(List.cons.inj heq).1])
  cases Grammar.first_of_next h with
  | soleMark hkind => exact Grammar.next_of_first (.soleMark hkind)
  | longMark hkinds => exact Grammar.next_of_first (.longMark hkinds)
  | shortMark hkinds hequal =>
      exact Grammar.next_of_first (.shortMark hkinds (hne _ _ hequalMark hequal))
  | slash hline hblock =>
      exact Grammar.next_of_first (.slash (hne _ _ hslash hline) (hne _ _ hstar hblock))
  | @lineComment cs =>
      obtain rfl : d = '\n' := hends
      obtain ⟨htake, hdrop⟩ := takeWhile_append_stop (p := (· ≠ '\n')) (d := '\n') rfl cs ds
      rw [← htake, ← hdrop]
      exact Grammar.next_of_first .lineComment
  | blockComment hsplit =>
      exact Grammar.next_of_first (.blockComment (splitComment?_append_right hsplit _))
  | openComment => cases hends
  | blank hblank => exact Grammar.next_of_first (.blank hblank)
  | newline => exact Grammar.next_of_first .newline
  | string hquote => exact Grammar.next_of_first (.string (nextQuote_append hquote _))
  | openString => cases hends
  | digit hfirst =>
      obtain ⟨htake, hdrop⟩ := takeWhile_append_stop hdigit cs ds
      have hnext := @Grammar.First.digit c (cs ++ d :: ds) hfirst
      rw [htake, hdrop, splitFraction_append hdigit hpoint] at hnext
      exact Grammar.next_of_first hnext
  | letter hfirst =>
      obtain ⟨htake, hdrop⟩ := takeWhile_append_stop hword cs ds
      have hnext := @Grammar.First.letter c (cs ++ d :: ds) hfirst
      rw [htake, hdrop] at hnext
      exact Grammar.next_of_first hnext

/-- **The pieces of two sources** with a newline between them are those of each and the newline. -/
theorem tile_append {cs : List Char} (hstuck : (tile cs).stuck = none)
    (hclosed : ∀ piece ∈ (tile cs).pieces, piece.isOpen = false) (ds : List Char) :
    tile (cs ++ '\n' :: ds) =
      { pieces := (tile cs).pieces ++ .newline :: (tile ds).pieces, stuck := (tile ds).stuck } := by
  induction cs using tile.induct with
  | case1 =>
      have hnewline : Piece.next '\n' ds = some (.newline, ds) := rfl
      rw [List.nil_append, tile_of_next hnewline, tile_nil, List.nil_append]
  | case2 c cs hnext =>
      rw [tile_of_none hnext] at hstuck
      cases hstuck
  | case3 c cs piece rest hnext ih =>
      rw [tile_of_next hnext] at hstuck hclosed
      rw [List.forall_mem_cons] at hclosed
      rw [List.cons_append,
        tile_of_next (next_append separates_newline hnext (Piece.endsAt_newline hclosed.1) ds),
        ih hstuck hclosed.2, tile_of_next hnext]
      rfl

end Pieces

/-! ### Tokens further down -/

theorem token?_add (k line : Nat) (piece : Piece) :
    piece.token? (line + k) = (piece.token? line).map (Token.later k) := by
  cases piece <;> simp [Piece.token?, Token.later, Json.later]

/-- Pieces that begin `k` lines further down have their tokens there. -/
theorem tokensFrom_add (k line : Nat) (pieces : List Piece) :
    tokensFrom (line + k) pieces = (tokensFrom line pieces).map (Token.later k) := by
  induction pieces generalizing line with
  | nil => simp [endToken, Token.later, Json.later]
  | cons piece pieces ih =>
      rw [tokensFrom_cons, tokensFrom_cons, Nat.add_right_comm, token?_add, ih, List.map_append]
      cases piece.token? (line + newlines piece.chars) <;> rfl

theorem tokensFrom_ne_nil (line : Nat) (pieces : List Piece) : tokensFrom line pieces ≠ [] := by
  obtain ⟨tokens, last, htokens, -⟩ := tokensFrom_yields line pieces
  simp [htokens]

/-- The tokens of pieces in front of others are those without the one for the end. -/
theorem tokensFrom_append (line : Nat) (pieces others : List Piece) :
    tokensFrom line (pieces ++ others) = (tokensFrom line pieces).dropLast ++
      tokensFrom (line + newlines (pieces.flatMap Piece.chars)) others := by
  induction pieces generalizing line with
  | nil => rfl
  | cons piece pieces ih =>
      rw [List.cons_append, tokensFrom_cons, tokensFrom_cons, ih, List.flatMap_cons,
        Grammar.newlines_append, ← Nat.add_assoc,
        List.dropLast_append_of_ne_nil (tokensFrom_ne_nil _ _), List.append_assoc]

/-! ### Scans -/

/-- The error `k` lines further down. -/
def ScanError.later (k : Nat) (e : ScanError) : ScanError :=
  { e with line := e.line + k }

/-- A source, a newline and another source. -/
def joined (a b : String) : String := a ++ "\n" ++ b

/-- By how many lines a source is moved down that stands behind another one and a newline. -/
def linesOf (a : String) : Nat := newlines a.toList + 1

theorem toList_joined (a b : String) : (joined a b).toList = a.toList ++ '\n' :: b.toList := by
  simp [joined]

/-- Where nothing is recovered from, no piece is open. -/
theorem isOpen_of_recovered {source : String} {scanned : Scan} (h : scan source = .ok scanned)
    (hrecovered : scanned.recovered = none) :
    (tile source.toList).stuck = none ∧
      scanned.tokens = tokensFrom 1 (tile source.toList).pieces ∧
      ∀ piece ∈ (tile source.toList).pieces, piece.isOpen = false := by
  obtain ⟨hstuck, htokens, hfault⟩ := tiled_of_scan h
  refine ⟨hstuck, htokens, fun piece hmem => ?_⟩
  have hlexes : Lexes source.toList (tile source.toList).pieces none :=
    lexes_iff.2 (by rw [← hstuck])
  rw [hfault, Option.map_eq_none_iff] at hrecovered
  rw [← Bool.not_eq_true]
  intro hopen
  have hsome := hlexes.openFault?.2 ⟨piece, hmem, hopen⟩
  rw [hrecovered] at hsome
  cases hsome

/-- **The scan of two sources** with a newline between them is that of each, what belongs to the
second being further down. -/
theorem scan_joined {a b : String} {scanned : Scan} (ha : scan a = .ok scanned)
    (hrecovered : scanned.recovered = none) :
    scan (joined a b) =
      match scan b with
      | .error e => .error (e.later (linesOf a))
      | .ok second => .ok {
          tokens := scanned.tokens.dropLast ++ second.tokens.map (Token.later (linesOf a))
          recovered := second.recovered.map (ScanError.later (linesOf a)) } := by
  obtain ⟨hstuck, htokens, hclosed⟩ := isOpen_of_recovered ha hrecovered
  have hlexes : Lexes a.toList (tile a.toList).pieces none := lexes_iff.2 (by rw [← hstuck])
  have hnewlines : newlines ((tile a.toList).pieces.flatMap Piece.chars) = newlines a.toList := by
    rw [← hlexes.flatMap_chars]
  have hline : ∀ pieces, lastLine ((tile a.toList).pieces ++ .newline :: pieces) =
      lastLine pieces + linesOf a := by
    intro pieces
    have hchars : newlines Piece.newline.chars = 1 := rfl
    simp only [lastLine, linesOf, List.flatMap_append, List.flatMap_cons, Grammar.newlines_append,
      hnewlines, hchars]
    omega
  have hbody : ∀ pieces, tokensFrom 1 ((tile a.toList).pieces ++ .newline :: pieces) =
      scanned.tokens.dropLast ++ (tokensFrom 1 pieces).map (Token.later (linesOf a)) := by
    intro pieces
    have hskip : ∀ line, tokensFrom line (.newline :: pieces) = tokensFrom (line + 1) pieces :=
      fun line => rfl
    rw [tokensFrom_append, ← htokens, hnewlines, hskip, Nat.add_assoc, tokensFrom_add]
    rfl
  have hlast : ∀ pieces : List Piece,
      ((tile a.toList).pieces ++ .newline :: pieces).getLast?.bind Piece.openFault? =
        pieces.getLast?.bind Piece.openFault? := by
    intro pieces
    cases pieces with
    | nil => simp [Piece.openFault?]
    | cons piece pieces => rw [List.getLast?_append_of_ne_nil _ (List.cons_ne_nil _ _),
        List.getLast?_cons_cons]
  simp only [scan, scanChars, toList_joined, tile_append hstuck hclosed]
  cases (tile b.toList).stuck with
  | some c => simp [hline, ScanError.later]
  | none =>
      simp only [hbody, hlast, hline, Option.map_map]
      rfl

end ScriptLang
