import ScriptLang.Proofs.Source.Seam

/-!
# Lexemes with blanks between them

The text of a token list: its lexemes in their order with a single blank between any two. It is
scanned as the same tokens, on other lines. Each lexeme ends in front of the blank behind it, so none
of them runs into the next one: not two marks into a longer mark or the beginning of a comment, not
digits and a point into a fraction, not two words into one.

## Main Definitions

* `respaced`: the lexemes of a token list with blanks between them.

## Main Statements

* `tile_intersperse`: the pieces of lexemes with blanks between them.
* `scan_respaced`: the lexemes of a scan are scanned as the same tokens again.

## Design Notes

What a source leaves open at its end has no token, so nothing of it is left in the text.
-/

namespace ScriptLang

/-- The lexemes of a token list with a blank between any two. The last token, which stands for the
end of the input, has no lexeme. -/
def respaced (tokens : List Token) : String :=
  String.intercalate " " (tokens.dropLast.map fun t => t.lexeme.shown)

/-! ### Pieces -/

/-- **Lexemes with a blank between any two** are scanned as these lexemes and blanks. -/
theorem tile_intersperse {pieces : List Piece}
    (h : ∀ piece ∈ pieces, piece.WellFormed ∧ piece.isLexeme = true) :
    tile ((pieces.intersperse (.blank ' ')).flatMap Piece.chars) =
      { pieces := pieces.intersperse (.blank ' '), stuck := none } := by
  induction pieces with
  | nil => exact tile_nil
  | cons piece pieces ih =>
      rw [List.forall_mem_cons] at h
      obtain ⟨c, cs, hchars, hnext⟩ := h.1.1.next_chars
      cases pieces with
      | nil =>
          rw [List.intersperse_singleton, List.flatMap_singleton, hchars, tile_of_next hnext,
            tile_nil]
      | cons other pieces =>
          have hblank (rest : List Char) : Piece.next ' ' rest = some (.blank ' ', rest) := rfl
          have hgap := next_append separates_blank hnext (Piece.endsAt_of_isLexeme h.1.2)
            ((List.intersperse (.blank ' ') (other :: pieces)).flatMap Piece.chars)
          rw [List.nil_append] at hgap
          rw [List.intersperse_cons_cons, List.flatMap_cons, List.flatMap_cons, hchars]
          change tile (c :: (cs ++ ' ' :: List.flatMap _ _)) = _
          rw [tile_of_next hgap, tile_of_next (hblank _), ih h.2]

theorem mem_intersperse {piece : Piece} {pieces : List Piece}
    (h : piece ∈ pieces.intersperse (.blank ' ')) : piece = .blank ' ' ∨ piece ∈ pieces := by
  induction pieces with
  | nil => cases h
  | cons first pieces ih =>
      cases pieces with
      | nil => exact .inr h
      | cons other pieces =>
          rw [List.intersperse_cons_cons, List.mem_cons, List.mem_cons] at h
          rcases h with rfl | h | h
          · exact .inr List.mem_cons_self
          · exact .inl h
          · exact (ih h).imp_right (List.mem_cons_of_mem _)

theorem filter_intersperse {pieces : List Piece}
    (h : ∀ piece ∈ pieces, piece.isLexeme = true) :
    (pieces.intersperse (.blank ' ')).filter Piece.isLexeme = pieces := by
  induction pieces with
  | nil => rfl
  | cons piece pieces ih =>
      rw [List.forall_mem_cons] at h
      cases pieces with
      | nil => rw [List.intersperse_singleton, List.filter_cons_of_pos h.1, List.filter_nil]
      | cons other pieces =>
          rw [List.intersperse_cons_cons, List.filter_cons_of_pos h.1,
            List.filter_cons_of_neg (Bool.false_ne_true), ih h.2]

theorem openFault?_of_isLexeme {piece : Piece} (h : piece.isLexeme = true) :
    piece.openFault? = none := by
  cases piece with
  | openString | openComment => cases h
  | _ => rfl

/-! ### Tokens -/

/-- Two tokens of the same kind, text and value. -/
structure Token.SameButLine (t t' : Token) : Prop where
  kind : t.kind = t'.kind
  lexeme : t.lexeme = t'.lexeme
  literal : t.literal = t'.literal

/-- The table of reserved words gives each word one kind. -/
theorem reserved_unique {word : List Char} {kind kind' : TokenKind}
    (h : (word, kind) ∈ TokenKind.reserved) (h' : (word, kind') ∈ TokenKind.reserved) :
    kind = kind' := by
  have hunique : ∀ entry ∈ TokenKind.reserved, ∀ other ∈ TokenKind.reserved,
      entry.1 = other.1 → entry.2 = other.2 := by decide
  exact hunique _ h _ h' rfl

/-- A lexeme has one token, up to its line. -/
theorem Yields.sameButLine {piece : Piece} {t t' : Token} (h : Yields piece t)
    (h' : Yields piece t') : t.SameButLine t' := by
  refine ⟨?_, h.lexeme_eq.trans h'.lexeme_eq.symm, h.literal_eq h'⟩
  cases h with
  | keyword hmem =>
      cases h' with
      | keyword hmem' => exact reserved_unique hmem hmem'
      | identifier hno => exact absurd hmem (hno _)
  | identifier hno =>
      cases h' with
      | keyword hmem => exact absurd hmem (hno _)
      | identifier => rfl
  | _ => cases h'; rfl

theorem sameButLine_of_yields {pieces : List Piece} {ts ts' : List Token}
    (h : List.Forall₂ Yields pieces ts) (h' : List.Forall₂ Yields pieces ts') :
    List.Forall₂ Token.SameButLine ts ts' := by
  induction h generalizing ts' with
  | nil => cases h'; exact .nil
  | cons hfirst _ ih =>
      obtain _ | ⟨hfirst', hothers'⟩ := h'
      exact .cons (hfirst.sameButLine hfirst') (ih hothers')

/-- **Rows of pieces with the same lexemes have the same tokens**, up to their lines. -/
theorem tokensFrom_sameButLine {pieces others : List Piece}
    (h : pieces.filter Piece.isLexeme = others.filter Piece.isLexeme) (line line' : Nat) :
    List.Forall₂ Token.SameButLine (tokensFrom line pieces) (tokensFrom line' others) := by
  obtain ⟨ts, last, hts, hyields⟩ := tokensFrom_yields line pieces
  obtain ⟨ts', last', hts', hyields'⟩ := tokensFrom_yields line' others
  rw [hts, hts']
  rw [h] at hyields
  exact List.rel_append (sameButLine_of_yields hyields hyields') (.cons ⟨rfl, rfl, rfl⟩ .nil)

theorem texts_of_yields {pieces : List Piece} {ts : List Token}
    (h : List.Forall₂ Yields pieces ts) :
    ts.map (fun t => t.lexeme.shown.toList) = pieces.map Piece.chars := by
  induction h with
  | nil => rfl
  | cons hfirst _ ih => rw [List.map_cons, List.map_cons, ih, hfirst.lexeme_eq, Json.shown_str,
      String.toList_ofList]

theorem flatMap_intersperse (pieces : List Piece) :
    (pieces.intersperse (.blank ' ')).flatMap Piece.chars =
      List.intercalate [' '] (pieces.map Piece.chars) := by
  induction pieces with
  | nil => rfl
  | cons piece pieces ih =>
      cases pieces with
      | nil => simp
      | cons other pieces =>
          rw [List.intersperse_cons_cons, List.flatMap_cons, List.flatMap_cons, ih, List.map_cons,
            List.map_cons, List.map_cons, List.intercalate_cons_cons, List.append_assoc]
          rfl

/-- The text of the tokens of pieces is that of their lexemes with blanks between them. -/
theorem toList_respaced (line : Nat) (pieces : List Piece) :
    (respaced (tokensFrom line pieces)).toList =
      ((pieces.filter Piece.isLexeme).intersperse (.blank ' ')).flatMap Piece.chars := by
  obtain ⟨ts, last, hts, hyields⟩ := tokensFrom_yields line pieces
  rw [respaced, hts, List.dropLast_concat, String.toList_intercalate, List.map_map,
    flatMap_intersperse, ← texts_of_yields hyields]
  rfl

/-! ### Scans -/

/-- **The lexemes of a scan, with blanks between them, are scanned as the same tokens again**, and
nothing is left open. -/
theorem scan_respaced {source : String} {scanned : Scan} (h : scan source = .ok scanned) :
    ∃ again, scan (respaced scanned.tokens) = .ok again ∧ again.recovered = none ∧
      List.Forall₂ Token.SameButLine scanned.tokens again.tokens := by
  obtain ⟨hstuck, htokens, -⟩ := tiled_of_scan h
  have hlexes : Lexes source.toList (tile source.toList).pieces none :=
    lexes_iff.2 (by rw [← hstuck])
  have hlexemes : ∀ piece ∈ (tile source.toList).pieces.filter Piece.isLexeme,
      piece.WellFormed ∧ piece.isLexeme = true := by
    intro piece hmem
    rw [List.mem_filter] at hmem
    exact ⟨hlexes.wellFormed_of_mem hmem.1, hmem.2⟩
  have htile := tile_intersperse hlexemes
  rw [← toList_respaced 1, ← htokens] at htile
  have hclosed : (((tile source.toList).pieces.filter Piece.isLexeme).intersperse
      (.blank ' ')).getLast?.bind Piece.openFault? = none := by
    rw [Option.bind_eq_none_iff]
    intro piece hlast
    rcases mem_intersperse (List.mem_of_getLast? hlast) with rfl | hmem
    · rfl
    · exact openFault?_of_isLexeme (hlexemes piece hmem).2
  refine ⟨_, by simp only [scan, scanChars, htile]; rfl, ?_, ?_⟩
  · simp only [hclosed]
    rfl
  · rw [htokens]
    refine tokensFrom_sameButLine ?_ 1 1
    rw [filter_intersperse fun piece hmem => (hlexemes piece hmem).2]

/-- Lexemes that other layout would fuse, in front of a string that is left open. -/
def unfusedSource : String :=
  "!/**/=1 .5/ /x or y\"/*\n\"\"open"

/-- None of them is fused with the next one, and what is left open is gone. -/
theorem scan_respaced_unfusedSource :
    ∃ scanned again, scan unfusedSource = .ok scanned ∧
      respaced scanned.tokens = "! = 1 . 5 / / x or y \"/*\n\"" ∧
      scan (respaced scanned.tokens) = .ok again ∧ again.recovered = none ∧
      List.Forall₂ Token.SameButLine scanned.tokens again.tokens := by
  have hstuck : (tile unfusedSource.toList).stuck = none := by cbv
  have hchars : (((tile unfusedSource.toList).pieces.filter Piece.isLexeme).intersperse
      (.blank ' ')).flatMap Piece.chars = "! = 1 . 5 / / x or y \"/*\n\"".toList := by
    cbv
  have hscan : ∃ scanned, scan unfusedSource = .ok scanned := by
    simp only [scan, scanChars, hstuck]
    exact ⟨_, rfl⟩
  obtain ⟨scanned, hscan⟩ := hscan
  have htext : respaced scanned.tokens = "! = 1 . 5 / / x or y \"/*\n\"" := by
    rw [← String.toList_inj, (tiled_of_scan hscan).2.1, toList_respaced, hchars]
  obtain ⟨again, hagain, hrecovered, hsame⟩ := scan_respaced hscan
  exact ⟨scanned, again, hscan, htext, hagain, hrecovered, hsame⟩

end ScriptLang
