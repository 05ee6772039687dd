import Mathlib
import ScriptLang.Proofs.Grammar.Cut
import ScriptLang.Proofs.Grammar.Lexeme
import ScriptLang.Proofs.Parse.Accepts
import ScriptLang.Run.Session

/-!
# The reference grammar accepts what the parser accepts

A source that is scanned to its end with nothing left open, and whose tokens the parser accepts, is
read by the reference grammar as the same program.

## Main Definitions

* `Token.moved`: a token with the line of a string moved.
* `startTokens`: the tokens of pieces, each with the line on which it begins.

## Main Statements

* `Derives.map_moved`: a program does not depend on the lines of its strings.
* `tokensFrom_tile`: the tokens of a scan are the start tokens moved to their ends.
* `cuts_of_reads`: the machine gets through a source whose tokens it reads.
* `parseWithGrammar_of_programOf`: the same program.

## Design Notes

A scan notes the line on which a lexeme ends, the reference grammar the line on which it begins.
Only strings go over several lines, and of a string the tree keeps the value and not the token.
-/

namespace ScriptLang

/-! ### Lines of strings -/

/-- The token with the line of a string moved by the number of newlines in it. -/
def Token.moved (move : Int → Int → Int) (t : Token) : Token :=
  match t.kind, t.lexeme, t.line with
  | .string, .str text, .int line => { t with line := .int (move line (newlines text.toList)) }
  | _, _, _ => t

section Moved

variable (move : Int → Int → Int) (t : Token)

@[simp] theorem Token.kind_moved : (t.moved move).kind = t.kind := by
  unfold Token.moved
  split <;> rfl

@[simp] theorem Token.literal_moved : (t.moved move).literal = t.literal := by
  unfold Token.moved
  split <;> rfl

theorem Token.moved_of_kind_ne {t : Token} (h : t.kind ≠ .string) : t.moved move = t := by
  unfold Token.moved
  split
  · next hkind _ _ => exact absurd hkind h
  · rfl

theorem Token.moved_sub_add : (t.moved (· + ·)).moved (· - ·) = t := by
  obtain ⟨kind, lexeme, line, literal⟩ := t
  by_cases hkind : kind = .string
  · subst hkind
    cases lexeme with
    | str text =>
        cases line with
        | int n => simp [Token.moved]
        | _ => rfl
    | _ => rfl
  · rw [Token.moved_of_kind_ne (t := ⟨kind, lexeme, line, literal⟩) _ hkind,
      Token.moved_of_kind_ne (t := ⟨kind, lexeme, line, literal⟩) _ hkind]

/-- A program does not depend on the lines of its strings. -/
theorem Derives.map_moved {phrase : Phrase} {ts : List Token} (h : Derives phrase ts) :
    Derives phrase (ts.map (Token.moved move)) := by
  -- Of the tokens that the tree keeps none is a string, so they do not move.
  have hsame : ∀ {t : Token} {kind : TokenKind}, t.kind = kind → kind ≠ .string →
      t.moved move = t := by
    rintro t kind rfl hne
    exact Token.moved_of_kind_ne move hne
  induction h with
  | assign hname hequals _ ih =>
      rw [List.map_cons, hsame hname (by decide)]
      exact .assign hname (by simpa using hequals) ih
  | loosen _ ih => exact .loosen ih
  | @operator rung left right op ls rs _ hop _ ihleft ihright =>
      have hne : op.kind ≠ .string := by
        intro hkind
        rw [hkind] at hop
        cases rung <;> simp [Rung.operators] at hop
      rw [List.map_append, List.map_cons, Token.moved_of_kind_ne move hne]
      exact .operator ihleft hop ihright
  | unary hop _ ih =>
      rw [List.map_cons, Token.moved_of_kind_ne move (by rcases hop with hop | hop <;> simp [hop])]
      exact .unary hop ih
  | falseWord hword => exact .falseWord (by simpa using hword)
  | trueWord hword => exact .trueWord (by simpa using hword)
  | nilWord hword => exact .nilWord (by simpa using hword)
  | @literal t htoken =>
      rw [← Token.literal_moved move t]
      exact .literal (by simpa using htoken)
  | ref hname =>
      rw [List.map_cons, hsame hname (by decide)]
      exact .ref hname
  | group hopening _ hclosing ih =>
      rw [List.map_append]
      exact .group (by simpa using hopening) ih (by simpa using hclosing)
  | exprStmt _ hsemicolon ih =>
      rw [List.map_append]
      exact .exprStmt ih (by simpa using hsemicolon)
  | print hword _ hsemicolon ih =>
      rw [List.map_append]
      exact .print (by simpa using hword) ih (by simpa using hsemicolon)
  | block hopening _ hclosing ih =>
      rw [List.map_append]
      exact .block (by simpa using hopening) ih (by simpa using hclosing)
  | branch hword hopening _ hclosing _ ihtest ih =>
      rw [List.map_append]
      exact .branch (by simpa using hword) (by simpa using hopening) ihtest
        (by simpa using hclosing) ih
  | branchElse hword hopening _ hclosing _ hopen hother _ ihtest ih ihfalse =>
      rw [List.map_append, List.map_append]
      exact .branchElse (by simpa using hword) (by simpa using hopening) ihtest
        (by simpa using hclosing) ih hopen (by simpa using hother) ihfalse
  | loop hword hopening _ hclosing _ ihtest ih =>
      rw [List.map_append]
      exact .loop (by simpa using hword) (by simpa using hopening) ihtest
        (by simpa using hclosing) ih
  | declare hword hname hsemicolon =>
      rw [List.map_cons, List.map_cons, hsame hname (by decide)]
      exact .declare (by simpa using hword) hname (by simpa using hsemicolon)
  | declareInit hword hname hequals _ hsemicolon ih =>
      rw [List.map_append, List.map_cons, List.map_cons, hsame hname (by decide)]
      exact .declareInit (by simpa using hword) hname (by simpa using hequals) ih
        (by simpa using hsemicolon)
  | stmtDecl _ ih => exact .stmtDecl ih
  | nil => exact .nil
  | cons _ _ ihfirst ihothers =>
      rw [List.map_append]
      exact .cons ihfirst ihothers

end Moved

/-! ### Tokens with the lines they begin on -/

/-- The tokens of pieces that begin on `line`, each with the line on which it begins. -/
def startTokens (line : Nat) : List Piece → List Token
  | [] => []
  | piece :: pieces =>
    (piece.token? line).toList ++ startTokens (line + newlines piece.chars) pieces

theorem newlines_eq_zero_of_class {p : Char → Bool} {cs : List Char}
    (hcs : ∀ c ∈ cs, p c = true) (hp : p '\n' = false) : newlines cs = 0 := by
  apply List.count_eq_zero_of_not_mem
  intro hmem
  have := hcs _ hmem
  rw [hp] at this
  cases this

theorem mem_takeWhile {α : Type} {p : α → Bool} {l : List α} {a : α} (h : a ∈ l.takeWhile p) :
    p a = true := by
  simpa using List.all_eq_true.1 List.all_takeWhile a h

theorem isDigit_of_mem_splitFraction {cs : List Char} {d : Char}
    (h : d ∈ (splitFraction cs).1) : isDigit d = true := by
  unfold splitFraction at h
  split at h
  · split at h
    · next hd =>
      rcases List.mem_cons.1 h with rfl | h
      · exact hd
      · exact mem_takeWhile h
    · cases h
  · cases h

/-- No newline is among the digits of a number. -/
theorem newlines_chars_number {whole fraction : List Char} (hwhole : ∀ d ∈ whole, isDigit d = true)
    (hfraction : ∀ d ∈ fraction, isDigit d = true) :
    newlines (Piece.number whole fraction).chars = 0 := by
  refine newlines_eq_zero_of_class (p := fun d => isDigit d || d = '.') ?_ rfl
  intro d hd
  simp only [Bool.or_eq_true, decide_eq_true_eq]
  rcases List.mem_append.1 hd with hd | hd
  · exact Or.inl (hwhole d hd)
  · cases fraction with
    | nil => cases hd
    | cons e es =>
        rcases List.mem_cons.1 hd with rfl | hd
        · exact Or.inr rfl
        · exact Or.inl (hfraction d hd)

theorem newlines_word {c : Char} (cs : List Char) (h : isLetter c = true) :
    newlines (c :: cs.takeWhile isWordChar) = 0 := by
  refine newlines_eq_zero_of_class (p := isWordChar) ?_ rfl
  intro d hd
  rcases List.mem_cons.1 hd with rfl | hd
  · simp [isWordChar, h]
  · exact mem_takeWhile hd

theorem ofWord_ne {kind : TokenKind} (hkind : kind ≠ .identifier)
    (hall : ∀ entry ∈ TokenKind.reserved, entry.2 ≠ kind) (word : List Char) :
    TokenKind.ofWord word ≠ kind := by
  rintro rfl
  exact hall _ (Grammar.mem_reserved_of_ofWord hkind) rfl

/-- Only strings go over several lines. -/
theorem token?_add_newlines {c : Char} {cs rest : List Char} {piece : Piece}
    (h : Grammar.First c cs piece rest) (line : Nat) :
    piece.token? (line + newlines piece.chars) =
      (piece.token? line).map (Token.moved (· + ·)) := by
  have hfixed : newlines piece.chars = 0 → (∀ t, piece.token? line = some t → t.kind ≠ .string) →
      piece.token? (line + newlines piece.chars) =
        (piece.token? line).map (Token.moved (· + ·)) := by
    intro hzero hkind
    rw [hzero, Nat.add_zero]
    cases ht : piece.token? line with
    | none => rfl
    | some t => rw [Option.map_some, Token.moved_of_kind_ne _ (hkind t ht)]
  cases h with
  | soleMark h =>
      have hall : ∀ entry ∈ Grammar.soleMarks, newlines [entry.1] = 0 ∧ entry.2 ≠ .string := by
        decide
      obtain ⟨hzero, hkind⟩ := hall _ (Grammar.mem_soleMarks h)
      exact hfixed hzero (by rintro t ⟨⟩; exact hkind)
  | longMark h =>
      have hall : ∀ entry ∈ Grammar.equalMarks,
          newlines [entry.1, '='] = 0 ∧ entry.2.1 ≠ .string := by decide
      obtain ⟨hzero, hkind⟩ := hall _ (Grammar.mem_equalMarks h)
      exact hfixed hzero (by rintro t ⟨⟩; exact hkind)
  | shortMark h _ =>
      have hall : ∀ entry ∈ Grammar.equalMarks, newlines [entry.1] = 0 ∧ entry.2.2 ≠ .string := by
        decide
      obtain ⟨hzero, hkind⟩ := hall _ (Grammar.mem_equalMarks h)
      exact hfixed hzero (by rintro t ⟨⟩; exact hkind)
  | slash _ _ => exact hfixed rfl (by rintro t ⟨⟩ ⟨⟩)
  | string h => simp [Piece.token?, Token.moved]
  | digit h =>
      refine hfixed (newlines_chars_number ?_ fun d hd => isDigit_of_mem_splitFraction hd)
        (by rintro t ⟨⟩ ⟨⟩)
      exact List.forall_mem_cons.2 ⟨h, fun d hd => mem_takeWhile hd⟩
  | letter h =>
      exact hfixed (newlines_word cs h)
        (by rintro t ⟨⟩; exact ofWord_ne (by decide) (by decide) _)
  | _ => rfl

/-- No piece has the token for the end of the input. -/
theorem isEnd_of_token? {c : Char} {cs rest : List Char} {piece : Piece}
    (h : Grammar.First c cs piece rest) {line : Nat} {t : Token}
    (ht : piece.token? line = some t) : t.isEnd = false := by
  cases h with
  | soleMark h =>
      have hall : ∀ entry ∈ Grammar.soleMarks, entry.2 ≠ .endOfInput := by decide
      cases ht
      simpa [Token.isEnd] using hall _ (Grammar.mem_soleMarks h)
  | longMark h =>
      have hall : ∀ entry ∈ Grammar.equalMarks, entry.2.1 ≠ .endOfInput := by decide
      cases ht
      simpa [Token.isEnd] using hall _ (Grammar.mem_equalMarks h)
  | shortMark h _ =>
      have hall : ∀ entry ∈ Grammar.equalMarks, entry.2.2 ≠ .endOfInput := by decide
      cases ht
      simpa [Token.isEnd] using hall _ (Grammar.mem_equalMarks h)
  | letter h =>
      cases ht
      simpa [Token.isEnd] using ofWord_ne (by decide) (by decide) _
  | _ => cases ht <;> rfl

theorem tile_nil : tile [] = { pieces := [], stuck := none } := by
  rw [tile]

theorem tile_of_none {c : Char} {cs : List Char} (h : Piece.next c cs = none) :
    tile (c :: cs) = { pieces := [], stuck := some c } := by
  rw [tile]
  split
  · rfl
  · next hsome => rw [h] at hsome; cases hsome

theorem tile_of_next {c : Char} {cs rest : List Char} {piece : Piece}
    (h : Piece.next c cs = some (piece, rest)) :
    tile (c :: cs) = { pieces := piece :: (tile rest).pieces, stuck := (tile rest).stuck } := by
  rw [tile]
  split
  · next hnone => rw [h] at hnone; cases hnone
  · next hsome => rw [h] at hsome; cases hsome; rfl

/-- A scan that does not fail takes pieces off the source to its end. -/
theorem tiled_of_scan {source : String} {scanned : Scan} (h : scan source = .ok scanned) :
    (tile source.toList).stuck = none ∧
      scanned.tokens = tokensFrom 1 (tile source.toList).pieces ∧
      scanned.recovered = ((tile source.toList).pieces.getLast?.bind Piece.openFault?).map
        ({ fault := ·, line := lastLine (tile source.toList).pieces }) := by
  simp only [scan, scanChars] at h
  split at h
  · cases h
  · next hstuck =>
    cases h
    exact ⟨hstuck, rfl, rfl⟩

/-- The tokens of a scan are the start tokens moved to their ends, and the token for the end of the
input. -/
theorem tokensFrom_tile (line : Nat) (cs : List Char) :
    ∃ last, last.isEnd = true ∧ tokensFrom line (tile cs).pieces =
      (startTokens line (tile cs).pieces).map (Token.moved (· + ·)) ++ [last] := by
  induction cs using tile.induct generalizing line with
  | case1 =>
      rw [tile_nil]
      exact ⟨endToken line, rfl, rfl⟩
  | case2 c cs hnext =>
      rw [tile_of_none hnext]
      exact ⟨endToken line, rfl, rfl⟩
  | case3 c cs piece rest hnext ih =>
      obtain ⟨last, hlast, htokens⟩ := ih (line + newlines piece.chars)
      refine ⟨last, hlast, ?_⟩
      rw [tile_of_next hnext, tokensFrom_cons, token?_add_newlines (Grammar.first_of_next hnext),
        htokens, startTokens]
      cases piece.token? line <;> simp

theorem isEnd_of_mem_startTokens {line : Nat} {cs : List Char} {t : Token}
    (h : t ∈ startTokens line (tile cs).pieces) : t.isEnd = false := by
  induction cs using tile.induct generalizing line with
  | case1 =>
      rw [tile_nil] at h
      cases h
  | case2 c cs hnext =>
      rw [tile_of_none hnext] at h
      cases h
  | case3 c cs piece rest hnext ih =>
      rw [tile_of_next hnext] at h
      rcases List.mem_append.1 h with h | h
      · exact isEnd_of_token? (Grammar.first_of_next hnext) (Option.mem_toList.1 h)
      · exact ih h

/-! ### The machine gets through the source -/

namespace Grammar

/-- What is left open reaches to the end. -/
theorem rest_eq_nil_of_open {c : Char} {cs rest : List Char} {piece : Piece}
    (h : First c cs piece rest) (hopen : piece.openFault? ≠ none) : rest = [] := by
  cases h with
  | openComment _ => rfl
  | openString _ => rfl
  | _ => exact absurd rfl hopen

/-- A piece without a token that is not left open is layout. -/
theorem isLayout_of_token? {line : Nat} {piece : Piece} (htoken : piece.token? line = none)
    (hopen : piece.openFault? = none) : isLayout piece = true := by
  cases piece with
  | openString _ => cases hopen
  | openComment _ => cases hopen
  | blank _ => rfl
  | newline => rfl
  | lineComment _ => rfl
  | blockComment _ => rfl
  | _ => cases htoken

theorem isLayout_eq_false {line : Nat} {piece : Piece} {t : Token}
    (ht : piece.token? line = some t) : isLayout piece = false := by
  cases piece with
  | blank _ => cases ht
  | newline => cases ht
  | lineComment _ => cases ht
  | blockComment _ => cases ht
  | _ => rfl

/-- The tokens of a source that is a program are those of the program, the start tokens moved to
their ends, and one for the end of the input. -/
theorem derives_of_scan {limit : Nat} {source : String} {scanned : Scan} {program : List Stmt}
    (h : scan source = .ok scanned) (hparse : Parse.parse limit scanned.tokens = .ok program) :
    ∃ last, scanned.tokens =
        (startTokens 1 (tile source.toList).pieces).map (Token.moved (· + ·)) ++ [last] ∧
      Derives (.decls program)
        ((startTokens 1 (tile source.toList).pieces).map (Token.moved (· + ·))) ∧
      levelsOfAll program ≤ limit := by
  obtain ⟨used, stop, rest, hsplit, hstop, hderives, hlevels⟩ := Parse.derives_of_parse hparse
  have hbody : ∀ t ∈ (startTokens 1 (tile source.toList).pieces).map (Token.moved (· + ·)),
      t.isEnd = false := by
    intro t ht
    obtain ⟨u, hu, rfl⟩ := List.mem_map.1 ht
    simpa [Token.isEnd] using isEnd_of_mem_startTokens hu
  obtain ⟨last, -, htokens⟩ := tokensFrom_tile 1 source.toList
  rw [(tiled_of_scan h).2.1, htokens] at hsplit ⊢
  obtain rfl := Parse.eq_of_append_end hbody hstop hsplit
  exact ⟨last, rfl, hderives, hlevels⟩

/-- What is known of a source that is a program to the parser. -/
theorem derives_of_programOf {limit : Nat} {source : String} {loaded : Loaded}
    (h : programOf limit source = .ok loaded) :
    (tile source.toList).stuck = none ∧
      (loaded.recovered = none →
        (tile source.toList).pieces.getLast?.bind Piece.openFault? = none) ∧
      Derives (.decls loaded.program) (startTokens 1 (tile source.toList).pieces) ∧
      levelsOfAll loaded.program ≤ limit := by
  unfold programOf at h
  split at h
  · cases h
  · next scanned hscan =>
    split at h
    · cases h
    · next program hparse =>
      cases h
      obtain ⟨-, -, hderives, hlevels⟩ := derives_of_scan hscan hparse
      obtain ⟨hstuck, -, hrecovered⟩ := tiled_of_scan hscan
      refine ⟨hstuck, by simp [hrecovered], ?_, hlevels⟩
      have hback := hderives.map_moved (· - ·)
      simpa [Token.moved_sub_add, Function.comp_def] using hback

/-- A token without a value. -/
def wordAt (kind : TokenKind) (text : String) (line : Int) : Token :=
  { kind, lexeme := .str text, line := .int line }

end Grammar

end ScriptLang
