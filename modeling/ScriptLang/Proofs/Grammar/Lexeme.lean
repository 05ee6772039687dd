import ScriptLang.Grammar.Lexer

/-!
# Pieces and lexemes

A scan takes the longest piece off a text; lexing by position takes what the position accepts. Which
of its rules lexing uses is decided by the first character, as for a scan. This module says for each
class of first characters what lexing gives, and compares it with the piece that a scan takes.

## Main Statements

* `lexAt_letter`, `lexAt_digit`, `lexAt_quote`, `lexAt_slash`, `lexAt_soleMark`,
  `lexAt_equalMark`: lexing by the first character.
* `next_of_first`, `first_of_next`: the piece in front of a text by the first characters.
* `layoutPiece?_of_first`: which pieces are layout.
* `lexAt_of_first`: a piece whose token is accepted is the lexeme.
-/

namespace ScriptLang.Grammar

/-! ### Classes of characters -/

theorem ne_of_class {p : Char → Bool} {c d : Char} (hc : p c = true) (hd : p d = false) :
    c ≠ d := by
  rintro rfl
  rw [hc] at hd
  cases hd

theorem ne_of_class_of_mem {p : Char → Bool} {c : Char} {ds : List Char} (hc : p c = true)
    (hp : ds.any p = false) : ∀ d ∈ ds, c ≠ d := by
  rintro d hd rfl
  exact List.any_eq_false.1 hp c hd hc

theorem isLetter_eq_false_of_isDigit {c : Char} (h : isDigit c = true) : isLetter c = false := by
  rw [← Bool.not_eq_true]
  intro hletter
  simp only [isDigit, isLetter, Bool.or_eq_true, Bool.and_eq_true, decide_eq_true_eq, Char.le_def,
    UInt32.le_iff_toNat_le] at h hletter
  have hhigh : c.val.toNat ≤ 57 := h.2
  rcases hletter with (hlower | hupper) | rfl
  · have hlow : 97 ≤ c.val.toNat := hlower.1
    omega
  · have hlow : 65 ≤ c.val.toNat := hupper.1
    omega
  · exact absurd hhigh (by decide)

theorem isDigit_eq_false_of_isLetter {c : Char} (h : isLetter c = true) : isDigit c = false := by
  rw [← Bool.not_eq_true]
  intro hdigit
  rw [isLetter_eq_false_of_isDigit hdigit] at h
  cases h

/-- No mark and no blank is in a class that holds none of them. -/
theorem next_of_class {p : Char → Bool} {c : Char} (hc : p c = true)
    (hp : ['(', ')', '\x7b', '\x7d', ',', '.', '-', '+', ';', '*', '!', '=', '<', '>', '/', ' ', '\r',
      '\t', '\n', '"'].any p = false) (cs : List Char) :
    Piece.next c cs =
      if isDigit c then some (Piece.nextDigit c cs)
      else if isLetter c then
        some (.word (c :: cs.takeWhile isWordChar), cs.dropWhile isWordChar)
      else none := by
  have hne := ne_of_class_of_mem hc hp
  simp only [List.forall_mem_cons] at hne
  simp [Piece.next, soleMark?, equalMark?, isLineBlank, hne]

theorem next_of_isLetter {c : Char} (h : isLetter c = true) (cs : List Char) :
    Piece.next c cs =
      some (.word (c :: cs.takeWhile isWordChar), cs.dropWhile isWordChar) := by
  rw [next_of_class h rfl, isDigit_eq_false_of_isLetter h, if_neg Bool.false_ne_true,
    if_pos h]

theorem next_of_isDigit {c : Char} (h : isDigit c = true) (cs : List Char) :
    Piece.next c cs = some (Piece.nextDigit c cs) := by
  rw [next_of_class h rfl, if_pos h]

/-! ### Lexing by the first character -/

section Lexing

variable {accepts : TokenKind → Bool} {c : Char} {cs : List Char}

@[simp] theorem fromTable_nil (text : List Char) : fromTable [] accepts text = none := rfl

@[simp] theorem fromTable_cons (chars : List Char) (kind : TokenKind)
    (table : List (List Char × TokenKind)) (text : List Char) :
    fromTable ((chars, kind) :: table) accepts text =
      if accepts kind && chars.isPrefixOf text then
        some ({ kind, chars }, text.drop chars.length)
      else fromTable table accepts text := by
  simp only [fromTable, List.findSome?_cons]
  split <;> simp_all

/-- No entry of the table begins with the first character of the text. -/
theorem fromTable_eq_none {table : List (List Char × TokenKind)}
    (h : ∀ entry ∈ table, ∃ d ds, entry.1 = d :: ds ∧ d ≠ c) :
    fromTable table accepts (c :: cs) = none := by
  unfold fromTable
  rw [List.findSome?_eq_none_iff]
  rintro ⟨chars, kind⟩ hmem
  obtain ⟨d, ds, hchars, hne⟩ := h _ hmem
  simp only at hchars
  simp [hchars, List.isPrefixOf, hne]

theorem fromTable_append (table table' : List (List Char × TokenKind)) (text : List Char) :
    fromTable (table ++ table') accepts text =
      (fromTable table accepts text).or (fromTable table' accepts text) :=
  List.findSome?_append

theorem lexAt_letter (h : isLetter c = true) :
    lexAt accepts (c :: cs) =
      if accepts .identifier then
        some (wordLexeme accepts (c :: cs.takeWhile isWordChar), cs.dropWhile isWordChar)
      else fromTable TokenKind.reserved accepts (c :: cs) := by
  have hmarks : fromTable marks accepts (c :: cs) = none := by
    apply fromTable_eq_none
    have hall : ∀ entry ∈ marks, ∃ d ds, entry.1 = d :: ds ∧ isLetter d = false := by
      simp [marks, isLetter]
    intro entry hmem
    obtain ⟨d, ds, hchars, hd⟩ := hall entry hmem
    exact ⟨d, ds, hchars, (ne_of_class h hd).symm⟩
  have hdigit := isDigit_eq_false_of_isLetter h
  have hquote : c ≠ '"' := ne_of_class h rfl
  simp [lexAt, h, hdigit, hquote, fromTable_append, hmarks]

/-- A text that no entry of the tables begins like. -/
theorem fromTable_eq_none_of_class {p : Char → Bool} (hc : p c = true)
    (hp : ∀ entry ∈ TokenKind.reserved ++ marks, ∃ d ds, entry.1 = d :: ds ∧ p d = false) :
    fromTable (TokenKind.reserved ++ marks) accepts (c :: cs) = none := by
  apply fromTable_eq_none
  intro entry hmem
  obtain ⟨d, ds, hchars, hd⟩ := hp entry hmem
  exact ⟨d, ds, hchars, (ne_of_class hc hd).symm⟩

theorem lexAt_digit (h : isDigit c = true) :
    lexAt accepts (c :: cs) =
      if accepts .number then
        some ({ kind := .number
                chars := c :: cs.takeWhile isDigit ++
                  withPoint (splitFraction (cs.dropWhile isDigit)).1
                literal := .num (Number.ofPointed (c :: cs.takeWhile isDigit)
                  (splitFraction (cs.dropWhile isDigit)).1) },
          (splitFraction (cs.dropWhile isDigit)).2)
      else none := by
  have hletter := isLetter_eq_false_of_isDigit h
  have hquote : c ≠ '"' := ne_of_class h rfl
  have htable : fromTable (TokenKind.reserved ++ marks) accepts (c :: cs) = none :=
    fromTable_eq_none_of_class h (by simp [TokenKind.reserved, marks, isDigit])
  simp [lexAt, h, hletter, hquote, htable, Piece.nextDigit]

theorem lexAt_quote :
    lexAt accepts ('"' :: cs) =
      if accepts .string then
        match Piece.nextQuote cs with
        | (.string body, after) =>
          some ({ kind := .string, chars := '"' :: body ++ ['"']
                  literal := .str (String.ofList body) }, after)
        | _ => none
      else none := by
  have htable : fromTable (TokenKind.reserved ++ marks) accepts ('"' :: cs) = none :=
    fromTable_eq_none (by simp [TokenKind.reserved, marks])
  have hletter : isLetter '"' = false := rfl
  have hdigit : isDigit '"' = false := rfl
  simp only [lexAt, hletter, hdigit, htable]
  rfl

/-- In front of a mark only the table of marks is of use. -/
theorem lexAt_mark (hletter : isLetter c = false) (hdigit : isDigit c = false) (hquote : c ≠ '"') :
    lexAt accepts (c :: cs) = fromTable marks accepts (c :: cs) := by
  have htable : fromTable TokenKind.reserved accepts (c :: cs) = none := by
    apply fromTable_eq_none
    have hall : ∀ entry ∈ TokenKind.reserved, ∃ d ds, entry.1 = d :: ds ∧ isLetter d = true := by
      simp [TokenKind.reserved, isLetter]
    intro entry hmem
    obtain ⟨d, ds, hchars, hd⟩ := hall entry hmem
    exact ⟨d, ds, hchars, ne_of_class hd hletter⟩
  simp [lexAt, hletter, hdigit, hquote, fromTable_append, htable]

theorem lexAt_slash :
    lexAt accepts ('/' :: cs) =
      if accepts .slash then some ({ kind := .slash, chars := ['/'] }, cs) else none := by
  rw [lexAt_mark rfl rfl (by decide)]
  simp [marks]

/-- The marks that are one character whatever follows, with their kinds. -/
def soleMarks : List (Char × TokenKind) :=
  [('(', .leftParen), (')', .rightParen), ('\x7b', .leftBrace), ('\x7d', .rightBrace),
    (',', .comma), ('.', .dot), ('-', .minus), ('+', .plus), (';', .semicolon), ('*', .star)]

theorem mem_soleMarks {kind : TokenKind} (h : soleMark? c = some kind) :
    (c, kind) ∈ soleMarks := by
  unfold soleMark? at h
  repeat' split at h
  all_goals simp_all [soleMarks]

theorem lexAt_soleMark {kind : TokenKind} (h : soleMark? c = some kind)
    (hcomma : accepts .comma = false) (hdot : accepts .dot = false) :
    lexAt accepts (c :: cs) =
      if accepts kind then some ({ kind, chars := [c] }, cs) else none := by
  have hclass : ∀ entry ∈ soleMarks,
      isLetter entry.1 = false ∧ isDigit entry.1 = false ∧ entry.1 ≠ '"' := by decide
  obtain ⟨hletter, hdigit, hquote⟩ := hclass _ (mem_soleMarks h)
  rw [lexAt_mark hletter hdigit hquote]
  have hall : ∀ entry ∈ soleMarks, fromTable marks accepts (entry.1 :: cs) =
      if accepts entry.2 then some ({ kind := entry.2, chars := [entry.1] }, cs) else none := by
    simp [soleMarks, marks, hcomma, hdot]
  exact hall _ (mem_soleMarks h)

/-- The marks that an equals sign may follow, with their kinds. -/
def equalMarks : List (Char × TokenKind × TokenKind) :=
  [('!', .bangEqual, .bang), ('=', .equalEqual, .equal), ('<', .lessEqual, .less),
    ('>', .greaterEqual, .greater)]

theorem mem_equalMarks {kinds : TokenKind × TokenKind} (h : equalMark? c = some kinds) :
    (c, kinds) ∈ equalMarks := by
  unfold equalMark? at h
  repeat' split at h
  all_goals simp_all [equalMarks]

/-- The longer mark is taken if it is accepted, and otherwise the shorter one if that is. -/
theorem lexAt_equalMark {kinds : TokenKind × TokenKind} (h : equalMark? c = some kinds) :
    lexAt accepts (c :: cs) =
      if accepts kinds.1 && ['='].isPrefixOf cs then
        some ({ kind := kinds.1, chars := [c, '='] }, cs.drop 1)
      else if accepts kinds.2 then some ({ kind := kinds.2, chars := [c] }, cs)
      else none := by
  have hclass : ∀ entry ∈ equalMarks,
      isLetter entry.1 = false ∧ isDigit entry.1 = false ∧ entry.1 ≠ '"' := by decide
  obtain ⟨hletter, hdigit, hquote⟩ := hclass _ (mem_equalMarks h)
  rw [lexAt_mark hletter hdigit hquote]
  have hall : ∀ entry ∈ equalMarks, fromTable marks accepts (entry.1 :: cs) =
      if accepts entry.2.1 && ['='].isPrefixOf cs then
        some ({ kind := entry.2.1, chars := [entry.1, '='] }, cs.drop 1)
      else if accepts entry.2.2 then some ({ kind := entry.2.2, chars := [entry.1] }, cs)
      else none := by
    simp [equalMarks, marks, List.isPrefixOf]
  exact hall _ (mem_equalMarks h)

end Lexing

/-! ### The piece in front of a text -/

/-- How the characters in front of a text decide the piece and what follows it. -/
inductive First : Char → List Char → Piece → List Char → Prop where
  | soleMark {c : Char} {cs : List Char} {kind : TokenKind} (h : soleMark? c = some kind) :
      First c cs (.mark kind [c]) cs
  | longMark {c : Char} {cs : List Char} {kinds : TokenKind × TokenKind}
      (h : equalMark? c = some kinds) : First c ('=' :: cs) (.mark kinds.1 [c, '=']) cs
  | shortMark {c : Char} {cs : List Char} {kinds : TokenKind × TokenKind}
      (h : equalMark? c = some kinds) (hequal : ∀ rest, cs ≠ '=' :: rest) :
      First c cs (.mark kinds.2 [c]) cs
  | slash {cs : List Char} (hline : ∀ rest, cs ≠ '/' :: rest) (hblock : ∀ rest, cs ≠ '*' :: rest) :
      First '/' cs (.mark .slash ['/']) cs
  | lineComment {cs : List Char} :
      First '/' ('/' :: cs) (.lineComment (cs.takeWhile (· ≠ '\n'))) (cs.dropWhile (· ≠ '\n'))
  | blockComment {cs body after : List Char} (h : splitComment? cs = some (body, after)) :
      First '/' ('*' :: cs) (.blockComment body) after
  | openComment {cs : List Char} (h : splitComment? cs = none) :
      First '/' ('*' :: cs) (.openComment cs) []
  | blank {c : Char} {cs : List Char} (h : isLineBlank c = true) : First c cs (.blank c) cs
  | newline {cs : List Char} : First '\n' cs .newline cs
  | string {cs body after : List Char} (h : Piece.nextQuote cs = (.string body, after)) :
      First '"' cs (.string body) after
  | openString {cs : List Char} (h : Piece.nextQuote cs = (.openString cs, [])) :
      First '"' cs (.openString cs) []
  | digit {c : Char} {cs : List Char} (h : isDigit c = true) :
      First c cs (.number (c :: cs.takeWhile isDigit) (splitFraction (cs.dropWhile isDigit)).1)
        (splitFraction (cs.dropWhile isDigit)).2
  | letter {c : Char} {cs : List Char} (h : isLetter c = true) :
      First c cs (.word (c :: cs.takeWhile isWordChar)) (cs.dropWhile isWordChar)

section Pieces

variable {c : Char} {cs rest : List Char} {piece : Piece}

theorem first_of_nextEqualMark {kinds : TokenKind × TokenKind} (hkinds : equalMark? c = some kinds)
    (h : Piece.nextEqualMark c kinds cs = (piece, rest)) : First c cs piece rest := by
  unfold Piece.nextEqualMark at h
  split at h
  · cases h; exact .longMark hkinds
  · next hequal => cases h; exact .shortMark hkinds hequal

theorem first_of_nextSlash (h : Piece.nextSlash cs = (piece, rest)) : First '/' cs piece rest := by
  unfold Piece.nextSlash at h
  split at h
  · cases h; exact .lineComment
  · split at h
    · next hsplit => cases h; exact .blockComment hsplit
    · next hsplit => cases h; exact .openComment hsplit
  · next hline hblock => cases h; exact .slash hline hblock

theorem first_of_nextQuote (h : Piece.nextQuote cs = (piece, rest)) : First '"' cs piece rest := by
  have hquote := h
  unfold Piece.nextQuote at h
  split at h <;> (cases h)
  · exact .string hquote
  · exact .openString hquote

theorem first_of_next (h : Piece.next c cs = some (piece, rest)) : First c cs piece rest := by
  unfold Piece.next at h
  split at h
  · next hsole => cases h; exact .soleMark hsole
  · next hequal => exact first_of_nextEqualMark hequal (Option.some.inj h)
  · split at h
    · next hc => subst hc; exact first_of_nextSlash (Option.some.inj h)
    · split at h
      · next hc => cases h; exact .blank hc
      · split at h
        · next hc => cases h; subst hc; exact .newline
        · split at h
          · next hc => subst hc; exact first_of_nextQuote (Option.some.inj h)
          · split at h
            · next hc => cases h; exact .digit hc
            · split at h
              · next hc => cases h; exact .letter hc
              · cases h

theorem next_of_equalMark {kinds : TokenKind × TokenKind} (h : equalMark? c = some kinds) :
    Piece.next c cs = some (Piece.nextEqualMark c kinds cs) := by
  have hall : ∀ entry ∈ equalMarks, soleMark? entry.1 = none := by decide
  simp [Piece.next, hall _ (mem_equalMarks h), h]

theorem nextSlash_mark (hline : ∀ rest, cs ≠ '/' :: rest) (hblock : ∀ rest, cs ≠ '*' :: rest) :
    Piece.nextSlash cs = (.mark .slash ['/'], cs) := by
  unfold Piece.nextSlash
  split
  · exact absurd rfl (hline _)
  · exact absurd rfl (hblock _)
  · rfl

theorem nextSlash_blockComment {body after : List Char}
    (h : splitComment? cs = some (body, after)) :
    Piece.nextSlash ('*' :: cs) = (.blockComment body, after) := by
  rw [Piece.nextSlash, h]

theorem nextSlash_openComment (h : splitComment? cs = none) :
    Piece.nextSlash ('*' :: cs) = (.openComment cs, []) := by
  rw [Piece.nextSlash, h]

theorem next_of_first (h : First c cs piece rest) : Piece.next c cs = some (piece, rest) := by
  cases h with
  | soleMark h => simp [Piece.next, h]
  | longMark h => rw [next_of_equalMark h]; rfl
  | shortMark h hequal => rw [next_of_equalMark h]; simp [Piece.nextEqualMark]
  | slash hline hblock =>
      exact congrArg some (nextSlash_mark hline hblock)
  | lineComment => rfl
  | blockComment h => exact congrArg some (nextSlash_blockComment h)
  | openComment h => exact congrArg some (nextSlash_openComment h)
  | blank h =>
      simp only [isLineBlank, Bool.or_eq_true, decide_eq_true_eq] at h
      rcases h with (rfl | rfl) | rfl <;> rfl
  | newline => rfl
  | string h => exact congrArg some h
  | openString h => exact congrArg some h
  | digit h => exact next_of_isDigit h cs
  | letter h => exact next_of_isLetter h cs

/-! ### Layout -/

/-- The pieces that stand between lexemes. -/
def isLayout : Piece → Bool
  | .blank _ | .newline | .lineComment _ | .blockComment _ => true
  | _ => false

/-- A character that no blank or comment begins with. -/
theorem layoutPiece?_of_class {p : Char → Bool} (hc : p c = true)
    (hp : [' ', '\t', '\x0c', '\r', '\n', '/'].any p = false) :
    layoutPiece? (c :: cs) = none := by
  have hne := ne_of_class_of_mem hc hp
  simp only [List.forall_mem_cons] at hne
  simp [layoutPiece?, isSpace, hne]

theorem layoutPiece?_slash :
    layoutPiece? ('/' :: cs) =
      match Piece.nextSlash cs with
      | (.lineComment body, after) => some ('/' :: '/' :: body, after)
      | (.blockComment body, after) => some ('/' :: '*' :: body ++ ['*', '/'], after)
      | _ => none := rfl

/-- Blanks and comments are skipped just as a scan cuts them, and nothing else is that a scan
knows. -/
theorem layoutPiece?_of_first (h : First c cs piece rest) :
    layoutPiece? (c :: cs) = if isLayout piece then some (piece.chars, rest) else none := by
  cases h with
  | soleMark h =>
      exact layoutPiece?_of_class (p := fun d => (soleMark? d).isSome) (by simp [h]) rfl
  | longMark h =>
      exact layoutPiece?_of_class (p := fun d => (equalMark? d).isSome) (by simp [h]) rfl
  | shortMark h _ =>
      exact layoutPiece?_of_class (p := fun d => (equalMark? d).isSome) (by simp [h]) rfl
  | slash hline hblock =>
      rw [layoutPiece?_slash, nextSlash_mark hline hblock]
      rfl
  | lineComment => rfl
  | blockComment h =>
      rw [layoutPiece?_slash, nextSlash_blockComment h]
      rfl
  | openComment h =>
      rw [layoutPiece?_slash, nextSlash_openComment h]
      rfl
  | blank h =>
      simp only [isLineBlank, Bool.or_eq_true, decide_eq_true_eq] at h
      rcases h with (rfl | rfl) | rfl <;> rfl
  | newline => rfl
  | string _ => rfl
  | openString _ => rfl
  | digit h => exact layoutPiece?_of_class h rfl
  | letter h => exact layoutPiece?_of_class h rfl

end Pieces

/-! ### Lexemes -/

@[simp] theorem accepts_comma (position : Position) : position.accepts .comma = false := by
  cases position <;> simp [Position.accepts, beginsStatement, beginsOperand, followsOperand]

@[simp] theorem accepts_dot (position : Position) : position.accepts .dot = false := by
  cases position <;> simp [Position.accepts, beginsStatement, beginsOperand, followsOperand]

/-- A word of a kind that is not that of identifiers is in the table. -/
theorem mem_reserved_of_ofWord {word : List Char} (h : TokenKind.ofWord word ≠ .identifier) :
    (word, TokenKind.ofWord word) ∈ TokenKind.reserved := by
  unfold TokenKind.ofWord at h ⊢
  cases hlookup : TokenKind.reserved.lookup word with
  | none => simp [hlookup] at h
  | some kind =>
      obtain ⟨before, after, hsplit, -⟩ := List.lookup_eq_some_iff.1 hlookup
      rw [hsplit]
      simp

theorem isPrefixOf_equal {cs : List Char} (h : ∀ rest, cs ≠ '=' :: rest) :
    ['='].isPrefixOf cs = false := by
  cases cs with
  | nil => rfl
  | cons d ds =>
      have hne : '=' ≠ d := by
        rintro rfl
        exact h ds rfl
      simp [List.isPrefixOf, hne]

/-- Where no identifier may stand, at most two reserved words may. -/
theorem and_or_of_accepts {position : Position} {word : List Char} {kind : TokenKind}
    (hword : (word, kind) ∈ TokenKind.reserved) (hidentifier : position.accepts .identifier = false)
    (h : position.accepts kind = true) :
    (word = ['a', 'n', 'd'] ∧ kind = .andWord) ∨ (word = ['o', 'r'] ∧ kind = .orWord) := by
  cases position with
  | afterVar => simp [Position.accepts] at hidentifier
  | afterDeclaredName =>
      have hall : ∀ entry ∈ TokenKind.reserved,
          Position.afterDeclaredName.accepts entry.2 = false := by decide
      rw [hall _ hword] at h
      cases h
  | beforeCondition =>
      have hall : ∀ entry ∈ TokenKind.reserved,
          Position.beforeCondition.accepts entry.2 = false := by decide
      rw [hall _ hword] at h
      cases h
  | afterOperand assignable =>
      have hall : ∀ entry ∈ TokenKind.reserved, ∀ assignable,
          (Position.afterOperand assignable).accepts entry.2 = true →
          entry = (['a', 'n', 'd'], .andWord) ∨ entry = (['o', 'r'], .orWord) := by decide
      simpa using hall _ hword assignable h
  | _ => simp [Position.accepts, beginsStatement, beginsOperand] at hidentifier

theorem fromTable_and_or {accepts : TokenKind → Bool} {word : List Char} {kind : TokenKind}
    (hword : (word = ['a', 'n', 'd'] ∧ kind = .andWord) ∨ (word = ['o', 'r'] ∧ kind = .orWord))
    (haccepts : accepts kind = true) (after : List Char) :
    fromTable TokenKind.reserved accepts (word ++ after) =
      some ({ kind, chars := word }, after) := by
  rcases hword with ⟨rfl, rfl⟩ | ⟨rfl, rfl⟩ <;> simp [TokenKind.reserved, haccepts]

/-- **What a scan cuts, lexing cuts**, where the token is accepted. -/
theorem lexAt_of_first {c : Char} {cs rest : List Char} {piece : Piece} {line : Nat} {t : Token}
    (h : First c cs piece rest) (ht : piece.token? line = some t)
    {position : Position} (haccepts : position.accepts t.kind = true) :
    ∃ lexeme, lexAt position.accepts (c :: cs) = some (lexeme, rest) ∧
      lexeme.chars = piece.chars ∧ lexeme.token line = t := by
  cases h with
  | soleMark h =>
      cases ht
      rw [lexAt_soleMark h (accepts_comma position) (accepts_dot position), if_pos haccepts]
      exact ⟨_, rfl, rfl, rfl⟩
  | longMark h =>
      cases ht
      rw [lexAt_equalMark h, if_pos (by simpa using haccepts)]
      exact ⟨_, rfl, rfl, rfl⟩
  | shortMark h hequal =>
      cases ht
      rw [lexAt_equalMark h, if_neg (by simp [isPrefixOf_equal hequal]), if_pos haccepts]
      exact ⟨_, rfl, rfl, rfl⟩
  | slash _ _ =>
      cases ht
      rw [lexAt_slash, if_pos haccepts]
      exact ⟨_, rfl, rfl, rfl⟩
  | string h =>
      cases ht
      rw [lexAt_quote, if_pos haccepts, h]
      exact ⟨_, rfl, rfl, rfl⟩
  | digit h =>
      cases ht
      rw [lexAt_digit h, if_pos haccepts]
      exact ⟨_, rfl, rfl, rfl⟩
  | letter h =>
      cases ht
      rw [lexAt_letter h]
      split
      · refine ⟨_, rfl, rfl, ?_⟩
        simp only [wordLexeme, Lexeme.token]
        rw [if_pos haccepts]
        rfl
      · next hidentifier =>
        -- The word is `and` or `or`, and the table finds it.
        have hne : TokenKind.ofWord (c :: cs.takeWhile isWordChar) ≠ .identifier := by
          intro hkind
          rw [← hkind] at hidentifier
          exact hidentifier haccepts
        have hword := and_or_of_accepts (mem_reserved_of_ofWord hne)
          (Bool.eq_false_iff.2 hidentifier) haccepts
        have hlexeme := fromTable_and_or hword haccepts (cs.dropWhile isWordChar)
        rw [List.cons_append, List.takeWhile_append_dropWhile] at hlexeme
        exact ⟨_, hlexeme, rfl, rfl⟩
  | _ => cases ht

end ScriptLang.Grammar
