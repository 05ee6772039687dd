import ScriptLang.Token.Basic

/-!
# Pieces of a source

A source text is a row of pieces: lexemes, blanks, newlines and comments, and at its end perhaps a
string or a comment that is never closed. `Piece.next` takes the longest piece off the front of a
text; `tile` repeats that to the end, or to a character with which no piece begins.

## Main Definitions

* `Piece`: a piece with its characters.
* `Piece.chars`: the characters a piece covers.
* `Piece.next`: the piece in front of a text and what follows it.
* `tile`: all pieces of a text.

## Main Statements

* `Piece.chars_append_of_next`: no character is lost or made up.
* `Piece.length_lt_of_next`: what follows a piece is shorter than the text.
-/

namespace ScriptLang

/-! ### Classes of characters -/

/-- A decimal digit. -/
def isDigit (c : Char) : Bool :=
  '0' ≤ c && c ≤ '9'

/-- A letter or an underscore: what a word begins with. -/
def isLetter (c : Char) : Bool :=
  ('a' ≤ c && c ≤ 'z') || ('A' ≤ c && c ≤ 'Z') || c = '_'

/-- What a word goes on with. -/
def isWordChar (c : Char) : Bool :=
  isLetter c || isDigit c

/-- A blank inside a line. -/
def isLineBlank (c : Char) : Bool :=
  c = ' ' || c = '\r' || c = '\t'

/-- The marks that are one character whatever follows. -/
def soleMark? (c : Char) : Option TokenKind :=
  if c = '(' then some .leftParen
  else if c = ')' then some .rightParen
  else if c = '\x7b' then some .leftBrace
  else if c = '\x7d' then some .rightBrace
  else if c = ',' then some .comma
  else if c = '.' then some .dot
  else if c = '-' then some .minus
  else if c = '+' then some .plus
  else if c = ';' then some .semicolon
  else if c = '*' then some .star
  else none

/-- The marks that an equals sign may follow: the kind with it and the kind without. -/
def equalMark? (c : Char) : Option (TokenKind × TokenKind) :=
  if c = '!' then some (.bangEqual, .bang)
  else if c = '=' then some (.equalEqual, .equal)
  else if c = '<' then some (.lessEqual, .less)
  else if c = '>' then some (.greaterEqual, .greater)
  else none

/-! ### Pieces -/

/-- A piece of a source. -/
inductive Piece where
  /-- An operator or a punctuation mark. -/
  | mark (kind : TokenKind) (chars : List Char)
  /-- An identifier or a reserved word. -/
  | word (chars : List Char)
  /-- A number: its digits before and after the point, the latter empty if there is no point. -/
  | number (whole fraction : List Char)
  /-- A string: the characters between its quotes. -/
  | string (body : List Char)
  /-- One blank inside a line. -/
  | blank (c : Char)
  | newline
  /-- A comment up to the end of its line: the characters after the two slashes. -/
  | lineComment (body : List Char)
  /-- A closed comment: the characters between its brackets. -/
  | blockComment (body : List Char)
  /-- A string that the source ends in: the characters after its quote. -/
  | openString (body : List Char)
  /-- A comment that the source ends in: the characters after its bracket. -/
  | openComment (body : List Char)
deriving Repr, DecidableEq

/-- The fraction of a number with its point, if there is one. -/
def withPoint : List Char → List Char
  | [] => []
  | fraction => '.' :: fraction

/-- The characters that a piece covers. -/
def Piece.chars : Piece → List Char
  | mark _ chars => chars
  | word chars => chars
  | number whole fraction => whole ++ withPoint fraction
  | string body => '"' :: body ++ ['"']
  | blank c => [c]
  | newline => ['\n']
  | lineComment body => '/' :: '/' :: body
  | blockComment body => '/' :: '*' :: body ++ ['*', '/']
  | openString body => '"' :: body
  | openComment body => '/' :: '*' :: body

/-- Splits a text at the first bracket that closes a comment: the characters before and after it. -/
def splitComment? : List Char → Option (List Char × List Char)
  | '*' :: '/' :: rest => some ([], rest)
  | c :: rest => (splitComment? rest).map fun (body, after) => (c :: body, after)
  | [] => none

/-- The rest of a number after its first digits: a point belongs to it only before a digit. -/
def splitFraction : List Char → List Char × List Char
  | '.' :: d :: rest =>
    if isDigit d then (d :: rest.takeWhile isDigit, rest.dropWhile isDigit)
    else ([], '.' :: d :: rest)
  | rest => ([], rest)

/-- The piece that begins with a slash. -/
def Piece.nextSlash : List Char → Piece × List Char
  | '/' :: rest => (lineComment (rest.takeWhile (· ≠ '\n')), rest.dropWhile (· ≠ '\n'))
  | '*' :: rest =>
    match splitComment? rest with
    | some (body, after) => (blockComment body, after)
    | none => (openComment rest, [])
  | rest => (mark .slash ['/'], rest)

/-- The piece that begins with a quote. -/
def Piece.nextQuote (rest : List Char) : Piece × List Char :=
  match rest.dropWhile (· ≠ '"') with
  | _ :: after => (string (rest.takeWhile (· ≠ '"')), after)
  | [] => (openString rest, [])

/-- The piece that begins with a digit. -/
def Piece.nextDigit (d : Char) (rest : List Char) : Piece × List Char :=
  let (fraction, after) := splitFraction (rest.dropWhile isDigit)
  (number (d :: rest.takeWhile isDigit) fraction, after)

/-- The piece that begins with a mark that an equals sign may follow. -/
def Piece.nextEqualMark (c : Char) (kinds : TokenKind × TokenKind) :
    List Char → Piece × List Char
  | '=' :: rest => (mark kinds.1 [c, '='], rest)
  | rest => (mark kinds.2 [c], rest)

/-- The longest piece that begins with the character `c`, and what follows it. There is none if no
piece begins with `c`. -/
def Piece.next (c : Char) (rest : List Char) : Option (Piece × List Char) :=
  match soleMark? c, equalMark? c with
  | some kind, _ => some (mark kind [c], rest)
  | none, some kinds => some (nextEqualMark c kinds rest)
  | none, none =>
    if c = '/' then some (nextSlash rest)
    else if isLineBlank c then some (blank c, rest)
    else if c = '\n' then some (newline, rest)
    else if c = '"' then some (nextQuote rest)
    else if isDigit c then some (nextDigit c rest)
    else if isLetter c then
      some (word (c :: rest.takeWhile isWordChar), rest.dropWhile isWordChar)
    else none

/-! ### No character is lost -/

theorem splitComment?_eq_some {cs body after : List Char}
    (h : splitComment? cs = some (body, after)) : cs = body ++ '*' :: '/' :: after := by
  fun_induction splitComment? cs generalizing body after with
  | case1 rest => simp_all
  | case2 c rest _ ih =>
    obtain ⟨⟨b, a⟩, hb, he⟩ := Option.map_eq_some_iff.1 h
    simp only [Prod.mk.injEq] at he
    obtain ⟨rfl, rfl⟩ := he
    simp [ih hb]
  | case3 => simp at h

theorem Piece.chars_nextSlash (rest : List Char) :
    (nextSlash rest).1.chars ++ (nextSlash rest).2 = '/' :: rest := by
  unfold nextSlash
  split
  · simp [chars]
  · split
    · next h => simp [chars, splitComment?_eq_some h]
    · simp [chars]
  · simp [chars]

theorem Piece.chars_nextQuote (rest : List Char) :
    (nextQuote rest).1.chars ++ (nextQuote rest).2 = '"' :: rest := by
  have whole := List.takeWhile_append_dropWhile (p := (· ≠ '"')) (l := rest)
  unfold nextQuote
  split
  · next q after h =>
    have hq : q = '"' := by
      have := List.head?_dropWhile_not (· ≠ '"') rest
      rw [h] at this
      simpa using this
    subst hq
    rw [h] at whole
    simpa [chars] using whole
  · simp [chars]

theorem withPoint_splitFraction (cs : List Char) :
    withPoint (splitFraction cs).1 ++ (splitFraction cs).2 = cs := by
  fun_cases splitFraction cs <;> simp_all [withPoint]

theorem Piece.chars_nextDigit (d : Char) (rest : List Char) :
    (nextDigit d rest).1.chars ++ (nextDigit d rest).2 = d :: rest := by
  have whole := List.takeWhile_append_dropWhile (p := isDigit) (l := rest)
  have tail := withPoint_splitFraction (rest.dropWhile isDigit)
  simp only [nextDigit, chars, List.cons_append, List.append_assoc, tail, whole]

theorem Piece.chars_nextEqualMark (c : Char) (kinds : TokenKind × TokenKind) (rest : List Char) :
    (nextEqualMark c kinds rest).1.chars ++ (nextEqualMark c kinds rest).2 = c :: rest := by
  unfold nextEqualMark
  split <;> simp [chars]

/-- The characters of a piece and what follows it are the text. -/
theorem Piece.chars_append_of_next {c : Char} {cs rest : List Char} {piece : Piece}
    (h : next c cs = some (piece, rest)) : piece.chars ++ rest = c :: cs := by
  unfold next at h
  split at h
  · cases h; rfl
  · next kinds _ _ =>
    have := chars_nextEqualMark c kinds cs
    rw [Option.some.inj h] at this
    exact this
  · split at h
    · next hc =>
      have := chars_nextSlash cs
      rw [Option.some.inj h] at this
      rw [hc]; exact this
    · split at h
      · cases h; rfl
      · split at h
        · next hc => cases h; rw [hc]; rfl
        · split at h
          · next hc =>
            have := chars_nextQuote cs
            rw [Option.some.inj h] at this
            rw [hc]; exact this
          · split at h
            · have := chars_nextDigit c cs
              rw [Option.some.inj h] at this
              exact this
            · split at h
              · cases h; simp [chars]
              · cases h

/-- Every piece covers at least one character. -/
theorem Piece.chars_ne_nil_of_next {c : Char} {cs rest : List Char} {piece : Piece}
    (h : next c cs = some (piece, rest)) : piece.chars ≠ [] := by
  unfold next at h
  split at h
  · cases h; simp [chars]
  · rename_i kinds _ _
    have he := Option.some.inj h
    unfold nextEqualMark at he
    split at he <;> (cases he; simp [chars])
  · split at h
    · have he := Option.some.inj h
      unfold nextSlash at he
      split at he
      · cases he; simp [chars]
      · split at he <;> (cases he; simp [chars])
      · cases he; simp [chars]
    · split at h
      · cases h; simp [chars]
      · split at h
        · cases h; simp [chars]
        · split at h
          · have he := Option.some.inj h
            unfold nextQuote at he
            split at he <;> (cases he; simp [chars])
          · split at h
            · have he := Option.some.inj h
              unfold nextDigit at he
              generalize splitFraction (cs.dropWhile isDigit) = parts at he
              obtain ⟨fraction, after⟩ := parts
              cases he
              simp [chars]
            · split at h
              · cases h; simp [chars]
              · cases h

/-- What follows a piece is shorter than the text. -/
theorem Piece.length_lt_of_next {c : Char} {cs rest : List Char} {piece : Piece}
    (h : next c cs = some (piece, rest)) : rest.length < (c :: cs).length := by
  rw [← chars_append_of_next h, List.length_append]
  have := List.length_pos_iff.2 (chars_ne_nil_of_next h)
  omega

/-! ### Tiling a text -/

/-- The pieces of a text from its front on, and the character with which no piece begins, if the
pieces end at one. -/
structure Tiling where
  pieces : List Piece
  stuck : Option Char
deriving Repr, DecidableEq

/-- Takes pieces off a text to its end, or to a character with which none begins. -/
def tile : List Char → Tiling
  | [] => { pieces := [], stuck := none }
  | c :: cs =>
    match _h : Piece.next c cs with
    | none => { pieces := [], stuck := some c }
    | some (piece, rest) =>
      let tiling := tile rest
      { tiling with pieces := piece :: tiling.pieces }
termination_by cs => cs.length
decreasing_by exact Piece.length_lt_of_next _h

end ScriptLang
