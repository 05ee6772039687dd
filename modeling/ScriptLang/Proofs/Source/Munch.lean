import ScriptLang.Proofs.Grammar.Accepts

/-!
# Maximal munch

Which rows of pieces a source can be read as, said without the way it is scanned: every piece is
well formed for its class and is the longest piece with which the rest of the source begins. There
is one such reading of each source, and it is the one that a scan finds.

## Main Definitions

* `Piece.WellFormed`: the characters of a piece, class by class.
* `Piece.Begins`, `Piece.Munches`: a text begins with a piece, and with none that is longer.
* `Lexes`: a text is a row of pieces, to its end or to a character that no class admits.
* `Yields`: the token of a lexeme.
* `Token.IsLexeme`: the tokens of lexemes.

## Main Statements

* `munches_of_next`, `not_admitted_of_next`: what the scan takes is the longest piece.
* `lexes_iff`: a scan finds the one reading of a text.
* `scan_munches`: a scan is the maximal-munch reading of its source.

## Design Notes

A string or a comment that is never closed is well formed by itself, but a text begins with it only
if it is the whole text.
-/

namespace ScriptLang

/-! ### Well-formed pieces -/

/-- The operators and punctuation marks. -/
def operators : List (List Char × TokenKind) :=
  [(['('], .leftParen), ([')'], .rightParen), (['\x7b'], .leftBrace), (['\x7d'], .rightBrace),
    ([','], .comma), (['.'], .dot), (['-'], .minus), (['+'], .plus), ([';'], .semicolon),
    (['*'], .star), (['/'], .slash), (['!'], .bang), (['!', '='], .bangEqual), (['='], .equal),
    (['=', '='], .equalEqual), (['<'], .less), (['<', '='], .lessEqual), (['>'], .greater),
    (['>', '='], .greaterEqual)]

/-- The bracket that closes a comment. -/
def commentEnd : List Char := ['*', '/']

namespace Piece

/-- The piece is made as its class asks for. A number has a point only in front of a digit, a string
no quote inside, a comment at the end of a line no newline, and a closed comment no bracket that
closes it earlier. -/
def WellFormed : Piece → Prop
  | mark kind chars => (chars, kind) ∈ operators
  | word chars => ∃ c cs, chars = c :: cs ∧ isLetter c = true ∧ ∀ d ∈ cs, isWordChar d = true
  | number whole fraction =>
    whole ≠ [] ∧ (∀ d ∈ whole, isDigit d = true) ∧ ∀ d ∈ fraction, isDigit d = true
  | string body => '"' ∉ body
  | blank c => c ∈ [' ', '\r', '\t']
  | newline => True
  | lineComment body => '\n' ∉ body
  | blockComment body => ¬ commentEnd <:+: body ++ ['*']
  | openString body => '"' ∉ body
  | openComment body => ¬ commentEnd <:+: body

/-- A string or a comment that is never closed. -/
def isOpen : Piece → Bool
  | openString _ | openComment _ => true
  | _ => false

/-- A piece that becomes a token. -/
def isLexeme : Piece → Bool
  | mark .. | word _ | number .. | string _ => true
  | _ => false

/-- The text begins with the piece and goes on with the rest. -/
structure Begins (piece : Piece) (text rest : List Char) : Prop where
  wellFormed : piece.WellFormed
  text_eq : text = piece.chars ++ rest
  toEnd : piece.isOpen = true → rest = []

/-- The piece is the longest one with which the text begins. -/
structure Munches (piece : Piece) (text rest : List Char) : Prop where
  begins : piece.Begins text rest
  longest : ∀ (other : Piece) (rest' : List Char), other.Begins text rest' →
    other.chars.length ≤ piece.chars.length

end Piece

/-- Some piece begins with the character. -/
def Admitted (c : Char) : Prop := ∃ (piece : Piece) (cs : List Char),
  piece.WellFormed ∧ piece.chars = c :: cs

/-- The text is a row of pieces, each the longest one there, to its end or to a character that no
class admits. -/
inductive Lexes : List Char → List Piece → Option Char → Prop where
  | done : Lexes [] [] none
  | stuck {c : Char} {cs : List Char} (h : ¬ Admitted c) : Lexes (c :: cs) [] (some c)
  | piece {text rest : List Char} {piece : Piece} {pieces : List Piece} {stuck : Option Char}
      (hpiece : piece.Munches text rest) (hrest : Lexes rest pieces stuck) :
      Lexes text (piece :: pieces) stuck

/-! ### Closed comments -/

theorem splitComment?_cons {c : Char} {rest : List Char} (h : ¬ commentEnd <+: c :: rest) :
    splitComment? (c :: rest) =
      (splitComment? rest).map fun (body, after) => (c :: body, after) := by
  rw [splitComment?]
  rintro after rfl rfl
  exact h ⟨after, rfl⟩

/-- A text without the closing bracket is not split. -/
theorem splitComment?_eq_none_iff {cs : List Char} :
    splitComment? cs = none ↔ ¬ commentEnd <:+: cs := by
  induction cs with
  | nil => simp [splitComment?, commentEnd]
  | cons c rest ih =>
      by_cases h : commentEnd <+: c :: rest
      · obtain ⟨after, hafter⟩ := h
        have hinfix : commentEnd <:+: c :: rest := hafter ▸ ⟨[], after, rfl⟩
        rw [← hafter] at hinfix ⊢
        simp [commentEnd, splitComment?] at hinfix ⊢
        exact hinfix
      · rw [splitComment?_cons h, Option.map_eq_none_iff, ih, List.infix_cons_iff, not_or]
        exact ⟨fun hrest => ⟨h, hrest⟩, fun hrest => hrest.2⟩

/-- In a body without the closing bracket, the one that follows it is the first. -/
theorem splitComment?_append {body after : List Char} (h : ¬ commentEnd <:+: body ++ ['*']) :
    splitComment? (body ++ '*' :: '/' :: after) = some (body, after) := by
  induction body with
  | nil => rfl
  | cons c body ih =>
      rw [List.cons_append, List.infix_cons_iff, not_or] at h
      have hfirst : ¬ commentEnd <+: c :: (body ++ '*' :: '/' :: after) := by
        intro hclose
        apply h.1
        cases body with
        | nil => simp [commentEnd] at hclose
        | cons d body =>
            simp only [commentEnd, List.cons_append, List.cons_prefix_cons] at hclose ⊢
            exact ⟨hclose.1, hclose.2.1, List.nil_prefix⟩
      rw [List.cons_append, splitComment?_cons hfirst, ih h.2]
      rfl

/-- A text is split at the first closing bracket. -/
theorem not_infix_of_splitComment? {cs body after : List Char}
    (h : splitComment? cs = some (body, after)) : ¬ commentEnd <:+: body ++ ['*'] := by
  induction cs generalizing body with
  | nil => cases h
  | cons c rest ih =>
      by_cases hclose : commentEnd <+: c :: rest
      · obtain ⟨tail, htail⟩ := hclose
        rw [← htail] at h
        cases h
        decide
      · rw [splitComment?_cons hclose] at h
        obtain ⟨⟨body', after'⟩, hrest, heq⟩ := Option.map_eq_some_iff.1 h
        cases heq
        rw [List.cons_append, List.infix_cons_iff, not_or]
        refine ⟨?_, ih hrest⟩
        intro hfirst
        apply hclose
        rw [splitComment?_eq_some hrest]
        cases body' with
        | nil => simp [commentEnd] at hfirst
        | cons d body' =>
            simp only [commentEnd, List.cons_append, List.cons_prefix_cons] at hfirst ⊢
            exact ⟨hfirst.1, hfirst.2.1, List.nil_prefix⟩

/-! ### What the scan takes is a piece -/

section Next

variable {c : Char} {cs rest text : List Char} {piece other : Piece}

theorem wellFormed_of_nextQuote {body after : List Char}
    (h : Piece.nextQuote cs = (.string body, after)) : '"' ∉ body := by
  unfold Piece.nextQuote at h
  split at h <;> cases h
  intro hmem
  exact absurd (mem_takeWhile hmem) (by simp)

theorem wellFormed_of_nextQuote_open (h : Piece.nextQuote cs = (.openString cs, [])) :
    '"' ∉ cs := by
  unfold Piece.nextQuote at h
  split at h
  · cases h
  · next hdrop =>
    intro hmem
    have := List.dropWhile_eq_nil_iff.1 hdrop _ hmem
    simp at this

theorem wellFormed_of_first (h : Grammar.First c cs piece rest) : piece.WellFormed := by
  cases h with
  | soleMark h =>
      have hall : ∀ entry ∈ Grammar.soleMarks, ([entry.1], entry.2) ∈ operators := by decide
      exact hall _ (Grammar.mem_soleMarks h)
  | longMark h =>
      have hall : ∀ entry ∈ Grammar.equalMarks, ([entry.1, '='], entry.2.1) ∈ operators := by decide
      exact hall _ (Grammar.mem_equalMarks h)
  | shortMark h _ =>
      have hall : ∀ entry ∈ Grammar.equalMarks, ([entry.1], entry.2.2) ∈ operators := by decide
      exact hall _ (Grammar.mem_equalMarks h)
  | slash => simp [Piece.WellFormed, operators]
  | lineComment =>
      intro hmem
      exact absurd (mem_takeWhile hmem) (by simp)
  | blockComment h => exact not_infix_of_splitComment? h
  | openComment h => exact splitComment?_eq_none_iff.1 h
  | blank h => simpa [Piece.WellFormed, isLineBlank, or_assoc] using h
  | newline => trivial
  | string h => exact wellFormed_of_nextQuote h
  | openString h => exact wellFormed_of_nextQuote_open h
  | digit h =>
      refine ⟨List.cons_ne_nil _ _, ?_, fun d hd => isDigit_of_mem_splitFraction hd⟩
      exact List.forall_mem_cons.2 ⟨h, fun d hd => mem_takeWhile hd⟩
  | letter h => exact ⟨c, _, rfl, h, fun d hd => mem_takeWhile hd⟩

/-- The text begins with the piece that the scan takes. -/
theorem begins_of_next (h : Piece.next c cs = some (piece, rest)) :
    piece.Begins (c :: cs) rest := by
  have hfirst := Grammar.first_of_next h
  refine ⟨wellFormed_of_first hfirst, (Piece.chars_append_of_next h).symm, ?_⟩
  intro hopen
  cases hfirst with
  | openComment => rfl
  | openString => rfl
  | _ => cases hopen

/-! ### What the scan takes is longest -/

/-- Every operator is a mark that stands alone, one of a pair, or the slash. -/
theorem operator_cases {chars : List Char} {kind : TokenKind} (h : (chars, kind) ∈ operators) :
    (∃ c, chars = [c] ∧ soleMark? c = some kind) ∨
      (∃ c other, chars = [c, '='] ∧ equalMark? c = some (kind, other)) ∨
      (∃ c other, chars = [c] ∧ equalMark? c = some (other, kind)) ∨
      chars = ['/'] ∧ kind = .slash := by
  have hall : ∀ entry ∈ operators,
      (∃ c ∈ entry.1, entry.1 = [c] ∧ soleMark? c = some entry.2) ∨
        (∃ c ∈ entry.1, entry.1 = [c, '='] ∧ (equalMark? c).map Prod.fst = some entry.2) ∨
        (∃ c ∈ entry.1, entry.1 = [c] ∧ (equalMark? c).map Prod.snd = some entry.2) ∨
        entry.1 = ['/'] ∧ entry.2 = .slash := by
    simp [operators, soleMark?, equalMark?]
  rcases hall _ h with ⟨c, -, hchars, hc⟩ | ⟨c, -, hchars, hc⟩ | ⟨c, -, hchars, hc⟩ | hslash
  · exact .inl ⟨c, hchars, hc⟩
  · obtain ⟨⟨long, short⟩, hkinds, rfl⟩ := Option.map_eq_some_iff.1 hc
    exact .inr (.inl ⟨c, short, hchars, hkinds⟩)
  · obtain ⟨⟨long, short⟩, hkinds, rfl⟩ := Option.map_eq_some_iff.1 hc
    exact .inr (.inr (.inl ⟨c, long, hchars, hkinds⟩))
  · exact .inr (.inr (.inr hslash))

/-- From a text that begins with a piece the scan takes a piece that is no shorter, and from the
characters of the piece alone it takes just this piece. -/
def Piece.Covered (piece : Piece) (rest : List Char) : Prop :=
  ∃ c cs longer after, piece.chars ++ rest = c :: cs ∧ Piece.next c cs = some (longer, after) ∧
    piece.chars.length ≤ longer.chars.length ∧ (rest = [] → longer = piece)

theorem covered_mark {kind : TokenKind} {chars : List Char} (h : (chars, kind) ∈ operators) :
    (Piece.mark kind chars).Covered rest := by
  have hone : ∀ {c : Char} {cs after : List Char} {longer : Piece},
      Piece.next c cs = some (longer, after) → 1 ≤ longer.chars.length :=
    fun h => List.length_pos_iff.2 (Piece.chars_ne_nil_of_next h)
  rcases operator_cases h with ⟨c, rfl, hc⟩ | ⟨c, other, rfl, hc⟩ | ⟨c, other, rfl, hc⟩ | ⟨rfl, rfl⟩
  · exact ⟨c, rest, _, _, rfl, Grammar.next_of_first (.soleMark hc), Nat.le_refl _, fun _ => rfl⟩
  · exact ⟨c, '=' :: rest, _, _, rfl, Grammar.next_of_first (.longMark hc), Nat.le_refl _,
      fun _ => rfl⟩
  · have hnext : Piece.next c rest = some (Piece.nextEqualMark c (other, kind) rest) :=
      Grammar.next_of_equalMark hc
    refine ⟨c, rest, _, _, rfl, hnext, hone hnext, ?_⟩
    rintro rfl
    rfl
  · have hnext : Piece.next '/' rest = some (Piece.nextSlash rest) := rfl
    refine ⟨'/', rest, _, _, rfl, hnext, hone hnext, ?_⟩
    rintro rfl
    rfl

theorem covered_word {chars : List Char} (h : (Piece.word chars).WellFormed) :
    (Piece.word chars).Covered rest := by
  obtain ⟨c, cs, rfl, hc, hcs⟩ := h
  refine ⟨c, cs ++ rest, _, _, rfl, Grammar.next_of_isLetter hc _, ?_, ?_⟩
  · rw [List.takeWhile_append_of_pos hcs]
    simp [Piece.chars]
  · rintro rfl
    simpa using hcs

theorem splitFraction_withPoint {fraction : List Char} (hne : fraction ≠ [])
    (h : ∀ d ∈ fraction, isDigit d = true) :
    (splitFraction (withPoint fraction ++ rest)).1 = fraction ++ rest.takeWhile isDigit := by
  cases fraction with
  | nil => exact absurd rfl hne
  | cons d fraction =>
      rw [List.forall_mem_cons] at h
      simp only [withPoint, List.cons_append, splitFraction, h.1, if_true]
      rw [List.takeWhile_append_of_pos h.2]

theorem covered_number {whole fraction : List Char} (h : (Piece.number whole fraction).WellFormed) :
    (Piece.number whole fraction).Covered rest := by
  obtain ⟨hne, hwhole, hfraction⟩ := h
  cases whole with
  | nil => exact absurd rfl hne
  | cons d whole =>
      rw [List.forall_mem_cons] at hwhole
      refine ⟨d, whole ++ (withPoint fraction ++ rest), _, _, by simp [Piece.chars],
        Grammar.next_of_first (.digit hwhole.1), ?_, ?_⟩
      all_goals rw [List.takeWhile_append_of_pos hwhole.2, List.dropWhile_append_of_pos hwhole.2]
      · cases fraction with
        | nil => simp [Piece.chars, withPoint]
        | cons e fraction =>
            have hpoint : (withPoint (e :: fraction) ++ rest).takeWhile isDigit = [] := rfl
            have hdrop : (withPoint (e :: fraction) ++ rest).dropWhile isDigit =
                withPoint (e :: fraction) ++ rest := rfl
            rw [hpoint, hdrop, splitFraction_withPoint (List.cons_ne_nil _ _) hfraction]
            simp [Piece.chars, withPoint]
      · rintro rfl
        cases fraction with
        | nil => simp [withPoint, splitFraction]
        | cons e fraction =>
            have hpoint : (withPoint (e :: fraction) ++ []).takeWhile isDigit = [] := rfl
            have hdrop : (withPoint (e :: fraction) ++ []).dropWhile isDigit =
                withPoint (e :: fraction) ++ [] := rfl
            rw [hpoint, hdrop, splitFraction_withPoint (List.cons_ne_nil _ _) hfraction]
            simp

theorem takeWhile_of_not_mem {q : Char} {body : List Char} (h : q ∉ body) (after : List Char) :
    (body ++ q :: after).takeWhile (· ≠ q) = body ∧
      (body ++ q :: after).dropWhile (· ≠ q) = q :: after := by
  have hall : ∀ d ∈ body, decide (d ≠ q) = true := by
    intro d hd
    simpa using fun heq : d = q => h (heq ▸ hd)
  rw [List.takeWhile_append_of_pos hall, List.dropWhile_append_of_pos hall]
  simp

/-- **The scan takes no shorter piece than a text begins with.** -/
theorem Piece.Begins.covered (h : piece.Begins text rest) : piece.Covered rest := by
  have hwellFormed := h.wellFormed
  cases piece with
  | mark kind chars => exact covered_mark hwellFormed
  | word chars => exact covered_word hwellFormed
  | number whole fraction => exact covered_number hwellFormed
  | string body =>
      have hquote : Piece.nextQuote (body ++ '"' :: rest) = (.string body, rest) := by
        obtain ⟨htake, hdrop⟩ := takeWhile_of_not_mem hwellFormed rest
        simp only [Piece.nextQuote, htake, hdrop]
      exact ⟨'"', body ++ '"' :: rest, _, _, by simp [chars],
        Grammar.next_of_first (.string hquote), Nat.le_refl _, fun _ => rfl⟩
  | blank c =>
      have hc : isLineBlank c = true := by
        simpa [WellFormed, isLineBlank, or_assoc] using hwellFormed
      exact ⟨c, rest, _, _, rfl, Grammar.next_of_first (.blank hc), Nat.le_refl _, fun _ => rfl⟩
  | newline => exact ⟨'\n', rest, _, _, rfl, rfl, Nat.le_refl _, fun _ => rfl⟩
  | lineComment body =>
      have hall : ∀ d ∈ body, decide (d ≠ '\n') = true := by
        intro d hd
        simpa using fun heq : d = '\n' => hwellFormed (heq ▸ hd)
      refine ⟨'/', '/' :: (body ++ rest), _, _, rfl, Grammar.next_of_first .lineComment, ?_, ?_⟩
      all_goals rw [List.takeWhile_append_of_pos hall]
      · simp [chars]
      · rintro rfl
        simp
  | blockComment body =>
      have hsplit : splitComment? (body ++ '*' :: '/' :: rest) = some (body, rest) :=
        splitComment?_append hwellFormed
      exact ⟨'/', '*' :: (body ++ '*' :: '/' :: rest), _, _, by simp [chars],
        Grammar.next_of_first (.blockComment hsplit), Nat.le_refl _, fun _ => rfl⟩
  | openString body =>
      obtain rfl := h.toEnd rfl
      have hquote : Piece.nextQuote body = (.openString body, []) := by
        have hdrop : body.dropWhile (· ≠ '"') = [] := by
          rw [List.dropWhile_eq_nil_iff]
          intro d hd
          simpa using fun heq : d = '"' => hwellFormed (heq ▸ hd)
        simp only [Piece.nextQuote, hdrop]
      exact ⟨'"', body, _, _, by simp [chars], Grammar.next_of_first (.openString hquote),
        Nat.le_refl _, fun _ => rfl⟩
  | openComment body =>
      obtain rfl := h.toEnd rfl
      have hsplit : splitComment? body = none := splitComment?_eq_none_iff.2 hwellFormed
      exact ⟨'/', '*' :: body, _, _, by simp [chars], Grammar.next_of_first (.openComment hsplit),
        Nat.le_refl _, fun _ => rfl⟩

/-- **The scan takes the longest piece.** -/
theorem munches_of_next (h : Piece.next c cs = some (piece, rest)) :
    piece.Munches (c :: cs) rest := by
  refine ⟨begins_of_next h, ?_⟩
  intro other rest' hother
  obtain ⟨d, ds, longer, after, htext, hnext, hlength, -⟩ := hother.covered
  obtain ⟨rfl, rfl⟩ := List.cons.inj (hother.text_eq.trans htext)
  obtain ⟨rfl, rfl⟩ := Prod.mk.inj (Option.some.inj (hnext.symm.trans h))
  exact hlength

/-- From the characters of a piece alone the scan takes just this piece. -/
theorem Piece.WellFormed.next_chars (h : piece.WellFormed) :
    ∃ c cs, piece.chars = c :: cs ∧ Piece.next c cs = some (piece, []) := by
  have halone : piece.Begins piece.chars [] := ⟨h, by simp, fun _ => rfl⟩
  obtain ⟨c, cs, longer, after, hchars, hnext, -, hsame⟩ := halone.covered
  rw [hsame rfl] at hnext
  rw [List.append_nil] at hchars
  have hafter : piece.chars ++ after = piece.chars := by
    rw [Piece.chars_append_of_next hnext, hchars]
  obtain rfl := List.append_right_eq_self.1 hafter
  exact ⟨c, cs, hchars, hnext⟩

theorem Piece.WellFormed.chars_ne_nil (h : piece.WellFormed) : piece.chars ≠ [] := by
  obtain ⟨c, cs, hchars, -⟩ := h.next_chars
  simp [hchars]

/-- A piece is known by its characters. -/
theorem eq_of_chars_eq (hpiece : piece.WellFormed) (hother : other.WellFormed)
    (h : piece.chars = other.chars) : piece = other := by
  obtain ⟨c, cs, hchars, hnext⟩ := hpiece.next_chars
  obtain ⟨d, ds, hchars', hnext'⟩ := hother.next_chars
  obtain ⟨rfl, rfl⟩ := List.cons.inj (hchars.symm.trans (h.trans hchars'))
  exact congrArg Prod.fst (Option.some.inj (hnext.symm.trans hnext'))

/-- There is one longest piece at most. -/
theorem Piece.Munches.unique {rest' : List Char} (h : piece.Munches text rest)
    (h' : other.Munches text rest') : piece = other ∧ rest = rest' := by
  have hlength : piece.chars.length = other.chars.length :=
    Nat.le_antisymm (h'.longest _ _ h.begins) (h.longest _ _ h'.begins)
  have hsplit := List.append_inj (h.begins.text_eq.symm.trans h'.begins.text_eq) hlength
  exact ⟨eq_of_chars_eq h.begins.wellFormed h'.begins.wellFormed hsplit.1, hsplit.2⟩

/-- Whether a piece begins with a character does not hang on what follows. -/
theorem next_eq_none (h : Piece.next c cs = none) (ds : List Char) : Piece.next c ds = none := by
  unfold Piece.next at h ⊢
  repeat' split at h
  all_goals simp_all

/-- **Where the scan takes no piece, no class admits the character.** -/
theorem not_admitted_of_next (h : Piece.next c cs = none) : ¬ Admitted c := by
  rintro ⟨piece, ds, hpiece, hchars⟩
  obtain ⟨d, es, htext, hnext⟩ := hpiece.next_chars
  rw [hchars] at htext
  obtain ⟨rfl, rfl⟩ := List.cons.inj htext
  rw [next_eq_none h] at hnext
  cases hnext

theorem admitted_of_next (h : Piece.next c cs = some (piece, rest)) : Admitted c := by
  have hbegins := begins_of_next h
  obtain ⟨d, ds, hchars⟩ := List.exists_cons_of_ne_nil (Piece.chars_ne_nil_of_next h)
  have htext := hbegins.text_eq
  rw [hchars, List.cons_append] at htext
  obtain ⟨rfl, -⟩ := List.cons.inj htext
  exact ⟨piece, ds, hbegins.wellFormed, hchars⟩

end Next

/-! ### Readings -/

/-- **A scan finds the one reading of a text.** -/
theorem lexes_iff {text : List Char} {pieces : List Piece} {stuck : Option Char} :
    Lexes text pieces stuck ↔ tile text = { pieces, stuck } := by
  constructor
  · intro h
    induction h with
    | done => exact tile_nil
    | @stuck c cs h =>
        cases hnext : Piece.next c cs with
        | none => exact tile_of_none hnext
        | some found => exact absurd (admitted_of_next hnext) h
    | @piece text rest piece pieces stuck hpiece _ ih =>
        obtain ⟨c, cs, longer, after, htext, hnext, -, -⟩ := hpiece.begins.covered
        rw [← hpiece.begins.text_eq] at htext
        subst htext
        obtain ⟨rfl, rfl⟩ := hpiece.unique (munches_of_next hnext)
        rw [tile_of_next hnext, ih]
  · intro h
    induction text using tile.induct generalizing pieces stuck with
    | case1 =>
        rw [tile_nil] at h
        cases h
        exact .done
    | case2 c cs hnext =>
        rw [tile_of_none hnext] at h
        cases h
        exact .stuck (not_admitted_of_next hnext)
    | case3 c cs piece rest hnext ih =>
        rw [tile_of_next hnext] at h
        cases h
        exact .piece (munches_of_next hnext) (ih rfl)

/-- The pieces of a reading that reaches the end are the text. -/
theorem Lexes.flatMap_chars {text : List Char} {pieces : List Piece} (h : Lexes text pieces none) :
    text = pieces.flatMap Piece.chars := by
  generalize hstuck : (none : Option Char) = stuck at h
  induction h with
  | done => rfl
  | stuck => cases hstuck
  | piece hpiece _ ih => rw [List.flatMap_cons, ← ih hstuck, hpiece.begins.text_eq]

/-- What is left open comes last. -/
theorem Lexes.open_last {text : List Char} {pieces before after : List Piece} {piece : Piece}
    {stuck : Option Char} (h : Lexes text pieces stuck)
    (hpieces : pieces = before ++ piece :: after) (hopen : piece.isOpen = true) : after = [] := by
  induction h generalizing before with
  | done => simp at hpieces
  | stuck => simp at hpieces
  | piece hpiece hrest ih =>
      cases before with
      | nil =>
          obtain ⟨rfl, rfl⟩ := List.cons.inj hpieces
          have hnil := hpiece.begins.toEnd hopen
          subst hnil
          cases hrest with
          | done => rfl
          | piece hpiece _ =>
              obtain ⟨c, cs, -, -, htext, -⟩ := hpiece.begins.covered
              rw [← hpiece.begins.text_eq] at htext
              cases htext
      | cons first before =>
          obtain ⟨-, hothers⟩ := List.cons.inj hpieces
          exact ih hothers

/-- Every piece of a reading is well formed. -/
theorem Lexes.wellFormed_of_mem {text : List Char} {pieces : List Piece} {stuck : Option Char}
    (h : Lexes text pieces stuck) {piece : Piece} (hpiece : piece ∈ pieces) :
    piece.WellFormed := by
  induction h with
  | done | stuck _ => cases hpiece
  | piece hfirst _ ih =>
      rcases List.mem_cons.1 hpiece with rfl | hlater
      · exact hfirst.begins.wellFormed
      · exact ih hlater

/-! ### Tokens -/

/-- The token of a lexeme, on whatever line: its text is the lexeme, a word is a keyword if it is in
the table, and the value of a string is what stands between its quotes. -/
inductive Yields : Piece → Token → Prop where
  | mark {kind : TokenKind} {chars : List Char} {line : Json} :
      Yields (.mark kind chars)
        { kind, lexeme := .str (String.ofList chars), line, literal := .null }
  | keyword {kind : TokenKind} {chars : List Char} {line : Json}
      (h : (chars, kind) ∈ TokenKind.reserved) :
      Yields (.word chars) { kind, lexeme := .str (String.ofList chars), line, literal := .null }
  | identifier {chars : List Char} {line : Json} (h : ∀ kind, (chars, kind) ∉ TokenKind.reserved) :
      Yields (.word chars)
        { kind := .identifier, lexeme := .str (String.ofList chars), line, literal := .null }
  | number {whole fraction : List Char} {line : Json} :
      Yields (.number whole fraction)
        { kind := .number, lexeme := .str (String.ofList (whole ++ withPoint fraction)), line
          literal := .num (Number.ofPointed whole fraction) }
  | string {body : List Char} {line : Json} :
      Yields (.string body)
        { kind := .string, lexeme := .str (String.ofList ('"' :: body ++ ['"'])), line
          literal := .str (String.ofList body) }

theorem Yields.lexeme_eq {piece : Piece} {t : Token} (h : Yields piece t) :
    t.lexeme = .str (String.ofList piece.chars) := by
  cases h <;> rfl

/-- A lexeme denotes one value. -/
theorem Yields.literal_eq {piece : Piece} {t t' : Token} (h : Yields piece t)
    (h' : Yields piece t') : t.literal = t'.literal := by
  cases h <;> cases h' <;> rfl

/-- The token is that of a lexeme. -/
def Token.IsLexeme (t : Token) : Prop :=
  ∃ piece : Piece, piece.WellFormed ∧ Yields piece t

namespace Token.IsLexeme

variable {t t' : Token}

/-- The text of a lexeme settles its value. -/
theorem literal_eq (h : t.IsLexeme) (h' : t'.IsLexeme) (heq : t.lexeme = t'.lexeme) :
    t.literal = t'.literal := by
  obtain ⟨piece, hpiece, hyields⟩ := h
  obtain ⟨other, hother, hyields'⟩ := h'
  rw [hyields.lexeme_eq, hyields'.lexeme_eq] at heq
  have hchars : piece.chars = other.chars := String.ofList_injective (Json.str.inj heq)
  obtain rfl := eq_of_chars_eq hpiece hother hchars
  exact hyields.literal_eq hyields'

/-- The token for the end has no text, every other one has some. -/
theorem lexeme_ne_end (h : t.IsLexeme) (line : Nat) : t.lexeme ≠ (endToken line).lexeme := by
  obtain ⟨piece, hpiece, hyields⟩ := h
  rw [hyields.lexeme_eq]
  intro hempty
  refine hpiece.chars_ne_nil ?_
  simpa using congrArg String.toList (Json.str.inj hempty)

end Token.IsLexeme

/-- A word that is in the table is no identifier. -/
theorem not_mem_reserved_of_ofWord {word : List Char} (h : TokenKind.ofWord word = .identifier)
    (kind : TokenKind) : (word, kind) ∉ TokenKind.reserved := by
  intro hmem
  have hkinds : ∀ entry ∈ TokenKind.reserved, TokenKind.ofWord entry.1 ≠ .identifier := by decide
  exact hkinds _ hmem h

theorem yields_of_token? {piece : Piece} {line : Nat} {t : Token} (h : piece.token? line = some t) :
    piece.isLexeme = true ∧ Yields piece t := by
  cases piece with
  | mark kind chars =>
      cases h
      exact ⟨rfl, .mark⟩
  | word chars =>
      cases h
      refine ⟨rfl, ?_⟩
      by_cases hkind : TokenKind.ofWord chars = .identifier
      · rw [hkind]
        exact .identifier (not_mem_reserved_of_ofWord hkind)
      · exact .keyword (Grammar.mem_reserved_of_ofWord hkind)
  | number whole fraction =>
      cases h
      exact ⟨rfl, .number⟩
  | string body =>
      cases h
      exact ⟨rfl, .string⟩
  | _ => cases h

theorem isLexeme_eq_false_of_token? {piece : Piece} {line : Nat} (h : piece.token? line = none) :
    piece.isLexeme = false := by
  cases piece with
  | mark | word | number | string => cases h
  | _ => rfl

/-- The tokens of pieces are those of the lexemes among them, and the end of the input. -/
theorem tokensFrom_yields (line : Nat) (pieces : List Piece) :
    ∃ tokens last, tokensFrom line pieces = tokens ++ [endToken last] ∧
      List.Forall₂ Yields (pieces.filter Piece.isLexeme) tokens := by
  induction pieces generalizing line with
  | nil => exact ⟨[], line, rfl, .nil⟩
  | cons piece pieces ih =>
      obtain ⟨tokens, last, htokens, hyields⟩ := ih (line + newlines piece.chars)
      rw [tokensFrom_cons, htokens]
      cases htoken : piece.token? (line + newlines piece.chars) with
      | none =>
          refine ⟨tokens, last, rfl, ?_⟩
          rw [List.filter_cons_of_neg (by simp [isLexeme_eq_false_of_token? htoken])]
          exact hyields
      | some t =>
          obtain ⟨hlexeme, ht⟩ := yields_of_token? htoken
          refine ⟨t :: tokens, last, rfl, ?_⟩
          rw [List.filter_cons_of_pos hlexeme]
          exact .cons ht hyields

theorem isSome_openFault? (piece : Piece) : piece.openFault?.isSome = piece.isOpen := by
  cases piece <;> rfl

/-- What a scan has to recover from is the piece that is left open. -/
theorem Lexes.openFault? {text : List Char} {pieces : List Piece} {stuck : Option Char}
    (h : Lexes text pieces stuck) :
    (pieces.getLast?.bind Piece.openFault?).isSome = true ↔
      ∃ piece ∈ pieces, piece.isOpen = true := by
  constructor
  · intro hsome
    obtain ⟨fault, hfault⟩ := Option.isSome_iff_exists.1 hsome
    obtain ⟨piece, hlast, hpiece⟩ := Option.bind_eq_some_iff.1 hfault
    refine ⟨piece, List.mem_of_getLast? hlast, ?_⟩
    rw [← isSome_openFault?, hpiece]
    rfl
  · rintro ⟨piece, hmem, hopen⟩
    obtain ⟨before, after, hpieces⟩ := List.append_of_mem hmem
    obtain rfl := h.open_last hpieces hopen
    rw [hpieces, List.getLast?_concat, Option.bind_some, isSome_openFault?, hopen]

/-! ### Scans -/

/-- **A scan is the maximal-munch reading of its source.** Every source has one reading. If it ends
at a character that no class admits, the scan fails and names that character. Otherwise the source
is its pieces in their order, of which only the last may be left open, and the tokens are those of
the lexemes among them, followed by one for the end of the input. -/
theorem scan_munches (source : String) :
    ∃ pieces stuck,
      (∀ pieces' stuck', Lexes source.toList pieces' stuck' ↔ pieces' = pieces ∧ stuck' = stuck) ∧
      match stuck with
      | some c => ∃ line, scan source = .error { fault := .unidentified c, line }
      | none =>
        source.toList = pieces.flatMap Piece.chars ∧
        (∀ before piece after, pieces = before ++ piece :: after → piece.isOpen = true →
          after = []) ∧
        ∃ scanned tokens line, scan source = .ok scanned ∧
          scanned.tokens = tokens ++
            [{ kind := .endOfInput, lexeme := .str "", line, literal := .null }] ∧
          List.Forall₂ Yields (pieces.filter Piece.isLexeme) tokens ∧
          (scanned.recovered.isSome = true ↔ ∃ piece ∈ pieces, piece.isOpen = true) := by
  have hlexes : Lexes source.toList (tile source.toList).pieces (tile source.toList).stuck :=
    lexes_iff.2 rfl
  refine ⟨(tile source.toList).pieces, (tile source.toList).stuck, ?_, ?_⟩
  · intro pieces' stuck'
    rw [lexes_iff]
    constructor
    · intro h
      rw [h]
      exact ⟨rfl, rfl⟩
    · rintro ⟨rfl, rfl⟩
      rfl
  · rw [scan, scanChars]
    cases hstuck : (tile source.toList).stuck with
    | some c => exact ⟨_, rfl⟩
    | none =>
        rw [hstuck] at hlexes
        obtain ⟨tokens, last, htokens, hyields⟩ := tokensFrom_yields 1 (tile source.toList).pieces
        refine ⟨hlexes.flatMap_chars, fun _ _ _ => hlexes.open_last,
          _, tokens, .int last, rfl, htokens, hyields, ?_⟩
        rw [Option.isSome_map]
        exact hlexes.openFault?

end ScriptLang
