import ScriptLang.Proofs.Grammar.Accepts
import ScriptLang.Proofs.Grammar.Sound

/-!
# Where the parser follows the reference grammar

The reference grammar accepts more sources than the parser. It takes a reserved word for a name
where only a name may stand, it takes `and` and `or` off the front of a longer word, and it skips
form feeds. A source that it accepts without any of these is the same program to the parser; with
one of them, the parser rejects it.

## Main Definitions

* `Cut.ordinary`: the cuts that a scan would also make.

## Main Statements

* `tile_of_cuts`: a source with ordinary cuts only is scanned along them.
* `ordinary_of_reads`: a source whose scanned tokens are read has ordinary cuts only.
* `programOf_of_parseWithGrammar`: when the parser follows.
* `reservedName_departs`: a source where it does not.

## Design Notes

A cut may also split a mark of two characters where only its first one is accepted, or take the
slash of a comment that is never closed for an operator. The machine then waits for an operand and
stands in front of the second character, which begins none; so no source gets through with such a
cut.
-/

namespace ScriptLang.Grammar

/-! ### Ordinary cuts -/

/-- The cuts that a scan would also make: no form feed is skipped, no reserved word is taken for a
name, and a word operator ends where its word ends. -/
def Cut.ordinary : Cut → Bool
  | .skipped piece => piece ≠ ['\x0c']
  | .taken lexeme after =>
    match lexeme.kind with
    | .identifier => TokenKind.ofWord lexeme.chars = .identifier
    | .andWord | .orWord => !(after.head?.any isWordChar)
    | _ => true

theorem Cut.ofWord_of_ordinary {lexeme : Lexeme} {after : List Char}
    (h : (Cut.taken lexeme after).ordinary = true) (hkind : lexeme.kind = .identifier) :
    TokenKind.ofWord lexeme.chars = .identifier := by
  simpa [ordinary, hkind] using h

/-- A word operator ends where its word ends. -/
theorem Cut.word_ends_of_ordinary {lexeme : Lexeme} {after : List Char}
    (h : (Cut.taken lexeme after).ordinary = true)
    (hkind : lexeme.kind = .andWord ∨ lexeme.kind = .orWord) :
    after.takeWhile isWordChar = [] ∧ after.dropWhile isWordChar = after := by
  have hhead : after.head?.any isWordChar = false := by
    rcases hkind with hkind | hkind <;> simpa [ordinary, hkind] using h
  cases after with
  | nil => simp
  | cons d ds =>
      have hd : isWordChar d = false := by simpa using hhead
      simp [List.takeWhile, List.dropWhile, hd]

/-! ### Positions -/

/-- Where a mark of one character may stand, its longer form may too, unless an operand or a value
follows. -/
theorem accepts_long {c : Char} {kinds : TokenKind × TokenKind} (h : equalMark? c = some kinds)
    {position : Position} (haccepts : position.accepts kinds.2 = true) :
    position.accepts kinds.1 = true ∨ kinds.2 = .bang ∨ kinds.2 = .equal := by
  have hmem := mem_equalMarks h
  simp only [equalMarks, List.mem_cons, Prod.mk.injEq, List.not_mem_nil, or_false] at hmem
  rcases hmem with ⟨-, rfl, rfl⟩ | ⟨-, rfl, rfl⟩ | ⟨-, rfl, rfl⟩ | ⟨-, rfl, rfl⟩
  · exact Or.inr (Or.inl rfl)
  · exact Or.inr (Or.inr rfl)
  · apply Or.inl
    revert haccepts
    cases position <;> simp [Position.accepts, beginsStatement, beginsOperand, followsOperand]
  · apply Or.inl
    revert haccepts
    cases position <;> simp [Position.accepts, beginsStatement, beginsOperand, followsOperand]

/-- Where an operand or a statement may begin, only a negation of the three may stand. -/
theorem mode_of_readOperand {m next : Machine} {t : Token}
    (hkind : t.kind = .bang ∨ t.kind = .equal ∨ t.kind = .slash)
    (hstep : m.readOperand t = some next) : next.mode = .operand := by
  rcases hkind with hkind | hkind | hkind
  · simp only [Machine.readOperand, hkind, Option.some.injEq] at hstep
    rw [← hstep]
  · simp [Machine.readOperand, hkind] at hstep
  · simp [Machine.readOperand, hkind] at hstep

theorem readStatement_eq_readOperand {m : Machine} {t : Token}
    (hkind : t.kind = .bang ∨ t.kind = .equal ∨ t.kind = .slash) :
    m.readStatement t = Machine.readOperand { m with stack := .exprStmt :: m.stack } t ∧
      m.readList t = m.readStatement t := by
  rcases hkind with hkind | hkind | hkind <;>
    simp only [Machine.readList, Machine.readStatement, hkind, and_self]

/-- Behind a negation, an equals sign and a slash the machine waits for an operand. -/
theorem mode_of_step {m next : Machine} {t : Token} (haccepts : m.position.accepts t.kind = true)
    (hkind : t.kind = .bang ∨ t.kind = .equal ∨ t.kind = .slash) (hstep : m.step t = some next) :
    next.mode = .operand := by
  obtain ⟨mode, stack, stmts⟩ := m
  cases mode with
  | list position =>
      simp only [Machine.step, readStatement_eq_readOperand hkind] at hstep
      exact mode_of_readOperand hkind hstep
  | statement pending =>
      have hne : t.kind ≠ .elseWord := by
        rcases hkind with hkind | hkind | hkind <;> simp [hkind]
      simp only [Machine.step, if_neg hne, readStatement_eq_readOperand hkind] at hstep
      exact mode_of_readOperand hkind hstep
  | body =>
      simp only [Machine.step, readStatement_eq_readOperand hkind] at hstep
      exact mode_of_readOperand hkind hstep
  | var =>
      rcases hkind with hkind | hkind | hkind <;>
        simp [Machine.position, Position.accepts, hkind] at haccepts
  | declared name =>
      have hequal : t.kind = .equal := by
        rcases hkind with hkind | hkind | hkind <;>
          simp [Machine.position, Position.accepts, hkind] at haccepts ⊢
      simp only [Machine.step, if_pos hequal, Option.some.injEq] at hstep
      rw [← hstep]
  | conditional statement =>
      cases hstep
      rfl
  | operand => exact mode_of_readOperand hkind hstep
  | operandRead value =>
      simp only [Machine.step, Machine.readAfterOperand] at hstep
      split at hstep
      · next hparen => rcases hkind with hkind | hkind | hkind <;> simp [hparen] at hkind
      · next hsemicolon => rcases hkind with hkind | hkind | hkind <;> simp [hsemicolon] at hkind
      · split at hstep <;> cases hstep
        rfl
      · cases hstep
        rfl

/-- No operand begins with the second character of a mark or of a comment. -/
theorem not_cuts_operand {bound : Nat} {m last : Machine} {line : Nat} {c : Char} {cs : List Char}
    {cuts : List Cut} (hmode : m.mode = .operand) (hc : c = '=' ∨ c = '*') :
    ¬ m.Cuts bound line (c :: cs) cuts last := by
  have hposition : m.position = .operand := by simp [Machine.position, hmode]
  have hlayout : layoutPiece? (c :: cs) = none := by
    rcases hc with rfl | rfl <;> rfl
  have hlexeme : lexAt m.position.accepts (c :: cs) = none := by
    rw [hposition]
    rcases hc with rfl | rfl
    · have hmark : equalMark? '=' = some (.equalEqual, .equal) := rfl
      rw [lexAt_equalMark hmark]
      simp [Position.accepts, beginsOperand]
    · have hmark : soleMark? '*' = some .star := rfl
      rw [lexAt_soleMark hmark (accepts_comma _) (accepts_dot _)]
      simp [Position.accepts, beginsOperand]
  intro h
  cases h with
  | skip hpiece _ => rw [hlayout] at hpiece; cases hpiece
  | take _ hlexeme' _ _ _ => rw [hlexeme] at hlexeme'; cases hlexeme'

/-! ### Ordinary cuts are pieces -/

section Pieces

variable {c : Char} {cs after : List Char}

/-- Layout other than a form feed is a piece. -/
theorem first_of_layoutPiece? {chars : List Char} (h : layoutPiece? (c :: cs) = some (chars, after))
    (hchars : chars ≠ ['\x0c']) :
    ∃ piece, First c cs piece after ∧ piece.chars = chars ∧ isLayout piece = true := by
  simp only [layoutPiece?] at h
  split at h
  · next hspace =>
    cases h
    simp only [isSpace, Bool.or_eq_true, decide_eq_true_eq] at hspace
    rcases hspace with (((rfl | rfl) | rfl) | rfl) | rfl
    · exact ⟨.blank ' ', .blank rfl, rfl, rfl⟩
    · exact ⟨.blank '\t', .blank rfl, rfl, rfl⟩
    · exact absurd rfl hchars
    · exact ⟨.blank '\r', .blank rfl, rfl, rfl⟩
    · exact ⟨.newline, .newline, rfl, rfl⟩
  · split at h
    · next hslash =>
      subst hslash
      split at h
      · next body rest hnext =>
        cases h
        exact ⟨.lineComment body, first_of_nextSlash hnext, rfl, rfl⟩
      · next body rest hnext =>
        cases h
        exact ⟨.blockComment body, first_of_nextSlash hnext, rfl, rfl⟩
      · cases h
    · cases h

/-- What a lexeme is to a scan. -/
def IsPiece (c : Char) (cs : List Char) (lexeme : Lexeme) (after : List Char) : Prop :=
  ∃ piece, First c cs piece after ∧ piece.chars = lexeme.chars ∧
    ∀ line, piece.token? line = some (lexeme.token line)

variable {position : Position} {lexeme : Lexeme}

theorem isPiece_letter (hc : isLetter c = true)
    (h : lexAt position.accepts (c :: cs) = some (lexeme, after))
    (hordinary : (Cut.taken lexeme after).ordinary = true) : IsPiece c cs lexeme after := by
  rw [lexAt_letter hc] at h
  split at h
  · cases h
    have hkind : (wordLexeme position.accepts (c :: cs.takeWhile isWordChar)).kind =
        TokenKind.ofWord (c :: cs.takeWhile isWordChar) := by
      by_cases haccepts :
          position.accepts (TokenKind.ofWord (c :: cs.takeWhile isWordChar)) = true
      · simp [wordLexeme, haccepts]
      · have hidentifier : (wordLexeme position.accepts (c :: cs.takeWhile isWordChar)).kind =
            .identifier := by simp [wordLexeme, haccepts]
        rw [hidentifier]
        exact (Cut.ofWord_of_ordinary hordinary hidentifier).symm
    refine ⟨_, .letter hc, rfl, ?_⟩
    intro line
    simp only [Piece.token?, Lexeme.token, hkind]
    rfl
  · next hidentifier =>
    obtain ⟨chars, kind, hmem, haccepts, rfl, happend⟩ := entry_of_fromTable h
    have hword := and_or_of_accepts hmem (Bool.eq_false_iff.2 hidentifier) haccepts
    obtain ⟨htake, hdrop⟩ := Cut.word_ends_of_ordinary hordinary
      (hword.imp And.right And.right)
    rcases hword with ⟨rfl, rfl⟩ | ⟨rfl, rfl⟩
    · cases happend
      refine ⟨.word ['a', 'n', 'd'], ?_, rfl, fun _ => rfl⟩
      have hfirst : First 'a' ('n' :: 'd' :: after) _ _ := .letter hc
      simpa [isWordChar, isLetter, htake, hdrop] using hfirst
    · cases happend
      refine ⟨.word ['o', 'r'], ?_, rfl, fun _ => rfl⟩
      have hfirst : First 'o' ('r' :: after) _ _ := .letter hc
      simpa [isWordChar, isLetter, htake, hdrop] using hfirst

theorem isPiece_equalMark {kinds : TokenKind × TokenKind} (hc : equalMark? c = some kinds)
    (h : lexAt position.accepts (c :: cs) = some (lexeme, after))
    (hlong : lexeme.kind = .bang ∨ lexeme.kind = .equal → ∀ rest, after ≠ '=' :: rest) :
    IsPiece c cs lexeme after := by
  rw [lexAt_equalMark hc] at h
  split at h
  · next haccepts =>
    simp only [Bool.and_eq_true, List.isPrefixOf_iff_prefix] at haccepts
    obtain ⟨rest, rfl⟩ := haccepts.2
    cases h
    exact ⟨_, .longMark hc, rfl, fun _ => rfl⟩
  · next hno =>
    split at h
    · next haccepts =>
      cases h
      refine ⟨_, .shortMark hc ?_, rfl, fun _ => rfl⟩
      rcases accepts_long hc haccepts with hfirst | hkind
      · rintro rest rfl
        simp [hfirst] at hno
      · exact hlong hkind
    · cases h

/-- The characters that marks begin with. -/
theorem markStart_of_fromTable {accepts : TokenKind → Bool}
    (h : fromTable marks accepts (c :: cs) = some (lexeme, after)) :
    (∃ kind, soleMark? c = some kind) ∨ (∃ kinds, equalMark? c = some kinds) ∨ c = '/' := by
  obtain ⟨chars, kind, hmem, -, -, happend⟩ := entry_of_fromTable h
  have hall : ∀ entry ∈ marks, ∃ d ds, entry.1 = d :: ds ∧
      ((soleMark? d).isSome ∨ (equalMark? d).isSome ∨ d = '/') := by
    simp [marks, soleMark?, equalMark?]
  obtain ⟨d, ds, rfl, hd⟩ := hall _ hmem
  cases happend
  simpa [Option.isSome_iff_exists] using hd

/-- **What lexing cuts, a scan cuts**, if the cut is ordinary and the machine does not get stuck on
the second character of a mark or of a comment. -/
theorem isPiece_of_lexAt (hlayout : layoutPiece? (c :: cs) = none)
    (h : lexAt position.accepts (c :: cs) = some (lexeme, after))
    (hordinary : (Cut.taken lexeme after).ordinary = true)
    (hlong : lexeme.kind = .bang ∨ lexeme.kind = .equal → ∀ rest, after ≠ '=' :: rest)
    (hslash : lexeme.kind = .slash → ∀ rest, after ≠ '*' :: rest) :
    IsPiece c cs lexeme after := by
  by_cases hletter : isLetter c = true
  · exact isPiece_letter hletter h hordinary
  by_cases hdigit : isDigit c = true
  · rw [lexAt_digit hdigit] at h
    split at h
    · cases h
      exact ⟨_, .digit hdigit, rfl, fun _ => rfl⟩
    · cases h
  by_cases hquote : c = '"'
  · subst hquote
    rw [lexAt_quote] at h
    split at h
    · split at h
      · next hnext =>
        cases h
        exact ⟨_, .string hnext, rfl, fun _ => rfl⟩
      · cases h
    · cases h
  have hmark := h
  rw [lexAt_mark (Bool.eq_false_iff.2 hletter) (Bool.eq_false_iff.2 hdigit) hquote] at hmark
  rcases markStart_of_fromTable hmark with ⟨kind, hc⟩ | ⟨kinds, hc⟩ | rfl
  · rw [lexAt_soleMark hc (accepts_comma position) (accepts_dot position)] at h
    split at h
    · cases h
      exact ⟨_, .soleMark hc, rfl, fun _ => rfl⟩
    · cases h
  · exact isPiece_equalMark hc h hlong
  · rw [lexAt_slash] at h
    split at h
    · cases h
      refine ⟨_, .slash ?_ (hslash rfl), rfl, fun _ => rfl⟩
      rintro rest rfl
      cases hlayout
    · cases h

end Pieces

/-! ### Ordinary cuts are a scan -/

theorem openFault?_eq_none_of_isLayout {piece : Piece} (h : isLayout piece = true) :
    piece.openFault? = none := by
  cases piece with
  | openString _ => cases h
  | openComment _ => cases h
  | _ => rfl

theorem openFault?_eq_none_of_token? {piece : Piece} {line : Nat} {t : Token}
    (h : piece.token? line = some t) : piece.openFault? = none := by
  cases piece with
  | openString _ => cases h
  | openComment _ => cases h
  | _ => rfl

theorem token?_eq_none_of_isLayout {piece : Piece} (h : isLayout piece = true) (line : Nat) :
    piece.token? line = none := by
  cases htoken : piece.token? line with
  | none => rfl
  | some t =>
      rw [isLayout_eq_false htoken] at h
      cases h

/-- A source that the machine gets through with ordinary cuts only is scanned along them. -/
theorem tile_of_cuts {bound : Nat} {m last : Machine} {line : Nat} {cs : List Char}
    {cuts : List Cut} (h : m.Cuts bound line cs cuts last)
    (hordinary : ∀ cut ∈ cuts, cut.ordinary = true) :
    (tile cs).stuck = none ∧ (∀ piece ∈ (tile cs).pieces, piece.openFault? = none) ∧
      startTokens line (tile cs).pieces = tokensOf line cuts := by
  induction h with
  | nil =>
      rw [tile_nil]
      exact ⟨rfl, by simp, rfl⟩
  | @skip m last line cs chars rest cuts hskipped _ ih =>
      cases cs with
      | nil => cases hskipped
      | cons c cs =>
          obtain ⟨hfirst, hothers⟩ := List.forall_mem_cons.1 hordinary
          obtain ⟨hstuck, hopen, htokens⟩ := ih hothers
          obtain ⟨piece, hpiece, rfl, hlayout⟩ :=
            first_of_layoutPiece? hskipped (by simpa [Cut.ordinary] using hfirst)
          rw [tile_of_next (next_of_first hpiece)]
          refine ⟨hstuck, ?_, ?_⟩
          · exact List.forall_mem_cons.2 ⟨openFault?_eq_none_of_isLayout hlayout, hopen⟩
          · simp [startTokens, tokensOf, token?_eq_none_of_isLayout hlayout, htokens]
  | @take m next last line cs after lexeme cuts hlayout hlexeme hstep _ hcuts ih =>
      cases cs with
      | nil => cases hlexeme
      | cons c cs =>
          obtain ⟨hfirst, hothers⟩ := List.forall_mem_cons.1 hordinary
          obtain ⟨hstuck, hopen, htokens⟩ := ih hothers
          have haccepts : m.position.accepts (lexeme.token line).kind = true :=
            accepts_of_lexAt hlexeme
          -- After half a mark or half a comment the machine waits for an operand, and the other half
          -- begins none.
          have hpiece : IsPiece c cs lexeme after := by
            refine isPiece_of_lexAt hlayout hlexeme hfirst ?_ ?_
            · rintro hkind rest rfl
              exact not_cuts_operand (mode_of_step haccepts (hkind.imp_right Or.inl) hstep)
                (Or.inl rfl) hcuts
            · rintro hkind rest rfl
              exact not_cuts_operand (mode_of_step haccepts (Or.inr (Or.inr hkind)) hstep)
                (Or.inr rfl) hcuts
          obtain ⟨piece, hpiece, hchars, htoken⟩ := hpiece
          rw [tile_of_next (next_of_first hpiece)]
          refine ⟨hstuck, ?_, ?_⟩
          · exact List.forall_mem_cons.2 ⟨openFault?_eq_none_of_token? (htoken line), hopen⟩
          · simp [startTokens, tokensOf, htoken, hchars, htokens]

/-! ### A scan has ordinary cuts -/

/-- No blank or comment that a scan knows is a form feed. -/
theorem ordinary_of_layout {c : Char} {cs rest : List Char} {piece : Piece}
    (h : First c cs piece rest) (hlayout : isLayout piece = true) :
    (Cut.skipped piece.chars).ordinary = true := by
  cases h with
  | lineComment => simp [Cut.ordinary, Piece.chars]
  | blockComment _ => simp [Cut.ordinary, Piece.chars]
  | blank hc =>
      simp only [isLineBlank, Bool.or_eq_true, decide_eq_true_eq] at hc
      rcases hc with (rfl | rfl) | rfl <;> decide
  | newline => decide
  | _ => cases hlayout

theorem ordinary_of_kind {lexeme : Lexeme} {after : List Char}
    (h : lexeme.kind ≠ .identifier ∧ lexeme.kind ≠ .andWord ∧ lexeme.kind ≠ .orWord) :
    (Cut.taken lexeme after).ordinary = true := by
  simp only [Cut.ordinary]
  split
  · next hkind => exact absurd hkind h.1
  · next hkind => exact absurd hkind h.2.1
  · next hkind => exact absurd hkind h.2.2
  · rfl

theorem ordinary_of_word {cs : List Char} {lexeme : Lexeme}
    (hkind : lexeme.kind = TokenKind.ofWord lexeme.chars) :
    (Cut.taken lexeme (cs.dropWhile isWordChar)).ordinary = true := by
  have hends : (cs.dropWhile isWordChar).head?.any isWordChar = false := by
    have hhead := List.head?_dropWhile_not isWordChar cs
    cases hrest : cs.dropWhile isWordChar with
    | nil => rfl
    | cons d ds => simpa [hrest] using hhead
  simp only [Cut.ordinary]
  split
  · next hidentifier => simp [← hkind, hidentifier]
  · simp [hends]
  · simp [hends]
  · rfl

/-- The token of a piece is a name only if its word is none of the reserved ones, and a word ends
where a scan ends it. -/
theorem ordinary_of_token? {c : Char} {cs rest : List Char} {piece : Piece} {line : Nat}
    {lexeme : Lexeme} (h : First c cs piece rest) (hchars : lexeme.chars = piece.chars)
    (htoken : piece.token? line = some (lexeme.token line)) :
    (Cut.taken lexeme rest).ordinary = true := by
  have hkind : ∀ {t : Token}, piece.token? line = some t → lexeme.kind = t.kind := by
    intro t ht
    rw [htoken] at ht
    cases ht
    rfl
  cases h with
  | soleMark h =>
      have hall : ∀ entry ∈ soleMarks, entry.2 ≠ .identifier ∧ entry.2 ≠ .andWord ∧
          entry.2 ≠ .orWord := by decide
      exact ordinary_of_kind (hkind rfl ▸ hall _ (mem_soleMarks h))
  | longMark h =>
      have hall : ∀ entry ∈ equalMarks, entry.2.1 ≠ .identifier ∧ entry.2.1 ≠ .andWord ∧
          entry.2.1 ≠ .orWord := by decide
      exact ordinary_of_kind (hkind rfl ▸ hall _ (mem_equalMarks h))
  | shortMark h _ =>
      have hall : ∀ entry ∈ equalMarks, entry.2.2 ≠ .identifier ∧ entry.2.2 ≠ .andWord ∧
          entry.2.2 ≠ .orWord := by decide
      exact ordinary_of_kind (hkind rfl ▸ hall _ (mem_equalMarks h))
  | slash _ _ => exact ordinary_of_kind (by rw [hkind rfl]; simp)
  | string _ => exact ordinary_of_kind (by rw [hkind rfl]; simp)
  | digit _ => exact ordinary_of_kind (by rw [hkind rfl]; simp)
  | letter h =>
      apply ordinary_of_word
      rw [hkind rfl, hchars]
      rfl
  | _ => cases htoken

/-- Where the source may end, no operator may stand. -/
theorem step_slash_of_finish {m : Machine} {program : List Stmt} {t : Token}
    (hfinish : m.finish = some program) (hkind : t.kind = .slash) : m.step t = none := by
  have hlist : ∀ m : Machine, m.readList t = none := by
    intro m
    simp [Machine.readList, Machine.readStatement, Machine.readOperand, hkind]
  obtain ⟨mode, stack, stmts⟩ := m
  cases mode with
  | list position => exact hlist _
  | statement pending =>
      simp only [Machine.step, hkind]
      exact hlist _
  | _ => cases hfinish

/-- Where the source may end, nothing that is left open can be read. -/
theorem step_eq_none_of_open {m : Machine} {program : List Stmt} {c : Char} {cs rest : List Char}
    {piece : Piece} {lexeme : Lexeme} {after : List Char} (line : Nat)
    (hfinish : m.finish = some program) (h : First c cs piece rest)
    (hopen : piece.openFault? ≠ none)
    (hlexeme : lexAt m.position.accepts (c :: cs) = some (lexeme, after)) :
    m.step (lexeme.token line) = none := by
  cases h with
  | openComment _ =>
      rw [lexAt_slash] at hlexeme
      split at hlexeme
      · cases hlexeme
        exact step_slash_of_finish hfinish rfl
      · cases hlexeme
  | openString hquote =>
      rw [lexAt_quote] at hlexeme
      split at hlexeme
      · rw [hquote] at hlexeme
        cases hlexeme
      · cases hlexeme
  | _ => exact absurd rfl hopen

/-- A text that is scanned to its end begins with a piece. -/
theorem exists_next_of_tile {c : Char} {cs : List Char} (h : (tile (c :: cs)).stuck = none) :
    ∃ piece rest, Piece.next c cs = some (piece, rest) := by
  cases hnext : Piece.next c cs with
  | none =>
      rw [tile_of_none hnext] at h
      cases h
  | some found => exact ⟨found.1, found.2, rfl⟩

/-- A source whose scanned tokens the machine reads to an end has ordinary cuts only. -/
theorem ordinary_of_reads {bound depth : Nat} {m last final : Machine} {line : Nat} {cs : List Char}
    {cuts : List Cut} {program : List Stmt} (hcuts : m.Cuts bound line cs cuts last)
    (hstuck : (tile cs).stuck = none)
    (hreads : m.Reads depth (startTokens line (tile cs).pieces) final)
    (hfinish : final.finish = some program) : ∀ cut ∈ cuts, cut.ordinary = true := by
  induction hcuts with
  | nil => simp
  | @skip m last line cs chars rest cuts hskipped _ ih =>
      cases cs with
      | nil => cases hskipped
      | cons c cs =>
          obtain ⟨piece, rest', hnext⟩ := exists_next_of_tile hstuck
          have hfirst := first_of_next hnext
          rw [layoutPiece?_of_first hfirst] at hskipped
          rw [tile_of_next hnext] at hstuck hreads
          split at hskipped
          · next hlayout =>
            cases hskipped
            rw [startTokens, token?_eq_none_of_isLayout hlayout] at hreads
            exact List.forall_mem_cons.2 ⟨ordinary_of_layout hfirst hlayout, ih hstuck hreads⟩
          · cases hskipped
  | @take m next last line cs after lexeme cuts hlayout hlexeme hstep _ _ ih =>
      cases cs with
      | nil => cases hlexeme
      | cons c cs =>
          obtain ⟨piece, rest, hnext⟩ := exists_next_of_tile hstuck
          have hfirst := first_of_next hnext
          rw [tile_of_next hnext] at hstuck hreads
          cases htoken : piece.token? line with
          | some t =>
              rw [startTokens, htoken] at hreads
              cases hreads with
              | cons next' haccepts hstep' _ hreads =>
                  obtain ⟨lexeme', hlexeme', hchars, rfl⟩ :=
                    lexAt_of_first hfirst htoken haccepts
                  rw [hlexeme] at hlexeme'
                  cases hlexeme'
                  rw [hstep] at hstep'
                  cases hstep'
                  rw [← hchars] at hreads
                  exact List.forall_mem_cons.2
                    ⟨ordinary_of_token? hfirst hchars htoken, ih hstuck hreads⟩
          | none =>
              -- The piece is left open at the end of the source, where the machine cannot go on.
              have hopen : piece.openFault? ≠ none := by
                intro hclosed
                rw [layoutPiece?_of_first hfirst, isLayout_of_token? htoken hclosed] at hlayout
                cases hlayout
              obtain rfl := rest_eq_nil_of_open hfirst hopen
              rw [startTokens, htoken, tile_nil] at hreads
              cases hreads
              rw [step_eq_none_of_open line hfinish hfirst hopen hlexeme] at hstep
              cases hstep

/-! ### Programs -/

/-- What is known of a source that is a program to the reference grammar. -/
theorem cuts_of_parseWithGrammar {bound : Nat} {source : String} {program : List Stmt}
    (h : parseWithGrammar bound source = .ok program) :
    ∃ depth last, Machine.initial.Cuts depth 1 source.toList (reading source) last ∧
      last.finish = some program := by
  simp only [parseWithGrammar] at h
  split at h
  · cases h
  · next read depth hread =>
    split at h
    · cases h
      obtain ⟨-, cuts, last, hcuts, hfinish⟩ := cuts_of_readAll hread
      refine ⟨depth, last, ?_, hfinish⟩
      rw [reading, hcuts.cutAll_eq (Nat.le_refl _)]
      exact hcuts
    · cases h

/-- The parser follows a source with ordinary cuts. -/
theorem programOf_of_ordinary {depth n : Nat} {source : String} {program : List Stmt}
    {last : Machine} (hcuts : Machine.initial.Cuts depth 1 source.toList (reading source) last)
    (hfinish : last.finish = some program)
    (hordinary : ∀ cut ∈ reading source, cut.ordinary = true) (hn : levelsOfAll program ≤ n) :
    programOf n source = .ok { program, recovered := none } := by
  obtain ⟨hstuck, hopen, htokens⟩ := tile_of_cuts hcuts hordinary
  have hderives : Derives (.decls program) (startTokens 1 (tile source.toList).pieces) := by
    rw [htokens]
    exact derives_of_reads hcuts.reads hfinish
  obtain ⟨stop, hstop, hscanned⟩ := tokensFrom_tile 1 source.toList
  have hparse := Parse.parse_of_derives [] (hderives.map_moved (· + ·)) hstop hn
  have hrecovered : (tile source.toList).pieces.getLast?.bind Piece.openFault? = none := by
    cases hlast : (tile source.toList).pieces.getLast? with
    | none => rfl
    | some piece => exact hopen piece (List.mem_of_getLast? hlast)
  rw [← hscanned] at hparse
  simp [programOf, scan, scanChars, hstuck, hparse, hrecovered]

/-- **Where the parser follows the reference grammar.** A source that the reference grammar accepts
with ordinary cuts only is the same program to the parser, if it may open that many levels. With any
other cut the parser rejects the source. -/
theorem programOf_of_parseWithGrammar {bound : Nat} {source : String} {program : List Stmt}
    (h : parseWithGrammar bound source = .ok program) :
    ((∀ cut ∈ reading source, cut.ordinary = true) →
      ∀ n, levelsOfAll program ≤ n → programOf n source = .ok { program, recovered := none }) ∧
    ((∃ cut ∈ reading source, cut.ordinary = false) →
      ∀ n, ∃ failure, programOf n source = .error failure) := by
  obtain ⟨depth, last, hcuts, hfinish⟩ := cuts_of_parseWithGrammar h
  refine ⟨fun hordinary n hn => programOf_of_ordinary hcuts hfinish hordinary hn, ?_⟩
  rintro ⟨cut, hmem, hcut⟩ n
  cases hloaded : programOf n source with
  | error failure => exact ⟨failure, rfl⟩
  | ok loaded =>
      obtain ⟨hstuck, -, hderives, -⟩ := derives_of_programOf hloaded
      obtain ⟨final, hreads, hfinal⟩ := reads_of_derives hderives
      rw [ordinary_of_reads hcuts hstuck hreads hfinal cut hmem] at hcut
      cases hcut

/-- The word operator in this source is only the beginning of a word. -/
theorem programOf_of_parseWithGrammar_orb :
    parseWithGrammar 3 "a orb;" = .ok [.expr (.logical (.ref (wordAt .identifier "a" 1))
      (wordAt .orWord "or" 1) (.ref (wordAt .identifier "b" 1)))] ∧
    (∃ cut ∈ reading "a orb;", cut.ordinary = false) ∧
    ∀ n, ∃ failure, programOf n "a orb;" = .error failure := by
  have h : parseWithGrammar 3 "a orb;" = .ok [.expr (.logical (.ref (wordAt .identifier "a" 1))
      (wordAt .orWord "or" 1) (.ref (wordAt .identifier "b" 1)))] := by cbv
  have hcut : ∃ cut ∈ reading "a orb;", cut.ordinary = false := by
    have hall : (reading "a orb;").all Cut.ordinary = false := by cbv
    simpa using hall
  exact ⟨h, hcut, (programOf_of_parseWithGrammar h).2 hcut⟩

/-- A reserved word is accepted as a name, which the parser rejects. -/
theorem reservedName_departs :
    parseWithGrammar 1000 "var print;" = .ok [.declare (wordAt .identifier "print" 1) none] ∧
      programOf 1000 "var print;" = .error (.parse (.rejected
        { fault := .variableName, token := wordAt .printWord "print" 1, index := 1 } [])) := by
  constructor
  · cbv
  · cbv

end ScriptLang.Grammar
