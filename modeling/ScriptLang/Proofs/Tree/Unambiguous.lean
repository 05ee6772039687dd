import ScriptLang.Proofs.Number.Printed
import ScriptLang.Proofs.Run.Layout
import ScriptLang.Proofs.Source.Respaced
import ScriptLang.Proofs.Tree.Context
import ScriptLang.Proofs.Tree.Form
import ScriptLang.Proofs.Tree.Stored

/-!
# Unambiguous prefix forms

An expression of a source can be read off its prefix form, if no literal in it is a text: a form is
the form of one expression only, up to the lines of its tokens. Texts have to be left out because
they are shown as they are, with whatever blanks and parentheses they hold.

Every word of a form says what it is. Numbers, truth values and `nil` have texts of their own, the
operators are no names of nodes, and the text of a lexeme settles its token but for the line. Where
two nodes share a head, as a sign and a difference do, the number of arguments tells them apart.

## Main Definitions

* `Expr.InSource`: expressions that stand somewhere in a program that a source is.
* `Demands.lexical`: literals that have words, and operators and names that are lexemes.

## Main Statements

* `Expr.wellFormed_form`: the form of a readable expression is made of words.
* `Expr.unlined_of_form`: a form is the form of one readable expression, up to lines.
* `render_unambiguous`: a prefix form is that of one expression of a source, up to lines.
-/

namespace ScriptLang

open Number

/-! ### Expressions of a source -/

/-- The expression stands somewhere in a program that a source is. -/
def Expr.InSource (e : Expr) : Prop :=
  ∃ (limit : Nat) (source : String) (loaded : Loaded) (K : ProgramContext),
    programOf limit source = .ok loaded ∧ loaded.program = K.fill e

section Contexts

variable {d : Demands} {e : Expr}

theorem ExprContext.meets_of_fill (K : ExprContext) (h : (K.fill e).Meets d) : e.Meets d := by
  induction K with
  | hole => exact h
  | group K ih => exact ih h
  | unary op K ih => exact ih h.2
  | binaryLeft K op right ih | logicalLeft K op right ih => exact ih h.1
  | binaryRight left op K ih | logicalRight left op K ih => exact ih h.2.2
  | assign name K ih => exact ih h.2

theorem StmtContext.meets_of_fill (K : StmtContext) (h : (K.fill e).Meets d) : e.Meets d := by
  induction K with
  | expr K | print K => exact K.meets_of_fill h
  | declare name K => exact K.meets_of_fill h.2
  | block front K behind ih => exact ih (allMeet_iff.1 h _ (by simp))
  | branchTest K whenTrue whenFalse =>
      cases whenFalse <;> exact K.meets_of_fill h.1
  | branchTrue test K whenFalse ih =>
      cases whenFalse with
      | none => exact ih h.2
      | some whenFalse => exact ih h.2.1
  | branchFalse test whenTrue K ih => exact ih h.2.2
  | loopTest K body => exact K.meets_of_fill h.1
  | loopBody test K ih => exact ih h.2

/-- What stands in a program is as demanded, if the program is. -/
theorem ProgramContext.meets_of_fill (K : ProgramContext) (h : allMeet d (K.fill e)) :
    e.Meets d :=
  K.stmt.meets_of_fill (allMeet_iff.1 h _ (by simp [fill]))

end Contexts

/-! ### Tokens of lexemes -/

/-- The operators that may leave out their second operand. -/
def isLogical (kind : TokenKind) : Bool :=
  kind = .orWord || kind = .andWord

theorem Yields.chars_eq {piece : Piece} {t : Token} (h : Yields piece t) :
    t.chars = piece.chars := by
  rw [Token.chars, h.lexeme_eq, Json.shown_str, String.toList_ofList]

namespace Token.IsLexeme

variable {t t' : Token}

/-- **The characters of a lexeme settle its token**, but for the line. -/
theorem unlined_eq (h : t.IsLexeme) (h' : t'.IsLexeme) (heq : t.chars = t'.chars) :
    t.unlined = t'.unlined := by
  obtain ⟨piece, hpiece, hyields⟩ := h
  obtain ⟨other, hother, hyields'⟩ := h'
  rw [hyields.chars_eq, hyields'.chars_eq] at heq
  obtain rfl := eq_of_chars_eq hpiece hother heq
  obtain ⟨hkind, hlexeme, hliteral⟩ := hyields.sameButLine hyields'
  simp only [Token.unlined, hkind, hlexeme, hliteral]

theorem kind_eq (h : t.IsLexeme) (h' : t'.IsLexeme) (heq : t.chars = t'.chars) :
    t.kind = t'.kind := by
  have hkind : t.unlined.kind = t'.unlined.kind := by rw [h.unlined_eq h' heq]
  exact hkind

theorem chars_ne_of_isLogical (h : t.IsLexeme) (h' : t'.IsLexeme)
    (hno : isLogical t.kind = false) (hyes : isLogical t'.kind = true) : t.chars ≠ t'.chars := by
  intro heq
  rw [h.kind_eq h' heq, hyes] at hno
  cases hno

/-- Every literal value of a lexeme can be told from the others. -/
theorem storable (h : t.IsLexeme) : t.literal.Storable := by
  obtain ⟨piece, -, hyields⟩ := h
  cases hyields with
  | number => exact isNaN_ofDecimal _ _
  | _ => trivial

end Token.IsLexeme

/-- The operators of expressions. -/
def isOperator (kind : TokenKind) : Bool :=
  kind = .bang || isArithmetic kind || isComparison kind || isLogical kind

/-- The token is the lexeme of an operator. -/
structure Token.IsOperator (t : Token) : Prop where
  isLexeme : t.IsLexeme
  kind : isOperator t.kind = true

/-- The heads of the nodes that have no operator. -/
def nodeWords : List (List Char) := ["group".toList, "var".toList, "=".toList]

/-- **An operator is a word**, and none of the other heads. -/
theorem Token.IsOperator.word {t : Token} (h : t.IsOperator) :
    IsWord t.chars ∧ t.chars ∉ nodeWords := by
  have htable : ∀ entry ∈ operators ++ TokenKind.reserved, isOperator entry.2 = true →
      IsWord entry.1 ∧ entry.1 ∉ nodeWords := by decide
  obtain ⟨⟨piece, hpiece, hyields⟩, hkind⟩ := h
  rw [hyields.chars_eq]
  cases hyields with
  | mark => exact htable _ (List.mem_append_left _ hpiece) hkind
  | keyword hmem => exact htable _ (List.mem_append_right _ hmem) hkind
  | _ => cases hkind

theorem Token.IsOperator.ne_nodeWord {t : Token} (h : t.IsOperator) {cs : List Char}
    (hcs : cs ∈ nodeWords) : t.chars ≠ cs := by
  rintro rfl
  exact h.word.2 hcs

/-- **A name is a word.** -/
theorem Token.IsLexeme.name {t : Token} (h : t.IsLexeme) (hkind : t.kind = .identifier) :
    IsWord t.chars := by
  have htable : ∀ entry ∈ operators ++ TokenKind.reserved, entry.2 ≠ .identifier := by decide
  obtain ⟨piece, hpiece, hyields⟩ := h
  rw [hyields.chars_eq]
  cases hyields with
  | mark => exact absurd hkind (htable _ (List.mem_append_left _ hpiece))
  | keyword hmem => exact absurd hkind (htable _ (List.mem_append_right _ hmem))
  | identifier =>
      obtain ⟨c, cs, rfl, hc, hcs⟩ := hpiece
      have hseparators : ∀ d ∈ separators, isWordChar d = false := by
        simp only [separators, List.forall_mem_cons]
        exact ⟨rfl, rfl, rfl, by simp⟩
      refine ⟨List.cons_ne_nil c cs, fun d hd hsep => ?_⟩
      have hword : isWordChar d = true := by
        rcases List.mem_cons.1 hd with rfl | hd
        · simp [isWordChar, hc]
        · exact hcs d hd
      rw [hseparators d hsep] at hword
      cases hword
  | _ => cases hkind

/-! ### Readable expressions -/

/-- The literals have values that can be told apart, and the operators and names are lexemes of the
kinds that the grammar asks for. -/
def Demands.lexical : Demands where
  literal := Json.Storable
  unary := Token.IsOperator
  binary op := op.IsOperator ∧ isLogical op.kind = false
  logical op := op.IsOperator ∧ isLogical op.kind = true
  name t := t.IsLexeme ∧ t.kind = .identifier

/-- The tokens of a scan are those of lexemes and the one for the end, which has no place in an
expression. -/
theorem Demands.lexical_metBy :
    lexical.MetBy fun t => t.IsLexeme ∨ ∃ line, t = endToken line := by
  have hoperator {t : Token} (h : t.IsLexeme ∨ ∃ line, t = endToken line)
      (hkind : isOperator t.kind = true) : t.IsOperator := by
    rcases h with h | ⟨line, rfl⟩
    · exact ⟨h, hkind⟩
    · cases hkind
  refine ⟨trivial, fun _ => trivial, ?literal, ?unary, ?binary, ?logical, ?name⟩
  case literal =>
    rintro t (h | ⟨line, rfl⟩)
    · exact h.storable
    · trivial
  case unary =>
    intro t h hkind
    refine hoperator h ?_
    rcases hkind with hkind | hkind <;> rw [hkind] <;> rfl
  case binary =>
    intro t h hkind
    have hkinds : isOperator t.kind = true ∧ isLogical t.kind = false := by
      generalize t.kind = kind at hkind
      cases kind <;> revert hkind <;> decide
    exact ⟨hoperator h hkinds.1, hkinds.2⟩
  case logical =>
    intro t h hkind
    have hkinds : isOperator t.kind = true ∧ isLogical t.kind = true := by
      rcases hkind with hkind | hkind <;> rw [hkind] <;> exact ⟨rfl, rfl⟩
    exact ⟨hoperator h hkinds.1, hkinds.2⟩
  case name =>
    rintro t (h | ⟨line, rfl⟩) hkind
    · exact ⟨h, hkind⟩
    · cases hkind

/-- No literal is a text. -/
def Demands.textless : Demands where
  literal value := ∀ text, value ≠ .str text
  unary _ := True
  binary _ := True
  logical _ := True
  name _ := True

/-- An expression of a source is made of lexemes. -/
theorem Expr.InSource.lexical {e : Expr} (h : e.InSource) : e.Meets .lexical := by
  obtain ⟨limit, source, loaded, K, hprogram, hfill⟩ := h
  refine K.meets_of_fill ?_
  rw [← hfill]
  refine meets_of_programOf Demands.lexical_metBy hprogram fun scanned hscan t ht => ?_
  exact isLexeme_or_end_of_scan hscan ht

/-! ### Texts of literals -/

/-- The text of a number begins with a digit, a minus or the word for infinity, and all its
characters are digits, a minus, a point or of that word. -/
theorem isWord_printed {x : Float} (hx : x.isNaN = false) :
    IsWord (printed x).toList ∧
      ∀ c ∈ (printed x).toList.head?, c.isDigit = true ∨ c = '-' ∨ c = 'i' := by
  have hsigned {negative : Bool} {cs : List Char} (hcs : IsWord cs)
      (hhead : ∀ c ∈ cs.head?, c.isDigit = true ∨ c = '-' ∨ c = 'i') :
      IsWord (signed negative cs) ∧
        ∀ c ∈ (signed negative cs).head?, c.isDigit = true ∨ c = '-' ∨ c = 'i' := by
    cases negative with
    | false => exact ⟨hcs, hhead⟩
    | true =>
        refine ⟨⟨List.cons_ne_nil _ _, List.forall_mem_cons.2 ⟨by decide, hcs.2⟩⟩, ?_⟩
        rintro c ⟨⟩
        exact .inr (.inl rfl)
  rcases printed_cases hx with ⟨whole, fraction, h⟩ | ⟨-, h⟩
  · rw [h.text]
    obtain ⟨c, hhead, hc⟩ := head?_pointed h.isWholePart fraction
    have hdigit : ∀ d : Char, d.isDigit = true → d ∉ separators := by
      rintro d hd hsep
      simp only [separators, List.mem_cons, List.not_mem_nil, or_false] at hsep
      rcases hsep with rfl | rfl | rfl <;> cases hd
    refine hsigned ⟨fun hnil => ?_, fun d hd => ?_⟩ ?_
    · rw [hnil] at hhead
      cases hhead
    · cases fraction with
      | nil => exact hdigit d (h.isWholePart.digits d hd)
      | cons e es =>
          rcases List.mem_append.1 hd with hd | hd
          · exact hdigit d (h.isWholePart.digits d hd)
          · rcases List.mem_cons.1 hd with rfl | hd
            · decide
            · exact hdigit d (h.isFraction.digits d hd)
    · intro d hd
      rw [hhead] at hd
      cases hd
      exact .inl hc
  · rw [h]
    exact hsigned (by decide) (by rintro c ⟨⟩; exact .inr (.inr rfl))

/-- The literals that are no numbers and no texts, and their words. -/
inductive Constant : Json → String → Prop where
  | nilWord : Constant .null "nil"
  | trueWord : Constant (.bool true) "true"
  | falseWord : Constant (.bool false) "false"

theorem Constant.unique {value value' : Json} {text text' : String} (h : Constant value text)
    (h' : Constant value' text') (htext : text = text') : value = value' := by
  cases h <;> cases h' <;> first | rfl | exact absurd htext (by decide)

/-- A literal with a value of its own is a number, a constant or a text. -/
theorem literal_cases {value : Json} (h : value.Storable) (hno : ∀ text, value ≠ .str text) :
    ∃ v, Value.ofLiteral? value = some v ∧
      ((∃ x, value = .num x ∧ v.text = printed x ∧ x.isNaN = false) ∨ Constant value v.text) := by
  cases value with
  | null => exact ⟨.nil, rfl, .inr .nilWord⟩
  | bool b =>
      cases b with
      | true => exact ⟨_, rfl, .inr .trueWord⟩
      | false => exact ⟨_, rfl, .inr .falseWord⟩
  | num x => exact ⟨.num x, rfl, .inl ⟨x, rfl, rfl, h⟩⟩
  | str text => exact absurd rfl (hno text)
  | _ => cases h

/-- No number is printed as a constant. -/
theorem Constant.ne_printed {value : Json} {text : String} (h : Constant value text) {x : Float}
    (hx : x.isNaN = false) : text ≠ printed x := by
  rintro rfl
  obtain ⟨-, hhead⟩ := isWord_printed hx
  generalize (printed x) = text at h hhead
  cases h
  · exact absurd (hhead 'n' rfl) (by decide)
  · exact absurd (hhead 't' rfl) (by decide)
  · exact absurd (hhead 'f' rfl) (by decide)

/-- The text of a literal is a word, if the literal is no text itself. -/
theorem isWord_literal {value : Json} (h : value.Storable) (hno : ∀ text, value ≠ .str text) :
    ∃ v, Value.ofLiteral? value = some v ∧ IsWord v.text.toList := by
  obtain ⟨v, hv, ⟨x, -, htext, hx⟩ | hconstant⟩ := literal_cases h hno
  · refine ⟨v, hv, ?_⟩
    rw [htext]
    exact (isWord_printed hx).1
  · refine ⟨v, hv, ?_⟩
    generalize v.text = text at hconstant
    cases hconstant <;> decide

/-- **The text of a literal settles its value**, if neither is a text. -/
theorem literal_eq_of_text {value value' : Json} {v v' : Value} (h : value.Storable)
    (hno : ∀ text, value ≠ .str text) (h' : value'.Storable) (hno' : ∀ text, value' ≠ .str text)
    (hv : Value.ofLiteral? value = some v) (hv' : Value.ofLiteral? value' = some v')
    (htext : v.text = v'.text) : value = value' := by
  obtain ⟨w, hw, hcases⟩ := literal_cases h hno
  obtain ⟨w', hw', hcases'⟩ := literal_cases h' hno'
  obtain rfl := Option.some.inj (hv.symm.trans hw)
  obtain rfl := Option.some.inj (hv'.symm.trans hw')
  rcases hcases with ⟨x, rfl, hx, hnan⟩ | hconstant <;>
    rcases hcases' with ⟨y, rfl, hy, hnan'⟩ | hconstant'
  · rw [printed_injective hnan hnan' (by rw [← hx, htext, hy])]
  · exact absurd (htext.symm.trans hx) (hconstant'.ne_printed hnan)
  · exact absurd (htext.trans hy) (hconstant.ne_printed hnan')
  · exact hconstant.unique hconstant' htext

/-! ### Forms of expressions -/

namespace Expr

/-- The form of a readable expression is made of words. -/
theorem wellFormed_form {e : Expr} (h : e.Meets .lexical) (hno : e.Meets .textless) :
    e.form.WellFormed := by
  induction e with
  | literal value =>
      obtain ⟨v, hv, hword⟩ := isWord_literal h hno
      rw [form, hv]
      exact hword
  | group inner ih => exact ⟨by decide, ih h hno, trivial⟩
  | unary op operand ih => exact ⟨h.1.word.1, ih h.2 hno.2, trivial⟩
  | binary left op right ihleft ihright | logical left op right ihleft ihright =>
      exact ⟨h.2.1.1.word.1, ihleft h.1 hno.1, ihright h.2.2 hno.2.2, trivial⟩
  | ref name => exact ⟨by decide, h.1.name h.2, trivial⟩
  | assign name value ih => exact ⟨by decide, h.1.1.name h.1.2, ih h.2 hno.2, trivial⟩
  | misplaced => cases h

/-- A readable expression has a prefix form. -/
theorem exists_render? {e : Expr} (h : e.Meets .lexical) (hno : e.Meets .textless) :
    ∃ text, e.render? = some text := by
  induction e with
  | literal value =>
      obtain ⟨v, hv, -⟩ := isWord_literal h hno
      exact ⟨v.text, by rw [render?, hv]; rfl⟩
  | group inner ih =>
      obtain ⟨text, htext⟩ := ih h hno
      exact ⟨_, by rw [render?, htext]; rfl⟩
  | unary op operand ih | assign op operand ih =>
      obtain ⟨text, htext⟩ := ih h.2 hno.2
      exact ⟨_, by rw [render?, htext]; rfl⟩
  | binary left op right ihleft ihright | logical left op right ihleft ihright =>
      obtain ⟨first, hfirst⟩ := ihleft h.1 hno.1
      obtain ⟨second, hsecond⟩ := ihright h.2.2 hno.2.2
      exact ⟨_, by rw [render?, hfirst, hsecond]; rfl⟩
  | ref name => exact ⟨_, rfl⟩
  | misplaced => cases h

/-- **A form is the form of one readable expression**, up to the lines of its tokens. -/
theorem unlined_of_form {e e' : Expr} (h : e.Meets .lexical) (hno : e.Meets .textless)
    (h' : e'.Meets .lexical) (hno' : e'.Meets .textless) (heq : e.form = e'.form) :
    e.relabel Token.unlined = e'.relabel Token.unlined := by
  induction e generalizing e' with
  | literal value =>
      cases e' with
      | literal value' =>
          obtain ⟨v, hv, -⟩ := isWord_literal h hno
          obtain ⟨v', hv', -⟩ := isWord_literal h' hno'
          have htext : v.text = v'.text := by
            rw [← String.toList_inj]
            simpa [form, hv, hv'] using heq
          rw [relabel, relabel, literal_eq_of_text h hno h' hno' hv hv' htext]
      | misplaced => cases h'
      | _ => simp [form] at heq
  | group inner ih =>
      cases e' with
      | group inner' =>
          have hinner : inner.form = inner'.form := by simpa [form] using heq
          rw [relabel, relabel, @ih inner' h hno h' hno' hinner]
      | unary op' operand' =>
          exact absurd (Form.node.inj heq).1.symm (h'.1.ne_nodeWord (by decide))
      | misplaced => cases h'
      | _ => simp [form] at heq
  | unary op operand ih =>
      cases e' with
      | group inner' => exact absurd (Form.node.inj heq).1 (h.1.ne_nodeWord (by decide))
      | unary op' operand' =>
          obtain ⟨hop, hoperand⟩ : op.chars = op'.chars ∧ operand.form = operand'.form := by
            simpa [form] using heq
          rw [relabel, relabel, ih h.2 hno.2 h'.2 hno'.2 hoperand,
            h.1.isLexeme.unlined_eq h'.1.isLexeme hop]
      | ref name' => exact absurd (Form.node.inj heq).1 (h.1.ne_nodeWord (by decide))
      | misplaced => cases h'
      | _ => simp [form] at heq
  | binary left op right ihleft ihright =>
      cases e' with
      | binary left' op' right' =>
          obtain ⟨hop, hleft, hright⟩ : op.chars = op'.chars ∧ left.form = left'.form ∧
              right.form = right'.form := by simpa [form] using heq
          rw [relabel, relabel, ihleft h.1 hno.1 h'.1 hno'.1 hleft,
            ihright h.2.2 hno.2.2 h'.2.2 hno'.2.2 hright,
            h.2.1.1.isLexeme.unlined_eq h'.2.1.1.isLexeme hop]
      | logical left' op' right' =>
          exact absurd (Form.node.inj heq).1
            (h.2.1.1.isLexeme.chars_ne_of_isLogical h'.2.1.1.isLexeme h.2.1.2 h'.2.1.2)
      | assign name' value' =>
          exact absurd (Form.node.inj heq).1 (h.2.1.1.ne_nodeWord (by decide))
      | misplaced => cases h'
      | _ => simp [form] at heq
  | logical left op right ihleft ihright =>
      cases e' with
      | binary left' op' right' =>
          exact absurd (Form.node.inj heq).1.symm
            (h'.2.1.1.isLexeme.chars_ne_of_isLogical h.2.1.1.isLexeme h'.2.1.2 h.2.1.2)
      | logical left' op' right' =>
          obtain ⟨hop, hleft, hright⟩ : op.chars = op'.chars ∧ left.form = left'.form ∧
              right.form = right'.form := by simpa [form] using heq
          rw [relabel, relabel, ihleft h.1 hno.1 h'.1 hno'.1 hleft,
            ihright h.2.2 hno.2.2 h'.2.2 hno'.2.2 hright,
            h.2.1.1.isLexeme.unlined_eq h'.2.1.1.isLexeme hop]
      | assign name' value' =>
          exact absurd (Form.node.inj heq).1 (h.2.1.1.ne_nodeWord (by decide))
      | misplaced => cases h'
      | _ => simp [form] at heq
  | ref name =>
      cases e' with
      | unary op' operand' =>
          exact absurd (Form.node.inj heq).1.symm (h'.1.ne_nodeWord (by decide))
      | ref name' =>
          have hname : name.chars = name'.chars := by simpa [form] using heq
          rw [relabel, relabel, h.1.unlined_eq h'.1 hname]
      | misplaced => cases h'
      | _ => simp [form] at heq
  | assign name value ih =>
      cases e' with
      | binary left' op' right' | logical left' op' right' =>
          exact absurd (Form.node.inj heq).1.symm (h'.2.1.1.ne_nodeWord (by decide))
      | assign name' value' =>
          obtain ⟨hname, hvalue⟩ : name.chars = name'.chars ∧ value.form = value'.form := by
            simpa [form] using heq
          rw [relabel, relabel, ih h.2 hno.2 h'.2 hno'.2 hvalue, h.1.1.unlined_eq h'.1.1 hname]
      | misplaced => cases h'
      | _ => simp [form] at heq
  | misplaced => cases h

end Expr

/-- **Prefix forms are unambiguous.** Two expressions of sources that hold no literal texts have
prefix forms, and if these are the same, the expressions are the same but for the lines of their
tokens. -/
theorem render_unambiguous {e e' : Expr} (h : e.InSource) (hno : e.Meets .textless)
    (h' : e'.InSource) (hno' : e'.Meets .textless) :
    (∃ text, e.render? = some text) ∧
      (e.render? = e'.render? → e.relabel Token.unlined = e'.relabel Token.unlined) := by
  obtain ⟨text, htext⟩ := Expr.exists_render? h.lexical hno
  refine ⟨⟨text, htext⟩, fun hsame => ?_⟩
  refine Expr.unlined_of_form h.lexical hno h'.lexical hno' ?_
  refine Form.chars_injective (Expr.wellFormed_form h.lexical hno)
    (Expr.wellFormed_form h'.lexical hno') ?_
  rw [← Expr.toList_of_render? htext, ← Expr.toList_of_render? (hsame ▸ htext)]

/-- A sign in front of a difference, which is on the line `first` up to its operator and on the line
`second` behind it. -/
def negatedDifference (first second : Int) : Expr :=
  .unary (Grammar.wordAt .minus "-" first)
    (.group (.binary (.ref (Grammar.wordAt .identifier "a" first))
      (Grammar.wordAt .minus "-" first) (.ref (Grammar.wordAt .identifier "b" second))))

theorem inSource_printed : (negatedDifference 1 1).InSource := by
  have hprogram : programOf 6 "print -(a-b);" =
      .ok { program := [.print (negatedDifference 1 1)], recovered := none } := by
    cbv
  exact ⟨6, _, _, ⟨[], .print .hole, []⟩, hprogram, rfl⟩

theorem inSource_branch : (negatedDifference 2 3).InSource := by
  have hprogram : programOf 8 "if (true)\n  - ( a -\n b );" =
      .ok { program := [.branch (.literal (.bool true)) (.expr (negatedDifference 2 3)) none]
            recovered := none } := by
    cbv
  exact ⟨8, _, _, ⟨[], .branchTrue (.literal (.bool true)) (.expr .hole) none, []⟩, hprogram, rfl⟩

theorem render_unambiguous_negatedDifference :
    (negatedDifference 1 1).InSource ∧ (negatedDifference 1 1).Meets .textless ∧
      (negatedDifference 2 3).InSource ∧ (negatedDifference 2 3).Meets .textless ∧
      (negatedDifference 1 1).render? = (negatedDifference 2 3).render? ∧
      (negatedDifference 1 1).relabel Token.unlined =
        (negatedDifference 2 3).relabel Token.unlined := by
  have hprinted := inSource_printed
  have hbranch := inSource_branch
  have hno (first second : Int) : (negatedDifference first second).Meets .textless :=
    ⟨trivial, trivial, trivial, trivial⟩
  have hsame : (negatedDifference 1 1).render? = (negatedDifference 2 3).render? := rfl
  exact ⟨hprinted, hno 1 1, hbranch, hno 2 3, hsame,
    (render_unambiguous hprinted (hno 1 1) hbranch (hno 2 3)).2 hsame⟩

end ScriptLang
