import Mathlib.Tactic.Common
import ScriptLang.Tree.Render

/-!
# Prefix forms

A prefix form is a word, or a head word and arguments in parentheses with a blank in front of each
argument. No word holds a blank or a parenthesis, so that a word ends where one of these stands and a
form can be read off any text that begins with it. The prefix form of an expression is the text of
such a form: the head is the operator or the name of the node, and the number of arguments tells a
sign from a difference.

## Main Definitions

* `Form`: words and forms in parentheses; `Form.chars`: the text of a form.
* `IsWord`, `Form.WellFormed`: texts that are words, and forms made of these.
* `Expr.form`: the prefix form of an expression.

## Main Statements

* `Form.eq_of_append`: two forms at the beginning of one text are the same.
* `Expr.toList_of_render?`: the prefix form of an expression is the text of its form.
-/

namespace ScriptLang

/-! ### Words -/

/-- The characters between words. -/
def separators : List Char := [' ', '(', ')']

/-- A word: at least one character, and none that stands between words. -/
def IsWord (cs : List Char) : Prop :=
  cs ≠ [] ∧ ∀ c ∈ cs, c ∉ separators

instance : DecidablePred IsWord := fun cs =>
  decidable_of_iff (cs.isEmpty = false ∧ (cs.all fun c => !separators.contains c) = true)
    (by simp [IsWord])

/-- What can follow a form: the end, a blank or a closing parenthesis. -/
def FollowsForm (rest : List Char) : Prop :=
  ∀ c ∈ rest.head?, c = ' ' ∨ c = ')'

theorem followsForm_nil : FollowsForm [] := by
  rintro c ⟨⟩

theorem followsForm_close (rest : List Char) : FollowsForm (')' :: rest) := by
  rintro c ⟨⟩
  exact .inr rfl

theorem followsForm_blank (rest : List Char) : FollowsForm (' ' :: rest) := by
  rintro c ⟨⟩
  exact .inl rfl

theorem FollowsForm.mem_separators {c : Char} {rest : List Char} (h : FollowsForm (c :: rest)) :
    c ∈ separators := by
  rcases h c rfl with rfl | rfl <;> decide

/-- A word does not begin with a parenthesis. -/
theorem IsWord.ne_open {cs : List Char} (h : IsWord cs) (rest more : List Char) :
    cs ++ rest ≠ '(' :: more := by
  obtain ⟨hne, hcs⟩ := h
  obtain ⟨c, cs, rfl⟩ := List.exists_cons_of_ne_nil hne
  intro heq
  obtain ⟨rfl, -⟩ := List.cons.inj heq
  exact hcs _ List.mem_cons_self (by decide)

/-- One of two words that begin a text is not a proper part of the other. -/
theorem IsWord.eq_nil_of_append {cs extra rest : List Char} (h : IsWord (cs ++ extra))
    (hrest : FollowsForm (extra ++ rest)) : extra = [] := by
  cases extra with
  | nil => rfl
  | cons c extra =>
      exact absurd (FollowsForm.mem_separators hrest) (h.2 c (by simp))

/-- **Two words at the beginning of one text are the same**, if each ends there. -/
theorem IsWord.eq_of_append {cs cs' rest rest' : List Char} (h : IsWord cs) (h' : IsWord cs')
    (hrest : FollowsForm rest) (hrest' : FollowsForm rest') (heq : cs ++ rest = cs' ++ rest') :
    cs = cs' ∧ rest = rest' := by
  rcases List.append_eq_append_iff.1 heq with ⟨extra, rfl, rfl⟩ | ⟨extra, rfl, rfl⟩
  · obtain rfl := h'.eq_nil_of_append hrest
    simp
  · obtain rfl := h.eq_nil_of_append hrest'
    simp

/-! ### Forms -/

/-- A word, or a head word and arguments in parentheses. -/
inductive Form where
  | word (cs : List Char)
  | node (head : List Char) (args : List Form)

namespace Form

mutual

/-- The text of a form. -/
def chars : Form → List Char
  | word cs => cs
  | node head args => '(' :: (head ++ (charsOfArgs args ++ [')']))

/-- The text of arguments, with a blank in front of each. -/
def charsOfArgs : List Form → List Char
  | [] => []
  | arg :: args => ' ' :: (arg.chars ++ charsOfArgs args)

end

mutual

/-- The words of the form are words. -/
def WellFormed : Form → Prop
  | word cs => IsWord cs
  | node head args => IsWord head ∧ allWellFormed args

/-- The words of all the forms are words. -/
def allWellFormed : List Form → Prop
  | [] => True
  | arg :: args => arg.WellFormed ∧ allWellFormed args

end

/-- What stands behind the last of some arguments follows a form. -/
theorem followsForm_args (args : List Form) (rest : List Char) :
    FollowsForm (charsOfArgs args ++ ')' :: rest) := by
  cases args with
  | nil => exact followsForm_close rest
  | cons arg args => exact followsForm_blank _

mutual

/-- **Two forms at the beginning of one text are the same**, if a blank, a closing parenthesis or
nothing follows each. -/
theorem eq_of_append {form form' : Form} {rest rest' : List Char} (h : form.WellFormed)
    (h' : form'.WellFormed) (hrest : FollowsForm rest) (hrest' : FollowsForm rest')
    (heq : form.chars ++ rest = form'.chars ++ rest') : form = form' ∧ rest = rest' := by
  match form, form' with
  | word cs, word cs' =>
      obtain ⟨rfl, hrests⟩ := IsWord.eq_of_append h h' hrest hrest' heq
      exact ⟨rfl, hrests⟩
  | word cs, node head args => exact absurd heq (IsWord.ne_open h _ _)
  | node head args, word cs => exact absurd heq.symm (IsWord.ne_open h' _ _)
  | node head args, node head' args' =>
      have hheads : head ++ (charsOfArgs args ++ ')' :: rest) =
          head' ++ (charsOfArgs args' ++ ')' :: rest') := by
        simpa [chars] using heq
      obtain ⟨rfl, hargs⟩ := IsWord.eq_of_append h.1 h'.1 (followsForm_args args rest)
        (followsForm_args args' rest') hheads
      obtain ⟨rfl, hrests⟩ := args_eq_of_append h.2 h'.2 hargs
      exact ⟨rfl, hrests⟩

/-- Arguments are read one after the other up to the closing parenthesis. -/
theorem args_eq_of_append {args args' : List Form} {rest rest' : List Char}
    (h : allWellFormed args) (h' : allWellFormed args')
    (heq : charsOfArgs args ++ ')' :: rest = charsOfArgs args' ++ ')' :: rest') :
    args = args' ∧ rest = rest' := by
  match args, args' with
  | [], [] => exact ⟨rfl, (List.cons.inj heq).2⟩
  | [], arg :: args => cases (List.cons.inj heq).1
  | arg :: args, [] => cases (List.cons.inj heq).1
  | arg :: args, arg' :: args' =>
      have hfirst : arg.chars ++ (charsOfArgs args ++ ')' :: rest) =
          arg'.chars ++ (charsOfArgs args' ++ ')' :: rest') := by
        simpa [charsOfArgs] using heq
      obtain ⟨rfl, hargs⟩ := eq_of_append h.1 h'.1 (followsForm_args args rest)
        (followsForm_args args' rest') hfirst
      obtain ⟨rfl, hrests⟩ := args_eq_of_append h.2 h'.2 hargs
      exact ⟨rfl, hrests⟩

end

/-- **No two forms have the same text.** -/
theorem chars_injective {form form' : Form} (h : form.WellFormed) (h' : form'.WellFormed)
    (heq : form.chars = form'.chars) : form = form' :=
  (eq_of_append h h' followsForm_nil followsForm_nil (by rw [heq])).1

end Form

/-! ### Forms of expressions -/

/-- The characters of a token. -/
def Token.chars (t : Token) : List Char := t.lexeme.shown.toList

/-- The prefix form of an expression. What has no text is no word. -/
def Expr.form : Expr → Form
  | .literal value => .word ((Value.ofLiteral? value).elim [] (·.text.toList))
  | .group inner => .node "group".toList [inner.form]
  | .unary op operand => .node op.chars [operand.form]
  | .binary left op right => .node op.chars [left.form, right.form]
  | .logical left op right => .node op.chars [left.form, right.form]
  | .ref name => .node "var".toList [.word name.chars]
  | .assign name value => .node "=".toList [.word name.chars, value.form]
  | .misplaced document => .word document.listed.toList

theorem toList_parenthesized (head : String) (texts : List String) :
    (parenthesized (head :: texts)).toList =
      '(' :: (head.toList ++ ((texts.flatMap fun text => ' ' :: text.toList) ++ [')'])) := by
  have hrow : ∀ first : List Char, List.intercalate [' '] (first :: texts.map String.toList) =
      first ++ texts.flatMap fun text => ' ' :: text.toList := by
    induction texts with
    | nil => simp
    | cons text texts ih => simp [List.intercalate_cons_cons, ih]
  have hblank : " ".toList = [' '] := rfl
  simp [parenthesized, String.toList_intercalate, hblank, hrow]

/-- **The prefix form of an expression is the text of its form.** -/
theorem Expr.toList_of_render? {e : Expr} {text : String} (h : e.render? = some text) :
    text.toList = e.form.chars := by
  induction e generalizing text with
  | literal value =>
      obtain ⟨v, hv, rfl⟩ := Option.map_eq_some_iff.1 h
      simp [form, Form.chars, hv]
  | group inner ih =>
      obtain ⟨first, hfirst, rfl⟩ := Option.map_eq_some_iff.1 h
      rw [toList_parenthesized]
      simp [form, Form.chars, Form.charsOfArgs, ih hfirst]
  | unary op operand ih =>
      obtain ⟨first, hfirst, rfl⟩ := Option.map_eq_some_iff.1 h
      rw [toList_parenthesized]
      simp [form, Form.chars, Form.charsOfArgs, Token.chars, ih hfirst]
  | binary left op right ihleft ihright | logical left op right ihleft ihright =>
      obtain ⟨first, hfirst, h⟩ := Option.bind_eq_some_iff.1 h
      obtain ⟨second, hsecond, h⟩ := Option.bind_eq_some_iff.1 h
      cases h
      rw [toList_parenthesized]
      simp [form, Form.chars, Form.charsOfArgs, Token.chars, ihleft hfirst, ihright hsecond]
  | ref name =>
      cases h
      rw [toList_parenthesized]
      simp [form, Form.chars, Form.charsOfArgs, Token.chars]
  | assign name value ih =>
      obtain ⟨first, hfirst, rfl⟩ := Option.map_eq_some_iff.1 h
      rw [toList_parenthesized]
      simp [form, Form.chars, Form.charsOfArgs, Token.chars, ih hfirst]
  | misplaced document =>
      cases h
      rfl

end ScriptLang
