import ScriptLang.Proofs.Grammar.Ordinary
import ScriptLang.Run.Session
import ScriptLang.Value.Operation

/-!
# What is demanded of the parts of a tree

A tree is made of literals, operators and names. What a run, a semantics or a document needs to know
of a tree is mostly a demand on these parts, made wherever one of them stands. This module has one
recursion over trees for all such demands, and the demands that programs from a source meet.

## Main Definitions

* `Demands`: what is demanded of literals, operators and names.
* `Expr.Meets`, `Stmt.Meets`, `allMeet`: all parts are as demanded, and no node is misplaced.
* `Token.Typed`, `Demands.typed`: every field has the type that is declared for it.
* `Demands.known`: the operators are besides ones that a run knows.
* `Token.Lexed`: a token of a source.
* `FromSource`: the programs that sources are.

## Main Statements

* `Derives.meets`: the parts of a derived tree are tokens of the kinds that the grammar asks for.
* `meets_of_programOf`, `FromSource.meets`: programs from a source are as demanded if the tokens of
  its scan are, or if those of all sources are.
* `FromSource.known`: programs from a source have typed fields and known operators.
-/

namespace ScriptLang

/-! ### Demands -/

/-- What is demanded of the literals, the operators and the names of a tree. -/
structure Demands where
  literal : Json → Prop
  unary : Token → Prop
  binary : Token → Prop
  logical : Token → Prop
  name : Token → Prop

/-- The parts of the expression are as demanded, and none of its nodes is misplaced. -/
def Expr.Meets (d : Demands) : Expr → Prop
  | .literal value => d.literal value
  | .group inner => inner.Meets d
  | .unary op operand => d.unary op ∧ operand.Meets d
  | .binary left op right => left.Meets d ∧ d.binary op ∧ right.Meets d
  | .logical left op right => left.Meets d ∧ d.logical op ∧ right.Meets d
  | .ref name => d.name name
  | .assign name value => d.name name ∧ value.Meets d
  | .misplaced _ => False

mutual

/-- The parts of the statement are as demanded, and none of its nodes is misplaced. -/
def Stmt.Meets (d : Demands) : Stmt → Prop
  | .expr value => value.Meets d
  | .print value => value.Meets d
  | .declare name none => d.name name
  | .declare name (some initial) => d.name name ∧ initial.Meets d
  | .block body => allMeet d body
  | .branch condition whenTrue none => condition.Meets d ∧ whenTrue.Meets d
  | .branch condition whenTrue (some whenFalse) =>
    condition.Meets d ∧ whenTrue.Meets d ∧ whenFalse.Meets d
  | .loop condition body => condition.Meets d ∧ body.Meets d
  | .misplaced .. => False

/-- The parts of all the statements are as demanded. -/
def allMeet (d : Demands) : List Stmt → Prop
  | [] => True
  | stmt :: stmts => stmt.Meets d ∧ allMeet d stmts

end

theorem allMeet_iff {d : Demands} {stmts : List Stmt} :
    allMeet d stmts ↔ ∀ stmt ∈ stmts, stmt.Meets d := by
  induction stmts with
  | nil => simp [allMeet]
  | cons stmt stmts ih => rw [allMeet, ih, List.forall_mem_cons]

theorem height_le_of_mem {stmt : Stmt} {stmts : List Stmt} (h : stmt ∈ stmts) :
    stmt.height ≤ heightOfAll stmts := by
  induction stmts with
  | nil => cases h
  | cons first stmts ih =>
      rw [heightOfAll]
      rcases List.mem_cons.1 h with rfl | h
      · exact Nat.le_max_left _ _
      · exact Nat.le_trans (ih h) (Nat.le_max_right _ _)

/-! ### Demands on phrases -/

/-- What is demanded of the tree of a phrase. -/
def Phrase.Meets (d : Demands) : Phrase → Prop
  | .expr _ tree => tree.Meets d
  | .stmt tree => tree.Meets d
  | .decl tree => tree.Meets d
  | .decls trees => allMeet d trees

/-- The demands are such that tokens with the property `p` meet them where the grammar puts them. -/
structure Demands.MetBy (d : Demands) (p : Token → Prop) : Prop where
  null : d.literal .null
  bool : ∀ b, d.literal (.bool b)
  literal : ∀ t, p t → d.literal t.literal
  unary : ∀ t, p t → t.kind = .bang ∨ t.kind = .minus → d.unary t
  binary : ∀ t, p t → isArithmetic t.kind = true ∨ isComparison t.kind = true → d.binary t
  logical : ∀ t, p t → t.kind = .orWord ∨ t.kind = .andWord → d.logical t
  name : ∀ t, p t → t.kind = .identifier → d.name t

/-- An operator between two operands makes a node of its kind. -/
theorem Rung.meets_node {d : Demands} {p : Token → Prop} (hd : d.MetBy p) {rung : Rung}
    {left right : Expr} {op : Token} (hop : op.kind ∈ rung.operators) (hp : p op)
    (hleft : left.Meets d) (hright : right.Meets d) : (rung.node left op right).Meets d := by
  have hlogical := hd.logical op hp
  have hbinary := hd.binary op hp
  cases rung with
  | disjunction => exact ⟨hleft, hlogical (.inl (by simpa [operators] using hop)), hright⟩
  | conjunction => exact ⟨hleft, hlogical (.inr (by simpa [operators] using hop)), hright⟩
  | equality =>
      have hall : ∀ kind ∈ Rung.equality.operators, isComparison kind = true := by decide
      exact ⟨hleft, hbinary (.inr (hall _ hop)), hright⟩
  | comparison =>
      have hall : ∀ kind ∈ Rung.comparison.operators, isComparison kind = true := by decide
      exact ⟨hleft, hbinary (.inr (hall _ hop)), hright⟩
  | term =>
      have hall : ∀ kind ∈ Rung.term.operators, isArithmetic kind = true := by decide
      exact ⟨hleft, hbinary (.inl (hall _ hop)), hright⟩
  | factor =>
      have hall : ∀ kind ∈ Rung.factor.operators, isArithmetic kind = true := by decide
      exact ⟨hleft, hbinary (.inl (hall _ hop)), hright⟩
  | _ => cases hop

/-- **The parts of a derived tree are tokens of the kinds that the grammar asks for.** -/
theorem Derives.meets {d : Demands} {p : Token → Prop} (hd : d.MetBy p) {phrase : Phrase}
    {ts : List Token} (h : Derives phrase ts) (hts : ∀ t ∈ ts, p t) : phrase.Meets d := by
  induction h with
  | assign hname _ _ ih =>
      simp only [List.forall_mem_cons] at hts
      exact ⟨hd.name _ hts.1 hname, ih hts.2.2⟩
  | loosen _ ih => exact ih hts
  | operator _ hop _ ihleft ihright =>
      simp only [List.forall_mem_append, List.forall_mem_cons] at hts
      exact Rung.meets_node hd hop hts.2.1 (ihleft hts.1) (ihright hts.2.2)
  | unary hop _ ih =>
      rw [List.forall_mem_cons] at hts
      exact ⟨hd.unary _ hts.1 hop, ih hts.2⟩
  | falseWord => exact hd.bool false
  | trueWord => exact hd.bool true
  | nilWord => exact hd.null
  | literal => exact hd.literal _ (hts _ List.mem_cons_self)
  | ref hname => exact hd.name _ (hts _ List.mem_cons_self) hname
  | group _ _ _ ih =>
      simp only [List.forall_mem_append, List.forall_mem_cons] at hts
      exact ih hts.1.2
  | exprStmt _ _ ih => exact ih (List.forall_mem_append.1 hts).1
  | print _ _ _ ih =>
      simp only [List.forall_mem_append, List.forall_mem_cons] at hts
      exact ih hts.1.2
  | block _ _ _ ih =>
      simp only [List.forall_mem_append, List.forall_mem_cons] at hts
      exact ih hts.1.2
  | branch _ _ _ _ _ ihtest ih =>
      simp only [List.forall_mem_append, List.forall_mem_cons] at hts
      exact ⟨ihtest hts.1.2.2, ih hts.2.2⟩
  | branchElse _ _ _ _ _ _ _ _ ihtest ih ihfalse =>
      simp only [List.forall_mem_append, List.forall_mem_cons] at hts
      exact ⟨ihtest hts.1.1.2.2, ih hts.1.2.2, ihfalse hts.2.2⟩
  | loop _ _ _ _ _ ihtest ih =>
      simp only [List.forall_mem_append, List.forall_mem_cons] at hts
      exact ⟨ihtest hts.1.2.2, ih hts.2.2⟩
  | declare _ hname _ =>
      simp only [List.forall_mem_cons] at hts
      exact hd.name _ hts.2.1 hname
  | declareInit _ hname _ _ _ ih =>
      simp only [List.forall_mem_append, List.forall_mem_cons] at hts
      exact ⟨hd.name _ hts.1.2.1 hname, ih hts.1.2.2.2⟩
  | stmtDecl _ ih => exact ih hts
  | nil => trivial
  | cons _ _ ihfirst ihothers =>
      rw [List.forall_mem_append] at hts
      exact ⟨ihfirst hts.1, ihothers hts.2⟩

/-! ### Fields of their declared types -/

/-- What a literal can hold: nothing, a boolean, a double or a text. -/
def Json.IsScalar : Json → Prop
  | .null | .bool _ | .num _ | .str _ => True
  | _ => False

/-- The fields of the token have the types that are declared for them: its text is a text, its line
a whole number, and its value what a literal can hold. -/
structure Token.Typed (t : Token) : Prop where
  lexeme : ∃ text, t.lexeme = .str text
  line : ∃ n, t.line = .int n
  literal : t.literal.IsScalar

/-- Every field has the type that is declared for it, and a logical operator is `or` or `and`. -/
def Demands.typed : Demands where
  literal := Json.IsScalar
  unary := Token.Typed
  binary := Token.Typed
  logical op := op.Typed ∧ (op.kind = .orWord ∨ op.kind = .andWord)
  name := Token.Typed

/-- Every field has the type that is declared for it, and every operator is one that a run knows. -/
def Demands.known : Demands where
  literal := Json.IsScalar
  unary op := op.Typed ∧ (op.kind = .bang ∨ op.kind = .minus)
  binary op := op.Typed ∧ (isArithmetic op.kind = true ∨ isComparison op.kind = true)
  logical op := op.Typed ∧ (op.kind = .orWord ∨ op.kind = .andWord)
  name := Token.Typed

/-- The values that lexemes have: none, a text, or the double of a row of digits with a point. -/
inductive Json.IsLexed : Json → Prop where
  | null : IsLexed .null
  | text (s : String) : IsLexed (.str s)
  | number (whole fraction : List Char) : IsLexed (.num (Number.ofPointed whole fraction))

/-- The token is one of a source: its text is a text, its line a whole number, and its value that of
a lexeme. -/
structure Token.Lexed (t : Token) : Prop where
  lexeme : ∃ text, t.lexeme = .str text
  line : ∃ n, t.line = .int n
  literal : t.literal.IsLexed

theorem Json.IsLexed.isScalar {value : Json} (h : value.IsLexed) : value.IsScalar := by
  cases h <;> trivial

theorem Token.Lexed.typed {t : Token} (h : t.Lexed) : t.Typed :=
  ⟨h.lexeme, h.line, h.literal.isScalar⟩

theorem Demands.MetBy.mono {d : Demands} {p q : Token → Prop} (h : d.MetBy p)
    (hqp : ∀ t, q t → p t) : d.MetBy q where
  null := h.null
  bool := h.bool
  literal t ht := h.literal t (hqp t ht)
  unary t ht := h.unary t (hqp t ht)
  binary t ht := h.binary t (hqp t ht)
  logical t ht := h.logical t (hqp t ht)
  name t ht := h.name t (hqp t ht)

theorem Demands.known_metBy : known.MetBy Token.Typed where
  null := trivial
  bool _ := trivial
  literal _ ht := ht.literal
  unary _ ht hkind := ⟨ht, hkind⟩
  binary _ ht hkind := ⟨ht, hkind⟩
  logical _ ht hkind := ⟨ht, hkind⟩
  name _ ht _ := ht

/-! ### Tokens of a source -/

theorem lexed_of_token? {line : Nat} {piece : Piece} {t : Token} (h : piece.token? line = some t) :
    t.Lexed := by
  cases piece <;> cases h <;> exact ⟨⟨_, rfl⟩, ⟨_, rfl⟩, by constructor⟩

theorem lexed_of_mem_tokensFrom {line : Nat} {pieces : List Piece} {t : Token}
    (h : t ∈ tokensFrom line pieces) : t.Lexed := by
  induction pieces generalizing line with
  | nil =>
      obtain rfl := List.mem_singleton.1 h
      exact ⟨⟨_, rfl⟩, ⟨_, rfl⟩, .null⟩
  | cons piece pieces ih =>
      rcases List.mem_append.1 h with h | h
      · exact lexed_of_token? (Option.mem_toList.1 h)
      · exact ih h

theorem lexed_of_mem_scan {source : String} {scanned : Scan} (h : scan source = .ok scanned)
    {t : Token} (ht : t ∈ scanned.tokens) : t.Lexed := by
  rw [(tiled_of_scan h).2.1] at ht
  exact lexed_of_mem_tokensFrom ht

namespace Grammar

theorem isLexed_of_lexAt {accepts : TokenKind → Bool} {cs after : List Char} {lexeme : Lexeme}
    (h : lexAt accepts cs = some (lexeme, after)) : lexeme.literal.IsLexed := by
  unfold lexAt at h
  split at h
  · cases h
  · split at h
    · cases h
      exact .null
    · split at h
      · simp only [Piece.nextDigit] at h
        cases h
        exact .number _ _
      · split at h
        · split at h
          · cases h
            exact .text _
          · cases h
        · obtain ⟨chars, kind, -, -, rfl, -⟩ := entry_of_fromTable h
          exact .null

theorem Machine.Cuts.lexed {bound line : Nat} {m last : Machine} {cs : List Char} {cuts : List Cut}
    (h : m.Cuts bound line cs cuts last) : ∀ t ∈ tokensOf line cuts, t.Lexed := by
  induction h with
  | nil => simp [tokensOf]
  | skip _ _ ih => exact ih
  | take _ hlexeme _ _ _ ih =>
      refine List.forall_mem_cons.2 ⟨?_, ih⟩
      exact ⟨⟨_, rfl⟩, ⟨_, rfl⟩, isLexed_of_lexAt hlexeme⟩

end Grammar

/-! ### Programs from a source -/

/-- The programs that sources are, to the parser or to the reference grammar, within any limit. -/
inductive FromSource : List Stmt → Prop where
  | parser {limit : Nat} {source : String} {loaded : Loaded}
      (h : programOf limit source = .ok loaded) : FromSource loaded.program
  | grammar {limit : Nat} {source : String} {program : List Stmt}
      (h : Grammar.parseWithGrammar limit source = .ok program) : FromSource program

/-- A program that tokens are parsed as is as demanded, if the tokens are. -/
theorem meets_of_parse {d : Demands} {p : Token → Prop} (hd : d.MetBy p) {limit : Nat}
    {tokens : List Token} {program : List Stmt} (h : Parse.parse limit tokens = .ok program)
    (hp : ∀ t ∈ tokens, p t) : allMeet d program := by
  obtain ⟨body, last, rest, htokens, -, hderives, -⟩ := Parse.derives_of_parse h
  refine hderives.meets hd ?_
  intro t ht
  exact hp t (by simp [htokens, ht])

/-- The program that a source is to the parser is as demanded, if the tokens of its scan are. -/
theorem meets_of_programOf {d : Demands} {p : Token → Prop} (hd : d.MetBy p) {limit : Nat}
    {source : String} {loaded : Loaded} (h : programOf limit source = .ok loaded)
    (hp : ∀ scanned, scan source = .ok scanned → ∀ t ∈ scanned.tokens, p t) :
    allMeet d loaded.program := by
  unfold programOf at h
  split at h
  · cases h
  · next scanned hscan =>
    split at h
    · cases h
    · next program hparse =>
      cases h
      exact meets_of_parse hd hparse (hp scanned hscan)

/-- **Programs from a source are as demanded**, if the tokens of sources are. -/
theorem FromSource.meets {d : Demands} (hd : d.MetBy Token.Lexed) {program : List Stmt}
    (h : FromSource program) : allMeet d program := by
  cases h with
  | parser h => exact meets_of_programOf hd h fun _ hscan _ => lexed_of_mem_scan hscan
  | grammar h =>
      obtain ⟨depth, last, hcuts, hfinish⟩ := Grammar.cuts_of_parseWithGrammar h
      exact (Grammar.derives_of_reads hcuts.reads hfinish).meets hd hcuts.lexed

/-- **Programs from a source have typed fields and known operators.** -/
theorem FromSource.known {program : List Stmt} (h : FromSource program) :
    allMeet .known program :=
  h.meets (Demands.known_metBy.mono fun _ => Token.Lexed.typed)

end ScriptLang
