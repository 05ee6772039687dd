import ScriptLang.Proofs.Phrase

/-!
# What is derived drives the machine

A row of tokens that the grammar derives for a tree takes the machine from where the phrase may
begin to where the tree has been read. Every token is of a kind that the position accepts, and the
stack stays below a multiple of the levels that the tree opens.

## Main Definitions

* `Machine.Reads`: a run over a row of tokens with a bound on the stack.
* `Machine.InList`: the machine stands where a list of statements goes on.
* `Driven`: what a derivation promises of the machine.

## Main Statements

* `driven_of_derives`: the promise is kept, by induction on the derivation.
* `reads_of_derives`: a program that is derived is read from the initial machine to its end.

## Design Notes

Behind a phrase the machine has not closed what the phrase left open: operators wait for a tighter
one, a statement waits for an `else`. The promise therefore compares what closing gives, not the
stacks. Between two parentheses at most seven frames can wait, one for each rung.
-/

namespace ScriptLang.Grammar

/-! ### Runs over tokens -/

namespace Machine

/-- The machine reads a row of tokens. Each one is accepted where it stands, and after each one the
stack holds at most `bound` frames. -/
inductive Reads (bound : Nat) : Machine → List Token → Machine → Prop where
  | nil {m : Machine} : Reads bound m [] m
  | cons {m last : Machine} {t : Token} {ts : List Token} (next : Machine)
      (haccepts : m.position.accepts t.kind = true) (hstep : m.step t = some next)
      (hbound : next.stack.length ≤ bound) (h : Reads bound next ts last) :
      Reads bound m (t :: ts) last

namespace Reads

variable {bound : Nat} {m next last : Machine} {t : Token} {ts us : List Token}

theorem append (h : Reads bound m ts next) (h' : Reads bound next us last) :
    Reads bound m (ts ++ us) last := by
  induction h with
  | nil => exact h'
  | cons middle haccepts hstep hbound _ ih =>
      exact .cons middle haccepts hstep hbound (ih h')

/-- One more token at the end. -/
theorem snoc (h : Reads bound m ts next) (haccepts : next.position.accepts t.kind = true)
    (hstep : next.step t = some last) (hbound : last.stack.length ≤ bound) :
    Reads bound m (ts ++ [t]) last :=
  h.append (.cons last haccepts hstep hbound .nil)

end Reads

/-! ### Closing -/

/-- The frame on top of the stack does not close before an operator of the rung. -/
def Clear (rung : Rung) : List Frame → Prop
  | .unary _ :: _ => 7 ≤ rung.index
  | .operator _ op :: _ => level op.kind < rung.index
  | _ => True

theorem Clear.next {rung : Rung} {stack : List Frame} (h : Clear rung stack) :
    Clear rung.next stack := by
  have hle : rung.index ≤ rung.next.index := by cases rung <;> decide
  unfold Clear at h ⊢
  split at h
  · exact Nat.le_trans h hle
  · exact Nat.lt_of_lt_of_le h hle
  · trivial

/-- An operator leaves open what is looser than itself. -/
theorem reduce_of_clear {rung : Rung} {stack : List Frame} (h : Clear rung stack)
    (hlow : rung.index < 7) (value : Expr) : reduce rung.index value stack = (value, stack) := by
  cases stack with
  | nil => rfl
  | cons frame rest =>
      cases frame with
      | unary op => exact absurd h (Nat.not_le.2 hlow)
      | operator left op => exact if_neg (Nat.not_le.2 h)
      | _ => rfl

/-- Nothing that an assignment could not go into stands on top of the stack. -/
theorem assignable_of_clear {stack : List Frame} (h : Clear .assignment stack) (name : Token) :
    assignable (.ref name) stack = true := by
  cases stack with
  | nil => rfl
  | cons frame rest =>
      cases frame with
      | unary op => simp [Clear, Rung.index] at h
      | operator left op => simp [Clear, Rung.index] at h
      | _ => rfl

theorem operation_of_mem {rung : Rung} {op : Token} (h : op.kind ∈ rung.operators)
    (left right : Expr) : operation left op right = rung.node left op right := by
  unfold operation
  rw [Rung.level_of_mem_operators h]
  cases rung with
  | assignment => simp [Rung.operators] at h
  | _ => rfl

/-! ### Where a list of statements goes on -/

/-- The machine stands where a list of statements goes on. Outside of that list `stack` is open, and
`stmts` is what the list holds so far, newest first. -/
structure InList (m : Machine) (stack : List Frame) (stmts : List Stmt) : Prop where
  accepts : ∀ kind : TokenKind, beginsStatement kind = true ∨ kind = .varWord ∨
    (kind = .rightBrace ∧ stack ≠ []) → m.position.accepts kind = true
  step_eq : ∀ t : Token, t.kind ≠ .elseWord →
    m.step t = readList { mode := .list .afterStatement, stack, stmts } t
  finish_eq : m.finish = finish { mode := .list .afterStatement, stack, stmts }
  /-- No branch or loop waits for a statement of the list. -/
  complete_eq : ∀ stmt, complete stmt stack = (stmt, stack)

namespace InList

variable {position : Position} {stack : List Frame} {stmts : List Stmt}

theorem initial_nil : initial.InList [] [] where
  accepts kind h := by
    rcases h with h | h | h
    · simp [position, initial, Position.accepts, h]
    · simp [position, initial, Position.accepts, h]
    · exact absurd rfl h.2
  step_eq _ _ := rfl
  finish_eq := rfl
  complete_eq _ := rfl

/-- In front of the first statement of a block. -/
theorem afterLeftBrace (stack : List Frame) (before : List Stmt) :
    InList { mode := .list .afterLeftBrace, stack := .block before :: stack, stmts := [] }
      (.block before :: stack) [] where
  accepts kind h := by
    rcases h with h | h | h <;> simp [position, Position.accepts, h]
  step_eq _ _ := rfl
  finish_eq := rfl
  complete_eq _ := rfl

theorem afterDeclaration (hcomplete : ∀ stmt, complete stmt stack = (stmt, stack)) :
    InList { mode := .list .afterDeclaration, stack, stmts } stack stmts where
  accepts kind h := by
    rcases h with h | h | h <;> simp [position, Position.accepts, h]
  step_eq _ _ := rfl
  finish_eq := by cases stack <;> rfl
  complete_eq := hcomplete

/-- Behind a statement that completes `stmt` in the list. -/
theorem afterStatement {pending stmt : Stmt} {inner : List Frame}
    (hcomplete : ∀ stmt, complete stmt stack = (stmt, stack))
    (h : complete pending inner = (stmt, stack)) :
    InList { mode := .statement pending, stack := inner, stmts } stack (stmt :: stmts) where
  accepts kind h := by
    rcases h with h | h | h <;> simp [position, Position.accepts, h]
  step_eq t ht := by
    simp only [step, if_neg ht, settle, h]
  finish_eq := by
    simp only [finish, settle, h]
  complete_eq := hcomplete

end InList

/-! ### Where a statement begins -/

/-- The machine reads the first token of a statement as it would behind a condition. -/
def Awaits (m : Machine) (stack : List Frame) (stmts : List Stmt) : Prop :=
  ∀ t : Token, beginsStatement t.kind = true →
    m.position.accepts t.kind = true ∧ m.step t = readStatement { mode := .body, stack, stmts } t

theorem awaits_body (stack : List Frame) (stmts : List Stmt) :
    Awaits { mode := .body, stack, stmts } stack stmts :=
  fun _ ht => ⟨ht, rfl⟩

/-- A run over a statement, from what its first token does behind a condition. -/
theorem Awaits.reads {m last : Machine} {stack : List Frame} {stmts : List Stmt} {t : Token}
    {ts : List Token} {bound : Nat} (h : m.Awaits stack stmts) (next : Machine)
    (hbegins : beginsStatement t.kind = true)
    (hstep : readStatement { mode := .body, stack, stmts } t = some next)
    (hbound : next.stack.length ≤ bound) (hreads : Reads bound next ts last) :
    Reads bound m (t :: ts) last := by
  obtain ⟨haccepts, hfirst⟩ := h t hbegins
  exact .cons next haccepts (hfirst.trans hstep) hbound hreads

theorem readStatement_mode (mode : Mode) (stack : List Frame) (stmts : List Stmt) (t : Token) :
    readStatement { mode, stack, stmts } t = readStatement { mode := .body, stack, stmts } t := rfl

theorem InList.awaits {m : Machine} {stack : List Frame} {stmts : List Stmt}
    (h : m.InList stack stmts) : m.Awaits stack stmts := by
  intro t ht
  refine ⟨h.accepts _ (Or.inl ht), ?_⟩
  have helse : t.kind ≠ .elseWord := by
    intro hkind
    simp [hkind, beginsStatement, beginsOperand] at ht
  rw [h.step_eq t helse, ← readStatement_mode (.list .afterStatement)]
  unfold readList
  split
  · next hkind => simp [hkind, beginsStatement, beginsOperand] at ht
  · next hkind => simp [hkind, beginsStatement, beginsOperand] at ht
  · rfl

end Machine

open Machine

/-! ### What a derivation promises -/

/-- What a derivation promises of the machine. -/
def Driven : Phrase → List Token → Prop
  | .expr rung e, ts =>
    ∀ (bound : Nat) (stack : List Frame) (stmts : List Stmt), Clear rung stack →
      stack.length + 7 * e.levels ≤ bound + min rung.index 7 →
      ∃ value inner, Reads bound ⟨.operand, stack, stmts⟩ ts ⟨.operandRead value, inner, stmts⟩ ∧
        reduceAll value inner = reduceAll e stack ∧
        ∀ b, 0 < b → b ≤ rung.index → reduce b value inner = reduce b e stack
  | .stmt stmt, ts =>
    ∀ (bound : Nat) ⦃m : Machine⦄ ⦃stack : List Frame⦄ ⦃stmts : List Stmt⦄, m.Awaits stack stmts →
      stack.length + 7 * stmt.levels ≤ bound →
      ∃ pending inner, Reads bound m ts ⟨.statement pending, inner, stmts⟩ ∧
        complete pending inner = complete stmt stack ∧
        (stmt.awaitsElse = false → matchElse pending inner = matchElse stmt stack)
  | .decl stmt, ts =>
    ∀ (bound : Nat) ⦃m : Machine⦄ ⦃stack : List Frame⦄ ⦃stmts : List Stmt⦄, m.InList stack stmts →
      stack.length + 7 * stmt.levels ≤ bound →
      ∃ next, Reads bound m ts next ∧ next.InList stack (stmt :: stmts)
  | .decls new, ts =>
    ∀ (bound : Nat) ⦃m : Machine⦄ ⦃stack : List Frame⦄ ⦃stmts : List Stmt⦄, m.InList stack stmts →
      stack.length + 7 * levelsOfAll new ≤ bound →
      ∃ next, Reads bound m ts next ∧ next.InList stack (new.reverse ++ stmts)

/-! ### Expressions -/

section Expressions

variable {rung : Rung} {e : Expr} {ts : List Token}

theorem driven_assign {name equals : Token} (hname : name.kind = .identifier)
    (hequals : equals.kind = .equal) (ih : Driven (.expr .assignment e) ts) :
    Driven (.expr .assignment (.assign name e)) (name :: equals :: ts) := by
  intro bound stack stmts hclear hbound
  simp only [Expr.levels, Rung.index] at hbound
  obtain ⟨value, inner, hreads, hall, -⟩ := ih bound (.assign name :: stack) stmts trivial
    (by simp only [List.length_cons, Rung.index]; omega)
  refine ⟨value, inner, ?_, hall, fun b hpos hle => absurd hpos (Nat.not_lt.2 hle)⟩
  refine .cons ⟨.operandRead (.ref name), stack, stmts⟩ ?_ ?_ ?_
    (.cons ⟨.operand, .assign name :: stack, stmts⟩ ?_ ?_ ?_ hreads)
  · simp [position, Position.accepts, hname, beginsOperand]
  · simp [step, readOperand, hname]
  · show stack.length ≤ bound
    omega
  · simp [position, Position.accepts, hequals, assignable_of_clear hclear]
  · simp [step, readAfterOperand, hequals]
  · show stack.length + 1 ≤ bound
    omega

theorem driven_loosen (ih : Driven (.expr rung.next e) ts) : Driven (.expr rung e) ts := by
  intro bound stack stmts hclear hbound
  have hle : rung.index ≤ rung.next.index := by cases rung <;> decide
  obtain ⟨value, inner, hreads, hall, hsome⟩ := ih bound stack stmts hclear.next (by omega)
  exact ⟨value, inner, hreads, hall, fun b hpos hb => hsome b hpos (Nat.le_trans hb hle)⟩

theorem followsOperand_of_level_pos {kind : TokenKind} (h : 0 < level kind) :
    followsOperand kind = true := by
  revert h
  cases kind <;> decide

/-- Behind an operand an operator closes what is at least as tight as itself. -/
theorem readAfterOperand_of_level_pos {op : Token} (h : 0 < level op.kind) (m : Machine)
    (value : Expr) :
    readAfterOperand m value op =
      some { m with
        mode := .operand
        stack := .operator (reduce (level op.kind) value m.stack).1 op ::
          (reduce (level op.kind) value m.stack).2 } := by
  unfold readAfterOperand
  split
  · next hkind => exact absurd h (by rw [hkind]; decide)
  · next hkind => exact absurd h (by rw [hkind]; decide)
  · next hkind => exact absurd h (by rw [hkind]; decide)
  · rfl

theorem driven_operator {left right : Expr} {op : Token} {ls rs : List Token}
    (ihleft : Driven (.expr rung left) ls) (hop : op.kind ∈ rung.operators)
    (ihright : Driven (.expr rung.next right) rs) :
    Driven (.expr rung (rung.node left op right)) (ls ++ op :: rs) := by
  intro bound stack stmts hclear hbound
  have hindex : 0 < rung.index ∧ rung.index < 7 := by
    cases rung <;> simp [Rung.operators, Rung.index] at hop ⊢
  have hnext : rung.next.index = rung.index + 1 := Rung.index_next (by omega)
  rw [Rung.levels_node] at hbound
  obtain ⟨value, inner, hreads, -, hsome⟩ := ihleft bound stack stmts hclear (by omega)
  -- Nothing on the stack is as tight as the operator, so it finds its left operand as it is.
  have hreduce : reduce rung.index value inner = (left, stack) := by
    rw [hsome _ hindex.1 (Nat.le_refl _), reduce_of_clear hclear hindex.2]
  have hlevel : level op.kind = rung.index := Rung.level_of_mem_operators hop
  have haccepts : followsOperand op.kind = true := followsOperand_of_level_pos (by omega)
  have hstep : Machine.step ⟨.operandRead value, inner, stmts⟩ op =
      some ⟨.operand, .operator left op :: stack, stmts⟩ := by
    simp only [step]
    rw [readAfterOperand_of_level_pos (by omega)]
    simp only [hlevel, hreduce]
  obtain ⟨value', inner', hreads', hall', hsome'⟩ :=
    ihright bound (.operator left op :: stack) stmts
      (by show level op.kind < _; omega) (by simp only [List.length_cons]; omega)
  have hnode := operation_of_mem hop left right
  refine ⟨value', inner', hreads.append (.cons _ ?_ hstep ?_ hreads'), ?_, ?_⟩
  · simp [position, Position.accepts, haccepts]
  · show stack.length + 1 ≤ bound
    have := Expr.levels_pos right
    omega
  · rw [hall', reduceAll, hnode]
  · intro b hpos hle
    rw [hsome' b hpos (by omega), reduce, hlevel, if_pos hle, hnode]

theorem driven_unary {op : Token} (hop : op.kind = .bang ∨ op.kind = .minus)
    (ih : Driven (.expr .unary e) ts) : Driven (.expr .unary (.unary op e)) (op :: ts) := by
  intro bound stack stmts _ hbound
  simp only [Expr.levels, Rung.index] at hbound
  obtain ⟨value, inner, hreads, hall, hsome⟩ := ih bound (.unary op :: stack) stmts
    (Nat.le_refl 7) (by simp only [List.length_cons, Rung.index]; omega)
  refine ⟨value, inner, .cons ⟨.operand, .unary op :: stack, stmts⟩ ?_ ?_ ?_ hreads, hall, hsome⟩
  · rcases hop with hop | hop <;> simp [position, Position.accepts, hop, beginsOperand]
  · rcases hop with hop | hop <;> simp [step, readOperand, hop]
  · show stack.length + 1 ≤ bound
    have := Expr.levels_pos e
    omega

/-- An operand that is one token. -/
theorem driven_token {t : Token} (haccepts : beginsOperand t.kind = true)
    (hstep : ∀ stack stmts, readOperand ⟨.operand, stack, stmts⟩ t =
      some ⟨.operandRead e, stack, stmts⟩) : Driven (.expr .primary e) [t] := by
  intro bound stack stmts _ hbound
  refine ⟨e, stack, .cons _ haccepts (hstep stack stmts) ?_ .nil, rfl, fun _ _ _ => rfl⟩
  show stack.length ≤ bound
  have := Expr.levels_pos e
  simp only [Rung.index] at hbound
  omega

theorem driven_group {opening closing : Token} (hopening : opening.kind = .leftParen)
    (ih : Driven (.expr .assignment e) ts) (hclosing : closing.kind = .rightParen) :
    Driven (.expr .primary (.group e)) (opening :: ts ++ [closing]) := by
  intro bound stack stmts _ hbound
  simp only [Expr.levels, Rung.index] at hbound
  obtain ⟨value, inner, hreads, hall, -⟩ := ih bound (.group :: stack) stmts trivial
    (by simp only [List.length_cons, Rung.index]; omega)
  refine ⟨.group e, stack, ?_, rfl, fun _ _ _ => rfl⟩
  refine .cons ⟨.operand, .group :: stack, stmts⟩ ?_ ?_ ?_ (hreads.snoc ?_ ?_ ?_)
  · simp [position, Position.accepts, hopening, beginsOperand]
  · simp [step, readOperand, hopening]
  · show stack.length + 1 ≤ bound
    omega
  · simp [position, Position.accepts, hclosing, followsOperand]
  · simp only [step, readAfterOperand, hclosing, closeParen, hall, reduceAll]
  · show stack.length ≤ bound
    omega

end Expressions

/-! ### Statements -/

section Statements

variable {e : Expr} {stmt : Stmt} {ts : List Token}

/-- The word that a statement with a condition begins with. -/
def wordOf : Conditional → TokenKind
  | .branch => .ifWord
  | .loop => .whileWord

/-- The frame that waits for the statement after a condition. -/
def bodyFrame (condition : Expr) : Conditional → Frame
  | .branch => .branchBody condition
  | .loop => .loopBody condition

/-- The word, the condition and its parentheses. -/
theorem reads_condition (statement : Conditional) {word opening closing : Token} {cs : List Token}
    (hword : word.kind = wordOf statement) (hopening : opening.kind = .leftParen)
    (ih : Driven (.expr .assignment e) cs) (hclosing : closing.kind = .rightParen) (bound : Nat)
    {m : Machine} {stack : List Frame} {stmts : List Stmt} (hm : m.Awaits stack stmts)
    (hbound : stack.length + 1 + 7 * e.levels ≤ bound) :
    Reads bound m (word :: opening :: cs ++ [closing])
      ⟨.body, bodyFrame e statement :: stack, stmts⟩ := by
  obtain ⟨value, inner, hreads, hall, -⟩ := ih bound (.test statement :: stack) stmts trivial
    (by simp only [List.length_cons, Rung.index]; omega)
  refine hm.reads ⟨.conditional statement, stack, stmts⟩ ?_ ?_ ?_
    (.cons ⟨.operand, .test statement :: stack, stmts⟩ ?_ rfl ?_ (hreads.snoc ?_ ?_ ?_))
  · cases statement <;> simp [beginsStatement, hword, wordOf]
  · cases statement <;> simp [readStatement, hword, wordOf]
  · show stack.length ≤ bound
    omega
  · simp [position, Position.accepts, hopening]
  · show stack.length + 1 ≤ bound
    omega
  · simp [position, Position.accepts, hclosing, followsOperand]
  · cases statement <;>
      simp only [step, readAfterOperand, hclosing, closeParen, hall, reduceAll, bodyFrame]
  · show stack.length + 1 ≤ bound
    omega

theorem readStatement_of_beginsOperand {t : Token} (h : beginsOperand t.kind = true)
    (stack : List Frame) (stmts : List Stmt) :
    readStatement ⟨.body, stack, stmts⟩ t =
      Machine.step ⟨.operand, .exprStmt :: stack, stmts⟩ t := by
  unfold readStatement
  split
  · next hkind => exact absurd h (by rw [hkind]; decide)
  · next hkind => exact absurd h (by rw [hkind]; decide)
  · next hkind => exact absurd h (by rw [hkind]; decide)
  · next hkind => exact absurd h (by rw [hkind]; decide)
  · rfl

theorem driven_exprStmt {semicolon : Token} (hderives : Derives (.expr .assignment e) ts)
    (ih : Driven (.expr .assignment e) ts) (hsemicolon : semicolon.kind = .semicolon) :
    Driven (.stmt (.expr e)) (ts ++ [semicolon]) := by
  intro bound m stack stmts hm hbound
  simp only [Stmt.levels] at hbound
  obtain ⟨value, inner, hreads, hall, -⟩ := ih bound (.exprStmt :: stack) stmts trivial
    (by simp only [List.length_cons, Rung.index]; omega)
  obtain ⟨t, us, rfl, ht⟩ := hderives.head_expr
  refine ⟨.expr e, stack, ?_, rfl, fun _ => rfl⟩
  cases hreads with
  | cons next _ hstep hnext hreads =>
      refine (hm.reads next ?_ ?_ hnext hreads).snoc ?_ ?_ ?_
      · simp [beginsStatement, ht]
      · rw [readStatement_of_beginsOperand ht, hstep]
      · simp [position, Position.accepts, hsemicolon, followsOperand]
      · simp only [step, readAfterOperand, hsemicolon, endStatement, hall, reduceAll]
      · show stack.length ≤ bound
        omega

theorem driven_print {word semicolon : Token} (hword : word.kind = .printWord)
    (ih : Driven (.expr .assignment e) ts) (hsemicolon : semicolon.kind = .semicolon) :
    Driven (.stmt (.print e)) (word :: ts ++ [semicolon]) := by
  intro bound m stack stmts hm hbound
  simp only [Stmt.levels] at hbound
  obtain ⟨value, inner, hreads, hall, -⟩ := ih bound (.print :: stack) stmts trivial
    (by simp only [List.length_cons, Rung.index]; omega)
  refine ⟨.print e, stack, ?_, rfl, fun _ => rfl⟩
  refine hm.reads ⟨.operand, .print :: stack, stmts⟩ ?_ ?_ ?_ (hreads.snoc ?_ ?_ ?_)
  · simp [beginsStatement, hword]
  · simp only [readStatement, hword]
  · show stack.length + 1 ≤ bound
    omega
  · simp [position, Position.accepts, hsemicolon, followsOperand]
  · simp only [step, readAfterOperand, hsemicolon, endStatement, hall, reduceAll]
  · show stack.length ≤ bound
    omega

theorem driven_block {opening closing : Token} {body : List Stmt}
    (hopening : opening.kind = .leftBrace) (ih : Driven (.decls body) ts)
    (hclosing : closing.kind = .rightBrace) :
    Driven (.stmt (.block body)) (opening :: ts ++ [closing]) := by
  intro bound m stack stmts hm hbound
  simp only [Stmt.levels] at hbound
  obtain ⟨last, hreads, hlast⟩ := ih bound (InList.afterLeftBrace stack stmts)
    (by simp only [List.length_cons]; omega)
  refine ⟨.block body, stack, ?_, rfl, fun _ => rfl⟩
  refine hm.reads ⟨.list .afterLeftBrace, .block stmts :: stack, []⟩ ?_ ?_ ?_
    (hreads.snoc ?_ ?_ ?_)
  · simp [beginsStatement, hopening]
  · simp only [readStatement, hopening]
  · show stack.length + 1 ≤ bound
    omega
  · exact hlast.accepts _ (Or.inr (Or.inr ⟨hclosing, by simp⟩))
  · rw [hlast.step_eq closing (by rw [hclosing]; decide)]
    simp only [readList, hclosing, List.append_nil, List.reverse_reverse]
  · show stack.length ≤ bound
    omega

theorem driven_branch {word opening closing : Token} {cs : List Token}
    (hword : word.kind = .ifWord) (hopening : opening.kind = .leftParen)
    (ihtest : Driven (.expr .assignment e) cs) (hclosing : closing.kind = .rightParen)
    (ih : Driven (.stmt stmt) ts) :
    Driven (.stmt (.branch e stmt none)) (word :: opening :: cs ++ closing :: ts) := by
  intro bound m stack stmts hm hbound
  simp only [Stmt.levels] at hbound
  have htest := reads_condition .branch hword hopening ihtest hclosing bound hm (by omega)
  obtain ⟨pending, inner, hreads, hcomplete, -⟩ :=
    ih bound (awaits_body (.branchBody e :: stack) stmts) (by simp only [List.length_cons]; omega)
  refine ⟨pending, inner, ?_, hcomplete, fun hawaits => absurd hawaits (by simp [Stmt.awaitsElse])⟩
  simpa using htest.append hreads

theorem driven_branchElse {word opening closing other : Token} {whenFalse : Stmt}
    {cs us : List Token} (hword : word.kind = .ifWord) (hopening : opening.kind = .leftParen)
    (ihtest : Driven (.expr .assignment e) cs) (hclosing : closing.kind = .rightParen)
    (ih : Driven (.stmt stmt) ts) (hopen : stmt.awaitsElse = false)
    (hother : other.kind = .elseWord) (ihfalse : Driven (.stmt whenFalse) us) :
    Driven (.stmt (.branch e stmt (some whenFalse)))
      (word :: opening :: cs ++ closing :: ts ++ other :: us) := by
  intro bound m stack stmts hm hbound
  simp only [Stmt.levels] at hbound
  have htest := reads_condition .branch hword hopening ihtest hclosing bound hm (by omega)
  obtain ⟨pending, inner, hreads, -, helse⟩ :=
    ih bound (awaits_body (.branchBody e :: stack) stmts) (by simp only [List.length_cons]; omega)
  obtain ⟨pending', inner', hreads', hcomplete', helse'⟩ :=
    ihfalse bound (awaits_body (.otherwise e stmt :: stack) stmts)
      (by simp only [List.length_cons]; omega)
  -- The statement in front of the `else` waits for none, so the search stops at this branch.
  have hmatch : matchElse pending inner = some (.otherwise e stmt :: stack) := helse hopen
  refine ⟨pending', inner', ?_, hcomplete', helse'⟩
  have hrest : Reads bound ⟨.statement pending, inner, stmts⟩ (other :: us)
      ⟨.statement pending', inner', stmts⟩ := by
    refine .cons ⟨.body, .otherwise e stmt :: stack, stmts⟩ ?_ ?_ ?_ hreads'
    · simp [position, Position.accepts, hother]
    · simp [step, hother, hmatch]
    · show stack.length + 1 ≤ bound
      omega
  simpa using (htest.append hreads).append hrest

theorem driven_loop {word opening closing : Token} {cs : List Token}
    (hword : word.kind = .whileWord) (hopening : opening.kind = .leftParen)
    (ihtest : Driven (.expr .assignment e) cs) (hclosing : closing.kind = .rightParen)
    (ih : Driven (.stmt stmt) ts) :
    Driven (.stmt (.loop e stmt)) (word :: opening :: cs ++ closing :: ts) := by
  intro bound m stack stmts hm hbound
  simp only [Stmt.levels] at hbound
  have htest := reads_condition .loop hword hopening ihtest hclosing bound hm (by omega)
  obtain ⟨pending, inner, hreads, hcomplete, helse⟩ :=
    ih bound (awaits_body (.loopBody e :: stack) stmts) (by simp only [List.length_cons]; omega)
  refine ⟨pending, inner, ?_, hcomplete, helse⟩
  simpa using htest.append hreads

end Statements

/-! ### Lists of statements -/

section Lists

variable {stmt : Stmt} {ts : List Token} {word name semicolon : Token}

/-- The word and the name that a declaration begins with. -/
theorem reads_declared (hword : word.kind = .varWord) (hname : name.kind = .identifier)
    {bound : Nat} {m last : Machine} {stack : List Frame} {stmts : List Stmt}
    (hm : m.InList stack stmts) (hbound : stack.length ≤ bound)
    (hreads : Reads bound ⟨.declared name, stack, stmts⟩ ts last) :
    Reads bound m (word :: name :: ts) last := by
  refine .cons ⟨.var, stack, stmts⟩ ?_ ?_ hbound (.cons _ ?_ rfl hbound hreads)
  · exact hm.accepts _ (Or.inr (Or.inl hword))
  · rw [hm.step_eq word (by rw [hword]; decide)]
    simp only [readList, hword]
  · simp [position, Position.accepts, hname]

theorem driven_declare (hword : word.kind = .varWord) (hname : name.kind = .identifier)
    (hsemicolon : semicolon.kind = .semicolon) :
    Driven (.decl (.declare name none)) [word, name, semicolon] := by
  intro bound m stack stmts hm hbound
  have hlength : stack.length ≤ bound := by omega
  refine ⟨_, reads_declared hword hname hm hlength (.cons _ ?_ ?_ ?_ .nil),
    InList.afterDeclaration hm.complete_eq⟩
  · simp [position, Position.accepts, hsemicolon]
  · simp [step, hsemicolon]
  · exact hlength

theorem driven_declareInit {equals : Token} {initial : Expr} (hword : word.kind = .varWord)
    (hname : name.kind = .identifier) (hequals : equals.kind = .equal)
    (ih : Driven (.expr .assignment initial) ts) (hsemicolon : semicolon.kind = .semicolon) :
    Driven (.decl (.declare name (some initial)))
      (word :: name :: equals :: ts ++ [semicolon]) := by
  intro bound m stack stmts hm hbound
  simp only [Stmt.levels] at hbound
  have hlength : stack.length + 1 ≤ bound := by omega
  obtain ⟨value, inner, hreads, hall, -⟩ := ih bound (.initial name :: stack) stmts trivial
    (by simp only [List.length_cons, Rung.index]; omega)
  refine ⟨_, reads_declared hword hname hm (Nat.le_of_succ_le hlength)
    (.cons ⟨.operand, .initial name :: stack, stmts⟩ ?_ ?_ hlength (hreads.snoc ?_ ?_ ?_)),
    InList.afterDeclaration hm.complete_eq⟩
  · simp [position, Position.accepts, hequals]
  · simp [step, hequals]
  · simp [position, Position.accepts, hsemicolon, followsOperand]
  · simp only [step, readAfterOperand, hsemicolon, endStatement, hall, reduceAll]
  · exact Nat.le_of_succ_le hlength

theorem driven_stmtDecl (ih : Driven (.stmt stmt) ts) : Driven (.decl stmt) ts := by
  intro bound m stack stmts hm hbound
  obtain ⟨pending, inner, hreads, hcomplete, -⟩ := ih bound hm.awaits hbound
  rw [hm.complete_eq] at hcomplete
  exact ⟨_, hreads, InList.afterStatement hm.complete_eq hcomplete⟩

theorem driven_cons {new : List Stmt} {us : List Token} (ihfirst : Driven (.decl stmt) ts)
    (ihothers : Driven (.decls new) us) : Driven (.decls (stmt :: new)) (ts ++ us) := by
  intro bound m stack stmts hm hbound
  simp only [levelsOfAll] at hbound
  obtain ⟨next, hreads, hnext⟩ := ihfirst bound hm (by omega)
  obtain ⟨last, hreads', hlast⟩ := ihothers bound hnext (by omega)
  refine ⟨last, hreads.append hreads', ?_⟩
  simpa using hlast

end Lists

/-! ### Programs -/

/-- **What is derived drives the machine**, by induction on the derivation. -/
theorem driven_of_derives {phrase : Phrase} {ts : List Token} (h : Derives phrase ts) :
    Driven phrase ts := by
  induction h with
  | assign hname hequals _ ih => exact driven_assign hname hequals ih
  | loosen _ ih => exact driven_loosen ih
  | operator _ hop _ ihleft ihright => exact driven_operator ihleft hop ihright
  | unary hop _ ih => exact driven_unary hop ih
  | falseWord hword =>
      exact driven_token (by simp [hword, beginsOperand]) (by simp [readOperand, hword])
  | trueWord hword =>
      exact driven_token (by simp [hword, beginsOperand]) (by simp [readOperand, hword])
  | nilWord hword =>
      exact driven_token (by simp [hword, beginsOperand]) (by simp [readOperand, hword])
  | literal htoken =>
      rcases htoken with htoken | htoken <;>
        exact driven_token (by simp [htoken, beginsOperand]) (by simp [readOperand, htoken])
  | ref hname => exact driven_token (by simp [hname, beginsOperand]) (by simp [readOperand, hname])
  | group hopening _ hclosing ih => exact driven_group hopening ih hclosing
  | exprStmt h hsemicolon ih => exact driven_exprStmt h ih hsemicolon
  | print hword _ hsemicolon ih => exact driven_print hword ih hsemicolon
  | block hopening _ hclosing ih => exact driven_block hopening ih hclosing
  | branch hword hopening _ hclosing _ ihtest ih =>
      exact driven_branch hword hopening ihtest hclosing ih
  | branchElse hword hopening _ hclosing _ hopen hother _ ihtest ih ihfalse =>
      exact driven_branchElse hword hopening ihtest hclosing ih hopen hother ihfalse
  | loop hword hopening _ hclosing _ ihtest ih =>
      exact driven_loop hword hopening ihtest hclosing ih
  | declare hword hname hsemicolon => exact driven_declare hword hname hsemicolon
  | declareInit hword hname hequals _ hsemicolon ih =>
      exact driven_declareInit hword hname hequals ih hsemicolon
  | stmtDecl _ ih => exact driven_stmtDecl ih
  | nil => exact fun _ m _ _ hm _ => ⟨m, .nil, hm⟩
  | cons _ _ ihfirst ihothers => exact driven_cons ihfirst ihothers

/-- A program that is derived is read from the initial machine to its end. -/
theorem reads_of_derives {program : List Stmt} {ts : List Token} (h : Derives (.decls program) ts) :
    ∃ last, Reads (7 * levelsOfAll program) .initial ts last ∧ last.finish = some program := by
  obtain ⟨last, hreads, hlast⟩ := driven_of_derives h (7 * levelsOfAll program)
    InList.initial_nil (by simp)
  refine ⟨last, hreads, ?_⟩
  rw [hlast.finish_eq]
  simp [finish]

end ScriptLang.Grammar
