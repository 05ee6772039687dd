import ScriptLang.Proofs.Grammar.Accepts
import ScriptLang.Proofs.Grammar.Sound
import ScriptLang.Run.Session

/-!
# Long chains of operators

An operator that binds to the left makes a tree as deep as the chain is long, while the parser reads
the chain in a loop and opens no level for it. A long enough chain is therefore a program that loads
and cannot be run.

## Main Definitions

* `chainSource`: the source of a chain with so many operators; `chain`: its tree.

## Main Statements

* `programOf_chainSource`: a chain of any length loads.
* `interpret_chain`: a chain with as many operators as there are levels fails by its nesting.
-/

namespace ScriptLang

/-! ### The source -/

/-- The characters of a sum of ones with `n` operators. -/
def chainChars : Nat → List Char
  | 0 => ['1']
  | n + 1 => chainChars n ++ ['+', '1']

/-- The source of a statement that is a sum of ones with `n` operators. -/
def chainSource (n : Nat) : String :=
  String.ofList (chainChars n ++ [';'])

/-- The piece of a one in a chain. -/
def onePiece : Piece := .number ['1'] []

theorem not_mem_chainSource (n : Nat) : '\r' ∉ (chainSource n).toList := by
  have hchars : '\r' ∉ chainChars n := by
    induction n with
    | zero => decide
    | succ n ih => simp [chainChars, ih]
  simp [chainSource, hchars]

/-- The pieces of a sum of ones. -/
def chainPieces : Nat → List Piece
  | 0 => [onePiece]
  | n + 1 => chainPieces n ++ [.mark .plus ['+'], onePiece]

/-- What follows does not go on with a number. -/
theorem next_one {c : Char} (cs : List Char) (hdigit : isDigit c = false) (hpoint : c ≠ '.') :
    Piece.next '1' (c :: cs) = some (onePiece, c :: cs) := by
  have hfraction : splitFraction (c :: cs) = ([], c :: cs) := by
    rw [splitFraction]
    intro d rest hc
    exact hpoint (List.cons.inj hc).1
  have hnext : Piece.nextDigit '1' (c :: cs) = (onePiece, c :: cs) := by
    simp [Piece.nextDigit, hdigit, hfraction, onePiece]
  rw [← hnext]
  rfl

/-- A chain is its pieces, in front of whatever does not go on with its last number. -/
theorem tile_chainChars (n : Nat) {c : Char} (cs : List Char) (hdigit : isDigit c = false)
    (hpoint : c ≠ '.') :
    tile (chainChars n ++ c :: cs) =
      { pieces := chainPieces n ++ (tile (c :: cs)).pieces, stuck := (tile (c :: cs)).stuck } := by
  induction n generalizing c cs with
  | zero => exact tile_of_next (next_one cs hdigit hpoint)
  | succ n ih =>
      have hplus : Piece.next '+' ('1' :: c :: cs) = some (.mark .plus ['+'], '1' :: c :: cs) := rfl
      rw [chainChars, List.append_assoc]
      change tile (chainChars n ++ '+' :: '1' :: c :: cs) = _
      rw [ih ('1' :: c :: cs) rfl (by decide), tile_of_next hplus,
        tile_of_next (next_one cs hdigit hpoint)]
      simp [chainPieces]

/-! ### The tokens and the tree -/

/-- A token of a chain. All of them are on the first line. -/
def oneToken : Token :=
  { kind := .number, lexeme := .str "1", line := .int 1, literal := .num (Number.ofPointed ['1'] []) }

@[inherit_doc oneToken]
def plusToken : Token :=
  { kind := .plus, lexeme := .str "+", line := .int 1 }

@[inherit_doc oneToken]
def semicolonToken : Token :=
  { kind := .semicolon, lexeme := .str ";", line := .int 1 }

/-- The tokens of a chain. -/
def chainTokens : Nat → List Token
  | 0 => [oneToken]
  | n + 1 => chainTokens n ++ [plusToken, oneToken]

/-- The tree of a chain. -/
def chain : Nat → Expr
  | 0 => .literal oneToken.literal
  | n + 1 => .binary (chain n) plusToken (.literal oneToken.literal)

theorem tokensFrom_chainPieces (n : Nat) (pieces : List Piece) :
    tokensFrom 1 (chainPieces n ++ pieces) = chainTokens n ++ tokensFrom 1 pieces := by
  induction n generalizing pieces with
  | zero => rfl
  | succ n ih =>
      rw [chainPieces, List.append_assoc, ih, chainTokens, List.append_assoc]
      rfl

/-- A chain is derived, each operator taking the chain in front of it for its left operand. -/
theorem derives_chain (n : Nat) : Derives (.expr .term (chain n)) (chainTokens n) := by
  have hone : Derives (.expr .primary (.literal oneToken.literal)) [oneToken] := .literal (.inl rfl)
  induction n with
  | zero => exact Grammar.derives_of_index_le hone (by decide)
  | succ n ih =>
      have hplus : plusToken.kind ∈ Rung.term.operators := by decide
      have hright : Derives (.expr .factor (.literal oneToken.literal)) [oneToken] :=
        Grammar.derives_of_index_le hone (by decide)
      exact .operator ih hplus hright

theorem levels_chain (n : Nat) : (chain n).levels = 1 := by
  induction n with
  | zero => rfl
  | succ n ih => simp [chain, Expr.levels, ih]

theorem height_chain (n : Nat) : (chain n).height = n + 1 := by
  induction n with
  | zero => rfl
  | succ n ih => simp [chain, Expr.height, ih]

/-- The program that a chain is. -/
def chainProgram (n : Nat) : List Stmt := [.expr (chain n)]

theorem heightOfAll_chainProgram (n : Nat) : heightOfAll (chainProgram n) = n + 2 := by
  simp [chainProgram, heightOfAll, Stmt.height, height_chain]

/-- **A chain of any length loads.** -/
theorem programOf_chainSource {limit : Nat} (h : 3 ≤ limit) (n : Nat) :
    programOf limit (chainSource n) = .ok { program := chainProgram n, recovered := none } := by
  have htile : tile (chainSource n).toList =
      { pieces := chainPieces n ++ [.mark .semicolon [';']], stuck := none } := by
    have hsemicolon : Piece.next ';' [] = some (.mark .semicolon [';'], []) := rfl
    rw [chainSource, String.toList_ofList, tile_chainChars n [] rfl (by decide),
      tile_of_next hsemicolon, tile_nil]
  have hscan : scan (chainSource n) = .ok {
      tokens := chainTokens n ++ [semicolonToken] ++ [endToken 1], recovered := none } := by
    simp only [scan, scanChars, htile, tokensFrom_chainPieces, List.getLast?_concat]
    rw [List.append_assoc]
    rfl
  have hexpr : Derives (.expr .assignment (chain n)) (chainTokens n) :=
    Grammar.derives_of_index_le (derives_chain n) (by decide)
  have hstmt : Derives (.decl (.expr (chain n))) (chainTokens n ++ [semicolonToken]) :=
    .stmtDecl (.exprStmt hexpr rfl)
  have hprogram : Derives (.decls (chainProgram n)) (chainTokens n ++ [semicolonToken]) := by
    simpa [chainProgram] using hstmt.cons .nil
  have hlevels : levelsOfAll (chainProgram n) ≤ limit := by
    simpa [chainProgram, levelsOfAll, Stmt.levels, levels_chain] using h
  have hparse : Parse.parse limit (chainTokens n ++ [semicolonToken] ++ [endToken 1]) =
      .ok (chainProgram n) :=
    Parse.parse_of_derives [] hprogram rfl hlevels
  simp only [programOf, hscan, hparse]

/-! ### The run -/

/-- A chain with as many operators as there are levels cannot be evaluated. -/
theorem eval_chain (config : Config) {levels n : Nat} (h : levels ≤ n) (s : State) :
    eval config levels (chain n) s = .failed .tooDeep s := by
  induction levels generalizing n with
  | zero => rfl
  | succ levels ih =>
      cases n with
      | zero => cases h
      | succ n => rw [chain, eval, ih (Nat.le_of_succ_le_succ h), Result.andThen_failed]

/-- **A chain with as many operators as there are levels fails by its nesting.** -/
theorem interpret_chain {config : Config} {n : Nat} (h : config.limit ≤ n) (fuel : Nat)
    (s : State) :
    ∃ t, interpret config (fuel + 1) (chainProgram n) s = .failed .statementTooDeep t := by
  have hexec : exec config (fuel + 1) (.expr (chain n)) s =
      .failed .tooDeep (s.trace config (.execute "ExprStmt")) := by
    rw [exec_succ, effect, evaluate, eval_chain config h]
    rfl
  exact ⟨_, by rw [interpret, chainProgram, sequence_cons, hexec]; rfl⟩

end ScriptLang
