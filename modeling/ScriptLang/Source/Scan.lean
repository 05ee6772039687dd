import ScriptLang.Diagnostic
import ScriptLang.Source.Piece

/-!
# Scanning

The tokens of a source: the lexemes among its pieces in their order, each with the line on which it
ends, and one token for the end of the input.

## Main Definitions

* `Piece.token?`: the token of a piece, for the pieces that are lexemes.
* `tokensFrom`: the tokens of a row of pieces.
* `ScanError`: what a scan reports.
* `scan`: the tokens of a source, and a string or comment left open at its end.

## Design Notes

A string or a comment that is never closed is reported and skipped; since it reaches to the end of
the source, there is at most one. A character with which no piece begins makes the scan fail.
-/

namespace ScriptLang

/-- How many newlines a piece of text holds. -/
def newlines (chars : List Char) : Nat :=
  chars.count '\n'

/-- The token of a piece that ends on `line`. Blanks and comments have none, nor has what is left
open at the end. -/
def Piece.token? (line : Nat) (piece : Piece) : Option Token :=
  let token (kind : TokenKind) (literal : Json) : Token :=
    { kind, lexeme := .str (String.ofList piece.chars), line := .int line, literal }
  match piece with
  | mark kind _ => some (token kind .null)
  | word chars => some (token (.ofWord chars) .null)
  | number whole fraction => some (token .number (.num (Number.ofPointed whole fraction)))
  | string body => some (token .string (.str (String.ofList body)))
  | _ => none

/-- The token for the end of the input. -/
def endToken (line : Nat) : Token :=
  { kind := .endOfInput, lexeme := .str "", line := .int line }

/-- The tokens of pieces that begin on `line`, and the token for the end after them. -/
def tokensFrom (line : Nat) : List Piece → List Token
  | [] => [endToken line]
  | piece :: pieces =>
    let line := line + newlines piece.chars
    (piece.token? line).toList ++ tokensFrom line pieces

@[simp] theorem tokensFrom_nil (line : Nat) : tokensFrom line [] = [endToken line] := rfl

@[simp] theorem tokensFrom_cons (line : Nat) (piece : Piece) (pieces : List Piece) :
    tokensFrom line (piece :: pieces) =
      (piece.token? (line + newlines piece.chars)).toList ++
        tokensFrom (line + newlines piece.chars) pieces := rfl

/-! ### Errors -/

/-- What can be wrong with the characters of a source. -/
inductive ScanFault where
  | unidentified (c : Char)
  | unterminatedString
  | unterminatedComment
deriving Repr, DecidableEq

/-- The message for a fault. -/
def ScanFault.message : ScanFault → String
  | unidentified c => "Unidentified character '" ++ String.ofList [c] ++ "'"
  | unterminatedString => "Unterminated string"
  | unterminatedComment => "Unterminated block comment"

/-- A fault and the line it is on. -/
structure ScanError where
  fault : ScanFault
  line : Nat
deriving Repr, DecidableEq

/-- The report of a fault. -/
def ScanError.diagnostic (e : ScanError) : Diagnostic :=
  { stage := .scan, message := e.fault.message, line := .int e.line }

/-- The fault of a piece that is left open at the end of the source. -/
def Piece.openFault? : Piece → Option ScanFault
  | openString _ => some .unterminatedString
  | openComment _ => some .unterminatedComment
  | _ => none

/-! ### Sources -/

/-- The tokens of a source, and what it leaves open. -/
structure Scan where
  tokens : List Token
  recovered : Option ScanError

/-- The line on which pieces end that begin on the first line. -/
def lastLine (pieces : List Piece) : Nat :=
  1 + newlines (pieces.flatMap Piece.chars)

/-- Scans a list of characters. -/
def scanChars (source : List Char) : Except ScanError Scan :=
  let tiling := tile source
  let line := lastLine tiling.pieces
  match tiling.stuck with
  | some c => .error { fault := .unidentified c, line }
  | none =>
    .ok {
      tokens := tokensFrom 1 tiling.pieces
      recovered := (tiling.pieces.getLast?.bind Piece.openFault?).map ({ fault := ·, line }) }

/-- Scans a source. -/
def scan (source : String) : Except ScanError Scan :=
  scanChars source.toList

end ScriptLang
