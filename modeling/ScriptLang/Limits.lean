/-!
# Limits

The bounds that the stages work within. Every stage takes the bounds that it needs as an argument,
so that what it does can be described for any of them.
-/

namespace ScriptLang

/-- The bounds that the stages work within. -/
structure Limits where
  /-- How deeply anything may be nested. -/
  nesting : Nat
  /-- How many digits a whole number in a document may have. -/
  digits : Nat
deriving Repr, DecidableEq

/-- The bounds that the command works within. -/
def Limits.standard : Limits :=
  { nesting := 1000, digits := 4300 }

end ScriptLang
