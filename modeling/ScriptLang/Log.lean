/-!
# The log

Messages for the user, coloured by how serious they are. Those below the log's threshold are
dropped.

## Main Definitions

* `Severity`: how serious a message is.
* `Log.write`: the text that a message adds to the log.
-/

namespace ScriptLang

/-- How serious a message is. -/
inductive Severity where
  | debug
  | warning
  | error
deriving Repr, DecidableEq, Inhabited

namespace Severity

/-- Severities as numbers, the least serious first. -/
def rank : Severity → Nat
  | debug => 0
  | warning => 1
  | error => 2

/-- The severity of a given name. -/
def ofName? (name : String) : Option Severity :=
  if name = "DEBUG" then some debug
  else if name = "WARNING" then some warning
  else if name = "ERROR" then some error
  else none

/-- The codes that switch a terminal to the colour of a severity. -/
def paint : Severity → String
  | debug => "\x1b[2m\x1b[97m"
  | warning => "\x1b[35m"
  | error => "\x1b[31m"

end Severity

/-- A log that drops what is less serious than its threshold. -/
structure Log where
  threshold : Severity := .warning

namespace Log

/-- The code that switches a terminal back. -/
def plain : String := "\x1b[0m"

/-- The text that a message adds to the log. -/
def write (log : Log) (severity : Severity) (message : String) : String :=
  if log.threshold.rank ≤ severity.rank then severity.paint ++ message ++ plain ++ "\n" else ""

end Log

end ScriptLang
