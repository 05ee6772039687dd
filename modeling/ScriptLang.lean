import ScriptLang.Cli.Command
import ScriptLang.Cli.Files
import ScriptLang.Cli.Options
import ScriptLang.Diagnostic
import ScriptLang.Grammar.Lexer
import ScriptLang.Grammar.Machine
import ScriptLang.Json.Basic
import ScriptLang.Json.Printer
import ScriptLang.Json.Reader
import ScriptLang.Limits
import ScriptLang.Log
import ScriptLang.Main
import ScriptLang.Number.Binary
import ScriptLang.Number.Layout
import ScriptLang.Number.Shortest
import ScriptLang.Parse.Expression
import ScriptLang.Parse.Parser
import ScriptLang.Parse.Statement
import ScriptLang.Proofs.Cli.Course
import ScriptLang.Proofs.Cli.Files
import ScriptLang.Proofs.Cli.Options
import ScriptLang.Proofs.Cli.StoredRun
import ScriptLang.Proofs.Diagnostic.Line
import ScriptLang.Proofs.Diagnostic.OneLine
import ScriptLang.Proofs.Grammar.Accepts
import ScriptLang.Proofs.Grammar.Complete
import ScriptLang.Proofs.Grammar.Cut
import ScriptLang.Proofs.Grammar.Lexeme
import ScriptLang.Proofs.Grammar.Ordinary
import ScriptLang.Proofs.Grammar.Sound
import ScriptLang.Proofs.Json.Plain
import ScriptLang.Proofs.Number.Printed
import ScriptLang.Proofs.Number.Rounded
import ScriptLang.Proofs.Parse.Accepts
import ScriptLang.Proofs.Parse.Append
import ScriptLang.Proofs.Parse.Builds
import ScriptLang.Proofs.Parse.Complete
import ScriptLang.Proofs.Parse.Ends
import ScriptLang.Proofs.Parse.Lookahead
import ScriptLang.Proofs.Parse.Order
import ScriptLang.Proofs.Parse.Parentheses
import ScriptLang.Proofs.Parse.Progress
import ScriptLang.Proofs.Parse.Relabel
import ScriptLang.Proofs.Parse.Report
import ScriptLang.Proofs.Parse.Segments
import ScriptLang.Proofs.Parse.Sound
import ScriptLang.Proofs.Parse.Stumble
import ScriptLang.Proofs.Parse.Viable
import ScriptLang.Proofs.Phrase
import ScriptLang.Proofs.Run.BigStep
import ScriptLang.Proofs.Run.Bracketed
import ScriptLang.Proofs.Run.Brackets
import ScriptLang.Proofs.Run.Call
import ScriptLang.Proofs.Run.Chain
import ScriptLang.Proofs.Run.Depth
import ScriptLang.Proofs.Run.Fault
import ScriptLang.Proofs.Run.Journal
import ScriptLang.Proofs.Run.Later
import ScriptLang.Proofs.Run.Layout
import ScriptLang.Proofs.Run.Levels
import ScriptLang.Proofs.Run.Parentheses
import ScriptLang.Proofs.Run.Pieces
import ScriptLang.Proofs.Run.PrintedNumber
import ScriptLang.Proofs.Run.Realizes
import ScriptLang.Proofs.Run.Refines
import ScriptLang.Proofs.Run.Taxonomy
import ScriptLang.Proofs.Run.Transport
import ScriptLang.Proofs.Run.Underway
import ScriptLang.Proofs.Run.Values
import ScriptLang.Proofs.Scope.Enclosing
import ScriptLang.Proofs.Scope.Lexical
import ScriptLang.Proofs.Scope.Matches
import ScriptLang.Proofs.Scope.Restored
import ScriptLang.Proofs.Scope.Shared
import ScriptLang.Proofs.Scope.Unbound
import ScriptLang.Proofs.Scope.Watch
import ScriptLang.Proofs.Source.Line
import ScriptLang.Proofs.Source.Munch
import ScriptLang.Proofs.Source.Respaced
import ScriptLang.Proofs.Source.Seam
import ScriptLang.Proofs.Tree.Assembled
import ScriptLang.Proofs.Tree.Context
import ScriptLang.Proofs.Tree.Depth
import ScriptLang.Proofs.Tree.Form
import ScriptLang.Proofs.Tree.Relabel
import ScriptLang.Proofs.Tree.Reloaded
import ScriptLang.Proofs.Tree.Stored
import ScriptLang.Proofs.Tree.Unambiguous
import ScriptLang.Run.Eval
import ScriptLang.Run.Exec
import ScriptLang.Run.Failure
import ScriptLang.Run.Session
import ScriptLang.Run.State
import ScriptLang.Run.Trace
import ScriptLang.Scope.Forest
import ScriptLang.Scope.Name
import ScriptLang.Source.Piece
import ScriptLang.Source.Scan
import ScriptLang.Text.Blank
import ScriptLang.Text.Digit
import ScriptLang.Text.Printable
import ScriptLang.Text.Quoted
import ScriptLang.Token.Basic
import ScriptLang.Token.Stored
import ScriptLang.Tree.Basic
import ScriptLang.Tree.Document
import ScriptLang.Tree.Render
import ScriptLang.Value.Basic
import ScriptLang.Value.Operation
