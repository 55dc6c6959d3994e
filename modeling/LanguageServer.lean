import LanguageServer.Decimal.Integer
import LanguageServer.Decimal.Shortest
import LanguageServer.Document.Basic
import LanguageServer.Document.Store
import LanguageServer.Frame.Error
import LanguageServer.Frame.Read
import LanguageServer.Frame.Write
import LanguageServer.Handler
import LanguageServer.Hover
import LanguageServer.Json.Decode
import LanguageServer.Json.Failure
import LanguageServer.Json.Mismatch
import LanguageServer.Json.Number
import LanguageServer.Json.Print
import LanguageServer.Json.Read
import LanguageServer.Json.Record
import LanguageServer.Json.Skip
import LanguageServer.Json.Text
import LanguageServer.Json.Value
import LanguageServer.Language
import LanguageServer.Launch.Directive
import LanguageServer.Launch.LogConfig
import LanguageServer.Launch.LogFilter
import LanguageServer.Launch.Options
import LanguageServer.Launch.Pattern.Basic
import LanguageServer.Launch.Pattern.Mode
import LanguageServer.Launch.Pattern.Read
import LanguageServer.Launch.Program
import LanguageServer.Launch.Threshold
import LanguageServer.Launch.Value
import LanguageServer.Log
import LanguageServer.Main
import LanguageServer.Message.Id
import LanguageServer.Message.Request
import LanguageServer.Message.Response
import LanguageServer.Params
import LanguageServer.Path
import LanguageServer.Proofs.Decimal.Integer
import LanguageServer.Proofs.Decimal.Notation
import LanguageServer.Proofs.Document.Batch
import LanguageServer.Proofs.Document.LineAccess
import LanguageServer.Proofs.Document.Lines
import LanguageServer.Proofs.Document.Names
import LanguageServer.Proofs.Document.Offsets
import LanguageServer.Proofs.Document.Positions
import LanguageServer.Proofs.Document.Reachable
import LanguageServer.Proofs.Document.Splice
import LanguageServer.Proofs.Document.Undo
import LanguageServer.Proofs.Frame.Grammar
import LanguageServer.Proofs.Frame.Header
import LanguageServer.Proofs.Frame.Local
import LanguageServer.Proofs.Frame.Stream
import LanguageServer.Proofs.Frame.Truncated
import LanguageServer.Proofs.Handler.Batch
import LanguageServer.Proofs.Handler.Effects
import LanguageServer.Proofs.Handler.Hover
import LanguageServer.Proofs.Handler.Independent
import LanguageServer.Proofs.Handler.Reachable
import LanguageServer.Proofs.Json.Decode
import LanguageServer.Proofs.Json.Denoted
import LanguageServer.Proofs.Json.Grammar
import LanguageServer.Proofs.Json.Lexical
import LanguageServer.Proofs.Json.Printable
import LanguageServer.Proofs.Json.Recorded
import LanguageServer.Proofs.Json.Scalar
import LanguageServer.Proofs.Json.Skipped
import LanguageServer.Proofs.Json.Value
import LanguageServer.Proofs.Json.Written
import LanguageServer.Proofs.Launch.Ending
import LanguageServer.Proofs.Launch.UniquePath
import LanguageServer.Proofs.Message.Envelope
import LanguageServer.Proofs.Message.Request
import LanguageServer.Proofs.Message.Response
import LanguageServer.Proofs.Script.Complete
import LanguageServer.Proofs.Script.Completed
import LanguageServer.Proofs.Script.Covers
import LanguageServer.Proofs.Script.Cursor
import LanguageServer.Proofs.Script.Cut
import LanguageServer.Proofs.Script.Depth
import LanguageServer.Proofs.Script.Descent
import LanguageServer.Proofs.Script.Exact
import LanguageServer.Proofs.Script.Extent
import LanguageServer.Proofs.Script.Grammar
import LanguageServer.Proofs.Script.Height
import LanguageServer.Proofs.Script.Innermost
import LanguageServer.Proofs.Script.Layout
import LanguageServer.Proofs.Script.Lexeme
import LanguageServer.Proofs.Script.LineTokens
import LanguageServer.Proofs.Script.Linewise
import LanguageServer.Proofs.Script.Lookahead
import LanguageServer.Proofs.Script.Machine
import LanguageServer.Proofs.Script.Narrowest
import LanguageServer.Proofs.Script.Offence
import LanguageServer.Proofs.Script.Readers
import LanguageServer.Proofs.Script.Render
import LanguageServer.Proofs.Script.Rounds
import LanguageServer.Proofs.Script.Runs
import LanguageServer.Proofs.Script.Sound
import LanguageServer.Proofs.Script.Spacing
import LanguageServer.Proofs.Script.Spelling
import LanguageServer.Proofs.Script.Strength
import LanguageServer.Proofs.Script.Tiling
import LanguageServer.Proofs.Script.Tree
import LanguageServer.Proofs.Script.Walk
import LanguageServer.Proofs.Session.Answer
import LanguageServer.Proofs.Session.Failing
import LanguageServer.Proofs.Session.Gate
import LanguageServer.Proofs.Session.Reply
import LanguageServer.Proofs.Session.Serve
import LanguageServer.Proofs.Session.Signal
import LanguageServer.Proofs.Session.Writing
import LanguageServer.Proofs.Text.Blank
import LanguageServer.Proofs.Text.Utf8
import LanguageServer.Reference.Builtin
import LanguageServer.Reference.Function
import LanguageServer.Script.Expr
import LanguageServer.Script.Operator
import LanguageServer.Script.Parse
import LanguageServer.Script.ParseError
import LanguageServer.Script.Span
import LanguageServer.Script.Token
import LanguageServer.Script.Tree
import LanguageServer.Session
import LanguageServer.Signal
import LanguageServer.Taken
import LanguageServer.Text.Blank
import LanguageServer.Text.Hex
import LanguageServer.Text.Hidden
import LanguageServer.Text.Letter
import LanguageServer.Text.Numeral
import LanguageServer.Text.Pieces
import LanguageServer.Text.Quoted
import LanguageServer.Text.Ranges
import LanguageServer.Text.Utf8
import LanguageServer.Uri
