import QueryEditor.CommandLine.Arguments
import QueryEditor.CommandLine.Run
import QueryEditor.Console.Noise
import QueryEditor.Console.Prompt
import QueryEditor.Console.Request
import QueryEditor.Console.Response
import QueryEditor.Console.Splitter
import QueryEditor.Data.Body
import QueryEditor.Data.Config
import QueryEditor.Data.Database
import QueryEditor.Data.Table
import QueryEditor.Display.Color
import QueryEditor.Display.Fold
import QueryEditor.Display.Highlight
import QueryEditor.Display.Mount
import QueryEditor.Display.Page
import QueryEditor.Display.Slot
import QueryEditor.Display.Theme
import QueryEditor.Display.View
import QueryEditor.Edit.Change
import QueryEditor.Edit.Document
import QueryEditor.Edit.Live
import QueryEditor.Edit.Selection
import QueryEditor.Interpreter.Client
import QueryEditor.Interpreter.Failure
import QueryEditor.Interpreter.Host
import QueryEditor.Interpreter.Machine
import QueryEditor.Interpreter.Session
import QueryEditor.Json.Number
import QueryEditor.Json.Quoted
import QueryEditor.Json.Reader
import QueryEditor.Json.Value
import QueryEditor.Language.Completion
import QueryEditor.Language.Mode
import QueryEditor.Language.Punctuation
import QueryEditor.Language.Token
import QueryEditor.Language.Vocabulary
import QueryEditor.Main
import QueryEditor.Number.Decimal
import QueryEditor.Number.Round
import QueryEditor.Number.Total
import QueryEditor.Proofs.CommandLine.Asked
import QueryEditor.Proofs.Console.Cleaned
import QueryEditor.Proofs.Console.Deleted
import QueryEditor.Proofs.Console.Echoes
import QueryEditor.Proofs.Console.Lines
import QueryEditor.Proofs.Console.Lossless
import QueryEditor.Proofs.Console.Painted
import QueryEditor.Proofs.Console.Prompts
import QueryEditor.Proofs.Console.Reading
import QueryEditor.Proofs.Console.Repeated
import QueryEditor.Proofs.Console.Requests
import QueryEditor.Proofs.Console.Screens
import QueryEditor.Proofs.Console.Silent
import QueryEditor.Proofs.Console.Transcripts
import QueryEditor.Proofs.Data.Bodies
import QueryEditor.Proofs.Data.Canonical
import QueryEditor.Proofs.Data.Identifiers
import QueryEditor.Proofs.Data.Listing
import QueryEditor.Proofs.Data.Printed
import QueryEditor.Proofs.Edit.Apart
import QueryEditor.Proofs.Edit.Positions
import QueryEditor.Proofs.Fold.Blocks
import QueryEditor.Proofs.Fold.Foldable
import QueryEditor.Proofs.Fold.Order
import QueryEditor.Proofs.Fold.Ranges
import QueryEditor.Proofs.Fold.Rows
import QueryEditor.Proofs.Fold.Toggled
import QueryEditor.Proofs.Fold.Whole
import QueryEditor.Proofs.Interpreter.Acts
import QueryEditor.Proofs.Interpreter.Alignment
import QueryEditor.Proofs.Interpreter.Answered
import QueryEditor.Proofs.Interpreter.Calls
import QueryEditor.Proofs.Interpreter.Hearing
import QueryEditor.Proofs.Interpreter.Leftovers
import QueryEditor.Proofs.Interpreter.Loads
import QueryEditor.Proofs.Interpreter.Modes
import QueryEditor.Proofs.Interpreter.Outgoing
import QueryEditor.Proofs.Interpreter.Replies
import QueryEditor.Proofs.Interpreter.Settled
import QueryEditor.Proofs.Interpreter.Tables
import QueryEditor.Proofs.Json.Accepted
import QueryEditor.Proofs.Json.Denoted
import QueryEditor.Proofs.Json.Grammar
import QueryEditor.Proofs.Json.Tokens
import QueryEditor.Proofs.Json.Values
import QueryEditor.Proofs.Language.Isolated
import QueryEditor.Proofs.Language.Lexemes
import QueryEditor.Proofs.Language.Offers
import QueryEditor.Proofs.Language.Words
import QueryEditor.Proofs.Line.Joined
import QueryEditor.Proofs.Line.Normalized
import QueryEditor.Proofs.Line.Places
import QueryEditor.Proofs.Line.Replaced
import QueryEditor.Proofs.Line.Spans
import QueryEditor.Proofs.Live.Accounts
import QueryEditor.Proofs.Live.Exchange
import QueryEditor.Proofs.Live.Selected
import QueryEditor.Proofs.Live.Touched
import QueryEditor.Proofs.Text.Normalized
import QueryEditor.Proofs.Text.Runs
import QueryEditor.Proofs.Text.Trimmed
import QueryEditor.Proofs.Utf8.Encoded
import QueryEditor.Proofs.View.Attended
import QueryEditor.Proofs.View.Colored
import QueryEditor.Proofs.View.Folds
import QueryEditor.Proofs.View.Highlights
import QueryEditor.Proofs.View.Host
import QueryEditor.Proofs.View.Page
import QueryEditor.Proofs.View.Renewed
import QueryEditor.Proofs.View.Step
import QueryEditor.Proofs.View.Tenures
import QueryEditor.Proofs.View.Undone
import QueryEditor.Text.Basic
import QueryEditor.Text.Line
import QueryEditor.Text.Tail
import QueryEditor.Text.Utf8
import QueryEditor.Toml.Document
import QueryEditor.Toml.Moment
import QueryEditor.Toml.Number
import QueryEditor.Toml.Quoted
import QueryEditor.Toml.Reader
import QueryEditor.Toml.Value
import QueryEditor.Unicode.Digit
import QueryEditor.Unicode.Ranges
import QueryEditor.Unicode.White
import QueryEditor.Unicode.Word
