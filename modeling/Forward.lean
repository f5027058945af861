import Forward.Cursor
import Forward.Span
import Forward.Captures
import Forward.Occurrence
import Forward.Repetition
import Forward.Table
import Forward.Message
import Forward.Trace
import Forward.Attempt
import Forward.Matcher
import Forward.Matcher.Bound
import Forward.Lexer
import Forward.Text.CodePoints
import Forward.Text.Alphabetic
import Forward.Text.Numeric
import Forward.Text.Unprintable
import Forward.Text.Extending
import Forward.Text.Ignorable
import Forward.Text.Quoted
import Forward.Text.Characters
import Forward.Pattern.Record
import Forward.Pattern.Token
import Forward.Pattern.Error
import Forward.Pattern.Records
import Forward.Pattern.Syntax
import Forward.Pattern.Printer
import Forward.Pattern.Tokens
import Forward.Pattern.Grammar
import Forward.Pattern.Matching
import Forward.Pattern.Recognizer
import Forward.Dynamic.Alphabet
import Forward.Dynamic.Value
import Forward.Dynamic.Matcher
import Forward.CommandLine
import Forward.Main
import Forward.Proofs.Laws
import Forward.Proofs.Yields
import Forward.Proofs.Moves
import Forward.Proofs.Progress
import Forward.Proofs.Events
import Forward.Proofs.Reach
import Forward.Proofs.Likeness
import Forward.Proofs.Locality
import Forward.Proofs.Logs
import Forward.Proofs.History
import Forward.Proofs.Atomic
import Forward.Proofs.Replay
import Forward.Proofs.Interference
import Forward.Proofs.Sessions
import Forward.Proofs.Course
import Forward.Proofs.Pattern.Derivation
import Forward.Proofs.Pattern.Reading
import Forward.Proofs.Pattern.Parsing
import Forward.Proofs.Pattern.Rejection
import Forward.Proofs.Pattern.Meaning
import Forward.Proofs.Pattern.Terminator
import Forward.Proofs.Pattern.Lexing
import Forward.Proofs.Pattern.Reread
import Forward.Proofs.Pattern.RoundTrip
import Forward.Proofs.Pattern.Language
import Forward.Proofs.Pattern.Rounds
import Forward.Proofs.Pattern.Canonical
import Forward.Proofs.Pattern.Nullability
import Forward.Proofs.Pattern.Cutting
import Forward.Proofs.Pattern.Blanks
import Forward.Proofs.Pattern.Quantifiers
import Forward.Proofs.Pattern.Exactness
import Forward.Proofs.Pattern.Reprinting
import Forward.Proofs.Pattern.RecordStrings
import Forward.Proofs.Pattern.Tiling
import Forward.Proofs.Pattern.Resting
import Forward.Proofs.Spans
import Forward.Proofs.Sweeps
import Forward.Proofs.Literals
import Forward.Proofs.Brackets
import Forward.Proofs.Agreement
import Forward.Proofs.Depth
import Forward.Proofs.Pattern.Recursion
