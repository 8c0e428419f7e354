import FieldFilter.Breach
import FieldFilter.CommandLine.Arguments
import FieldFilter.CommandLine.Dialogue
import FieldFilter.CommandLine.Report
import FieldFilter.CommandLine.Run
import FieldFilter.Completion
import FieldFilter.Decimal.Binary
import FieldFilter.Decimal.Integer
import FieldFilter.Decimal.Notation
import FieldFilter.Decimal.Numeral
import FieldFilter.Decimal.Shortest
import FieldFilter.Expr
import FieldFilter.Expr.Printer
import FieldFilter.FieldPath
import FieldFilter.Interchange
import FieldFilter.Json
import FieldFilter.Json.Number
import FieldFilter.Json.Reading
import FieldFilter.Literal
import FieldFilter.Main
import FieldFilter.Operator
import FieldFilter.Proofs.Completion.Scopes
import FieldFilter.Proofs.Documents.Filters
import FieldFilter.Proofs.Documents.Yields
import FieldFilter.Proofs.Grammar
import FieldFilter.Proofs.Lexing.Agreement
import FieldFilter.Proofs.Lexing.Cuts
import FieldFilter.Proofs.Lexing.Faults
import FieldFilter.Proofs.Lexing.LegalBodies
import FieldFilter.Proofs.Lexing.Lexes
import FieldFilter.Proofs.Lexing.NumeralPatterns
import FieldFilter.Proofs.Lexing.Numerals
import FieldFilter.Proofs.Lexing.Patterns
import FieldFilter.Proofs.Lexing.Spans
import FieldFilter.Proofs.Lexing.Spellings
import FieldFilter.Proofs.Lexing.StringBodies
import FieldFilter.Proofs.Lexing.StringLiterals
import FieldFilter.Proofs.Lexing.TokenStarts
import FieldFilter.Proofs.Printing.FewestGroups
import FieldFilter.Proofs.Printing.Groups
import FieldFilter.Proofs.Printing.Pieces
import FieldFilter.Proofs.Reading.Balance
import FieldFilter.Proofs.Reading.Beginnings
import FieldFilter.Proofs.Reading.Completeness
import FieldFilter.Proofs.Reading.Descent
import FieldFilter.Proofs.Reading.Following
import FieldFilter.Proofs.Reading.Laziness
import FieldFilter.Proofs.Reading.Leaks
import FieldFilter.Proofs.Reading.Moves
import FieldFilter.Proofs.Reading.Nesting
import FieldFilter.Proofs.Reading.OnDemand
import FieldFilter.Proofs.Reading.Progress
import FieldFilter.Proofs.Reading.Sessions
import FieldFilter.Proofs.Reading.Viability
import FieldFilter.Proofs.RoundTrip
import FieldFilter.Query
import FieldFilter.Query.Failure
import FieldFilter.Query.Reading
import FieldFilter.Source
import FieldFilter.StringLiteral
import FieldFilter.Text.Blank
import FieldFilter.Text.Bytes
import FieldFilter.Text.Extending
import FieldFilter.Text.Ignorable
import FieldFilter.Text.Printed
import FieldFilter.Text.Shown
import FieldFilter.Token
import FieldFilter.Token.Lexeme
import FieldFilter.Token.Stream
import FieldFilter.Proofs.Lexing.Slices
import FieldFilter.Proofs.Lexing.Positions
import FieldFilter.Proofs.Lexing.Scanner
import FieldFilter.Proofs.Lexing.Tiling
import FieldFilter.Proofs.Completion.Indices
import FieldFilter.Proofs.Reading.Locations
import FieldFilter.Proofs.Reading.Depth
import FieldFilter.Proofs.Safety
import FieldFilter.Proofs.Documents.Restores
import FieldFilter.Proofs.Documents.RoundTrip
import FieldFilter.Proofs.Lexing.Concatenation
import FieldFilter.Proofs.Reading.Caps
import FieldFilter.Proofs.Composition
import FieldFilter.Proofs.Comparisons
import FieldFilter.Proofs.Lexing.LongestMatch
import FieldFilter.Proofs.Printing.Literals
import FieldFilter.Proofs.Paths
import FieldFilter.Proofs.Completion.Paths
import FieldFilter.Proofs.Lexing.Endings
import FieldFilter.Proofs.Completion.Comparators
import FieldFilter.Proofs.Completion.DottedPaths
import FieldFilter.Proofs.Completion.Parentheses
import FieldFilter.Proofs.Reading.NestedCalls
import FieldFilter.Proofs.Reading.Mismatches
import FieldFilter.Proofs.Completion.Prefixes
import FieldFilter.Proofs.CommandLine.Listings
import FieldFilter.Proofs.PathRuns
