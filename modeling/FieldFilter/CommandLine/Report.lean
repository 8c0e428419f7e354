import FieldFilter.Query
import FieldFilter.Interchange
import FieldFilter.CommandLine.Arguments

/-!
# What a command answers

* `Report` — what a command prints and the status it ends with;
* `Limits.checkLength`, `Limits.parse` — queries held to the bounds of an invocation;
* `Report.parse`, `Report.tokens`, `Report.check`, `Report.complete` — the single commands.
-/

namespace FieldFilter

/-- What a command prints, its diagnostics in order, and the status it ends with. -/
structure Report where
  output : List Char := []
  diagnostics : List (List Char) := []
  status : Nat := 0
  deriving DecidableEq, Repr

/-! ## Bounds -/

namespace Limits

/-- The refusal of a query that is too long. -/
def lengthMessage (limits : Limits) (source : List Char) : List Char :=
  "Query is ".toList ++ Nat.toDigits 10 (Text.byteLength source) ++
    " bytes, longer than the limit of ".toList ++ Nat.toDigits 10 limits.length ++
    " (see --max-len)".toList

/-- The refusal of a query, if it is too long. -/
def checkLength (limits : Limits) (source : List Char) : Option (List Char) :=
  if limits.length < Text.byteLength source then some (limits.lengthMessage source) else none

/-- The filter of a query under the bound on nesting. -/
def parse (limits : Limits) (source : List Char) : Except Failure Expr :=
  Query.parse limits.depth source

end Limits

/-! ## Pieces of output -/

/-- A text on a line of its own. -/
def line (text : List Char) : List Char :=
  text ++ ['\n']

/-- The diagnostic of a failure. -/
def Failure.diagnostic (failure : Failure) : List Char :=
  "Error: ".toList ++ failure.message

/-- One line of a token listing: position, kind and spelling. -/
def Token.listing (source : List Char) (token : Token) : List Char :=
  line (Nat.toDigits 10 token.position.line ++ [':'] ++ Nat.toDigits 10 token.position.column ++
    ['\t'] ++ token.kind.grammarName.toList ++ ['\t'] ++ token.spelling source)

namespace Report

/-- A report of nothing but a diagnostic. -/
def failed (diagnostic : List Char) : Report :=
  { diagnostics := [diagnostic], status := 1 }

/-! ## Commands -/

/-- Prints the filter of a query as a document. -/
def parse (limits : Limits) (pretty : Bool) (source : List Char) : Report :=
  match limits.parse source with
  | .ok e => { output := line (if pretty then e.toJson.pretty else e.toJson.compact) }
  | .error failure => failed failure.diagnostic

/-- Lists the tokens of a query, as far as there are any. -/
def tokens (source : List Char) : Report :=
  let stream := TokenStream.ofText source
  let output := stream.tokens.flatMap (Token.listing source)
  match stream.error with
  | none => { output }
  | some error => { output, diagnostics := [(Failure.lexical error).diagnostic], status := 1 }

/-- What a check says about one query: a line of output if it is accepted, else a diagnostic. -/
def verdict (limits : Limits) (source : List Char) : Except (List Char) (List Char) :=
  match limits.checkLength source with
  | some message => .error ("✗ ".toList ++ message)
  | none =>
    match limits.parse source with
    | .ok e => .ok (line ("✓ ".toList ++ e.text))
    | .error failure => .error failure.diagnostic

/-- Checks queries one after the other. -/
def check (limits : Limits) : List (List Char) → Report
  | [] => {}
  | source :: sources =>
    let rest := check limits sources
    match verdict limits source with
    | .ok output => { rest with output := output ++ rest.output }
    | .error diagnostic => { rest with diagnostics := diagnostic :: rest.diagnostics, status := 1 }

/-- Prints the completion at an offset, by default the end of the query, as a document. -/
def complete (cursor : Option Nat) (source : List Char) : Report :=
  let cursor := cursor.getD (Text.byteLength source)
  { output := line (Completion.atOffset source cursor).toJson.compact }

end Report

end FieldFilter
