import FieldFilter.CommandLine.Dialogue

/-!
# Running an invocation

* `Report.run` — what an invocation answers, given standard input;
* `Report.ofArguments` — what arguments answer.
-/

namespace FieldFilter
namespace Report

/-- What is answered to a query that is given, or else read from standard input.  The query is held
to the bound on length. -/
def onQuery (limits : Limits) (input : ByteArray) (query : Option String)
    (answer : List Char → Report) : Report :=
  let bounded (source : List Char) : Report :=
    match limits.checkLength source with
    | some message => failed message
    | none => answer source
  match query with
  | some source => bounded source.toList
  | none =>
    match String.fromUTF8? input with
    | some source => bounded source.toList
    | none => failed "Error reading stdin: stream did not contain valid UTF-8".toList

/-- What an invocation answers, given standard input. -/
def run (input : ByteArray) (invocation : Invocation) : Report :=
  let limits := invocation.limits
  match invocation.command with
  | .parse query pretty => onQuery limits input query (parse limits pretty)
  | .tokens query => onQuery limits input query tokens
  | .check queries => check limits (queries.map String.toList)
  | .complete query cursor => complete cursor query.toList
  | .interactive => dialogue limits (Dialogue.lines input.toList)

/-- The report on arguments that spell no invocation. -/
def misused : Report :=
  { status := 2 }

/-- What arguments answer, given standard input. -/
def ofArguments (input : ByteArray) (arguments : List String) : Report :=
  match Invocation.ofArguments? arguments with
  | some invocation => run input invocation
  | none => misused

end Report
end FieldFilter
