import FieldFilter.CommandLine.Run

/-!
# The program

* `main` — reads arguments and standard input, prints the report, ends with its status.
-/

namespace FieldFilter

/-- Everything that is left in a stream, after what has been read already. -/
partial def readRest (stream : IO.FS.Stream) (already : ByteArray) : IO ByteArray := do
  let chunk ← stream.read 65536
  if chunk.isEmpty then return already else readRest stream (already ++ chunk)

/-- Whether an invocation looks at standard input. -/
def Command.readsInput : Command → Bool
  | .parse query _ | .tokens query => query.isNone
  | .interactive => true
  | .check _ | .complete _ _ => false

/-- Prints what the arguments answer and gives the status of the answer. -/
def serveArguments (arguments : List String) : IO UInt32 := do
  let wanted := (Invocation.ofArguments? arguments).any fun invocation =>
    invocation.command.readsInput
  let input ← if wanted then readRest (← IO.getStdin) .empty else pure .empty
  let report := Report.ofArguments input arguments
  IO.print (String.ofList report.output)
  for diagnostic in report.diagnostics do
    IO.eprintln (String.ofList diagnostic)
  if report.status = 2 then
    IO.eprintln "usage: [OPTIONS] <parse|tokens|check|complete|repl> [ARGUMENTS]"
  return report.status.toUInt32

end FieldFilter

/-- The program. -/
def main (arguments : List String) : IO UInt32 :=
  FieldFilter.serveArguments arguments
