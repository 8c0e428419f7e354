import FieldFilter.CommandLine.Report

/-!
# The interactive command

* `Dialogue.lines` — the lines of an input, up to the first that is no text;
* `Dialogue.settled` — a line after its backspaces have taken effect;
* `Dialogue.reply` — what is answered to one line;
* `Report.dialogue` — what is answered to all of them.
-/

namespace FieldFilter
namespace Dialogue

/-! ## Lines -/

/-- Bytes cut after every line feed, which is dropped; nothing follows the last. -/
def pieces : List UInt8 → List (List UInt8)
  | [] => []
  | b :: bs =>
    if b = 10 then [] :: pieces bs
    else
      match pieces bs with
      | [] => [[b]]
      | piece :: rest => (b :: piece) :: rest

/-- The texts of pieces, up to the first that is none. -/
def texts : List (List UInt8) → List (List Char)
  | [] => []
  | piece :: rest =>
    match String.fromUTF8? ⟨piece.toArray⟩ with
    -- a line that is no text ends the input
    | some text => text.toList :: texts rest
    | none => []

/-- The lines of an input, up to the first that is no text. -/
def lines (input : List UInt8) : List (List Char) :=
  texts (pieces input)

/-! ## Backspaces -/

/-- What has been typed of a line: its clusters, a character with those that extend it each, the
last first and each backwards; and whether an extending character would join the last. -/
structure TypedLine where
  clusters : List (List Char) := []
  joins : Bool := false
  deriving DecidableEq, Repr

/-- The backspace character. -/
def backspace : Char := '\x08'

/-- What has been typed after one more character: a backspace takes the last cluster away. -/
def TypedLine.after (typed : TypedLine) (c : Char) : TypedLine :=
  if c = backspace then { clusters := typed.clusters.tail }
  else
    match typed.joins && Text.isExtending c, typed.clusters with
    | true, cluster :: rest => { clusters := (c :: cluster) :: rest, joins := true }
    -- nothing joins a control character
    | _, clusters => { clusters := [c] :: clusters, joins := !StringLiteral.isControl c }

/-- The text of what has been typed. -/
def TypedLine.text (typed : TypedLine) : List Char :=
  typed.clusters.flatten.reverse

/-- A line without its backspaces and what they take away. -/
def settled (text : List Char) : List Char :=
  (text.foldl TypedLine.after {}).text

theorem TypedLine.text_after {c : Char} (typed : TypedLine) (h : c ≠ backspace) :
    (typed.after c).text = typed.text ++ [c] := by
  unfold TypedLine.after
  rw [if_neg h]
  split
  · rename_i hclusters
    simp [TypedLine.text, hclusters]
  · simp [TypedLine.text]

theorem TypedLine.text_foldl_after {cs : List Char} (typed : TypedLine) (h : backspace ∉ cs) :
    (cs.foldl after typed).text = typed.text ++ cs := by
  induction cs generalizing typed with
  | nil => simp
  | cons c cs ih =>
      have hc : c ≠ backspace := fun hc => h (hc ▸ List.mem_cons_self)
      have hcs : backspace ∉ cs := fun hcs => h (List.mem_cons_of_mem c hcs)
      rw [List.foldl_cons, ih (typed.after c) hcs, text_after typed hc]
      simp

theorem settled_eq_self {text : List Char} (h : backspace ∉ text) : settled text = text := by
  have hempty : ({} : TypedLine).text = [] := rfl
  rw [settled, TypedLine.text_foldl_after {} h, hempty, List.nil_append]

/-! ## Replies -/

/-- What a line is answered with; no answer means the end. -/
inductive Reply where
  | quit
  | answer (output : List Char) (diagnostics : List (List Char))
  deriving DecidableEq, Repr

/-- What is printed before the first line. -/
def greeting : List Char :=
  line "FilterQL REPL v0.1.0".toList ++
    line "Type a query to parse it, :help for help, :quit to exit".toList ++ line []

/-- What is printed after the last line. -/
def farewell : List Char :=
  line "Goodbye!".toList

/-- The commands of the dialogue. -/
def help : List Char :=
  line "Commands:".toList ++
    line "  <query>          - Parse and show the AST".toList ++
    line "  :tokens <query>  - Show the token stream".toList ++
    line "  :quit            - Exit REPL".toList

/-- What starts a request for a token listing. -/
def tokensCommand : List Char :=
  ":tokens ".toList

/-- The reply to a query: its canonical text and its document. -/
def query (limits : Limits) (source : List Char) : Reply :=
  match limits.checkLength source with
  | some message => .answer [] [message]
  | none =>
    match limits.parse source with
    | .ok e => .answer (line e.text ++ line e.toJson.pretty) []
    | .error failure => .answer [] [failure.diagnostic]

/-- The reply to a request for a token listing, which is indented. -/
def tokens (source : List Char) : Reply :=
  let stream := TokenStream.ofText source
  .answer (stream.tokens.flatMap fun token => [' ', ' '] ++ token.listing source)
    (stream.error.toList.map fun error => (Failure.lexical error).diagnostic)

/-- The reply to a line without blanks at its ends. -/
def replyTo (limits : Limits) (text : List Char) : Reply :=
  -- no query starts with a colon
  if text.head? = some ':' then
    if text = ":quit".toList ∨ text = ":q".toList then .quit
    else if text = ":help".toList ∨ text = ":h".toList then .answer help []
    else if tokensCommand.isPrefixOf text then
      tokens (Text.trim (text.drop tokensCommand.length))
    else .answer (line "Unknown command. Type :help for help.".toList) []
  else if text.isEmpty then .answer [] []
  else query limits text

/-- The reply to a line as it was typed. -/
def reply (limits : Limits) (line : List Char) : Reply :=
  replyTo limits (Text.trim (settled line))

/-- What is answered to lines, up to the one that ends the dialogue. -/
def replies (limits : Limits) : List (List Char) → Report
  | [] => {}
  | text :: rest =>
    match reply limits text with
    | .quit => {}
    | .answer output diagnostics =>
      let later := replies limits rest
      { later with
        output := output ++ later.output
        diagnostics := diagnostics ++ later.diagnostics }

end Dialogue

/-- What the interactive command answers to the lines of its input. -/
def Report.dialogue (limits : Limits) (lines : List (List Char)) : Report :=
  let replies := Dialogue.replies limits lines
  { replies with output := Dialogue.greeting ++ replies.output ++ Dialogue.farewell }

end FieldFilter
