import FieldFilter.Token.Stream
import FieldFilter.Text.Blank

/-!
# Completing a half-typed query

* `Scope`, `Completion` — what could be typed at a cursor;
* `Completion.atOffset` — the completion at a byte offset of a text.

Only the text before the cursor counts.  A token that reaches the cursor may be incomplete, so it is
what is being typed; everything before it is finished.
-/

namespace FieldFilter

/-! ## Results -/

/-- What could be typed at a cursor. -/
inductive Scope where
  /-- a field, perhaps the next segment of a path -/
  | field
  /-- a comparator after a complete path -/
  | comparison
  /-- a literal after a comparator -/
  | value
  /-- a connective after a complete comparison -/
  | logical
  deriving DecidableEq, Repr

/-- The name of a scope. -/
def Scope.name : Scope → String
  | .field => "field"
  | .comparison => "comparison"
  | .value => "value"
  | .logical => "logical"

/-- What could be typed at a cursor: the text that is being typed, the scope if anything sensible
can follow, and the path before it — the finished segments of a field, or the field that a
comparison is about. -/
structure Completion where
  typed : List Char
  scope : Option Scope
  path : Option FieldPath
  deriving DecidableEq, Repr

namespace Completion

/-! ## Runs of names and dots -/

/-- The tokens of a path that ends with `later`, going back over tokens that are given last first:
names and dots alternate without a gap.  The answer is in reading order and ends with `later`. -/
def runBefore (later : Token) : List Token → List Token
  | [] => [later]
  | token :: tokens =>
    let alternates :=
      if later.kind = .dot then token.kind = .name else token.kind = .dot
    if token.span.stop = later.span.start ∧ alternates then
      runBefore token tokens ++ [later]
    else
      [later]

/-- The tokens of the path that ends a list of tokens, which is given last first: names and dots in
turn without a gap, a name first, perhaps a dot last. -/
def pathRun : List Token → List Token
  | [] => []
  | token :: tokens =>
    if token.kind = .name ∨ token.kind = .dot then
      (runBefore token tokens).dropWhile fun token => token.kind = .dot
    else
      []

/-- The path whose last name ends a list of tokens, which is given last first. -/
def pathEnding (tokens : List Token) : Option FieldPath :=
  match tokens with
  | token :: _ =>
    if token.kind = .name then
      let names := (pathRun tokens).filter fun token => token.kind = .name
      (FieldPath.ofWords (names.map Token.valueText)).toOption
    else
      none
  | [] => none

/-- The text before and after the last dot, if there is one. -/
def cutLastDot (cs : List Char) : Option (List Char × List Char) :=
  let after := (cs.reverse.takeWhile (· != '.')).reverse
  if after.length < cs.length then some (cs.take (cs.length - after.length - 1), after) else none

/-! ## Continuing a path -/

/-- The completion inside a dotted path: its finished segments, and the segment being typed. -/
def ofPath (before : List Char) (tokens : List Token) (gapStart : Nat) : Completion :=
  let start :=
    match pathRun tokens with
    | first :: _ => first.span.start
    | [] => gapStart
  let typed := Text.dropBytes start before
  match cutLastDot typed with
  | some (finished, segment) =>
    let path := FieldPath.ofDotted? finished
    ⟨segment, path.map fun _ => .field, path⟩
  | none => ⟨typed, none, none⟩

/-! ## Between tokens -/

/-- Whether a group may open before the last token, judged by the token before it. -/
def opensGroup : Option TokenKind → Bool
  | none => true
  | some kind => kind.isConnective || kind == .openParen

/-- The scope and path after finished tokens, which are given last first.  `gap` says that blanks
stand between them and what is being typed. -/
def scopeAfter (tokens : List Token) (gap : Bool) (typed : List Char) :
    Option Scope × Option FieldPath :=
  let previous := tokens[1]?.map Token.kind
  -- a parenthesis that has just been closed is not followed by anything yet
  if typed = [')'] ∧ !gap then (none, none)
  else
    match tokens.head?.map Token.kind with
    -- the start of a query
    | none => (some .field, none)
    | some last =>
      -- the start of a comparison: after a connective, or inside a new group
      if (last.isConnective && gap) || (last == .openParen && opensGroup previous) then
        (some .field, none)
      -- a comparator counts as complete once a blank follows it
      else if gap && (last.isComparator || last == .inWord) && previous == some .name then
        (some .value, pathEnding tokens.tail)
      else if gap && last == .name then (some .comparison, pathEnding tokens)
      else if gap && (last.isLiteral || last == .closeParen) then (some .logical, none)
      else (none, none)

/-- The completion at the end of a text. -/
def ofText (before : List Char) : Completion :=
  let cursor := Text.byteLength before
  let all := (TokenStream.ofText before).tokens.reverse
  -- a token that reaches the cursor may still grow, so it is not finished
  let tokens :=
    match all with
    | last :: rest => if cursor ≤ last.span.stop then rest else all
    | [] => []
  let gapStart := (tokens.head?.map fun token => token.span.stop).getD 0
  let gap := Text.dropBytes gapStart before
  let typed := Text.trimStart gap
  let blanks := typed.length != gap.length
  -- a dot at either side of the cursor's word makes it a segment of a path
  if !blanks && (typed.head? == some '.' || tokens.head?.map Token.kind == some .dot) then
    ofPath before tokens gapStart
  else
    -- an opening parenthesis is complete in itself, so nothing of it is being typed
    let typedText := if typed = ['('] then [] else typed
    let (scope, path) := scopeAfter tokens blanks typedText
    ⟨typedText, scope, path⟩

/-- The completion at a byte offset of a text.  An offset past the end counts as the end, and one
inside a character as its start. -/
def atOffset (source : List Char) (cursor : Nat) : Completion :=
  ofText (Text.takeBytes cursor source)

end Completion

end FieldFilter
