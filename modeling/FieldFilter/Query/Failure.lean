import FieldFilter.Breach
import FieldFilter.Token.Stream

/-!
# Why a text is no query

* `Expectation` — what could have stood at a point of a query;
* `SyntaxError` — a token that could not stand where it does, or an end that came too early;
* `Failure` — any reason for which no filter comes out.
-/

namespace FieldFilter

/-! ## Expectations -/

/-- What could have stood at a point of a query. -/
inductive Expectation where
  | operand
  | comparator
  | token (kind : TokenKind)
  | literal
  | orderedLiteral
  | stringLiteral
  | listSeparator
  | connectiveOrEnd
  | nesting (limit : Nat)
  deriving DecidableEq, Repr

/-- The wording of an expectation. -/
def Expectation.text : Expectation → String
  | .operand => "'(' or a name"
  | .comparator => "a comparison operator"
  | .token kind => kind.describe
  | .literal => "a value"
  | .orderedLiteral => "a number or string"
  | .stringLiteral => "a string"
  | .listSeparator => "',' or ')'"
  | .connectiveOrEnd => "'and', 'or' or end of input"
  | .nesting limit => "at most " ++ String.ofList (Nat.toDigits 10 limit) ++ " nested parentheses"

/-! ## Syntax errors -/

/-- A token that could not stand where it does, or an end that came too early. -/
inductive SyntaxError where
  | unexpectedToken (value : String) (expected : Expectation) (position : Position) (span : Span)
  | unexpectedEnd (expected : Expectation)
  deriving DecidableEq, Repr

namespace SyntaxError

/-- The longest piece of a query that a message quotes. -/
def fragmentLimit : Nat := 20

/-- A token's text as messages quote it: cut, and marked as cut, when it is too long. -/
def fragment (value : List Char) : List Char :=
  if fragmentLimit < value.length then value.take (fragmentLimit - 3) ++ "...".toList else value

/-- The error for a token that could not stand where it does. -/
def unexpected (expected : Expectation) (token : Token) : SyntaxError :=
  .unexpectedToken token.valueText expected token.position token.span

/-- The wording without place and expectation. -/
def summary : SyntaxError → List Char
  | .unexpectedToken value _ _ _ =>
    "syntax error at '".toList ++ fragment value.toList ++ ['\'']
  | .unexpectedEnd _ => "unexpected end of input".toList

/-- The full wording. -/
def message : SyntaxError → List Char
  | .unexpectedToken value expected position _ =>
    "syntax error at '".toList ++ fragment value.toList ++ "' (".toList ++ position.text ++
      "): expected ".toList ++ expected.text.toList
  | .unexpectedEnd expected =>
    "unexpected end of input: expected ".toList ++ expected.text.toList

end SyntaxError

/-! ## Failures -/

/-- Any reason for which no filter comes out. -/
inductive Failure where
  | lexical (error : LexError)
  | grammatical (error : SyntaxError)
  | broken (breach : Breach)
  deriving DecidableEq, Repr

namespace Failure

/-- The failure for a token that could not stand where it does. -/
def unexpected (expected : Expectation) (token : Token) : Failure :=
  .grammatical (.unexpected expected token)

/-- The wording without place and expectation. -/
def summary : Failure → List Char
  | .lexical error => error.fault.message.toList
  | .grammatical error => error.summary
  | .broken breach => breach.message

/-- The full wording. -/
def message : Failure → List Char
  | .lexical error => error.message
  | .grammatical error => error.message
  | .broken breach => breach.message

/-- The position that a failure concerns, if it concerns one. -/
def position? : Failure → Option Position
  | .lexical error => some error.position
  | .grammatical (.unexpectedToken _ _ position _) => some position
  | .grammatical (.unexpectedEnd _) => none
  | .broken _ => none

/-- The span that a failure concerns, if it concerns one. -/
def span? : Failure → Option Span
  | .lexical error => some error.span
  | .grammatical (.unexpectedToken _ _ _ span) => some span
  | .grammatical (.unexpectedEnd _) => none
  | .broken _ => none

/-- Whether more text could still have made a query. -/
def isEnd : Failure → Bool
  | .grammatical (.unexpectedEnd _) => true
  | _ => false

end Failure

end FieldFilter
