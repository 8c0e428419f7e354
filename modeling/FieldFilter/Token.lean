import FieldFilter.Source
import FieldFilter.Expr.Printer

/-!
# Tokens

* `TokenKind` — the kinds of tokens a query consists of, with their grammar names and descriptions;
* `TokenValue`, `Token` — what a token carries and where it stands;
* `Token.valueText` — the printable form of a token's value.
-/

namespace FieldFilter

/-! ## Kinds -/

/-- The kinds of tokens a query consists of. -/
inductive TokenKind where
  | andWord
  | orWord
  | notWord
  | inWord
  | trueWord
  | falseWord
  | noneWord
  | equals
  | notEquals
  | greater
  | greaterEqual
  | less
  | lessEqual
  | contains
  | notContains
  | dot
  | comma
  | openParen
  | closeParen
  | int
  | float
  | string
  | name
  deriving DecidableEq, Repr

namespace TokenKind

/-- Every kind, in the order of the grammar. -/
def all : List TokenKind :=
  [.andWord, .orWord, .notWord, .inWord, .trueWord, .falseWord, .noneWord, .equals, .notEquals,
    .greater, .greaterEqual, .less, .lessEqual, .contains, .notContains, .dot, .comma, .openParen,
    .closeParen, .int, .float, .string, .name]

/-- The name of a kind in token listings. -/
def grammarName : TokenKind → String
  | .andWord => "AND"
  | .orWord => "OR"
  | .notWord => "NOT"
  | .inWord => "IN"
  | .trueWord => "TRUE"
  | .falseWord => "FALSE"
  | .noneWord => "NONE"
  | .equals => "EQUALS"
  | .notEquals => "NOT_EQUALS"
  | .greater => "GREATER"
  | .greaterEqual => "GREATER_EQUAL"
  | .less => "LESS"
  | .lessEqual => "LESS_EQUAL"
  | .contains => "CONTAINS"
  | .notContains => "NOT_CONTAINS"
  | .dot => "DOT"
  | .comma => "COMMA"
  | .openParen => "PAREN_L"
  | .closeParen => "PAREN_R"
  | .int => "INT_VALUE"
  | .float => "FLOAT_VALUE"
  | .string => "STRING_VALUE"
  | .name => "NAME"

/-- A kind as error messages describe it. -/
def describe : TokenKind → String
  | .andWord => "'and'"
  | .orWord => "'or'"
  | .notWord => "'not'"
  | .inWord => "'in'"
  | .trueWord => "'True'"
  | .falseWord => "'False'"
  | .noneWord => "'None'"
  | .equals => "'='"
  | .notEquals => "'!='"
  | .greater => "'>'"
  | .greaterEqual => "'>='"
  | .less => "'<'"
  | .lessEqual => "'<='"
  | .contains => "'~'"
  | .notContains => "'!~'"
  | .dot => "'.'"
  | .comma => "','"
  | .openParen => "'('"
  | .closeParen => "')'"
  | .int => "integer"
  | .float => "float"
  | .string => "string"
  | .name => "name"

/-- The connective that a kind stands for. -/
def connective? : TokenKind → Option Connective
  | .andWord => some .and
  | .orWord => some .or
  | _ => none

/-- The comparator between a path and a single literal that a kind stands for. -/
def comparator? : TokenKind → Option Comparator
  | .equals => some .equal
  | .notEquals => some .notEqual
  | .greater => some .greater
  | .greaterEqual => some .greaterEqual
  | .less => some .less
  | .lessEqual => some .lessEqual
  | .contains => some .contains
  | .notContains => some .notContains
  | _ => none

/-- The kinds of connectives. -/
def isConnective (kind : TokenKind) : Bool :=
  kind.connective?.isSome

/-- The kinds of comparators between a path and a single literal. -/
def isComparator (kind : TokenKind) : Bool :=
  kind.comparator?.isSome

/-- The kinds of literals. -/
def isLiteral : TokenKind → Bool
  | .int | .float | .string | .trueWord | .falseWord | .noneWord => true
  | _ => false

/-- The kind of a word: reserved words have kinds of their own, every other word is a name. -/
def ofWord (word : String) : TokenKind :=
  if word = "and" then .andWord
  else if word = "or" then .orWord
  else if word = "not" then .notWord
  else if word = "in" then .inWord
  else if word = "True" then .trueWord
  else if word = "False" then .falseWord
  else if word = "None" then .noneWord
  else .name

end TokenKind

/-! ## Tokens -/

/-- What a token carries: its spelling, or the literal it stands for. -/
inductive TokenValue where
  | text (spelling : String)
  | literal (value : Literal)
  deriving DecidableEq, Repr

/-- A token with the range it covers and the position of its first character. -/
structure Token where
  kind : TokenKind
  value : TokenValue
  span : Span
  position : Position
  deriving DecidableEq, Repr

namespace TokenValue

/-- The printable form of a value: string literals without quotes and escapes, everything else as
a query spells it. -/
def printable : TokenValue → String
  | .text spelling => spelling
  | .literal (.string value) => value
  | .literal value => String.ofList value.text

/-- The literal of a value, if it is one. -/
def literal? : TokenValue → Option Literal
  | .literal value => some value
  | .text _ => none

end TokenValue

namespace Token

/-- The printable form of a token. -/
def valueText (token : Token) : String :=
  token.value.printable

/-- The literal that a token carries. -/
def literal? (token : Token) : Option Literal :=
  token.value.literal?

/-- The spelling of a token in the text it was read from. -/
def spelling (token : Token) (source : List Char) : List Char :=
  token.span.slice source

end Token

end FieldFilter
