import FieldFilter.StringLiteral
import FieldFilter.Decimal.Integer
import FieldFilter.Decimal.Notation

/-!
# JSON values and how they are written

* `Json` — a JSON value; objects keep their fields in order;
* `Json.compact` — a value on one line, without blanks;
* `Json.pretty` — a value over several lines, indented by two blanks a level.
-/

namespace FieldFilter

/-- A JSON value.  Integers and floats are kept apart; objects keep their fields in order. -/
inductive Json where
  | null
  | bool (value : Bool)
  | int (value : Int)
  | float (value : Float)
  | string (value : List Char)
  | array (items : List Json)
  | object (fields : List (String × Json))

namespace Json

/-! ## Scalars -/

/-- Documents write floats positionally from 0.00001 up to, not including, 10 to the power 16, and
otherwise with a signed exponent.  What is not a finite number is written `null`. -/
def floatNotation : Decimal.Notation where
  plainFrom := -5
  plainBelow := 16
  signedExponent := true
  tie := .toEven
  nan := "null".toList
  infinity := "null".toList
  signedInfinity := false

/-- One character of a JSON string: quotation mark, backslash and the controls below the space are
escaped. -/
def stringChar (c : Char) : List Char :=
  if c = '"' then ['\\', '"']
  else if c = '\\' then ['\\', '\\']
  else if c = '\x08' then ['\\', 'b']
  else if c = '\t' then ['\\', 't']
  else if c = '\n' then ['\\', 'n']
  else if c = '\x0c' then ['\\', 'f']
  else if c = '\r' then ['\\', 'r']
  else if c.toNat < 0x20 then ['\\', 'u'] ++ Text.hexFour c.toNat
  else [c]

/-- A JSON string with its quotation marks. -/
def stringText (cs : List Char) : List Char :=
  ['"'] ++ cs.flatMap stringChar ++ ['"']

/-! ## Layout -/

/-- How a value is laid out: on one line, or over several at a level of indentation. -/
inductive Layout where
  | inline
  | lines (level : Nat)
  deriving DecidableEq, Repr

namespace Layout

/-- The layout of what stands inside brackets. -/
def inner : Layout → Layout
  | inline => inline
  | lines level => lines (level + 1)

/-- The start of a new line, where the layout has lines. -/
def lineBreak : Layout → List Char
  | inline => []
  | lines level => '\n' :: List.replicate (2 * level) ' '

/-- What stands between a key and its value. -/
def colon : Layout → List Char
  | inline => [':']
  | lines _ => [':', ' ']

end Layout

/-! ## Writing -/

mutual

/-- A value in front of more text. -/
def write (layout : Layout) : Json → List Char → List Char
  | null, rest => "null".toList ++ rest
  | bool true, rest => "true".toList ++ rest
  | bool false, rest => "false".toList ++ rest
  | int value, rest => Decimal.intText value ++ rest
  | float value, rest => floatNotation.render value ++ rest
  | string value, rest => stringText value ++ rest
  | array [], rest => '[' :: ']' :: rest
  | array items, rest =>
    '[' :: writeItems layout.inner items (layout.lineBreak ++ ']' :: rest)
  | object [], rest => '\x7b' :: '\x7d' :: rest
  | object fields, rest =>
    '\x7b' :: writeFields layout.inner fields (layout.lineBreak ++ '\x7d' :: rest)

/-- Values with commas between them, in front of more text. -/
def writeItems (layout : Layout) : List Json → List Char → List Char
  | [], rest => rest
  | [item], rest => layout.lineBreak ++ write layout item rest
  | item :: items, rest =>
    layout.lineBreak ++ write layout item (',' :: writeItems layout items rest)

/-- Fields with commas between them, in front of more text. -/
def writeFields (layout : Layout) : List (String × Json) → List Char → List Char
  | [], rest => rest
  | [(key, value)], rest =>
    layout.lineBreak ++ (stringText key.toList ++ (layout.colon ++ write layout value rest))
  | (key, value) :: fields, rest =>
    layout.lineBreak ++ (stringText key.toList ++
      (layout.colon ++ write layout value (',' :: writeFields layout fields rest)))

end

/-- A value on one line, without blanks. -/
def compact (value : Json) : List Char :=
  write .inline value []

/-- A value over several lines, indented by two blanks a level. -/
def pretty (value : Json) : List Char :=
  write (.lines 0) value []

end Json

end FieldFilter
