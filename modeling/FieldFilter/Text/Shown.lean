import FieldFilter.Text.Printed
import FieldFilter.Text.Extending
import FieldFilter.Text.Ignorable

/-!
# Text quoted in messages

Messages show user text in double quotes, with every character that could be misread spelled out.

* `hexDigits` — a number in lower case hexadecimal digits;
* `isVisible` — the characters that stand for themselves;
* `shown` — the quoted form of a text.
-/

namespace FieldFilter
namespace Text

/-- A number in lower case hexadecimal digits, without padding. -/
def hexDigits (n : Nat) : List Char :=
  Nat.toDigits 16 n

/-- A number in at least four lower case hexadecimal digits. -/
def hexFour (n : Nat) : List Char :=
  let digits := hexDigits n
  List.replicate (4 - digits.length) '0' ++ digits

/-- A character that can be seen where it stands: one with a printed form that is neither drawn on
the character before it nor left undrawn. -/
def isVisible (c : Char) : Bool :=
  isPrinted c && !isExtending c && !isIgnorable c

/-- One character of a quoted text.  Quotation mark, backslash and the common controls have short
forms; any other character that cannot be seen where it stands is written by its code point. -/
def shownChar (c : Char) : List Char :=
  if c = '\x00' then ['\\', '0']
  else if c = '\t' then ['\\', 't']
  else if c = '\r' then ['\\', 'r']
  else if c = '\n' then ['\\', 'n']
  else if c = '\\' then ['\\', '\\']
  else if c = '"' then ['\\', '"']
  else if isVisible c then [c]
  else ['\\', 'u', '\x7b'] ++ hexDigits c.toNat ++ ['\x7d']

/-- A text as messages quote it. -/
def shown (cs : List Char) : List Char :=
  ['"'] ++ cs.flatMap shownChar ++ ['"']

end Text
end FieldFilter
