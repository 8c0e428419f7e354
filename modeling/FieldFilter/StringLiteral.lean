import FieldFilter.Text.Shown

/-!
# String literals

A string literal stands between two equal quotes on one line.  A backslash starts an escape.

* `StringLiteral.body?` — what stands between the quotes, up to the first quote that no backslash
  protects;
* `StringLiteral.decode` — the text that a body spells, if every escape in it is legal;
* `StringLiteral.encode` — the canonical spelling of a text in double quotes.
-/

namespace FieldFilter
namespace StringLiteral

/-! ## Where a literal ends -/

/-- A character that ends a line. -/
def isLineEnd (c : Char) : Bool :=
  c == '\r' || c == '\n'

/-- What stands before the closing quote, given what follows the opening one.  A backslash protects
the next character; no literal runs past the end of its line. -/
def body? (quote : Char) : List Char → Option (List Char)
  | [] => none
  | c :: cs =>
    -- a backslash keeps the character after it from closing the literal, whatever it is
    if c = '\\' then
      match cs with
      | [] => none
      | d :: ds => if isLineEnd d then none else (body? quote ds).map fun body => c :: d :: body
    else if isLineEnd c then none
    else if c = quote then some []
    else (body? quote cs).map (c :: ·)

/-! ## Decoding -/

/-- One item of a body: a character as it is, or a 16 bit unit given by number. -/
inductive Item where
  | char (c : Char)
  | unit (value : Nat)
  deriving DecidableEq, Repr

/-- The value of a hexadecimal digit of either case. -/
def hexValue? (c : Char) : Option Nat :=
  if '0' ≤ c ∧ c ≤ '9' then some (c.toNat - '0'.toNat)
  else if 'a' ≤ c ∧ c ≤ 'f' then some (c.toNat - 'a'.toNat + 10)
  else if 'A' ≤ c ∧ c ≤ 'F' then some (c.toNat - 'A'.toNat + 10)
  else none

/-- The unit that four hexadecimal digits spell. -/
def unitOf? (a b c d : Char) : Option Nat := do
  let a ← hexValue? a
  let b ← hexValue? b
  let c ← hexValue? c
  let d ← hexValue? d
  return ((a * 16 + b) * 16 + c) * 16 + d

/-- The character that a short escape stands for. -/
def shortEscape? : Char → Option Char
  | '"' => some '"'
  | '\'' => some '\''
  | '\\' => some '\\'
  | '/' => some '/'
  | 'b' => some '\x08'
  | 'f' => some '\x0c'
  | 'n' => some '\n'
  | 'r' => some '\r'
  | 't' => some '\t'
  | _ => none

/-- The items of a body, if every backslash starts an escape. -/
def items? : List Char → Option (List Item)
  | [] => some []
  -- a unit given by number takes exactly four digits
  | '\\' :: 'u' :: a :: b :: c :: d :: rest => do
    let value ← unitOf? a b c d
    let items ← items? rest
    return .unit value :: items
  | '\\' :: e :: rest => do
    let c ← shortEscape? e
    let items ← items? rest
    return .char c :: items
  | c :: rest =>
    if c = '\\' then none
    else do
      let items ← items? rest
      return .char c :: items

/-- A unit that opens a surrogate pair. -/
def isHighUnit (value : Nat) : Bool :=
  0xd800 ≤ value && value < 0xdc00

/-- A unit that closes a surrogate pair. -/
def isLowUnit (value : Nat) : Bool :=
  0xdc00 ≤ value && value < 0xe000

/-- The code point of a surrogate pair. -/
def pairValue (high low : Nat) : Nat :=
  0x10000 + (high - 0xd800) * 0x400 + (low - 0xdc00)

/-- The text of items: units that open a pair are followed at once by units that close it, and no
other unit is a surrogate. -/
def textOf? : List Item → Option (List Char)
  | [] => some []
  | .char c :: rest => (textOf? rest).map (c :: ·)
  -- two units may be the halves of one character
  | .unit high :: .unit low :: rest =>
    if isHighUnit high then
      if isLowUnit low then (textOf? rest).map (Char.ofNat (pairValue high low) :: ·) else none
    else if isLowUnit high then none
    else (textOf? (.unit low :: rest)).map (Char.ofNat high :: ·)
  | .unit value :: rest =>
    if isHighUnit value || isLowUnit value then none
    else (textOf? rest).map (Char.ofNat value :: ·)

/-- The text that a body spells. -/
def decode (body : List Char) : Option (List Char) :=
  (items? body).bind textOf?

/-! ## Encoding -/

/-- A control character: code points below the space and from the delete character to U+009F. -/
def isControl (c : Char) : Bool :=
  c.toNat < 0x20 || (0x7f ≤ c.toNat && c.toNat < 0xa0)

/-- One character as the canonical spelling has it. -/
def encodeChar (c : Char) : List Char :=
  if c = '"' then ['\\', '"']
  else if c = '\\' then ['\\', '\\']
  else if c = '\n' then ['\\', 'n']
  else if c = '\t' then ['\\', 't']
  else if c = '\r' then ['\\', 'r']
  else if c = '\x08' then ['\\', 'b']
  else if c = '\x0c' then ['\\', 'f']
  else if isControl c then ['\\', 'u'] ++ Text.hexFour c.toNat
  else [c]

/-- The canonical spelling of a text, in double quotes. -/
def encode (cs : List Char) : List Char :=
  ['"'] ++ cs.flatMap encodeChar ++ ['"']

end StringLiteral
end FieldFilter
