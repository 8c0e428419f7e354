/-!
# Numerals

A numeral is an optional minus sign, a whole part without superfluous zeros, an optional fraction
and an optional exponent.

* `Numeral` — its parts as they are spelled, and `Numeral.text`, the spelling;
* `Numeral.read?` — the longest numeral at the start of a text;
* `Numeral.toInt`, `Numeral.toFloat` — its value, exact or rounded to the nearest float.
-/

namespace FieldFilter

/-- The exponent of a numeral: its mark, its sign if one is written, its digits. -/
structure Exponent where
  mark : Char
  sign : Option Char
  digits : List Char
  deriving DecidableEq, Repr

/-- The parts of a numeral as they are spelled.  No fraction digits means no point. -/
structure Numeral where
  negative : Bool
  whole : List Char
  fraction : List Char
  exponent : Option Exponent
  deriving DecidableEq, Repr

namespace Exponent

/-- The spelling of an exponent. -/
def text (e : Exponent) : List Char :=
  e.mark :: e.sign.toList ++ e.digits

/-- The power of ten that an exponent stands for. -/
def toInt (e : Exponent) : Int :=
  let n : Int := Nat.ofDigitChars 10 e.digits 0
  if e.sign = some '-' then -n else n

/-- The exponent at the start of a text: a mark, perhaps a sign, at least one digit. -/
def read? : List Char → Option Exponent
  | [] => none
  | mark :: rest =>
    if mark = 'e' || mark = 'E' then
      let (sign, rest) :=
        match rest with
        | '+' :: rest => (some '+', rest)
        | '-' :: rest => (some '-', rest)
        | rest => (none, rest)
      let digits := rest.takeWhile Char.isDigit
      if digits.isEmpty then none else some ⟨mark, sign, digits⟩
    else
      none

end Exponent

/-! ## Values -/

namespace Decimal

/-- The float nearest to `digits * 10 ^ exponent`.  Far outside the range of floats the answer is
infinity or zero and no power is computed. -/
def nearestFloat (digits : Nat) (exponent : Int) : Float :=
  -- no float reaches 10 to the power 309, and none but zero stays below 10 to the power -324
  if digits = 0 then 0
  else if exponent > 400 then 1 / 0
  else if (digits.log2 / 3 : Nat) + exponent < -400 then 0
  else Float.ofScientific digits (exponent < 0) exponent.natAbs

end Decimal

namespace Numeral

/-- The spelling of a numeral. -/
def text (n : Numeral) : List Char :=
  (if n.negative then ['-'] else []) ++ n.whole ++
    (if n.fraction.isEmpty then [] else '.' :: n.fraction) ++
    (n.exponent.map Exponent.text).getD []

/-- A numeral with neither fraction nor exponent. -/
def isWhole (n : Numeral) : Bool :=
  n.fraction.isEmpty && n.exponent.isNone

/-- The value of the whole part, with the sign. -/
def toInt (n : Numeral) : Int :=
  let magnitude : Int := Nat.ofDigitChars 10 n.whole 0
  if n.negative then -magnitude else magnitude

/-- The float nearest to the numeral; a minus sign is kept on zero. -/
def toFloat (n : Numeral) : Float :=
  let power := (n.exponent.map Exponent.toInt).getD 0 - n.fraction.length
  let magnitude := Decimal.nearestFloat (Nat.ofDigitChars 10 (n.whole ++ n.fraction) 0) power
  if n.negative then -magnitude else magnitude

/-! ## Reading -/

/-- The whole part at the start of a text: a single zero, or digits that start with another. -/
def wholePart : List Char → List Char
  | [] => []
  | c :: rest => if c = '0' then ['0'] else (c :: rest).takeWhile Char.isDigit

/-- The digits of the fraction at the start of a text, none unless a point and a digit start it. -/
def fractionPart : List Char → List Char
  | '.' :: rest => rest.takeWhile Char.isDigit
  | _ => []

/-- The longest numeral at the start of a text after its sign, if the text starts with a whole
part.  A point or an exponent mark without digits after it is left to what follows. -/
def readUnsigned? (negative : Bool) (cs : List Char) : Option Numeral :=
  let whole := wholePart cs
  let rest := cs.drop whole.length
  let fraction := fractionPart rest
  let rest := if fraction.isEmpty then rest else rest.drop (fraction.length + 1)
  if whole.isEmpty then none else some ⟨negative, whole, fraction, Exponent.read? rest⟩

/-- The longest numeral at the start of a text. -/
def read? : List Char → Option Numeral
  | '-' :: cs => readUnsigned? true cs
  | cs => readUnsigned? false cs

end Numeral

end FieldFilter
