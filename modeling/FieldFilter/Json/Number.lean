/-!
# Numbers of JSON documents

* `Json.Number` — a number as a reader tells it apart: a word without sign, a negative word, or a
  float;
* `Json.Number.ofDigits` — the number that the parts of a numeral make.

A float is made from a significand of at most 64 bits and a power of ten by one rounded product or
quotient.  Digits beyond the significand only count towards the power.
-/

namespace FieldFilter
namespace Json

/-- A number as a reader tells it apart. -/
inductive Number where
  | natural (value : Nat)
  | negative (value : Int)
  | float (value : Float)
  deriving DecidableEq, Repr

namespace Number

/-- The greatest word of 64 bits. -/
def maxWord : Nat := UInt64.size - 1

/-- The greatest magnitude of a written exponent that is told apart from still greater ones. -/
def maxExponent : Nat := 0x7fffffff

/-! ## Significands -/

/-- A significand with more digits behind it, as many as keep it in 64 bits, and their count. -/
def absorb (significand : Nat) : List Char → Nat × Nat
  | [] => (significand, 0)
  | d :: ds =>
    let longer := significand * 10 + (d.toNat - '0'.toNat)
    if longer ≤ maxWord then
      let (result, count) := absorb longer ds
      (result, count + 1)
    else
      (significand, 0)

/-! ## Floats -/

/-- A float times a power of ten, or nothing when the product is infinite.  Quotients too small for
one division are taken in several. -/
def scale : Nat → Float → Int → Option Float
  | 0, value, _ => some value
  | steps + 1, value, power =>
    if power.natAbs ≤ 308 then
      if 0 ≤ power then
        let product := value * Float.ofScientific 1 false power.natAbs
        if product.isInf then none else some product
      else
        some (value / Float.ofScientific 1 false power.natAbs)
    else if value == 0 then some value
    else if 0 ≤ power then none
    else scale steps (value / Float.ofScientific 1 false 308) (power + 308)

/-- The float of a significand of 64 bits and a power of ten, or nothing when it is infinite.  Two
divisions by the greatest power make every significand zero. -/
def floatOf (significand : Nat) (power : Int) : Option Float :=
  scale 3 significand.toUInt64.toFloat power

/-- A magnitude with the sign it was written with. -/
def signed (isNegative : Bool) (value : Float) : Number :=
  .float (if isNegative then -value else value)

/-! ## Parts of a numeral -/

/-- The number without fraction and exponent: words are kept exact, and so is the sign of zero. -/
def ofWhole (isNegative : Bool) (whole : List Char) : Option Number :=
  let (significand, kept) := absorb 0 whole
  -- a whole part beyond 64 bits becomes a float
  if kept < whole.length then
    (floatOf significand (whole.length - kept)).map (signed isNegative)
  else if !isNegative then some (.natural significand)
  -- a negative zero has no word, nor has a magnitude beyond the least one
  else if significand = 0 ∨ 0x8000000000000000 < significand then
    some (signed true significand.toUInt64.toFloat)
  else some (.negative (-significand))

/-- The number with a fraction, which may be empty, and the digits of an exponent with its sign. -/
def ofParts (isNegative : Bool) (whole fraction : List Char) (exponent : List Char)
    (exponentNegative : Bool) : Option Number :=
  let (significand, kept) := absorb 0 whole
  let (significand, keptFraction) := absorb significand fraction
  let start : Int := (whole.length - kept : Nat) - (keptFraction : Nat)
  let written := Nat.ofDigitChars 10 exponent 0
  -- an exponent this large decides alone between zero and a number out of range
  if maxExponent < written then
    if significand = 0 ∨ exponentNegative then some (signed isNegative 0) else none
  else
    let power := if exponentNegative then start - written else start + written
    (floatOf significand power).map (signed isNegative)

end Number
end Json
end FieldFilter
