import FieldFilter.Decimal.Shortest

/-!
# Writing floats

* `Decimal.Notation` — the decisions of a written form of floats;
* `Decimal.Notation.layout` — digits set out positionally or with an exponent;
* `Decimal.Notation.render` — a float in that form.
-/

namespace FieldFilter
namespace Decimal

/-- The decisions of a written form of floats. -/
structure Notation where
  /-- least exponent of the leading digit that is written positionally -/
  plainFrom : Int
  /-- first exponent of the leading digit that is too large to be written positionally -/
  plainBelow : Int
  /-- whether a positive exponent carries a plus sign -/
  signedExponent : Bool
  /-- which of two equally close digit strings is written -/
  tie : Tie
  /-- what stands for a value that is not a number -/
  nan : List Char
  /-- what stands for an infinity, after its sign -/
  infinity : List Char
  /-- whether the sign of an infinity is written -/
  signedInfinity : Bool

namespace Notation

/-! ## Layout -/

/-- An integer in decimal digits, with a plus sign if asked for. -/
def exponentText (n : Notation) (e : Int) : List Char :=
  (if e < 0 then ['-'] else if n.signedExponent then ['+'] else []) ++
    Nat.toDigits 10 e.natAbs

/-- The digits of a decimal with its leading digit at exponent `e`, written with a point that has
digits on both sides. -/
def positional (ds : List Char) (e : Int) : List Char :=
  if e < 0 then
    ['0', '.'] ++ List.replicate (e.natAbs - 1) '0' ++ ds
  else
    let count := e.natAbs + 1
    let whole := ds.take count ++ List.replicate (count - ds.length) '0'
    let fraction := ds.drop count
    whole ++ ['.'] ++ if fraction.isEmpty then ['0'] else fraction

/-- The digits of a decimal with its leading digit at exponent `e`, written with one digit before
the point and an exponent. -/
def scientific (n : Notation) (ds : List Char) (e : Int) : List Char :=
  let fraction := ds.drop 1
  ds.take 1 ++ (if fraction.isEmpty then [] else '.' :: fraction) ++ ['e'] ++ n.exponentText e

/-- A decimal set out positionally where the notation says so, else with an exponent. -/
def layout (n : Notation) (d : Digits) : List Char :=
  let ds := Nat.toDigits 10 d.digits
  let e := d.power + ds.length - 1
  if n.plainFrom ≤ e && e < n.plainBelow then positional ds e else n.scientific ds e

/-! ## Rendering -/

/-- A float in a notation: the fewest digits that read back, and a sign on negative values and on
negative zero. -/
def render (n : Notation) (value : Float) : List Char :=
  let bits := value.toBits
  let sign := if bits >>> 63 == 1 then ['-'] else []
  if value.isNaN then n.nan
  else if value.isInf then (if n.signedInfinity then sign else []) ++ n.infinity
  else if bits &&& 0x7fffffffffffffff == 0 then sign ++ ['0', '.', '0']
  else sign ++ n.layout (shortest (Binary.ofBits bits) n.tie)

end Notation
end Decimal
end FieldFilter
