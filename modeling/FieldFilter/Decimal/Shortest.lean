import FieldFilter.Decimal.Binary

/-!
# The fewest digits that identify a value

* `Decimal.Digits` — a decimal `digits * 10 ^ power`;
* `Decimal.Tie` — which of two equally close decimals is taken;
* `Decimal.shortest` — of the decimals that read back to a value, one with the fewest digits, and
  of those the nearest.
-/

namespace FieldFilter
namespace Decimal

/-- The decimal `digits * 10 ^ power`. -/
structure Digits where
  digits : Nat
  power : Int
  deriving DecidableEq, Repr

/-- Which of two equally close decimals is taken. -/
inductive Tie where
  | toEven
  | up
  deriving DecidableEq, Repr

/-! ## One grid -/

/-- Of two neighbours on a grid the one nearer to the value, the tie as told. -/
def nearer (b : Binary) (tie : Tie) (low : Nat) (power : Int) : Nat :=
  -- the value against the middle between the two neighbours
  match Binary.compareDecimal (2 * low + 1) power (2 * b.mantissa) b.exponent with
  | .gt => low
  | .lt => low + 1
  | .eq =>
    match tie with
    | .up => low + 1
    | .toEven => if low % 2 = 0 then low else low + 1

/-- The decimal taken on the grid of multiples of `10 ^ power`: a neighbour of the value that reads
back, the nearer one when both do. -/
def onGrid (b : Binary) (tie : Tie) (power : Int) : Option Digits :=
  let low := b.floorAt power
  match b.readsBack low power, b.readsBack (low + 1) power with
  | true, true => some ⟨nearer b tie low power, power⟩
  | true, false => some ⟨low, power⟩
  | false, true => some ⟨low + 1, power⟩
  | false, false => none

/-! ## The first grid that has one -/

/-- The same decimal without trailing zeros. -/
def stripZeros (digits : Nat) (power : Int) : Digits :=
  if h : 0 < digits ∧ digits % 10 = 0 then
    stripZeros (digits / 10) (power + 1)
  else
    ⟨digits, power⟩
termination_by digits
decreasing_by omega

/-- The value itself as a decimal. -/
def exact (b : Binary) : Digits :=
  ⟨Binary.scaleUp (Binary.scaleUp b.mantissa 2 b.exponent) 5 (-b.exponent), min b.exponent 0⟩

/-- Of the decimals that read back to `b` one with the fewest digits, and of those the nearest:
grids are tried from the coarsest on.  Seventeen digits always suffice for a 64 bit value. -/
def shortest (b : Binary) (tie : Tie) : Digits :=
  let top := b.magnitude
  -- each grid is ten times finer than the one before
  let found := (List.range 17).findSome? fun (n : Nat) => onGrid b tie (top - (n + 1))
  let chosen := found.getD (exact b)
  stripZeros chosen.digits chosen.power

end Decimal
end FieldFilter
