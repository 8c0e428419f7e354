/-!
# Binary floating point values

* `Decimal.Binary` — a positive finite value `mantissa * 2 ^ exponent`, with what is needed to know
  the interval of reals that round to it;
* `Decimal.Binary.ofBits` — the magnitude that a 64 bit pattern stands for;
* `Decimal.Binary.readsBack` — whether a decimal rounds to the value.
-/

namespace FieldFilter
namespace Decimal

/-- A finite magnitude `mantissa * 2 ^ exponent`.  `narrowBelow` says that the gap to the value
below is half the gap to the value above, as it is at a power of two. -/
structure Binary where
  mantissa : Nat
  exponent : Int
  narrowBelow : Bool
  deriving DecidableEq, Repr

namespace Binary

/-- The magnitude of a finite bit pattern; the sign bit is ignored. -/
def ofBits (bits : UInt64) : Binary :=
  -- eleven bits of exponent above fifty-two bits of mantissa
  let biased := ((bits >>> 52) &&& 0x7ff).toNat
  let low := (bits &&& 0xfffffffffffff).toNat
  -- the least exponent has no hidden bit
  if biased = 0 then ⟨low, -1074, false⟩
  else ⟨0x10000000000000 + low, (biased : Int) - 1075, low == 0 && biased > 1⟩

/-! ## Exact comparison -/

/-- The natural number `factor * base ^ power`, or `factor` when the power is negative. -/
def scaleUp (factor base : Nat) (power : Int) : Nat :=
  factor * Nat.pow base power.toNat

/-- Whether `digits * 10 ^ power` is below, at or above `factor * 2 ^ exponent`, both sides brought
to naturals by moving negative powers across. -/
def compareDecimal (digits : Nat) (power : Int) (factor : Nat) (exponent : Int) : Ordering :=
  compare (scaleUp (scaleUp digits 10 power) 2 (-exponent))
    (scaleUp (scaleUp factor 2 exponent) 10 (-power))

/-- Whether `digits * 10 ^ power` lies in the interval of reals that round to `b`: from halfway to
the value below to halfway to the value above, the ends included when the mantissa is even. -/
def readsBack (b : Binary) (digits : Nat) (power : Int) : Bool :=
  -- quarters of a unit in the last place, so that both ends are whole
  let low := compareDecimal digits power (4 * b.mantissa - if b.narrowBelow then 1 else 2)
    (b.exponent - 2)
  let high := compareDecimal digits power (4 * b.mantissa + 2) (b.exponent - 2)
  if b.mantissa % 2 = 0 then low != .lt && high != .gt else low == .gt && high == .lt

/-- The greatest `n` with `n * 10 ^ power` at most the value. -/
def floorAt (b : Binary) (power : Int) : Nat :=
  scaleUp (scaleUp b.mantissa 2 b.exponent) 10 (-power) /
    scaleUp (scaleUp 1 2 (-b.exponent)) 10 power

/-- The least `k` with the value below `10 ^ k`, found next to an estimate from the binary
logarithm. -/
def magnitude (b : Binary) : Int :=
  -- log 2 to base 10 is a little below 0.30103, so the estimate is at most two off
  let estimate := ((b.mantissa.log2 : Int) + b.exponent) * 30103 / 100000
  let candidates := [estimate - 1, estimate, estimate + 1, estimate + 2]
  (candidates.find? fun k => compareDecimal 1 k b.mantissa b.exponent == .gt).getD (estimate + 3)

end Binary
end Decimal
end FieldFilter
