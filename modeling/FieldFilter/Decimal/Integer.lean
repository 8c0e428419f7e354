/-!
# Writing integers

* `Decimal.intText` — an integer in decimal digits.
-/

namespace FieldFilter
namespace Decimal

/-- An integer in decimal digits, after a minus sign if it is negative. -/
def intText (value : Int) : List Char :=
  (if value < 0 then ['-'] else []) ++ Nat.toDigits 10 value.natAbs

@[simp] theorem intText_natCast (n : Nat) : intText n = Nat.toDigits 10 n := by
  simp [intText]

theorem intText_neg_natCast {n : Nat} (h : 0 < n) :
    intText (-n) = '-' :: Nat.toDigits 10 n := by
  simp [intText, h]

end Decimal
end FieldFilter
