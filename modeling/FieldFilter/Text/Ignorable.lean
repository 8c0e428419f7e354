/-!
# Characters that leave no mark

Some letters and format characters are drawn as nothing at all unless a display supports them.
Quoted text spells them out, since a reader could not see that they are there.

* `ignorableRanges` — the code points with the property Default_Ignorable_Code_Point, as closed
  ranges in ascending order (Unicode 17);
* `isIgnorable` — a character with that property.
-/

namespace FieldFilter
namespace Text

/-! ## The table -/

/-- Code points with the property Default_Ignorable_Code_Point, as closed ranges in ascending
order. -/
def ignorableRanges : List (Nat × Nat) :=
  [
    (0xad, 0xad), (0x34f, 0x34f), (0x61c, 0x61c), (0x115f, 0x1160),
    (0x17b4, 0x17b5), (0x180b, 0x180f), (0x200b, 0x200f), (0x202a, 0x202e),
    (0x2060, 0x206f), (0x3164, 0x3164), (0xfe00, 0xfe0f), (0xfeff, 0xfeff),
    (0xffa0, 0xffa0), (0xfff0, 0xfff8), (0x1bca0, 0x1bca3), (0x1d173, 0x1d17a),
    (0xe0000, 0xe0fff)
  ]

/-! ## Membership -/

/-- A character leaves no mark when a range of the table holds its code point. -/
def isIgnorable (c : Char) : Bool :=
  ignorableRanges.any fun range => range.1 ≤ c.toNat && c.toNat ≤ range.2

/-- No character of ASCII has the property. -/
theorem isIgnorable_eq_false_of_lt {c : Char} (h : c.toNat < 0x80) : isIgnorable c = false := by
  simp only [isIgnorable, ignorableRanges, List.any_cons, List.any_nil, Bool.or_false,
    Bool.or_eq_false_iff, Bool.and_eq_false_iff, decide_eq_false_iff_not]
  omega

end Text
end FieldFilter
