import FieldFilter.Proofs.Printing.Controls
import FieldFilter.Proofs.RoundTrip

/-!
# Canonical literals in front of other text

* `TokenStream.ofText_literal_append` — the canonical spelling of a literal reads as the literal,
  whatever text follows that does not go on with it.
-/

namespace FieldFilter

open Text (byteLength)

namespace TokenStream

/-- The canonical spelling of a literal, with any text behind it that does not go on with it, reads
as a token of the literal's kind and value that is all of the spelling, and reading goes on with
that text.  A string is closed by its quotation mark, so any text may follow it. -/
theorem ofText_literal_append (value : Literal) (rest : List Char) (hvalue : value.ReadsBack)
    (hrest : value.isString = true ∨ EndsLiteral rest) :
    ofText (value.text ++ rest) =
        cons ⟨value.tokenKind, .literal value, ⟨0, byteLength value.text⟩, {}⟩
          (read (Place.afterText {} value.text) rest) ∧
      ∀ c ∈ value.text, StringLiteral.isControl c = false := by
  refine ⟨?_, value.plain_text⟩
  have hread := (LexesAs.literal hvalue hrest).read_eq {}
  rw [Place.offset_afterText, Nat.zero_add] at hread
  exact hread

/-- A string that looks like the end of a literal and an escape, in front of letters; the least
integer, in front of a sign; and a float, in front of a parenthesis. -/
theorem head?_ofText_literals :
    (Literal.float 1.5).ReadsBack ∧ EndsLiteral "-7".toList ∧ EndsLiteral "(".toList ∧
      (ofText "\"\\\"\\\\u0022\\u0085\"and".toList).tokens.head? =
        some ⟨.string, .literal (.string "\"\\u0022\x85"), ⟨0, 17⟩, {}⟩ ∧
      (ofText "-9223372036854775808-7".toList).tokens.head? =
        some ⟨.int, .literal (.int Int64.minValue), ⟨0, 20⟩, {}⟩ ∧
      (ofText "1.5(".toList).tokens.head? = some ⟨.float, .literal (.float 1.5), ⟨0, 3⟩, {}⟩ := by
  have hfloat : (Literal.float 1.5).ReadsBack :=
    ⟨by decide +kernel, Query.floatReadsBack_oneAndHalf⟩
  have hfloatText : (Literal.float 1.5).text = "1.5".toList := by decide +kernel
  have hsign : EndsLiteral "-7".toList := by
    rintro c ⟨⟩
    decide
  have hparen : EndsLiteral "(".toList := by
    rintro c ⟨⟩
    decide
  have hquoted := ofText_literal_append (.string "\"\\u0022\x85") "and".toList trivial (.inl rfl)
  have hleast := ofText_literal_append (.int Int64.minValue) "-7".toList trivial (.inr hsign)
  have hpoint := ofText_literal_append (.float 1.5) "(".toList hfloat (.inr hparen)
  rw [hfloatText] at hpoint
  exact ⟨hfloat, hsign, hparen, congrArg (fun stream => stream.tokens.head?) hquoted.1,
    congrArg (fun stream => stream.tokens.head?) hleast.1,
    congrArg (fun stream => stream.tokens.head?) hpoint.1⟩

end TokenStream

end FieldFilter
