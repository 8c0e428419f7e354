import FieldFilter.Proofs.Lexing.Lexes
import Mathlib.Data.List.TakeWhile

/-!
# Numerals at the start of a text

* `Numeral.read?_intText` — the decimal digits of an integer are read as the integer;
* `Numeral.head_of_read?`, `Lexeme.start_of_read?` — a text that starts with a numeral starts with
  no other lexeme.
-/

namespace FieldFilter

namespace Numeral

/-! ## Integers -/

theorem head?_toDigits_ne_zero {n : Nat} (h : 0 < n) : (Nat.toDigits 10 n).head? ≠ some '0' := by
  induction n using Nat.strongRecOn with
  | _ n ih =>
      rw [Nat.toDigits_eq_if (by decide)]
      by_cases hlt : n < 10
      · have hdigit : ∀ m < 10, 0 < m → m.digitChar ≠ '0' := by decide
        simpa [hlt] using hdigit n hlt h
      · have hquotient := ih (n / 10) (by omega) (by omega)
        rw [if_neg hlt]
        cases hlist : Nat.toDigits 10 (n / 10) with
        | nil => exact absurd hlist Nat.toDigits_ne_nil
        | cons c cs => simpa [hlist] using hquotient

theorem wholePart_toDigits (n : Nat) : wholePart (Nat.toDigits 10 n) = Nat.toDigits 10 n := by
  rcases Nat.eq_zero_or_pos n with rfl | hpos
  · rfl
  · have hhead := head?_toDigits_ne_zero hpos
    have hdigits : ∀ c ∈ Nat.toDigits 10 n, c.isDigit = true := fun c hc =>
      Nat.isDigit_of_mem_toDigits (by decide) (by decide) hc
    cases hlist : Nat.toDigits 10 n with
    | nil => rfl
    | cons c cs =>
        rw [hlist] at hhead hdigits
        have hzero : c ≠ '0' := by simpa using hhead
        rw [wholePart, if_neg hzero]
        exact List.takeWhile_eq_self_iff.2 hdigits

theorem readUnsigned?_toDigits (negative : Bool) (n : Nat) :
    readUnsigned? negative (Nat.toDigits 10 n) =
      some ⟨negative, Nat.toDigits 10 n, [], none⟩ := by
  simp only [readUnsigned?, wholePart_toDigits, List.drop_length]
  simp [fractionPart, Exponent.read?]

/-- The decimal digits of an integer are a numeral without fraction and exponent. -/
theorem read?_intText (value : Int) :
    read? (Decimal.intText value) =
      some ⟨value < 0, Nat.toDigits 10 value.natAbs, [], none⟩ := by
  by_cases hneg : value < 0
  · simpa [Decimal.intText, hneg, read?] using readUnsigned?_toDigits true value.natAbs
  · have hread := readUnsigned?_toDigits false value.natAbs
    have hdigits : ∀ c ∈ Nat.toDigits 10 value.natAbs, c.isDigit = true := fun c hc =>
      Nat.isDigit_of_mem_toDigits (by decide) (by decide) hc
    simp only [Decimal.intText, hneg, if_false, List.nil_append, decide_false]
    cases hlist : Nat.toDigits 10 value.natAbs with
    | nil => exact absurd hlist Nat.toDigits_ne_nil
    | cons c cs =>
        rw [hlist] at hread hdigits
        have hminus : c ≠ '-' := by
          rintro rfl
          exact absurd (hdigits '-' (by simp)) (by decide)
        simpa [read?, hminus] using hread

theorem text_intNumeral (value : Int) :
    (Numeral.mk (value < 0) (Nat.toDigits 10 value.natAbs) [] none).text =
      Decimal.intText value := by
  by_cases hneg : value < 0 <;> simp [text, Decimal.intText, hneg]

theorem toInt_intNumeral (value : Int) :
    (Numeral.mk (value < 0) (Nat.toDigits 10 value.natAbs) [] none).toInt = value := by
  have hdigits : Nat.ofDigitChars 10 (Nat.toDigits 10 value.natAbs) 0 = value.natAbs := by simp
  simp only [toInt, hdigits, decide_eq_true_eq]
  split <;> omega

/-! ## Numerals at the start of a text -/

theorem wholePart_ne_nil_of_readUnsigned? {negative : Bool} {cs : List Char} {n : Numeral}
    (h : readUnsigned? negative cs = some n) : wholePart cs ≠ [] := by
  intro hwhole
  simp [readUnsigned?, hwhole] at h

theorem head_of_read? {c : Char} {cs : List Char} {n : Numeral} (h : read? (c :: cs) = some n) :
    c = '-' ∨ c.isDigit = true := by
  by_cases hminus : c = '-'
  · exact .inl hminus
  · have hunsigned : readUnsigned? false (c :: cs) = some n := by simpa [read?, hminus] using h
    have hwhole := wholePart_ne_nil_of_readUnsigned? hunsigned
    by_cases hzero : c = '0'
    · exact .inr (hzero ▸ rfl)
    · rw [wholePart, if_neg hzero, List.takeWhile_cons] at hwhole
      by_cases hdigit : c.isDigit = true
      · exact .inr hdigit
      · simp [hdigit] at hwhole

end Numeral

namespace Lexeme

variable {c : Char} {cs : List Char} {n : Numeral}

/-- A numeral is no word, no string and no mark. -/
theorem head_of_read? (hread : Numeral.read? (c :: cs) = some n) :
    isIdentifierStart c = false ∧ (c = '"' || c = '\'') = false ∧ symbol? (c :: cs) = none := by
  have h : c = '-' ∨ c.isDigit = true := Numeral.head_of_read? hread
  have hne : ∀ d : Char, d.isDigit = false → d ≠ '-' → c ≠ d := by
    rintro d hdigit hminus rfl
    rcases h with h | h
    · exact hminus h
    · simp [hdigit] at h
  refine ⟨?_, by simp [hne '"' rfl (by decide), hne '\'' rfl (by decide)], ?_⟩
  · rcases h with rfl | h
    · rfl
    -- there are only ten digits to look at
    · have hdigits : ∀ n ≤ 57, 48 ≤ n → isIdentifierStart (Char.ofNat n) = false := by decide
      have hcode : 48 ≤ c.toNat ∧ c.toNat ≤ 57 := Char.isDigit_iff_toNat.1 h
      rw [← Char.ofNat_toNat c]
      exact hdigits c.toNat hcode.2 hcode.1
  · unfold symbol?
    split
    case h_13 => rfl
    all_goals
      rename_i heq
      cases heq
      rcases h with h | h <;> cases h

theorem start_of_read? (hread : Numeral.read? (c :: cs) = some n) : start c cs = number n := by
  rcases head_of_read? hread with ⟨hstart, hquote, hsymbol⟩
  rw [start, if_neg (by simp [hstart]), if_neg (by simp [hquote])]
  simp only [hsymbol, hread]

end Lexeme

end FieldFilter
