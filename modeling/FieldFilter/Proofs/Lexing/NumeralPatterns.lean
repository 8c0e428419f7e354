import FieldFilter.Proofs.Lexing.Numerals
import FieldFilter.Proofs.Lexing.Patterns

/-!
# Numerals and the patterns of numbers

* `Numeral.WellFormed` — the parts of a numeral are spelled as its pattern says;
* `Numeral.mem_integer_iff`, `Numeral.mem_float_iff` — the patterns of numbers are the spellings of
  the well-formed numerals;
* `Numeral.read?_text_append` — reading finds the longest numeral at the start of a text;
* `Numeral.kind` — the kind of token that a numeral is;
* `LexesAs.number` — a text that is a numeral reads as one token.
-/

open scoped Computability

namespace FieldFilter

/-- An exponent as its pattern has it. -/
structure Exponent.WellFormed (e : Exponent) : Prop where
  mark : e.mark = 'e' ∨ e.mark = 'E'
  sign : ∀ c ∈ e.sign, c = '+' ∨ c = '-'
  digits_ne_nil : e.digits ≠ []
  digits : ∀ c ∈ e.digits, c.isDigit = true

/-- A single zero, or digits that start with another one. -/
def Numeral.IsWholePart (whole : List Char) : Prop :=
  whole = ['0'] ∨ ∃ c cs, Pattern.isNonzeroDigit c = true ∧ (∀ d ∈ cs, d.isDigit = true) ∧
    whole = c :: cs

/-- A numeral as its pattern has it. -/
structure Numeral.WellFormed (n : Numeral) : Prop where
  whole : IsWholePart n.whole
  fraction : ∀ c ∈ n.fraction, c.isDigit = true
  exponent : ∀ e ∈ n.exponent, e.WellFormed

/-! ## Patterns -/

namespace Pattern

variable {cs : List Char}

theorem mem_exponent_iff : cs ∈ exponent ↔ ∃ e : Exponent, e.WellFormed ∧ cs = e.text := by
  rw [exponent, mem_oneOf_mul_iff]
  constructor
  · rintro ⟨mark, _, hmark, hrest, rfl⟩
    rcases Language.mem_mul.1 hrest with ⟨sign, hsign, digits, hdigits, rfl⟩
    rcases mem_atLeastOnce_oneOf_iff.1 hdigits with ⟨hne, hall⟩
    have hmark : mark = 'e' ∨ mark = 'E' := by simpa using hmark
    rcases mem_optional_iff.1 hsign with rfl | ⟨c, hc, rfl⟩
    · exact ⟨⟨mark, none, digits⟩, ⟨hmark, by simp, hne, hall⟩, rfl⟩
    · exact ⟨⟨mark, some c, digits⟩, ⟨hmark, by simpa using hc, hne, hall⟩, rfl⟩
  · rintro ⟨⟨mark, sign, digits⟩, ⟨hmark, hsign, hne, hall⟩, rfl⟩
    refine ⟨mark, _, by simpa using hmark, Language.append_mem_mul (a := sign.toList) ?_
      (mem_atLeastOnce_oneOf_iff.2 ⟨hne, hall⟩), rfl⟩
    cases sign with
    | none => exact .inl rfl
    | some c => exact .inr ⟨c, by simpa using hsign, rfl⟩

theorem mem_fraction_iff :
    cs ∈ fraction ↔ ∃ ds, ds ≠ [] ∧ (∀ d ∈ ds, d.isDigit = true) ∧ cs = '.' :: ds := by
  rw [fraction, mem_exactly_mul_iff]
  constructor
  · rintro ⟨ds, hds, rfl⟩
    rcases mem_atLeastOnce_oneOf_iff.1 hds with ⟨hne, hall⟩
    exact ⟨ds, hne, hall, rfl⟩
  · rintro ⟨ds, hne, hall, rfl⟩
    exact ⟨ds, mem_atLeastOnce_oneOf_iff.2 ⟨hne, hall⟩, rfl⟩

theorem mem_integer_iff :
    cs ∈ integer ↔ ∃ negative whole, Numeral.IsWholePart whole ∧
      cs = (Numeral.mk negative whole [] none).text := by
  have hwhole : ∀ ds, ds ∈ exactly ['0'] + oneOf isNonzeroDigit * digit∗ ↔
      Numeral.IsWholePart ds := by
    intro ds
    simp only [Language.mem_add, mem_exactly_iff, mem_oneOf_mul_iff, digit, mem_many_oneOf_iff,
      Numeral.IsWholePart]
  rw [integer, Language.mem_mul]
  constructor
  · rintro ⟨sign, hsign, whole, hmem, rfl⟩
    rcases mem_optional_iff.1 hsign with rfl | rfl
    · exact ⟨false, whole, (hwhole whole).1 hmem, by simp [Numeral.text]⟩
    · exact ⟨true, whole, (hwhole whole).1 hmem, by simp [Numeral.text]⟩
  · rintro ⟨negative, whole, h, rfl⟩
    refine ⟨if negative then ['-'] else [], ?_, whole, (hwhole whole).2 h, by simp [Numeral.text]⟩
    cases negative with
    | false => exact .inl rfl
    | true => exact .inr rfl

theorem mem_float_iff :
    cs ∈ float ↔ ∃ n : Numeral, n.WellFormed ∧ n.isWhole = false ∧ cs = n.text := by
  rw [float, Language.mem_mul]
  constructor
  · rintro ⟨_, hinteger, tail, htail, rfl⟩
    rcases mem_integer_iff.1 hinteger with ⟨negative, whole, hwhole, rfl⟩
    rcases htail with hboth | hexponent
    · rcases Language.mem_mul.1 hboth with ⟨_, hfraction, power, hpower, rfl⟩
      rcases mem_fraction_iff.1 hfraction with ⟨digits, hne, hdigits, rfl⟩
      rcases mem_optional_iff.1 hpower with rfl | hpower
      · exact ⟨⟨negative, whole, digits, none⟩, ⟨hwhole, hdigits, by simp⟩,
          by simp [Numeral.isWhole, hne], by simp [Numeral.text, hne]⟩
      · rcases mem_exponent_iff.1 hpower with ⟨e, he, rfl⟩
        exact ⟨⟨negative, whole, digits, some e⟩, ⟨hwhole, hdigits, by simpa using he⟩,
          by simp [Numeral.isWhole], by simp [Numeral.text, hne]⟩
    · rcases mem_exponent_iff.1 hexponent with ⟨e, he, rfl⟩
      exact ⟨⟨negative, whole, [], some e⟩, ⟨hwhole, by simp, by simpa using he⟩,
        by simp [Numeral.isWhole], by simp [Numeral.text]⟩
  · rintro ⟨⟨negative, whole, digits, power⟩, ⟨hwhole, hdigits, hpower⟩, hnotWhole, rfl⟩
    refine ⟨_, mem_integer_iff.2 ⟨negative, whole, hwhole, rfl⟩,
      (if digits.isEmpty then [] else '.' :: digits) ++ (power.map Exponent.text).getD [], ?_,
      by simp [Numeral.text]⟩
    cases power with
    | none =>
        have hne : digits ≠ [] := by simpa [Numeral.isWhole] using hnotWhole
        refine .inl (Language.append_mem_mul ?_ (.inl rfl))
        simpa [hne] using mem_fraction_iff.2 ⟨digits, hne, hdigits, rfl⟩
    | some e =>
        have he := mem_exponent_iff.2 ⟨e, hpower e rfl, rfl⟩
        by_cases hne : digits = []
        · subst hne
          exact .inr he
        · refine .inl (Language.append_mem_mul ?_ (.inr he))
          simpa [hne] using mem_fraction_iff.2 ⟨digits, hne, hdigits, rfl⟩

end Pattern

/-! ## The longest numeral -/

/-- A run of characters of a class is all there is of it, or it goes on. -/
theorem takeWhile_append_cases {p : Char → Bool} {cs : List Char} (hall : ∀ c ∈ cs, p c = true)
    (rest : List Char) :
    (cs ++ rest).takeWhile p = cs ∨
      (∃ c ∈ rest.head?, p c = true) ∧ cs.length < ((cs ++ rest).takeWhile p).length := by
  rw [List.takeWhile_append_of_pos hall]
  cases rest with
  | nil => simp
  | cons c rest =>
      cases hc : p c with
      | false => simp [hc]
      | true => simp [hc]

theorem not_endsLiteral_of_isDigit {c : Char} {rest : List Char} (hc : c ∈ rest.head?)
    (h : c.isDigit = true) : ¬ EndsLiteral rest := by
  intro hends
  have hpart : isIdentifierPart c = true := by simp [isIdentifierPart, Char.isAlphanum, h]
  simpa [hpart] using hends c hc

namespace Exponent

variable {e : Exponent}

theorem WellFormed.head?_text (he : e.WellFormed) (rest : List Char) :
    ∀ c ∈ (e.text ++ rest).head?, c = 'e' ∨ c = 'E' := by
  intro c hc
  have heq : e.mark = c := by simpa [text] using hc
  exact heq ▸ he.mark

theorem read?_text_append (he : e.WellFormed) (rest : List Char) :
    ∃ e', read? (e.text ++ rest) = some e' ∧
      (e' = e ∨ (∃ c ∈ rest.head?, c.isDigit = true) ∧ e.text.length < e'.text.length) := by
  rcases e with ⟨mark, sign, digits⟩
  rcases he with ⟨hmark, hsign, hne, hdigits⟩
  have hmark' : (mark = 'e' || mark = 'E') = true := by simpa using hmark
  have hrun := takeWhile_append_cases hdigits rest
  have hlonger : digits.length ≤ ((digits ++ rest).takeWhile Char.isDigit).length := by
    rcases hrun with heq | ⟨-, hlt⟩
    · rw [heq]
    · exact hlt.le
  have hrunNe : (digits ++ rest).takeWhile Char.isDigit ≠ [] := by
    intro hnil
    rw [hnil] at hlonger
    exact hne (List.length_eq_zero_iff.1 (Nat.le_zero.1 hlonger))
  have hread : read? (mark :: (sign.toList ++ (digits ++ rest))) =
      some ⟨mark, sign, (digits ++ rest).takeWhile Char.isDigit⟩ := by
    cases sign with
    | some c => rcases hsign c rfl with rfl | rfl <;> simpa [read?, hmark'] using hrunNe
    | none =>
        cases digits with
        | nil => exact absurd rfl hne
        | cons d ds =>
            have hdigit : d.isDigit = true := hdigits d (by simp)
            have hplus : d ≠ '+' := by
              rintro rfl
              cases hdigit
            have hminus : d ≠ '-' := by
              rintro rfl
              cases hdigit
            simp only [List.cons_append] at hrunNe
            simpa [read?, hmark', hplus, hminus] using hrunNe
  refine ⟨_, by simpa [text] using hread, ?_⟩
  rcases hrun with heq | ⟨hhead, hlt⟩
  · exact .inl (by rw [heq])
  · exact .inr ⟨hhead, by simpa [text] using hlt⟩

theorem wellFormed_of_digits (sign : Option Char) {mark : Char} {rest : List Char}
    (hmark : mark = 'e' ∨ mark = 'E') (hsign : ∀ c ∈ sign, c = '+' ∨ c = '-')
    (hne : rest.takeWhile Char.isDigit ≠ []) :
    let e : Exponent := ⟨mark, sign, rest.takeWhile Char.isDigit⟩
    e.WellFormed ∧ e.text <+: mark :: (sign.toList ++ rest) := by
  refine ⟨⟨hmark, hsign, hne, fun c hc => List.mem_takeWhile_imp hc⟩, ?_⟩
  exact (List.prefix_cons_inj mark).2
    ((List.prefix_append_right_inj _).2 (List.takeWhile_prefix _))

/-- An exponent that is read is well-formed and starts the text. -/
theorem wellFormed_of_read? {cs : List Char} (h : read? cs = some e) :
    e.WellFormed ∧ e.text <+: cs := by
  cases cs with
  | nil => cases h
  | cons mark rest =>
      unfold read? at h
      dsimp only at h
      split at h
      · rename_i hmark
        have hmark : mark = 'e' ∨ mark = 'E' := by simpa using hmark
        split at h <;> split_ifs at h with hnil <;> cases h
        · exact wellFormed_of_digits (some '+') hmark (by simp) (by simpa using hnil)
        · exact wellFormed_of_digits (some '-') hmark (by simp) (by simpa using hnil)
        · exact wellFormed_of_digits none hmark (by simp) (by simpa using hnil)
      · cases h

end Exponent

namespace Numeral

variable {n : Numeral}

/-- The spelling of a fraction with its point. -/
def fractionText (digits : List Char) : List Char :=
  if digits.isEmpty then [] else '.' :: digits

/-- The spelling of an exponent that may be missing. -/
def powerText (exponent : Option Exponent) : List Char :=
  (exponent.map Exponent.text).getD []

@[simp] theorem fractionText_nil : fractionText [] = [] := rfl

@[simp] theorem fractionText_cons (d : Char) (ds : List Char) :
    fractionText (d :: ds) = '.' :: d :: ds := rfl

@[simp] theorem powerText_none : powerText none = [] := rfl

@[simp] theorem powerText_some (e : Exponent) : powerText (some e) = e.text := rfl

theorem text_eq (n : Numeral) :
    n.text = (if n.negative then ['-'] else []) ++
      (n.whole ++ (fractionText n.fraction ++ powerText n.exponent)) := by
  simp [text, fractionText, powerText]

theorem length_text (n : Numeral) :
    n.text.length = (if n.negative then 1 else 0) + n.whole.length +
      (fractionText n.fraction).length + (powerText n.exponent).length := by
  cases hnegative : n.negative <;> simp [text_eq, hnegative] <;> omega

/-- A numeral without exponent is shorter than one with a longer whole part or, behind the same
whole part, a longer fraction. -/
theorem length_text_lt {m : Numeral} (hnegative : n.negative = m.negative)
    (hexponent : n.exponent = none)
    (h : n.whole.length < m.whole.length ∧ n.fraction = [] ∨
      n.whole.length = m.whole.length ∧ n.fraction.length < m.fraction.length) :
    n.text.length < m.text.length := by
  rw [length_text, length_text, hnegative, hexponent, powerText_none, List.length_nil]
  rcases h with ⟨hlt, hnil⟩ | ⟨heq, hlt⟩
  · rw [hnil, fractionText_nil, List.length_nil]
    omega
  · have hfraction : (fractionText n.fraction).length < (fractionText m.fraction).length := by
      cases hn : n.fraction <;> cases hm : m.fraction <;> simp_all
    omega

theorem IsWholePart.isDigit {whole : List Char} (h : IsWholePart whole) :
    ∀ d ∈ whole, d.isDigit = true := by
  rcases h with rfl | ⟨c, cs, hnonzero, hdigits, rfl⟩
  · simp
  · simpa [Pattern.isDigit_of_isNonzeroDigit hnonzero] using hdigits

theorem wholePart_append_cases {whole : List Char} (h : IsWholePart whole) (rest : List Char) :
    wholePart (whole ++ rest) = whole ∨
      (∃ c ∈ rest.head?, c.isDigit = true) ∧
        whole.length < (wholePart (whole ++ rest)).length := by
  rcases h with rfl | ⟨c, cs, hnonzero, hdigits, rfl⟩
  · exact .inl rfl
  · have hzero : c ≠ '0' := by
      rintro rfl
      cases hnonzero
    have hall := IsWholePart.isDigit (.inr ⟨c, cs, hnonzero, hdigits, rfl⟩)
    simpa [wholePart, hzero] using takeWhile_append_cases hall rest

theorem fractionPart_append_cases {digits : List Char} (hdigits : ∀ c ∈ digits, c.isDigit = true)
    (rest : List Char) :
    fractionPart (fractionText digits ++ rest) = digits ∨
      (∃ c ∈ rest.head?, c = '.' ∨ c.isDigit = true) ∧
        digits.length < (fractionPart (fractionText digits ++ rest)).length := by
  cases digits with
  | cons d ds =>
      rcases takeWhile_append_cases hdigits rest with heq | ⟨⟨c, hc, hdigit⟩, hlt⟩
      · exact .inl heq
      · exact .inr ⟨⟨c, hc, .inr hdigit⟩, hlt⟩
  | nil =>
      by_cases hnil : fractionPart rest = []
      · exact .inl hnil
      · refine .inr ⟨?_, List.length_pos_iff.2 hnil⟩
        unfold fractionPart at hnil
        split at hnil
        · exact ⟨'.', rfl, .inl rfl⟩
        · exact absurd rfl hnil

theorem WellFormed.whole_ne_nil (hn : n.WellFormed) : n.whole ≠ [] := by
  rcases hn.whole with h | ⟨c, cs, -, -, h⟩ <;> simp [h]

/-- What stands behind the fraction of a numeral starts with no point and no digit, unless the
numeral is over there. -/
theorem WellFormed.exponent_eq_none (hn : n.WellFormed) {rest : List Char}
    (h : ∃ c ∈ (powerText n.exponent ++ rest).head?, c = '.' ∨ c.isDigit = true) :
    n.exponent = none := by
  cases hexponent : n.exponent with
  | none => rfl
  | some e =>
      rw [hexponent] at h
      rcases h with ⟨c, hc, hclass⟩
      have hmark := (hn.exponent e hexponent).head?_text rest c hc
      rcases hmark with rfl | rfl <;> rcases hclass with hclass | hclass <;> cases hclass

/-- What stands behind the whole part starts with no digit, unless the numeral is over there. -/
theorem WellFormed.fraction_eq_nil (hn : n.WellFormed) {rest : List Char}
    (h : ∃ c ∈ (fractionText n.fraction ++ (powerText n.exponent ++ rest)).head?,
      c.isDigit = true) : n.fraction = [] ∧ n.exponent = none := by
  rcases h with ⟨c, hc, hdigit⟩
  cases hfraction : n.fraction with
  | nil =>
      rw [hfraction] at hc
      exact ⟨rfl, hn.exponent_eq_none ⟨c, hc, .inr hdigit⟩⟩
  | cons d ds =>
      rw [hfraction] at hc
      have hpoint : '.' = c := by simpa using hc
      subst hpoint
      cases hdigit

/-- The numeral that is read with a given whole part in front of the text. -/
def behindWhole (negative : Bool) (whole rest : List Char) : Numeral :=
  let fraction := fractionPart rest
  ⟨negative, whole, fraction,
    Exponent.read? (if fraction.isEmpty then rest else rest.drop (fraction.length + 1))⟩

theorem readUnsigned?_of_wholePart {negative : Bool} {cs : List Char} (h : wholePart cs ≠ []) :
    readUnsigned? negative cs =
      some (behindWhole negative (wholePart cs) (cs.drop (wholePart cs).length)) := by
  simp [readUnsigned?, behindWhole, h]

theorem exponent_append_cases (hn : n.WellFormed) (rest : List Char) :
    let m := { n with exponent := Exponent.read? (powerText n.exponent ++ rest) }
    m = n ∨ ¬ EndsLiteral rest ∧ n.text.length < m.text.length := by
  rcases n with ⟨negative, whole, fraction, exponent⟩
  cases exponent with
  | none =>
      cases hread : Exponent.read? rest with
      | none => exact .inl (by simp [hread])
      | some e =>
          rcases Exponent.wellFormed_of_read? hread with ⟨he, hstarts⟩
          refine .inr ⟨?_, by simp [hread, length_text, Exponent.text]⟩
          intro hends
          have hhead : e.mark ∈ rest.head? := by
            rcases hstarts with ⟨behind, rfl⟩
            rfl
          have hpart := (hends e.mark hhead).1
          rcases he.mark with hmark | hmark <;> rw [hmark] at hpart <;> cases hpart
  | some e =>
      rcases Exponent.read?_text_append (hn.exponent e rfl) rest with
        ⟨e', hread, rfl | ⟨⟨c, hc, hdigit⟩, hlt⟩⟩
      · exact .inl (by simp [hread])
      · exact .inr ⟨not_endsLiteral_of_isDigit hc hdigit,
          by simpa [hread, length_text] using hlt⟩

/-- Behind the whole part of a numeral, reading finds the rest of it or more. -/
theorem behindWhole_append_cases (hn : n.WellFormed) (rest : List Char) :
    let m := behindWhole n.negative n.whole
      (fractionText n.fraction ++ (powerText n.exponent ++ rest))
    m = n ∨ ¬ EndsLiteral rest ∧ n.text.length < m.text.length := by
  rcases fractionPart_append_cases hn.fraction (powerText n.exponent ++ rest) with
    hfraction | ⟨hhead, hlonger⟩
  · have hdrop : (if n.fraction.isEmpty then
          fractionText n.fraction ++ (powerText n.exponent ++ rest)
        else (fractionText n.fraction ++ (powerText n.exponent ++ rest)).drop
          (n.fraction.length + 1)) = powerText n.exponent ++ rest := by
      cases n.fraction <;> simp
    simp only [behindWhole, hfraction, hdrop]
    exact exponent_append_cases hn rest
  -- a longer fraction leaves no room for the exponent that the numeral had
  · have hnone := hn.exponent_eq_none hhead
    refine .inr ⟨?_, length_text_lt rfl hnone (.inr ⟨rfl, hlonger⟩)⟩
    rw [hnone, powerText_none, List.nil_append] at hhead
    rcases hhead with ⟨c, hc, rfl | hdigit⟩
    · exact fun hends => (hends '.' hc).2 rfl
    · exact not_endsLiteral_of_isDigit hc hdigit

/-- Reading a text that starts with the parts of a numeral finds that numeral or a longer one. -/
theorem readUnsigned?_append_cases (hn : n.WellFormed) (rest : List Char) :
    ∃ m, readUnsigned? n.negative
        (n.whole ++ (fractionText n.fraction ++ (powerText n.exponent ++ rest))) = some m ∧
      (m = n ∨ ¬ EndsLiteral rest ∧ n.text.length < m.text.length) := by
  have hwholeNe := hn.whole_ne_nil
  rcases wholePart_append_cases hn.whole
      (fractionText n.fraction ++ (powerText n.exponent ++ rest)) with
    hwhole | ⟨hhead, hlonger⟩
  · refine ⟨_, readUnsigned?_of_wholePart (by rwa [hwhole]), ?_⟩
    rw [hwhole, List.drop_left]
    exact behindWhole_append_cases hn rest
  -- a longer whole part leaves room for neither fraction nor exponent
  · rcases hn.fraction_eq_nil hhead with ⟨hfraction, hnone⟩
    refine ⟨_, readUnsigned?_of_wholePart (List.ne_nil_of_length_pos (by omega)),
      .inr ⟨?_, length_text_lt rfl hnone (.inl ⟨hlonger, hfraction⟩)⟩⟩
    rw [hfraction, hnone] at hhead
    rcases hhead with ⟨c, hc, hdigit⟩
    exact not_endsLiteral_of_isDigit hc hdigit

theorem read?_of_head {cs : List Char} (h : cs.head? ≠ some '-') :
    read? cs = readUnsigned? false cs := by
  unfold read?
  split
  · exact absurd rfl h
  · rfl

/-- Reading a text that starts with a numeral finds that numeral, or a longer one if the text goes
on with what a numeral can run into. -/
theorem read?_text_append (hn : n.WellFormed) (rest : List Char) :
    ∃ m, read? (n.text ++ rest) = some m ∧
      (m = n ∨ ¬ EndsLiteral rest ∧ n.text.length < m.text.length) := by
  have hparts := readUnsigned?_append_cases hn rest
  cases hnegative : n.negative with
  | true =>
      rw [hnegative] at hparts
      have htext : n.text ++ rest =
          '-' :: (n.whole ++ (fractionText n.fraction ++ (powerText n.exponent ++ rest))) := by
        simp [text_eq, hnegative]
      rwa [htext]
  | false =>
      rw [hnegative] at hparts
      have htext : n.text ++ rest =
          n.whole ++ (fractionText n.fraction ++ (powerText n.exponent ++ rest)) := by
        simp [text_eq, hnegative]
      rw [htext, read?_of_head]
      · exact hparts
      · rcases hn.whole with hwhole | ⟨c, cs, hnonzero, -, hwhole⟩
        · simp [hwhole]
        · rw [hwhole]
          rintro ⟨⟩
          cases hnonzero

theorem WellFormed.read?_text_append (hn : n.WellFormed) {rest : List Char}
    (hrest : EndsLiteral rest) : read? (n.text ++ rest) = some n := by
  rcases Numeral.read?_text_append hn rest with ⟨m, hread, rfl | ⟨hends, -⟩⟩
  · exact hread
  · exact absurd hrest hends

theorem WellFormed.read?_text (hn : n.WellFormed) : read? n.text = some n := by
  have hnil : EndsLiteral [] := by simp [EndsLiteral]
  simpa using hn.read?_text_append hnil

theorem isWholePart_of_ne_nil {cs : List Char} (h : wholePart cs ≠ []) :
    IsWholePart (wholePart cs) ∧ wholePart cs <+: cs := by
  cases cs with
  | nil => exact absurd rfl h
  | cons c rest =>
      by_cases hzero : c = '0'
      · subst hzero
        exact ⟨.inl rfl, rest, rfl⟩
      · have hwhole : wholePart (c :: rest) = (c :: rest).takeWhile Char.isDigit := by
          simp [wholePart, hzero]
        rw [hwhole] at h ⊢
        refine ⟨.inr ?_, List.takeWhile_prefix _⟩
        cases hdigit : c.isDigit with
        | false => simp [hdigit] at h
        | true =>
            refine ⟨c, rest.takeWhile Char.isDigit, ?_, fun d hd => List.mem_takeWhile_imp hd,
              by simp [hdigit]⟩
            have hcode := Char.isDigit_iff_toNat.1 hdigit
            have hne : c.toNat ≠ '0'.toNat := fun heq => hzero (Char.toNat_inj.1 heq)
            have hone : '1'.toNat ≤ c.toNat := by
              have hzeroCode : '0'.toNat = 48 := rfl
              have honeCode : '1'.toNat = 49 := rfl
              omega
            simp only [Pattern.isNonzeroDigit, Bool.and_eq_true, decide_eq_true_eq]
            exact ⟨hone, hcode.2⟩

theorem isDigit_of_mem_fractionPart {cs : List Char} :
    ∀ c ∈ fractionPart cs, c.isDigit = true := by
  intro c hc
  unfold fractionPart at hc
  split at hc
  · exact List.mem_takeWhile_imp hc
  · cases hc

theorem fractionText_append_rest (cs : List Char) :
    fractionText (fractionPart cs) ++
      (if (fractionPart cs).isEmpty then cs else cs.drop ((fractionPart cs).length + 1)) = cs := by
  by_cases hnil : fractionPart cs = []
  · simp [hnil]
  · unfold fractionPart at hnil ⊢
    split at hnil
    · rename_i rest
      have hdrop := List.prefix_iff_eq_append.1 (List.takeWhile_prefix Char.isDigit (l := rest))
      simpa [fractionText, hnil] using hdrop
    · exact absurd rfl hnil

theorem powerText_starts (cs : List Char) : powerText (Exponent.read? cs) <+: cs := by
  cases hread : Exponent.read? cs with
  | none => exact List.nil_prefix
  | some e => exact (Exponent.wellFormed_of_read? hread).2

theorem wellFormed_of_readUnsigned? {negative : Bool} {cs : List Char}
    (h : readUnsigned? negative cs = some n) :
    n.negative = negative ∧ n.WellFormed ∧
      n.whole ++ (fractionText n.fraction ++ powerText n.exponent) <+: cs := by
  have hne := wholePart_ne_nil_of_readUnsigned? h
  rw [readUnsigned?_of_wholePart hne] at h
  cases h
  rcases isWholePart_of_ne_nil hne with ⟨hwhole, hstarts⟩
  refine ⟨rfl, ⟨hwhole, isDigit_of_mem_fractionPart, ?_⟩, ?_⟩
  · intro e he
    exact (Exponent.wellFormed_of_read? he).1
  · have hwholeRest := List.prefix_iff_eq_append.1 hstarts
    have hfractionRest := fractionText_append_rest (cs.drop (wholePart cs).length)
    have hpower := powerText_starts
      (if (fractionPart (cs.drop (wholePart cs).length)).isEmpty then
        cs.drop (wholePart cs).length
      else (cs.drop (wholePart cs).length).drop
        ((fractionPart (cs.drop (wholePart cs).length)).length + 1))
    have hrest := (List.prefix_append_right_inj
      (fractionText (fractionPart (cs.drop (wholePart cs).length)))).2 hpower
    rw [hfractionRest] at hrest
    have hall := (List.prefix_append_right_inj (wholePart cs)).2 hrest
    rwa [hwholeRest] at hall

/-- A numeral that is read is well-formed and starts the text. -/
theorem wellFormed_of_read? {cs : List Char} (h : read? cs = some n) :
    n.WellFormed ∧ n.text <+: cs := by
  unfold read? at h
  split at h
  · rename_i cs
    rcases wellFormed_of_readUnsigned? h with ⟨hnegative, hn, hstarts⟩
    refine ⟨hn, ?_⟩
    rw [text_eq, hnegative]
    exact (List.prefix_cons_inj '-').2 hstarts
  · rcases wellFormed_of_readUnsigned? h with ⟨hnegative, hn, hstarts⟩
    refine ⟨hn, ?_⟩
    rw [text_eq, hnegative]
    exact hstarts

/-! ## The kind of a number -/

/-- The kind of token that a numeral is. -/
def kind (n : Numeral) : TokenKind :=
  if n.isWhole then .int else .float

theorem mem_int_iff {cs : List Char} :
    cs ∈ TokenKind.int.pattern ↔ ∃ n : Numeral, n.WellFormed ∧ n.kind = .int ∧ cs = n.text := by
  refine Iff.trans Pattern.mem_integer_iff ?_
  constructor
  · rintro ⟨negative, whole, hwhole, rfl⟩
    exact ⟨_, ⟨hwhole, by simp, by simp⟩, rfl, rfl⟩
  · rintro ⟨⟨negative, whole, fraction, exponent⟩, hn, hkind, rfl⟩
    have hparts : fraction = [] ∧ exponent = none := by
      cases fraction <;> cases exponent <;> simp_all [kind, isWhole]
    rcases hparts with ⟨rfl, rfl⟩
    exact ⟨negative, whole, hn.whole, rfl⟩

theorem mem_float_iff {cs : List Char} :
    cs ∈ TokenKind.float.pattern ↔
      ∃ n : Numeral, n.WellFormed ∧ n.kind = .float ∧ cs = n.text := by
  refine Iff.trans Pattern.mem_float_iff ?_
  simp [kind]

theorem WellFormed.mem_pattern (hn : n.WellFormed) : n.text ∈ n.kind.pattern := by
  cases hkind : n.isWhole with
  | true =>
      have heq : n.kind = .int := by simp [kind, hkind]
      rw [heq]
      exact mem_int_iff.2 ⟨n, hn, heq, rfl⟩
  | false =>
      have heq : n.kind = .float := by simp [kind, hkind]
      rw [heq]
      exact mem_float_iff.2 ⟨n, hn, heq, rfl⟩

end Numeral

theorem LexesAs.number {text rest : List Char} {n : Numeral} {kind : TokenKind} {literal : Literal}
    (hread : Numeral.read? text = some n) (htext : n.text = text)
    (hliteral : Lexeme.numberLiteral? n = some (kind, literal)) (hrest : EndsLiteral rest) :
    LexesAs text (kind, .literal literal) rest := by
  cases text with
  | nil => exact absurd htext (Lexeme.text_ne_nil_of_read? hread)
  | cons c cs =>
      have hhead := Numeral.head_of_read? hread
      have hsep : TokenStream.isSeparator c = false := by
        rcases hhead with rfl | hdigit
        · rfl
        · exact TokenStream.isSeparator_eq_false (by rfl) hdigit
      have hread' : Numeral.read? (c :: (cs ++ rest)) = some n := by
        rw [← List.cons_append, ← htext]
        exact (Numeral.wellFormed_of_read? hread).1.read?_text_append hrest
      refine ⟨c, cs, rfl, hsep, ?_⟩
      rw [Lexeme.start_of_read? hread']
      simp [Lexeme.number, htext, hliteral]

end FieldFilter
