import FieldFilter.Interchange
import FieldFilter.Proofs.Documents.Yields
import FieldFilter.Proofs.Lexing.Numerals
import FieldFilter.Proofs.Lexing.StringLiterals

/-!
# Scalars that are written and read

* `Json.Ends` — the texts that no value in front of them runs into;
* `Reader.stringRest_flatMap` — a string that is written is read;
* `Reader.number_append` — a number is read as if it stood alone;
* `Reader.numberAs_append`, `Reader.integer_intText` — so is a value that is made from one, and an
  integer that is written is read.
-/

namespace FieldFilter
namespace Json

/-- A text that ends what stands in front of it: it is empty, or starts with a comma, with a bracket
that closes or with a new line. -/
def Ends (rest : List Char) : Prop :=
  ∀ c ∈ rest.head?, c = ',' ∨ c = ']' ∨ c = '\x7d' ∨ c = '\n'

namespace Ends

variable {rest : List Char} {p : Char → Bool}

theorem nil : Ends [] := by
  simp [Ends]

theorem comma (rest : List Char) : Ends (',' :: rest) := by
  simp [Ends]

theorem bracket (rest : List Char) : Ends (']' :: rest) := by
  simp [Ends]

theorem brace (rest : List Char) : Ends ('\x7d' :: rest) := by
  simp [Ends]

/-- What ends a value on its line does so on a line of its own. -/
theorem lineBreak (h : Ends rest) (layout : Layout) : Ends (layout.lineBreak ++ rest) := by
  cases layout with
  | inline => exact h
  | lines level => simp [Ends, Layout.lineBreak]

theorem eq_false (h : Ends rest) (hp : [',', ']', '\x7d', '\n'].all (fun c => !p c) = true) :
    ∀ c ∈ rest.head?, p c = false := by
  intro c hc
  have hnot := List.all_eq_true.1 hp c (by simpa using h c hc)
  simpa using hnot

theorem takeWhile_append (h : Ends rest) (hp : [',', ']', '\x7d', '\n'].all (fun c => !p c) = true)
    (cs : List Char) : (cs ++ rest).takeWhile p = cs.takeWhile p := by
  induction cs with
  | nil =>
      cases rest with
      | nil => rfl
      | cons c rest => simp [h.eq_false hp c rfl]
  | cons c cs ih => simp only [List.cons_append, List.takeWhile_cons, ih]

theorem dropWhile_append (h : Ends rest) (hp : [',', ']', '\x7d', '\n'].all (fun c => !p c) = true)
    (cs : List Char) : (cs ++ rest).dropWhile p = cs.dropWhile p ++ rest := by
  induction cs with
  | nil =>
      cases rest with
      | nil => rfl
      | cons c rest => simp [h.eq_false hp c rfl]
  | cons c cs ih =>
      simp only [List.cons_append, List.dropWhile_cons, ih]
      split <;> rfl

end Ends

namespace Reader

variable {rest : List Char}

/-! ## Blanks -/

/-- A text of nothing but blanks. -/
def IsBlank (cs : List Char) : Prop :=
  ∀ c ∈ cs, isSpace c = true

theorem isBlank_nil : IsBlank [] := by
  simp [IsBlank]

theorem isBlank_lineBreak (layout : Layout) : IsBlank layout.lineBreak := by
  cases layout <;> simp [IsBlank, Layout.lineBreak, isSpace]

theorem skipSpace_cons {c : Char} (h : isSpace c = false) (cs : List Char) :
    skipSpace (c :: cs) = c :: cs := by
  rw [skipSpace, List.dropWhile_cons, h]
  rfl

theorem skipSpace_append {blank : List Char} (h : IsBlank blank) (cs : List Char) :
    skipSpace (blank ++ cs) = skipSpace cs :=
  List.dropWhile_append_of_pos h

theorem skipSpace_append_cons {blank : List Char} {c : Char} (hblank : IsBlank blank)
    (hc : isSpace c = false) (cs : List Char) : skipSpace (blank ++ c :: cs) = c :: cs := by
  rw [skipSpace_append hblank, skipSpace_cons hc]

/-! ## Strings -/

/-- However a character of a string is written, it is read as that character. -/
theorem stringRest_stringChar (c : Char) (rest : List Char) :
    stringRest none (stringChar c ++ rest) = do
      let (cs, rest) ← stringRest none rest
      return (c :: cs, rest) := by
  unfold stringChar
  split_ifs with hquote hbackslash hback htab hnewline hfeed hreturn hcontrol
  -- the characters with a short escape
  any_goals
    subst c
    rw [List.cons_append, stringRest.eq_def]
    rfl
  · have hsmall : c.toNat < 0xa0 := by omega
    rcases StringLiteral.exists_hexFour hsmall with ⟨h₁, h₂, h₃, h₄, hdigits, hunit⟩
    have hlow : StringLiteral.isLowUnit c.toNat = false := by
      simp [StringLiteral.isLowUnit]
      omega
    have hhigh : StringLiteral.isHighUnit c.toNat = false := by
      simp [StringLiteral.isHighUnit]
      omega
    rw [hdigits, stringRest.eq_def]
    simp only [List.cons_append, List.nil_append, hunit, hlow, hhigh, Char.ofNat_toNat]
    rfl
  · rw [List.cons_append, List.nil_append, stringRest.eq_def]
    simp [hquote, hbackslash, hcontrol]

/-- A string that is written is read up to its quotation mark. -/
theorem stringRest_flatMap (cs rest : List Char) :
    stringRest none (cs.flatMap stringChar ++ '"' :: rest) = .ok (cs, rest) := by
  induction cs with
  | nil =>
      rw [List.flatMap_nil, List.nil_append, stringRest.eq_def]
      rfl
  | cons c cs ih =>
      rw [List.flatMap_cons, List.append_assoc, stringRest_stringChar, ih]
      rfl

theorem stringText_append (cs rest : List Char) :
    stringText cs ++ rest = '"' :: (cs.flatMap stringChar ++ '"' :: rest) := by
  simp [stringText]

theorem string_stringText {blank : List Char} (hblank : IsBlank blank) (cs rest : List Char) :
    string (blank ++ (stringText cs ++ rest)) = .ok (cs, rest) := by
  rw [stringText_append, string, skipSpace_append_cons hblank (by decide)]
  exact stringRest_flatMap cs rest

/-! ## Numbers -/

section
variable {early : ReadError} {cs left ds : List Char} {isNegative : Bool} {n : Number}

theorem digits_append (hends : Ends rest) (h : digits early cs = .ok (ds, left)) :
    digits early (cs ++ rest) = .ok (ds, left ++ rest) := by
  simp only [digits, hends.takeWhile_append (p := Char.isDigit) (by decide),
    hends.dropWhile_append (p := Char.isDigit) (by decide)] at h ⊢
  split_ifs at h ⊢
  cases h
  rfl

theorem wholeDigits_append (hends : Ends rest) (h : wholeDigits early cs = .ok (ds, left)) :
    wholeDigits early (cs ++ rest) = .ok (ds, left ++ rest) := by
  rcases exists_of_bind_eq_ok h with ⟨⟨ds', left'⟩, hdigits, h⟩
  dsimp only at h
  rw [wholeDigits, digits_append hends hdigits]
  split_ifs at h with hzero
  cases h
  exact if_neg hzero

theorem fractionPart_append {fraction : Option (List Char)} (hends : Ends rest)
    (h : fractionPart early cs = .ok (fraction, left)) :
    fractionPart early (cs ++ rest) = .ok (fraction, left ++ rest) := by
  cases cs with
  | nil =>
      cases h
      cases rest with
      | nil => rfl
      | cons c rest => rcases hends c rfl with rfl | rfl | rfl | rfl <;> rfl
  | cons c cs =>
      by_cases hdot : c = '.'
      · subst hdot
        rcases exists_of_bind_eq_ok h with ⟨⟨ds', left'⟩, hdigits, h⟩
        cases h
        rw [List.cons_append, fractionPart, digits_append hends hdigits]
        rfl
      · -- without a point there is no fraction, whatever follows
        have hnone : ∀ ds, fractionPart early (c :: ds) = .ok (none, c :: ds) := by
          intro ds
          simp [fractionPart, hdot]
        rw [hnone] at h
        cases h
        exact hnone _

/-- Whether the sign of an exponent is negative, and the text behind the sign. -/
def afterSign : List Char → Bool × List Char
  | '+' :: rest => (false, rest)
  | '-' :: rest => (true, rest)
  | rest => (false, rest)

theorem afterSign_append (sign : Char) (cs rest : List Char) :
    afterSign (sign :: cs ++ rest) =
      ((afterSign (sign :: cs)).1, (afterSign (sign :: cs)).2 ++ rest) := by
  by_cases hplus : sign = '+'
  · subst hplus
    rfl
  · by_cases hminus : sign = '-'
    · subst hminus
      rfl
    · simp [afterSign, hplus, hminus]

theorem exponentPart_cons {mark : Char} (hmark : mark = 'e' ∨ mark = 'E') (cs : List Char) :
    exponentPart early (mark :: cs) =
      (digits early (afterSign cs).2).map fun (ds, left) =>
        (some ((afterSign cs).1, ds), left) := by
  have hsplit : exponentPart early (mark :: cs) = do
      let (ds, left) ← digits early (afterSign cs).2
      return (some ((afterSign cs).1, ds), left) := by
    rw [exponentPart.eq_def]
    exact if_pos hmark
  rw [hsplit]
  cases digits early (afterSign cs).2 <;> rfl

theorem exponentPart_append {exponent : Option (Bool × List Char)} (hends : Ends rest)
    (h : exponentPart early cs = .ok (exponent, left)) :
    exponentPart early (cs ++ rest) = .ok (exponent, left ++ rest) := by
  cases cs with
  | nil =>
      cases h
      cases rest with
      | nil => rfl
      | cons c rest => rcases hends c rfl with rfl | rfl | rfl | rfl <;> rfl
  | cons mark cs =>
      by_cases hmark : mark = 'e' ∨ mark = 'E'
      · rw [exponentPart_cons hmark] at h
        rw [List.cons_append, exponentPart_cons hmark]
        cases cs with
        | nil => cases h
        | cons sign cs =>
            cases hdigits : digits early (afterSign (sign :: cs)).2 with
            | error error =>
                rw [hdigits] at h
                cases h
            | ok found =>
                rcases found with ⟨ds, left'⟩
                rw [hdigits] at h
                cases h
                rw [afterSign_append, digits_append hends hdigits]
                rfl
      · simp only [exponentPart, if_neg hmark, List.cons_append] at h ⊢
        cases h
        rfl

theorem unsigned_append (hends : Ends rest) (h : unsigned isNegative cs = .ok (n, left)) :
    unsigned isNegative (cs ++ rest) = .ok (n, left ++ rest) := by
  rcases exists_of_bind_eq_ok h with ⟨⟨whole, left₁⟩, hwhole, h⟩
  rcases exists_of_bind_eq_ok h with ⟨⟨fraction, left₂⟩, hfraction, h⟩
  rcases exists_of_bind_eq_ok h with ⟨⟨exponent, left₃⟩, hexponent, h⟩
  simp only [unsigned, wholeDigits_append hends hwhole, fractionPart_append hends hfraction,
    exponentPart_append hends hexponent, bind, Except.bind]
  dsimp only at h
  split at h
  · cases h
    rfl
  · cases h

/-- A number is read in front of what ends it as if it stood alone. -/
theorem number_append (hends : Ends rest) (h : number cs = .ok (n, left)) :
    number (cs ++ rest) = .ok (n, left ++ rest) := by
  cases cs with
  | nil => cases h
  | cons c cs =>
      by_cases hminus : c = '-'
      · subst hminus
        exact unsigned_append hends h
      · have hplain : ∀ ds, number (c :: ds) = unsigned false (c :: ds) := by
          intro ds
          simp [number, hminus]
        rw [hplain] at h
        rw [List.cons_append, hplain]
        exact unsigned_append hends h

end

theorem numberAs_append {α : Type} {rule : Number → Option α} {value : α}
    {blank cs left : List Char} (hblank : IsBlank blank) (hends : Ends rest)
    (h : numberAs rule cs = .ok (value, left)) :
    numberAs rule (blank ++ (cs ++ rest)) = .ok (value, left ++ rest) := by
  -- a text that holds a number is not blank, so no blank behind it is skipped
  rw [numberAs] at h ⊢
  rw [skipSpace_append hblank, skipSpace, List.dropWhile_append]
  cases hcs : skipSpace cs with
  | nil =>
      rw [hcs] at h
      cases h
  | cons c cs =>
      rw [hcs] at h
      rw [skipSpace] at hcs
      simp only [hcs, List.isEmpty_cons, Bool.false_eq_true, if_false, List.cons_append] at h ⊢
      split_ifs at h ⊢ with hstart
      rcases exists_of_bind_eq_ok h with ⟨⟨n, left'⟩, hnumber, h⟩
      have happend := number_append hends hnumber
      rw [List.cons_append] at happend
      rw [happend]
      cases hrule : rule n with
      | none => simp [hrule] at h
      | some found =>
          simp only [hrule] at h
          cases h
          simp [hrule, bind, Except.bind]

/-! ## Integers -/

theorem le_ofDigitChars (significand : Nat) (ds : List Char) :
    significand ≤ Nat.ofDigitChars 10 ds significand :=
  calc
    significand ≤ 10 ^ ds.length * significand := Nat.le_mul_of_pos_left _ (Nat.pow_pos (by decide))
    _ ≤ 10 ^ ds.length * significand + Nat.ofDigitChars 10 ds 0 := Nat.le_add_right _ _
    _ = Nat.ofDigitChars 10 ds significand := Nat.ofDigitChars_eq_ofDigitChars_zero.symm

/-- All digits of a significand are kept while it fits a word. -/
theorem absorb_eq {significand : Nat} {ds : List Char}
    (h : Nat.ofDigitChars 10 ds significand ≤ Number.maxWord) :
    Number.absorb significand ds = (Nat.ofDigitChars 10 ds significand, ds.length) := by
  induction ds generalizing significand with
  | nil => rfl
  | cons d ds ih =>
      rw [Nat.ofDigitChars_cons, Nat.mul_comm 10 significand] at h ⊢
      have hfits : significand * 10 + (d.toNat - '0'.toNat) ≤ Number.maxWord :=
        (le_ofDigitChars _ ds).trans h
      simp only [Number.absorb, if_pos hfits, ih h, List.length_cons]

/-- A number without fraction and exponent is the word that its digits spell. -/
theorem unsigned_toDigits (isNegative : Bool) (n : Nat) :
    unsigned isNegative (Nat.toDigits 10 n) =
      match Number.ofWhole isNegative (Nat.toDigits 10 n) with
      | some number => .ok (number, [])
      | none => .error .malformed := by
  have hall : ∀ c ∈ Nat.toDigits 10 n, c.isDigit = true := fun c hc =>
    Nat.isDigit_of_mem_toDigits (by decide) (by decide) hc
  have htake : (Nat.toDigits 10 n).takeWhile Char.isDigit = Nat.toDigits 10 n :=
    List.takeWhile_eq_self_iff.2 hall
  have hdrop : (Nat.toDigits 10 n).dropWhile Char.isDigit = [] :=
    List.dropWhile_eq_nil_iff.2 hall
  have hdigits : digits .truncated (Nat.toDigits 10 n) = .ok (Nat.toDigits 10 n, []) := by
    rw [digits, htake, hdrop, if_neg (by simp [Nat.toDigits_ne_nil])]
  -- only zero itself starts with a zero
  have hzero : ¬ ((Nat.toDigits 10 n).head? = some '0' ∧ 1 < (Nat.toDigits 10 n).length) := by
    rintro ⟨hhead, hlength⟩
    rcases Nat.eq_zero_or_pos n with rfl | hpos
    · exact absurd hlength (by decide)
    · exact Numeral.head?_toDigits_ne_zero hpos hhead
  have hwhole : wholeDigits .truncated (Nat.toDigits 10 n) = .ok (Nat.toDigits 10 n, []) := by
    rw [wholeDigits, hdigits]
    exact if_neg hzero
  rw [unsigned, hwhole]
  rfl

theorem ofWhole_toDigits (isNegative : Bool) {n : Nat} (h : n ≤ Number.maxWord) :
    Number.ofWhole isNegative (Nat.toDigits 10 n) =
      if !isNegative then some (.natural n)
      else if n = 0 ∨ 0x8000000000000000 < n then some (.signed true n.toUInt64.toFloat)
      else some (.negative (-n)) := by
  have hvalue : Nat.ofDigitChars 10 (Nat.toDigits 10 n) 0 = n :=
    Nat.ofDigitChars_toDigits (by decide) (by decide)
  have habsorb : Number.absorb 0 (Nat.toDigits 10 n) = (n, (Nat.toDigits 10 n).length) := by
    rw [absorb_eq (hvalue.symm ▸ h), hvalue]
  simp only [Number.ofWhole, habsorb, Nat.lt_irrefl, if_false]

/-- An integer that is written is read. -/
theorem integer_intText {blank : List Char} (hblank : IsBlank blank) (value : Int64)
    (hends : Ends rest) :
    integer (blank ++ (Decimal.intText value.toInt ++ rest)) = .ok (value, rest) := by
  have hlower := value.le_toInt
  have hupper := value.toInt_lt
  have hword : value.toInt.natAbs ≤ Number.maxWord := by
    have hmax : Number.maxWord = 2 ^ 64 - 1 := rfl
    omega
  -- it is enough to read the integer where it stands alone
  have halone : integer (Decimal.intText value.toInt) = .ok (value, []) := by
    by_cases hneg : value.toInt < 0
    · have hnumber : number ('-' :: Nat.toDigits 10 value.toInt.natAbs) =
          .ok (.negative value.toInt, []) := by
        have hbounds : ¬ (value.toInt.natAbs = 0 ∨ 0x8000000000000000 < value.toInt.natAbs) := by
          omega
        have habs : -(value.toInt.natAbs : Int) = value.toInt := by omega
        rw [number, unsigned_toDigits, ofWhole_toDigits true hword, if_neg (by decide),
          if_neg hbounds, habs]
      rw [Decimal.intText, if_pos hneg, List.singleton_append, integer, numberAs,
        skipSpace_cons (by decide)]
      simp [hnumber, bind, Except.bind, Int64.ofInt_toInt]
    · have hnumber : unsigned false (Nat.toDigits 10 value.toInt.natAbs) =
          .ok (.natural value.toInt.natAbs, []) := by
        rw [unsigned_toDigits, ofWhole_toDigits false hword]
        rfl
      have habs : (value.toInt.natAbs : Int) = value.toInt := by omega
      have hfits : value.toInt.natAbs < 0x8000000000000000 := by omega
      have hdigits : ∀ c ∈ Nat.toDigits 10 value.toInt.natAbs, c.isDigit = true := fun c hc =>
        Nat.isDigit_of_mem_toDigits (by decide) (by decide) hc
      have hofNat : Int64.ofNat value.toInt.natAbs = value := by
        rw [← Int64.ofInt_eq_ofNat, habs, Int64.ofInt_toInt]
      rw [Decimal.intText, if_neg hneg, List.nil_append, integer, numberAs]
      cases htext : Nat.toDigits 10 value.toInt.natAbs with
      | nil => exact absurd htext Nat.toDigits_ne_nil
      | cons c cs =>
          rw [htext] at hnumber hdigits
          have hdigit := hdigits c (by simp)
          have hspace : isSpace c = false := by
            rw [Bool.eq_false_iff]
            intro hspace
            simp only [isSpace, Bool.or_eq_true, beq_iff_eq] at hspace
            rcases hspace with ((rfl | rfl) | rfl) | rfl <;> cases hdigit
          have hminus : c ≠ '-' := by
            rintro rfl
            cases hdigit
          rw [skipSpace_cons hspace]
          simp [hdigit, number, hminus, hnumber, bind, Except.bind, hfits, hofNat]
  have happend := numberAs_append hblank hends halone
  rwa [List.nil_append] at happend

end Reader
end Json
end FieldFilter
