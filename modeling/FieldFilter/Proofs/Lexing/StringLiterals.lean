import FieldFilter.Proofs.Lexing.Lexes
import FieldFilter.Proofs.Lexing.StringBodies
import Mathlib.Tactic.SplitIfs

/-!
# Canonical string literals

* `StringLiteral.Spelling` — the three ways in which the canonical form spells a character;
* `StringLiteral.body?_encoded` — the canonical form ends where it was closed;
* `StringLiteral.spells_encoded` — and it spells the text that was encoded;
* `LexesAs.string` — a string in canonical form reads as one token.
-/

namespace FieldFilter
namespace StringLiteral

/-! ## Spellings of one character -/

/-- How one character is spelled between double quotes: by a short escape, by its number, or as it
is. -/
inductive Spelling (c : Char) : List Char → Prop where
  | short {e : Char} (h : shortEscape? e = some c) (hend : isLineEnd e = false) (hu : e ≠ 'u') :
      Spelling c ['\\', e]
  | unit {h₁ h₂ h₃ h₄ : Char} (h : unitOf? h₁ h₂ h₃ h₄ = some c.toNat)
      (hhigh : isHighUnit c.toNat = false) (hlow : isLowUnit c.toNat = false) :
      Spelling c ['\\', 'u', h₁, h₂, h₃, h₄]
  | raw (hquote : c ≠ '"') (hbackslash : c ≠ '\\') (hend : isLineEnd c = false) : Spelling c [c]

/-- Four hexadecimal digits spell a unit below U+00A0. -/
theorem exists_hexFour {n : Nat} (h : n < 0xa0) :
    ∃ h₁ h₂ h₃ h₄, Text.hexFour n = [h₁, h₂, h₃, h₄] ∧ unitOf? h₁ h₂ h₃ h₄ = some n := by
  have hchecked : ∀ m < 0xa0, (Text.hexFour m).length = 4 ∧
      unitOf? ((Text.hexFour m).getD 0 '0') ((Text.hexFour m).getD 1 '0')
        ((Text.hexFour m).getD 2 '0') ((Text.hexFour m).getD 3 '0') = some m := by
    decide +kernel
  rcases hchecked n h with ⟨hlength, hunit⟩
  generalize Text.hexFour n = digits at hlength hunit ⊢
  match digits, hlength with
  | [h₁, h₂, h₃, h₄], _ => exact ⟨h₁, h₂, h₃, h₄, rfl, hunit⟩

theorem spelling_encodeChar (c : Char) : Spelling c (encodeChar c) := by
  unfold encodeChar
  split_ifs with hquote hbackslash hnewline htab hreturn hback hfeed hcontrol
  -- the characters with a short escape
  any_goals
    subst c
    exact .short rfl rfl (by decide)
  · have hsmall : c.toNat < 0xa0 := by
      simp only [isControl, Bool.or_eq_true, Bool.and_eq_true, decide_eq_true_eq] at hcontrol
      omega
    rcases exists_hexFour hsmall with ⟨h₁, h₂, h₃, h₄, hdigits, hunit⟩
    rw [hdigits]
    refine .unit hunit ?_ ?_
    · simp [isHighUnit]
      omega
    · simp [isLowUnit]
      omega
  · refine .raw hquote hbackslash ?_
    simp [isLineEnd, hnewline, hreturn]

theorem Spelling.spells {c : Char} {spelling body text : List Char} (h : Spelling c spelling)
    (hbody : Spells '"' body text) : Spells '"' (spelling ++ body) (c :: text) := by
  cases h with
  | short hescape _ _ => exact .short hescape hbody
  | unit hdigits hhigh hlow =>
      rw [← Char.ofNat_toNat c]
      exact .unit hdigits hhigh hlow hbody
  | raw hquote hbackslash hend => exact .raw hbackslash hquote hend hbody

/-! ## The canonical form -/

theorem spells_encoded (cs : List Char) : Spells '"' (cs.flatMap encodeChar) cs := by
  induction cs with
  | nil => exact .nil
  | cons c cs ih => exact (spelling_encodeChar c).spells ih

/-- The canonical form ends at the quotation mark that closes it. -/
theorem body?_encoded (cs rest : List Char) :
    body? '"' (cs.flatMap encodeChar ++ '"' :: rest) = some (cs.flatMap encodeChar) := by
  have hscanned := (spells_encoded cs).scanned (.inl rfl)
  exact Closes.body?_eq (.inl rfl) ⟨hscanned, rest, by simp⟩

end StringLiteral

theorem LexesAs.string (s : String) (rest : List Char) :
    LexesAs (StringLiteral.encode s.toList) (.string, .literal (.string s)) rest := by
  have hbody := StringLiteral.body?_encoded s.toList rest
  have hencode : StringLiteral.encode s.toList =
      '"' :: (s.toList.flatMap StringLiteral.encodeChar ++ ['"']) := rfl
  refine ⟨_, _, hencode, rfl, ?_⟩
  rw [Lexeme.start, if_neg (by decide), if_pos (by decide), Lexeme.quoted, List.append_assoc,
    List.singleton_append, hbody]
  simp [(StringLiteral.spells_encoded s.toList).decode_eq]

end FieldFilter
