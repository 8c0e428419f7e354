import FieldFilter.Proofs.Lexing.TokenStarts

/-!
# What string literals decode to

A body is legal when it is a sequence of items, each of which stands for one character: a raw
character, a short escape, a unit given by number, or two units that make a surrogate pair.

* `StringLiteral.HexDigit`, `StringLiteral.FourDigits` — digits of either case and what they spell;
* `StringLiteral.Denotes` — one item with the character that it stands for;
* `StringLiteral.Legal` — a legal body with the characters of its items;
* `StringLiteral.legal_iff_spells` — the legal bodies are those that decode, to these characters;
* `TokenStream.yieldsAt_string_iff_legal` — the string tokens of a source.
-/

namespace FieldFilter
namespace StringLiteral

variable {quote c : Char} {body text : List Char} {n : Nat}

/-! ## Hexadecimal digits -/

/-- A hexadecimal digit of either case with its value. -/
def HexDigit (c : Char) (n : Nat) : Prop :=
  "0123456789abcdef".toList[n]? = some c ∨ "0123456789ABCDEF".toList[n]? = some c

/-- Four hexadecimal digits with the number that they spell. -/
inductive FourDigits : List Char → Nat → Prop where
  | mk {h₁ h₂ h₃ h₄ : Char} {n₁ n₂ n₃ n₄ : Nat} (hn₁ : HexDigit h₁ n₁) (hn₂ : HexDigit h₂ n₂)
      (hn₃ : HexDigit h₃ n₃) (hn₄ : HexDigit h₄ n₄) :
      FourDigits [h₁, h₂, h₃, h₄] (n₁ * 0x1000 + n₂ * 0x100 + n₃ * 0x10 + n₄)

theorem HexDigit.lt (h : HexDigit c n) : n < 16 := by
  rcases h with h | h
  · exact (List.getElem?_eq_some_iff.1 h).1
  · exact (List.getElem?_eq_some_iff.1 h).1

/-- In a range of digits the value grows with the character. -/
theorem hexDigit_of_range {first last : Char} {value : Nat} (h : first ≤ c ∧ c ≤ last)
    (hdigits : ∀ i < last.toNat - first.toNat + 1,
      HexDigit (Char.ofNat (first.toNat + i)) (i + value)) :
    HexDigit c (c.toNat - first.toNat + value) := by
  have hfirst : first.toNat ≤ c.toNat := h.1
  have hlast : c.toNat ≤ last.toNat := h.2
  have hdigit := hdigits (c.toNat - first.toNat) (by omega)
  rwa [Nat.add_sub_cancel' hfirst, Char.ofNat_toNat] at hdigit

theorem hexDigit_of_hexValue? (h : hexValue? c = some n) : HexDigit c n := by
  unfold hexValue? at h
  split_ifs at h with hdecimal hlower hupper <;> obtain rfl := Option.some.inj h
  · have hdigits : ∀ i < 10, HexDigit (Char.ofNat (48 + i)) i := by
      unfold HexDigit
      decide
    exact @hexDigit_of_range c '0' '9' 0 hdecimal hdigits
  · have hdigits : ∀ i < 6, HexDigit (Char.ofNat (97 + i)) (i + 10) := by
      unfold HexDigit
      decide
    exact hexDigit_of_range hlower hdigits
  · have hdigits : ∀ i < 6, HexDigit (Char.ofNat (65 + i)) (i + 10) := by
      unfold HexDigit
      decide
    exact hexDigit_of_range hupper hdigits

theorem HexDigit.hexValue?_eq (h : HexDigit c n) : hexValue? c = some n := by
  have hlower : ∀ m : Fin 16, hexValue? ("0123456789abcdef".toList[m]) = some m.val := by decide
  have hupper : ∀ m : Fin 16, hexValue? ("0123456789ABCDEF".toList[m]) = some m.val := by decide
  rcases h with h | h <;> rcases List.getElem?_eq_some_iff.1 h with ⟨hn, rfl⟩
  · exact hlower ⟨n, hn⟩
  · exact hupper ⟨n, hn⟩

theorem hexValue?_eq_some_iff : hexValue? c = some n ↔ HexDigit c n :=
  ⟨hexDigit_of_hexValue?, HexDigit.hexValue?_eq⟩

theorem unitOf?_eq_some_iff {h₁ h₂ h₃ h₄ : Char} :
    unitOf? h₁ h₂ h₃ h₄ = some n ↔ FourDigits [h₁, h₂, h₃, h₄] n := by
  simp only [unitOf?, Option.bind_eq_bind, Option.bind_eq_some_iff, Option.pure_def,
    Option.some.injEq, hexValue?_eq_some_iff]
  constructor
  · rintro ⟨n₁, hn₁, n₂, hn₂, n₃, hn₃, n₄, hn₄, rfl⟩
    have hvalue : ((n₁ * 16 + n₂) * 16 + n₃) * 16 + n₄ =
        n₁ * 0x1000 + n₂ * 0x100 + n₃ * 0x10 + n₄ := by omega
    rw [hvalue]
    exact .mk hn₁ hn₂ hn₃ hn₄
  · rintro ⟨hn₁, hn₂, hn₃, hn₄⟩
    exact ⟨_, hn₁, _, hn₂, _, hn₃, _, hn₄, by omega⟩

theorem FourDigits.lt {digits : List Char} (h : FourDigits digits n) : n < 0x10000 := by
  rcases h with ⟨hn₁, hn₂, hn₃, hn₄⟩
  have := hn₁.lt
  have := hn₂.lt
  have := hn₃.lt
  have := hn₄.lt
  omega

/-! ## Items -/

/-- The characters that make an escape on their own, each with the character that it stands for. -/
def shortEscapes : List (Char × Char) :=
  [('"', '"'), ('\'', '\''), ('\\', '\\'), ('/', '/'), ('b', '\x08'), ('f', '\x0c'), ('n', '\n'),
    ('r', '\r'), ('t', '\t')]

theorem shortEscape?_eq_some_iff {e : Char} :
    shortEscape? e = some c ↔ (e, c) ∈ shortEscapes := by
  constructor
  · intro h
    unfold shortEscape? at h
    split at h <;> cases h <;> decide
  · intro h
    simp only [shortEscapes, List.mem_cons, Prod.mk.injEq, List.not_mem_nil, or_false] at h
    rcases h with ⟨rfl, rfl⟩ | ⟨rfl, rfl⟩ | ⟨rfl, rfl⟩ | ⟨rfl, rfl⟩ | ⟨rfl, rfl⟩ | ⟨rfl, rfl⟩ |
      ⟨rfl, rfl⟩ | ⟨rfl, rfl⟩ | ⟨rfl, rfl⟩ <;> rfl

/-- One item of a legal body with the character that it stands for.  No character has the number of
half a surrogate pair, so a unit on its own is none. -/
inductive Denotes (quote : Char) : List Char → Char → Prop where
  | raw {c : Char} (hquote : c ≠ quote) (hbackslash : c ≠ '\\') (hreturn : c ≠ '\r')
      (hfeed : c ≠ '\n') : Denotes quote [c] c
  | short {e c : Char} (hescape : (e, c) ∈ shortEscapes) : Denotes quote ['\\', e] c
  | unit {digits : List Char} {n : Nat} {c : Char} (hdigits : FourDigits digits n)
      (hvalue : c.toNat = n) : Denotes quote (['\\', 'u'] ++ digits) c
  | pair {highs lows : List Char} {high low : Nat} {c : Char} (hhighs : FourDigits highs high)
      (hlows : FourDigits lows low) (hhigh : 0xd800 ≤ high ∧ high ≤ 0xdbff)
      (hlow : 0xdc00 ≤ low ∧ low ≤ 0xdfff)
      (hvalue : c.toNat = 0x10000 + (high - 0xd800) * 0x400 + (low - 0xdc00)) :
      Denotes quote (['\\', 'u'] ++ highs ++ (['\\', 'u'] ++ lows)) c

/-- A body that is a sequence of items, with the characters that they stand for. -/
def Legal (quote : Char) (body text : List Char) : Prop :=
  ∃ items, List.Forall₂ (Denotes quote) items text ∧ body = items.flatten

namespace Legal

theorem nil : Legal quote [] [] :=
  ⟨[], .nil, rfl⟩

theorem cons {item : List Char} (hitem : Denotes quote item c) (h : Legal quote body text) :
    Legal quote (item ++ body) (c :: text) := by
  rcases h with ⟨items, hitems, rfl⟩
  exact ⟨item :: items, .cons hitem hitems, rfl⟩

end Legal

/-! ## Legal bodies are those that decode -/

theorem isLineEnd_eq_false_iff : isLineEnd c = false ↔ c ≠ '\r' ∧ c ≠ '\n' := by
  simp [isLineEnd]

theorem isHighUnit_iff : isHighUnit n = true ↔ 0xd800 ≤ n ∧ n ≤ 0xdbff := by
  simp only [isHighUnit, Bool.and_eq_true, decide_eq_true_eq]
  omega

theorem isLowUnit_iff : isLowUnit n = true ↔ 0xdc00 ≤ n ∧ n ≤ 0xdfff := by
  simp only [isLowUnit, Bool.and_eq_true, decide_eq_true_eq]
  omega

/-- No character has the number of half a surrogate pair. -/
theorem not_surrogate_toNat (c : Char) :
    isHighUnit c.toNat = false ∧ isLowUnit c.toNat = false := by
  have hvalid : c.toNat < 0xd800 ∨ 0xdfff < c.toNat ∧ c.toNat < 0x110000 := c.valid
  constructor
  · rw [Bool.eq_false_iff, ne_eq, isHighUnit_iff]
    omega
  · rw [Bool.eq_false_iff, ne_eq, isLowUnit_iff]
    omega

theorem toNat_ofNat_of_valid (h : n < 0xd800 ∨ 0xdfff < n ∧ n < 0x110000) :
    (Char.ofNat n).toNat = n := by
  have hvalid : n.isValidChar := h
  rw [Char.ofNat, dif_pos hvalid]
  rfl

theorem FourDigits.exists_unitOf? {digits : List Char} (h : FourDigits digits n) :
    ∃ h₁ h₂ h₃ h₄, digits = [h₁, h₂, h₃, h₄] ∧ unitOf? h₁ h₂ h₃ h₄ = some n := by
  rcases h with ⟨hn₁, hn₂, hn₃, hn₄⟩
  exact ⟨_, _, _, _, rfl, unitOf?_eq_some_iff.2 (.mk hn₁ hn₂ hn₃ hn₄)⟩

theorem Denotes.spells {item : List Char} (hitem : Denotes quote item c)
    (h : Spells quote body text) : Spells quote (item ++ body) (c :: text) := by
  cases hitem with
  | raw hquote hbackslash hreturn hfeed =>
      exact .raw hbackslash hquote (isLineEnd_eq_false_iff.2 ⟨hreturn, hfeed⟩) h
  | short hescape => exact .short (shortEscape?_eq_some_iff.2 hescape) h
  | unit hdigits hvalue =>
      rcases hdigits.exists_unitOf? with ⟨h₁, h₂, h₃, h₄, rfl, hunit⟩
      -- a unit that is a character is no half of a pair
      rcases not_surrogate_toNat c with ⟨hhigh, hlow⟩
      rw [hvalue] at hhigh hlow
      rw [← Char.ofNat_toNat c, hvalue]
      exact .unit hunit hhigh hlow h
  | pair hhighs hlows hhigh hlow hvalue =>
      rcases hhighs.exists_unitOf? with ⟨h₁, h₂, h₃, h₄, rfl, hunit⟩
      rcases hlows.exists_unitOf? with ⟨l₁, l₂, l₃, l₄, rfl, hunit'⟩
      rw [← Char.ofNat_toNat c, hvalue]
      exact .pair hunit hunit' (isHighUnit_iff.2 hhigh) (isLowUnit_iff.2 hlow) h

theorem spells_of_legal (h : Legal quote body text) : Spells quote body text := by
  rcases h with ⟨items, hitems, rfl⟩
  induction hitems with
  | nil => exact .nil
  | cons hitem _ ih => exact hitem.spells ih

theorem legal_of_spells (h : Spells quote body text) : Legal quote body text := by
  induction h with
  | nil => exact .nil
  | raw hbackslash hquote hend _ ih =>
      rcases isLineEnd_eq_false_iff.1 hend with ⟨hreturn, hfeed⟩
      exact .cons (.raw hquote hbackslash hreturn hfeed) ih
  | short hescape _ ih => exact .cons (.short (shortEscape?_eq_some_iff.1 hescape)) ih
  | unit hdigits hhigh hlow _ ih =>
      have hfour := unitOf?_eq_some_iff.1 hdigits
      have hlt := hfour.lt
      rw [Bool.eq_false_iff, ne_eq, isHighUnit_iff] at hhigh
      rw [Bool.eq_false_iff, ne_eq, isLowUnit_iff] at hlow
      exact .cons (.unit hfour (toNat_ofNat_of_valid (by omega))) ih
  | @pair _ _ _ _ _ _ _ _ high low _ _ hdigits hdigits' hhigh hlow _ ih =>
      rw [isHighUnit_iff] at hhigh
      rw [isLowUnit_iff] at hlow
      have hvalue : (Char.ofNat (pairValue high low)).toNat = pairValue high low :=
        toNat_ofNat_of_valid (by unfold pairValue; omega)
      exact .cons (.pair (unitOf?_eq_some_iff.1 hdigits) (unitOf?_eq_some_iff.1 hdigits') hhigh hlow
        hvalue) ih

/-- The legal bodies are those that decode, to the characters of their items. -/
theorem legal_iff_spells : Legal quote body text ↔ Spells quote body text :=
  ⟨spells_of_legal, legal_of_spells⟩

/-- However a body is cut into items, they stand for the same text. -/
theorem Legal.unique {text' : List Char} (h : Legal quote body text)
    (h' : Legal quote body text') : text = text' :=
  Option.some.inj ((spells_of_legal h).decode_eq.symm.trans (spells_of_legal h').decode_eq)

end StringLiteral

open StringLiteral (IsQuote Scanned Closes Legal FourDigits legal_iff_spells)

/-! ## The string tokens of a source -/

theorem StringLiteral.closes_quote_iff {quote : Char} {body body' rest : List Char}
    (hquote : IsQuote quote) (hscanned : Scanned quote body) :
    Closes quote (body ++ quote :: rest) body' ↔ body' = body := by
  have hcloses : Closes quote (body ++ quote :: rest) body := ⟨hscanned, rest, by simp⟩
  constructor
  · intro h
    exact Option.some.inj ((h.body?_eq hquote).symm.trans (hcloses.body?_eq hquote))
  · rintro rfl
    exact hcloses

namespace TokenStream

variable {source before rest body decoded : List Char} {tokens : List Token} {quote : Char}
  {value : TokenValue} {text : List Char}

theorem isSeparator_quote (hquote : IsQuote quote) : isSeparator quote = false := by
  rcases hquote with rfl | rfl <;> rfl

/-- A literal is a token when its body is legal, with the text that the items of the body stand
for. -/
theorem yieldsAt_string_iff (hquote : IsQuote quote) (hscanned : Scanned quote body)
    (hreach : Reaches source tokens before (quote :: (body ++ quote :: rest))) :
    YieldsAt source tokens before .string value text ↔
      ∃ decoded, Legal quote body decoded ∧
        value = .literal (.string (String.ofList decoded)) ∧ text = quote :: (body ++ [quote]) := by
  rw [hreach.yieldsAt_iff (isSeparator_quote hquote), Lexeme.outcome_string_iff]
  constructor
  · rintro ⟨body', decoded, -, hcloses, hspells, hvalue, htext⟩
    -- the body that the lexer finds is the one that is closed on its line
    obtain rfl := (StringLiteral.closes_quote_iff hquote hscanned).1 hcloses
    exact ⟨decoded, legal_iff_spells.2 hspells, hvalue, htext⟩
  · rintro ⟨decoded, hlegal, hvalue, htext⟩
    exact ⟨body, decoded, hquote, (StringLiteral.closes_quote_iff hquote hscanned).2 rfl,
      legal_iff_spells.1 hlegal, hvalue, htext⟩

theorem yieldsAt_of_legal (hquote : IsQuote quote) (hlegal : Legal quote body decoded)
    (hreach : Reaches source tokens before (quote :: (body ++ quote :: rest))) :
    YieldsAt source tokens before .string (.literal (.string (String.ofList decoded)))
      (quote :: (body ++ [quote])) :=
  (yieldsAt_string_iff hquote ((legal_iff_spells.1 hlegal).scanned hquote) hreach).2
    ⟨decoded, hlegal, rfl, rfl⟩

/-- A literal that is closed on its line is a string token exactly when its body is legal, the token
carries the text that the items of the body stand for, and another spelling of this text, under
either quotation mark and wherever it stands, gives a token with the same value. -/
theorem yieldsAt_string_iff_legal (hquote : IsQuote quote) (hscanned : Scanned quote body)
    (hreach : Reaches source tokens before (quote :: (body ++ quote :: rest))) :
    ((∃ value text, YieldsAt source tokens before .string value text) ↔
        ∃ decoded, Legal quote body decoded) ∧
      (∀ value text, YieldsAt source tokens before .string value text ↔
        ∃ decoded, Legal quote body decoded ∧
          value = .literal (.string (String.ofList decoded)) ∧
          text = quote :: (body ++ [quote])) ∧
      ∀ decoded, Legal quote body decoded →
        ∀ source' before' rest' tokens' quote' body', IsQuote quote' →
          Legal quote' body' decoded →
            Reaches source' tokens' before' (quote' :: (body' ++ quote' :: rest')) →
              ∃ value, YieldsAt source tokens before .string value (quote :: (body ++ [quote])) ∧
                YieldsAt source' tokens' before' .string value
                  (quote' :: (body' ++ [quote'])) := by
  refine ⟨?_, fun value text => yieldsAt_string_iff hquote hscanned hreach, ?_⟩
  · constructor
    · rintro ⟨value, text, hyields⟩
      rcases (yieldsAt_string_iff hquote hscanned hreach).1 hyields with ⟨decoded, hlegal, -⟩
      exact ⟨decoded, hlegal⟩
    · rintro ⟨decoded, hlegal⟩
      exact ⟨_, _, yieldsAt_of_legal hquote hlegal hreach⟩
  · intro decoded hlegal source' before' rest' tokens' quote' body' hquote' hlegal' hreach'
    exact ⟨_, yieldsAt_of_legal hquote hlegal hreach, yieldsAt_of_legal hquote' hlegal' hreach'⟩

/-- A smile as the two halves of a surrogate pair, in digits of both cases. -/
def escapedSmile : List Char :=
  "\\uD83d\\uDe00".toList

theorem legal_escapedSmile : Legal '\'' escapedSmile ['😀'] := by
  have hhighs : FourDigits "D83d".toList 0xd83d :=
    StringLiteral.unitOf?_eq_some_iff.1 (by decide +kernel)
  have hlows : FourDigits "De00".toList 0xde00 :=
    StringLiteral.unitOf?_eq_some_iff.1 (by decide +kernel)
  exact .cons (.pair hhighs hlows (by decide) (by decide) rfl) .nil

/-- A smile spelled by number and a raw one are the same text. -/
theorem yieldsAt_escapedSmile :
    ∃ value, YieldsAt ('\'' :: (escapedSmile ++ ['\''])) [] [] .string value
        ('\'' :: (escapedSmile ++ ['\''])) ∧
      YieldsAt ['"', '😀', '"'] [] [] .string value ['"', '😀', '"'] := by
  have hlegal : Legal '"' ['😀'] ['😀'] :=
    .cons (.raw (by decide) (by decide) (by decide) (by decide)) .nil
  have hscanned : Scanned '\'' escapedSmile :=
    (legal_iff_spells.1 legal_escapedSmile).scanned (.inr rfl)
  have hreach : Reaches ('\'' :: (escapedSmile ++ ['\''])) [] []
      ('\'' :: (escapedSmile ++ '\'' :: [])) := .start
  rcases yieldsAt_string_iff_legal (.inr rfl) hscanned hreach with ⟨-, -, hsame⟩
  exact hsame _ legal_escapedSmile _ _ [] _ _ _ (.inl rfl) hlegal .start

end TokenStream
end FieldFilter
