import FieldFilter.StringLiteral

/-!
# Where string literals end and what they spell

* `StringLiteral.Scanned` — text in which the literal does not end;
* `StringLiteral.body?_eq_some_iff`, `StringLiteral.body?_eq_none_iff` — a literal ends at the first
  quotation mark that no backslash protects, or it is not closed on its line;
* `StringLiteral.Itemizes`, `StringLiteral.items?_eq_some_iff` — the items that a body consists of;
* `StringLiteral.Spells`, `StringLiteral.decode_eq_some_iff` — the legal spellings of a text.
-/

namespace FieldFilter
namespace StringLiteral

variable {quote c d : Char} {cs ds body text : List Char}

/-! ## Where a literal ends -/

/-- The two characters that open and close literals. -/
def IsQuote (c : Char) : Prop :=
  c = '"' ∨ c = '\''

theorem isQuote_iff : IsQuote c ↔ (c = '"' || c = '\'') = true := by
  simp [IsQuote]

theorem IsQuote.ne_backslash (h : IsQuote c) : c ≠ '\\' := by
  rcases h with rfl | rfl <;> decide

theorem IsQuote.isLineEnd_eq_false (h : IsQuote c) : isLineEnd c = false := by
  rcases h with rfl | rfl <;> rfl

/-- Text in which the literal does not end: every backslash protects one character, and there is
neither an unprotected quotation mark nor the end of a line. -/
inductive Scanned (quote : Char) : List Char → Prop where
  | nil : Scanned quote []
  | plain {c : Char} {body : List Char} (hbackslash : c ≠ '\\') (hquote : c ≠ quote)
      (hend : isLineEnd c = false) (hbody : Scanned quote body) : Scanned quote (c :: body)
  | escaped {c : Char} {body : List Char} (hend : isLineEnd c = false)
      (hbody : Scanned quote body) : Scanned quote ('\\' :: c :: body)

/-- The literal ends behind `body`, at an unprotected quotation mark. -/
def Closes (quote : Char) (cs body : List Char) : Prop :=
  Scanned quote body ∧ body ++ [quote] <+: cs

/-- A text without characters or one that starts with the end of a line. -/
def EndsLine (cs : List Char) : Prop :=
  ∀ c ∈ cs.head?, isLineEnd c = true

/-- The line ends before the literal does, perhaps directly behind a backslash. -/
def Unclosed (quote : Char) (cs : List Char) : Prop :=
  ∃ body rest, Scanned quote body ∧ EndsLine rest ∧
    (cs = body ++ rest ∨ cs = body ++ '\\' :: rest)

theorem body?_append (h : Scanned quote body) (cs : List Char) :
    body? quote (body ++ cs) = (body? quote cs).map (body ++ ·) := by
  induction h with
  | nil => simp
  | @plain c body hbackslash hquote hend _ ih =>
      rw [List.cons_append, body?.eq_def]
      simp [hbackslash, hquote, hend, ih, Function.comp_def]
  | @escaped c body hend _ ih =>
      rw [List.cons_append, List.cons_append, body?.eq_def]
      simp [hend, ih, Function.comp_def]

theorem body?_quote (hquote : IsQuote quote) (cs : List Char) :
    body? quote (quote :: cs) = some [] := by
  rw [body?.eq_def]
  simp [hquote.ne_backslash, hquote.isLineEnd_eq_false]

theorem body?_of_endsLine (h : EndsLine cs) :
    body? quote cs = none ∧ body? quote ('\\' :: cs) = none := by
  cases cs with
  | nil => exact ⟨rfl, rfl⟩
  | cons c cs =>
      have hend : isLineEnd c = true := h c rfl
      have hbackslash : c ≠ '\\' := by
        rintro rfl
        cases hend
      constructor
      · rw [body?.eq_def]
        simp [hbackslash, hend]
      · rw [body?.eq_def]
        simp [hend]

theorem Closes.body?_eq (hquote : IsQuote quote) (h : Closes quote cs body) :
    body? quote cs = some body := by
  rcases h with ⟨hscanned, after, rfl⟩
  rw [List.append_assoc, List.singleton_append, body?_append hscanned, body?_quote hquote]
  simp

theorem Unclosed.body?_eq (h : Unclosed quote cs) : body? quote cs = none := by
  rcases h with ⟨body, rest, hscanned, hends, rfl | rfl⟩
  · rw [body?_append hscanned, (body?_of_endsLine hends).1, Option.map_none]
  · rw [body?_append hscanned, (body?_of_endsLine hends).2, Option.map_none]

namespace Closes

theorem plain (hbackslash : c ≠ '\\') (hquote : c ≠ quote) (hend : isLineEnd c = false)
    (h : Closes quote cs body) : Closes quote (c :: cs) (c :: body) :=
  ⟨.plain hbackslash hquote hend h.1, (List.prefix_cons_inj c).2 h.2⟩

theorem escaped (hend : isLineEnd c = false) (h : Closes quote cs body) :
    Closes quote ('\\' :: c :: cs) ('\\' :: c :: body) :=
  ⟨.escaped hend h.1, (List.prefix_cons_inj _).2 ((List.prefix_cons_inj c).2 h.2)⟩

end Closes

namespace Unclosed

theorem plain (hbackslash : c ≠ '\\') (hquote : c ≠ quote) (hend : isLineEnd c = false)
    (h : Unclosed quote cs) : Unclosed quote (c :: cs) := by
  rcases h with ⟨body, rest, hscanned, hends, hcs⟩
  refine ⟨c :: body, rest, .plain hbackslash hquote hend hscanned, hends, ?_⟩
  simpa using hcs

theorem escaped (hend : isLineEnd c = false) (h : Unclosed quote cs) :
    Unclosed quote ('\\' :: c :: cs) := by
  rcases h with ⟨body, rest, hscanned, hends, hcs⟩
  refine ⟨'\\' :: c :: body, rest, .escaped hend hscanned, hends, ?_⟩
  simpa using hcs

end Unclosed

/-- Every text closes the literal or leaves it open, case by case as the body is read. -/
theorem closes_or_unclosed (quote : Char) (cs : List Char) :
    (∃ body, Closes quote cs body) ∨ Unclosed quote cs := by
  induction cs using body?.induct quote with
  | case1 => exact .inr ⟨[], [], .nil, by simp [EndsLine], .inl rfl⟩
  | case2 => exact .inr ⟨[], [], .nil, by simp [EndsLine], .inr rfl⟩
  | case3 d ds hend => exact .inr ⟨[], d :: ds, .nil, by simp [EndsLine, hend], .inr rfl⟩
  | case4 d ds hend ih =>
      have hplain : isLineEnd d = false := by simpa using hend
      rcases ih with ⟨body, h⟩ | h
      · exact .inl ⟨_, h.escaped hplain⟩
      · exact .inr (h.escaped hplain)
  | case5 d ds _ hend => exact .inr ⟨[], d :: ds, .nil, by simp [EndsLine, hend], .inl rfl⟩
  | case6 ds => exact .inl ⟨[], .nil, by simp⟩
  | case7 d ds hbackslash hend hquote ih =>
      have hplain : isLineEnd d = false := by simpa using hend
      rcases ih with ⟨body, h⟩ | h
      · exact .inl ⟨_, h.plain hbackslash hquote hplain⟩
      · exact .inr (h.plain hbackslash hquote hplain)

theorem body?_eq_some_iff (hquote : IsQuote quote) :
    body? quote cs = some body ↔ Closes quote cs body := by
  refine ⟨?_, Closes.body?_eq hquote⟩
  intro hbody
  rcases closes_or_unclosed quote cs with ⟨body', h⟩ | h
  · have heq : body' = body := Option.some.inj ((h.body?_eq hquote).symm.trans hbody)
    exact heq ▸ h
  · rw [h.body?_eq] at hbody
    cases hbody

theorem body?_eq_none_iff (hquote : IsQuote quote) :
    body? quote cs = none ↔ Unclosed quote cs := by
  refine ⟨?_, Unclosed.body?_eq⟩
  intro hbody
  rcases closes_or_unclosed quote cs with ⟨body, h⟩ | h
  · rw [h.body?_eq hquote] at hbody
    cases hbody
  · exact h

/-! ## Items -/

/-- The items that a body consists of: raw characters, short escapes and units given by number. -/
inductive Itemizes (quote : Char) : List Char → List Item → Prop where
  | nil : Itemizes quote [] []
  | raw {c : Char} {body : List Char} {items : List Item} (hbackslash : c ≠ '\\')
      (hquote : c ≠ quote) (hend : isLineEnd c = false) (hbody : Itemizes quote body items) :
      Itemizes quote (c :: body) (.char c :: items)
  | short {e c : Char} {body : List Char} {items : List Item} (hescape : shortEscape? e = some c)
      (hbody : Itemizes quote body items) : Itemizes quote ('\\' :: e :: body) (.char c :: items)
  | unit {h₁ h₂ h₃ h₄ : Char} {n : Nat} {body : List Char} {items : List Item}
      (hdigits : unitOf? h₁ h₂ h₃ h₄ = some n) (hbody : Itemizes quote body items) :
      Itemizes quote ('\\' :: 'u' :: h₁ :: h₂ :: h₃ :: h₄ :: body) (.unit n :: items)

/-! ### What an escape is made of -/

theorem not_isLineEnd_of_shortEscape? {e : Char} (h : shortEscape? e = some c) :
    isLineEnd e = false := by
  cases hend : isLineEnd e with
  | false => rfl
  | true =>
      simp only [isLineEnd, Bool.or_eq_true, beq_iff_eq] at hend
      rcases hend with rfl | rfl <;> cases h

theorem plain_of_hexValue? {n : Nat} (hquote : IsQuote quote) (h : hexValue? c = some n) :
    c ≠ '\\' ∧ c ≠ quote ∧ isLineEnd c = false := by
  refine ⟨?_, ?_, ?_⟩
  · rintro rfl
    cases h
  · rintro rfl
    rcases hquote with rfl | rfl <;> cases h
  · cases hend : isLineEnd c with
    | false => rfl
    | true =>
        simp only [isLineEnd, Bool.or_eq_true, beq_iff_eq] at hend
        rcases hend with rfl | rfl <;> cases h

theorem hexValue?_of_unitOf? {h₁ h₂ h₃ h₄ : Char} {n : Nat} (h : unitOf? h₁ h₂ h₃ h₄ = some n) :
    ∀ c ∈ [h₁, h₂, h₃, h₄], ∃ m, hexValue? c = some m := by
  simp only [unitOf?, Option.bind_eq_bind, Option.bind_eq_some_iff] at h
  rcases h with ⟨m₁, h₁, m₂, h₂, m₃, h₃, m₄, h₄, -⟩
  simp [h₁, h₂, h₃, h₄]

namespace Scanned

theorem of_cons (h : Scanned quote (c :: body)) (hbackslash : c ≠ '\\') :
    c ≠ quote ∧ isLineEnd c = false ∧ Scanned quote body := by
  cases h with
  | plain _ hquote hend hbody => exact ⟨hquote, hend, hbody⟩
  | escaped => exact absurd rfl hbackslash

theorem of_escaped (h : Scanned quote ('\\' :: c :: body)) : Scanned quote body := by
  cases h with
  | plain hbackslash => exact absurd rfl hbackslash
  | escaped _ hbody => exact hbody

theorem digits_append {digits : List Char} (body : List Char) (hquote : IsQuote quote)
    (hdigits : ∀ c ∈ digits, ∃ m, hexValue? c = some m) :
    Scanned quote (digits ++ body) ↔ Scanned quote body := by
  induction digits with
  | nil => rfl
  | cons c digits ih =>
      rcases hdigits c (by simp) with ⟨m, hm⟩
      rcases plain_of_hexValue? hquote hm with ⟨hbackslash, hne, hend⟩
      rw [← ih fun d hd => hdigits d (by simp [hd])]
      exact ⟨fun h => (h.of_cons hbackslash).2.2, .plain hbackslash hne hend⟩

end Scanned

/-! ### Reading the items -/

theorem Itemizes.items?_eq {items : List Item} (h : Itemizes quote body items) :
    items? body = some items := by
  induction h with
  | nil => rfl
  | raw hbackslash _ _ _ ih =>
      rw [items?.eq_def]
      simp [hbackslash, ih]
  | @short e c body items hescape _ ih =>
      rw [items?.eq_3]
      · simp [hescape, ih]
      · rintro _ _ _ _ _ rfl
        cases hescape
  | unit hdigits _ ih => simp [items?, hdigits, ih]

theorem Itemizes.scanned {items : List Item} (hquote : IsQuote quote)
    (h : Itemizes quote body items) : Scanned quote body := by
  induction h with
  | nil => exact .nil
  | raw hbackslash hne hend _ ih => exact .plain hbackslash hne hend ih
  | short hescape _ ih => exact .escaped (not_isLineEnd_of_shortEscape? hescape) ih
  | @unit h₁ h₂ h₃ h₄ n body items hdigits _ ih =>
      have hhex := hexValue?_of_unitOf? hdigits
      exact .escaped rfl ((Scanned.digits_append body hquote hhex).2 ih)

theorem items?_eq_some_iff {items : List Item} (hquote : IsQuote quote)
    (hscanned : Scanned quote body) : items? body = some items ↔ Itemizes quote body items := by
  refine ⟨?_, Itemizes.items?_eq⟩
  induction body using items?.induct generalizing items with
  | case1 =>
      rintro ⟨⟩
      exact .nil
  | case2 h₁ h₂ h₃ h₄ rest ih =>
      intro hitems
      simp only [items?, Option.bind_eq_bind, Option.bind_eq_some_iff, Option.pure_def,
        Option.some.injEq] at hitems
      rcases hitems with ⟨n, hdigits, items', htail, rfl⟩
      have hhex := hexValue?_of_unitOf? hdigits
      have hrest := (Scanned.digits_append rest hquote hhex).1 hscanned.of_escaped
      exact .unit hdigits (ih hrest htail)
  | case3 e rest hnot ih =>
      intro hitems
      rw [items?.eq_3 _ _ hnot] at hitems
      simp only [Option.bind_eq_bind, Option.bind_eq_some_iff, Option.pure_def,
        Option.some.injEq] at hitems
      rcases hitems with ⟨c, hescape, items', htail, rfl⟩
      exact .short hescape (ih hscanned.of_escaped htail)
  | case4 rest _ hnot =>
      -- a lone backslash at the end is not scanned
      cases hscanned with
      | plain hbackslash => exact absurd rfl hbackslash
      | @escaped c body => exact (hnot c body rfl rfl).elim
  | case5 c rest _ _ hbackslash ih =>
      intro hitems
      rw [items?.eq_def] at hitems
      simp only [hbackslash, if_false, Option.bind_eq_bind, Option.bind_eq_some_iff,
        Option.pure_def, Option.some.injEq] at hitems
      rcases hitems with ⟨items', htail, rfl⟩
      rcases hscanned.of_cons hbackslash with ⟨hne, hend, hrest⟩
      exact .raw hbackslash hne hend (ih hrest htail)

/-! ## Legal spellings -/

/-- The legal spellings of a text: raw characters, short escapes, units that are no half of a
surrogate pair, and both halves of a pair one behind the other. -/
inductive Spells (quote : Char) : List Char → List Char → Prop where
  | nil : Spells quote [] []
  | raw {c : Char} {body text : List Char} (hbackslash : c ≠ '\\') (hquote : c ≠ quote)
      (hend : isLineEnd c = false) (hbody : Spells quote body text) :
      Spells quote (c :: body) (c :: text)
  | short {e c : Char} {body text : List Char} (hescape : shortEscape? e = some c)
      (hbody : Spells quote body text) : Spells quote ('\\' :: e :: body) (c :: text)
  | unit {h₁ h₂ h₃ h₄ : Char} {n : Nat} {body text : List Char}
      (hdigits : unitOf? h₁ h₂ h₃ h₄ = some n) (hhigh : isHighUnit n = false)
      (hlow : isLowUnit n = false) (hbody : Spells quote body text) :
      Spells quote ('\\' :: 'u' :: h₁ :: h₂ :: h₃ :: h₄ :: body) (Char.ofNat n :: text)
  | pair {h₁ h₂ h₃ h₄ l₁ l₂ l₃ l₄ : Char} {high low : Nat} {body text : List Char}
      (hdigits : unitOf? h₁ h₂ h₃ h₄ = some high) (hdigits' : unitOf? l₁ l₂ l₃ l₄ = some low)
      (hhigh : isHighUnit high = true) (hlow : isLowUnit low = true)
      (hbody : Spells quote body text) :
      Spells quote
        ('\\' :: 'u' :: h₁ :: h₂ :: h₃ :: h₄ :: '\\' :: 'u' :: l₁ :: l₂ :: l₃ :: l₄ :: body)
        (Char.ofNat (pairValue high low) :: text)

theorem textOf?_unit {n : Nat} (hhigh : isHighUnit n = false) (hlow : isLowUnit n = false)
    (items : List Item) : textOf? (.unit n :: items) = (textOf? items).map (Char.ofNat n :: ·) := by
  cases items with
  | nil => simp [textOf?, hhigh, hlow]
  | cons item items => cases item <;> simp [textOf?, hhigh, hlow]

theorem Spells.exists_items (h : Spells quote body text) :
    ∃ items, Itemizes quote body items ∧ textOf? items = some text := by
  induction h with
  | nil => exact ⟨[], .nil, rfl⟩
  | raw hbackslash hne hend _ ih =>
      rcases ih with ⟨items, hitems, htext⟩
      exact ⟨_, .raw hbackslash hne hend hitems, by simp [textOf?, htext]⟩
  | short hescape _ ih =>
      rcases ih with ⟨items, hitems, htext⟩
      exact ⟨_, .short hescape hitems, by simp [textOf?, htext]⟩
  | unit hdigits hhigh hlow _ ih =>
      rcases ih with ⟨items, hitems, htext⟩
      exact ⟨_, .unit hdigits hitems, by simp [textOf?_unit hhigh hlow, htext]⟩
  | pair hdigits hdigits' hhigh hlow _ ih =>
      rcases ih with ⟨items, hitems, htext⟩
      exact ⟨_, .unit hdigits (.unit hdigits' hitems), by simp [textOf?, hhigh, hlow, htext]⟩

theorem Itemizes.spells {items : List Item} (h : Itemizes quote body items)
    (htext : textOf? items = some text) : Spells quote body text := by
  induction items using textOf?.induct generalizing body text with
  | case1 =>
      cases h
      cases htext
      exact .nil
  | case2 c rest ih =>
      rcases Option.map_eq_some_iff.1 htext with ⟨text, htail, rfl⟩
      cases h with
      | raw hbackslash hne hend h => exact .raw hbackslash hne hend (ih h htail)
      | short hescape h => exact .short hescape (ih h htail)
  | case3 high low rest hhigh hlow ih =>
      simp only [textOf?, hhigh, hlow, if_true] at htext
      rcases Option.map_eq_some_iff.1 htext with ⟨text, htail, rfl⟩
      cases h with
      | unit hdigits h =>
          cases h with
          | unit hdigits' h => exact .pair hdigits hdigits' hhigh hlow (ih h htail)
  | case4 high low rest hhigh hlow => simp [textOf?, hhigh, hlow] at htext
  | case5 high low rest hhigh hlow => simp [textOf?, hhigh, hlow] at htext
  | case6 high low rest hhigh hlow ih =>
      have hplain : isHighUnit high = false ∧ isLowUnit high = false := by simp [hhigh, hlow]
      rw [textOf?_unit hplain.1 hplain.2] at htext
      rcases Option.map_eq_some_iff.1 htext with ⟨text, htail, rfl⟩
      cases h with
      | unit hdigits h => exact .unit hdigits hplain.1 hplain.2 (ih h htail)
  | case7 value rest hlone hsurrogate =>
      rw [textOf?.eq_4 _ _ hlone] at htext
      simp [hsurrogate] at htext
  | case8 value rest hlone hsurrogate ih =>
      have hplain : isHighUnit value = false ∧ isLowUnit value = false := by
        simpa using hsurrogate
      rw [textOf?_unit hplain.1 hplain.2] at htext
      rcases Option.map_eq_some_iff.1 htext with ⟨text, htail, rfl⟩
      cases h with
      | unit hdigits h => exact .unit hdigits hplain.1 hplain.2 (ih h htail)

theorem Spells.scanned (hquote : IsQuote quote) (h : Spells quote body text) :
    Scanned quote body := by
  rcases h.exists_items with ⟨items, hitems, -⟩
  exact hitems.scanned hquote

theorem Spells.decode_eq (h : Spells quote body text) : decode body = some text := by
  rcases h.exists_items with ⟨items, hitems, htext⟩
  rw [decode, hitems.items?_eq, Option.bind_some, htext]

theorem decode_eq_some_iff (hquote : IsQuote quote) (hscanned : Scanned quote body) :
    decode body = some text ↔ Spells quote body text := by
  refine ⟨?_, Spells.decode_eq⟩
  intro hdecode
  rcases Option.bind_eq_some_iff.1 hdecode with ⟨items, hitems, htext⟩
  exact ((items?_eq_some_iff hquote hscanned).1 hitems).spells htext

end StringLiteral
end FieldFilter
