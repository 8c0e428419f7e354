import FieldFilter.Proofs.Lexing.NumeralPatterns

/-!
# Which texts start no token

* `Lexeme.matchesAt_cases` — what matches a pattern is what the first character announces;
* `Lexeme.isLongest_of_read?`, `Lexeme.read?_of_isLongest` — a number is the longest match when it is
  the numeral that is read;
* `Faulty` — the faults of a text in terms of patterns and of the end of a literal;
* `Lexeme.outcome_error_iff` — these are the faults of lexemes.
-/

namespace FieldFilter

open StringLiteral (IsQuote Closes Unclosed Itemizes Spells)

variable {c : Char} {cs text : List Char} {kind : TokenKind} {n : Numeral}

/-! ## What the first character announces -/

theorem TokenKind.pattern_of_spelling? {s : String} (h : kind.spelling? = some s) :
    kind.pattern = Pattern.exactly s.toList := by
  unfold pattern
  rw [h]

namespace Lexeme

/-- A kind with one spelling is spelled as a word or as a mark. -/
theorem spelling?_cases {s : String} (h : kind.spelling? = some s) :
    (∃ c rest, s.toList = c :: rest ∧ isIdentifierStart c = true) ∨
      ∀ rest, (symbol? (s.toList ++ rest)).isSome = true := by
  -- only these two marks start another one
  have hangle : ∀ c rest, c = '<' ∨ c = '>' → (symbol? (c :: rest)).isSome = true := by
    rintro c rest (rfl | rfl)
    · cases rest with
      | nil => rfl
      | cons d rest => by_cases hd : d = '=' <;> simp [symbol?, hd]
    · cases rest with
      | nil => rfl
      | cons d rest => by_cases hd : d = '=' <;> simp [symbol?, hd]
  cases kind <;> cases h
  case greater => exact .inr fun rest => hangle '>' rest (.inr rfl)
  case less => exact .inr fun rest => hangle '<' rest (.inl rfl)
  all_goals first | exact .inl ⟨_, _, rfl, rfl⟩ | exact .inr fun rest => rfl

theorem symbol?_starts (h : symbol? cs = some (kind, text)) : text <+: cs := by
  unfold symbol? at h
  split at h <;> cases h <;> simp

theorem mem_pattern_of_symbol? (h : symbol? cs = some (kind, text)) : text ∈ kind.pattern := by
  rw [TokenKind.pattern_of_spelling? (of_spelling?_symbol? (s := "") h).1, String.toList_ofList]
  exact Pattern.mem_exactly_iff.2 rfl

/-- What matches a pattern is a word, a string literal, a mark, or no longer than the numeral that
is read. -/
theorem matchesAt_cases (h : MatchesAt (c :: cs) kind text) :
    isIdentifierStart c = true ∨ IsQuote c ∨ (symbol? (c :: cs)).isSome = true ∨
      ∃ n, Numeral.read? (c :: cs) = some n ∧ (text = n.text ∨ text.length < n.text.length) := by
  rcases h with ⟨⟨rest, hrest⟩, hmem⟩
  have hnumeral : (∃ n : Numeral, n.WellFormed ∧ text = n.text) →
      ∃ n, Numeral.read? (c :: cs) = some n ∧ (text = n.text ∨ text.length < n.text.length) := by
    rintro ⟨n, hn, rfl⟩
    rcases Numeral.read?_text_append hn rest with ⟨m, hread, hm⟩
    rw [hrest] at hread
    exact ⟨m, hread, hm.imp (fun heq => by rw [heq]) And.right⟩
  have hword : text ∈ Pattern.word → isIdentifierStart c = true := by
    intro hword
    rcases Pattern.mem_word_iff.1 hword with ⟨d, ds, hstart, -, rfl⟩
    cases hrest
    exact hstart
  have hquoted : ∀ quote, text ∈ Pattern.quoted quote → c = quote := by
    intro quote hquoted
    rcases Pattern.mem_quoted_iff.1 hquoted with ⟨body, items, -, rfl⟩
    cases hrest
    rfl
  cases hspelling : kind.spelling? with
  | some s =>
      rw [TokenKind.pattern_of_spelling? hspelling, Pattern.mem_exactly_iff] at hmem
      subst hmem
      rcases spelling?_cases hspelling with ⟨d, ds, hs, hstart⟩ | hsymbol
      · rw [hs] at hrest
        cases hrest
        exact .inl hstart
      · exact .inr (.inr (.inl (hrest ▸ hsymbol rest)))
  | none =>
      cases kind with
      | int =>
          rcases Numeral.mem_int_iff.1 hmem with ⟨n, hn, -, heq⟩
          exact .inr (.inr (.inr (hnumeral ⟨n, hn, heq⟩)))
      | float =>
          rcases Numeral.mem_float_iff.1 hmem with ⟨n, hn, -, heq⟩
          exact .inr (.inr (.inr (hnumeral ⟨n, hn, heq⟩)))
      | string => exact .inr (.inl (hmem.imp (hquoted '"') (hquoted '\'')))
      | name => exact .inl (hword hmem)
      | _ => cases hspelling

theorem matchesAt_of_word (h : isIdentifierStart c = true) : MatchesAt (c :: cs) .name [c] :=
  ⟨⟨cs, rfl⟩, Pattern.mem_word_iff.2 ⟨c, [], h, by simp, rfl⟩⟩

theorem matchesAt_of_symbol? (h : symbol? cs = some (kind, text)) : MatchesAt cs kind text :=
  ⟨symbol?_starts h, mem_pattern_of_symbol? h⟩

theorem matchesAt_of_read? {n : Numeral} (h : Numeral.read? cs = some n) :
    MatchesAt cs n.kind n.text := by
  rcases Numeral.wellFormed_of_read? h with ⟨hn, hstarts⟩
  exact ⟨hstarts, hn.mem_pattern⟩

/-! ## The longest match -/

/-- A numeral that is read is the longest match. -/
theorem isLongest_of_read? {n : Numeral} (h : Numeral.read? (c :: cs) = some n) :
    IsLongest (c :: cs) n.kind n.text := by
  refine ⟨matchesAt_of_read? h, ?_⟩
  intro kind text hmatch
  rcases head_of_read? h with ⟨hstart, hquote, hsymbol⟩
  rcases matchesAt_cases hmatch with hword | hquoted | hmark | ⟨m, hread, hm⟩
  · simp [hstart] at hword
  · rcases hquoted with rfl | rfl <;> cases hquote
  · simp [hsymbol] at hmark
  · cases h.symm.trans hread
    rcases hm with rfl | hlt
    · exact Nat.le_refl _
    · exact hlt.le

/-- A number that is the longest match is the numeral that is read. -/
theorem read?_of_isLongest {n : Numeral} (hn : n.WellFormed) (h : IsLongest cs kind n.text) :
    Numeral.read? cs = some n := by
  rcases h with ⟨⟨⟨rest, rfl⟩, -⟩, hlongest⟩
  rcases Numeral.read?_text_append hn rest with ⟨m, hread, rfl | ⟨-, hlt⟩⟩
  · exact hread
  · have hle := hlongest _ _ (matchesAt_of_read? hread)
    omega

end Lexeme

/-! ## Faults -/

/-- Integers that 64 bits with a sign do not hold, and floats beyond all finite ones. -/
def Numeral.OutOfRange (n : Numeral) : Prop :=
  (n.kind = .int ∧ (n.toInt < Int64.minValue.toInt ∨ Int64.maxValue.toInt < n.toInt)) ∨
    (n.kind = .float ∧ n.toFloat.isFinite = false)

/-- The faults at the start of a text, each with the text that it concerns: a literal that is not
closed, up to the end of the line; a whole literal with an illegal body; a number out of range that
is the longest match; or one character at which no pattern matches. -/
inductive Faulty : List Char → LexFault → List Char → Prop where
  | unterminated {quote : Char} {cs : List Char} (hquote : IsQuote quote)
      (hunclosed : Unclosed quote cs) :
      Faulty (quote :: cs) .unterminatedString
        (quote :: cs.takeWhile fun c => !StringLiteral.isLineEnd c)
  | illegal {quote : Char} {cs body : List Char} (hquote : IsQuote quote)
      (hcloses : Closes quote cs body) (hillegal : ∀ text, ¬ Spells quote body text) :
      Faulty (quote :: cs) .invalidEscape (quote :: (body ++ [quote]))
  | outOfRange {cs : List Char} {n : Numeral} (hn : n.WellFormed)
      (hlongest : IsLongest cs n.kind n.text) (hrange : n.OutOfRange) :
      Faulty cs .numberOutOfRange n.text
  | unmatched {c : Char} {cs : List Char} (hquote : ¬ IsQuote c)
      (hnone : ∀ kind text, ¬ MatchesAt (c :: cs) kind text) :
      Faulty (c :: cs) .unexpectedCharacter [c]

namespace Lexeme

theorem numberLiteral?_eq_none_iff {n : Numeral} : numberLiteral? n = none ↔ n.OutOfRange := by
  cases hwhole : n.isWhole with
  | true =>
      simp only [Numeral.OutOfRange, Numeral.kind, numberLiteral?, Literal.ofInt?, hwhole, if_true,
        Option.map_eq_none_iff, ite_eq_right_iff, reduceCtorEq, imp_false, true_and, false_and,
        or_false]
      omega
  | false =>
      simp [Numeral.OutOfRange, Numeral.kind, numberLiteral?, hwhole, Literal.ofFloat?]

theorem start_quote (hquote : IsQuote c) : start c cs = quoted c cs := by
  rcases hquote with rfl | rfl <;> rfl

/-- A mark at the start of a text is a token. -/
theorem exists_outcome_of_symbol? (hquote : ¬ IsQuote c) (h : (symbol? (c :: cs)).isSome = true) :
    ∃ piece, (start c cs).outcome = .ok piece := by
  have hquote' := StringLiteral.isQuote_iff.not.1 hquote
  rcases Option.isSome_iff_exists.1 h with ⟨⟨kind, text⟩, hsymbol⟩
  by_cases hword : isIdentifierStart c = true
  · exact ⟨_, by rw [start, if_pos hword, word]⟩
  · exact ⟨_, by rw [start, if_neg hword, if_neg hquote', hsymbol]⟩

/-- A text without any match starts with a character that is out of place. -/
theorem start_of_unmatched (hquote : ¬ IsQuote c)
    (hnone : ∀ kind text, ¬ MatchesAt (c :: cs) kind text) :
    start c cs = ⟨[c], .error .unexpectedCharacter⟩ := by
  have hword : ¬ isIdentifierStart c = true := fun h => hnone _ _ (matchesAt_of_word h)
  have hquote' := StringLiteral.isQuote_iff.not.1 hquote
  have hsymbol : symbol? (c :: cs) = none := by
    cases h : symbol? (c :: cs) with
    | none => rfl
    | some found => exact (hnone _ _ (matchesAt_of_symbol? h)).elim
  have hread : Numeral.read? (c :: cs) = none := by
    cases h : Numeral.read? (c :: cs) with
    | none => rfl
    | some n => exact (hnone _ _ (matchesAt_of_read? h)).elim
  rw [start, if_neg hword, if_neg hquote']
  simp only [hsymbol, hread]

theorem faulty_quoted {fault : LexFault} (hquote : IsQuote c)
    (h : (quoted c cs).outcome = .error fault) : Faulty (c :: cs) fault (quoted c cs).text := by
  cases hbody : StringLiteral.body? c cs with
  | none =>
      simp only [quoted, hbody] at h ⊢
      cases h
      exact .unterminated hquote ((StringLiteral.body?_eq_none_iff hquote).1 hbody)
  | some body =>
      have hcloses := (StringLiteral.body?_eq_some_iff hquote).1 hbody
      cases hdecode : StringLiteral.decode body with
      | none =>
          simp only [quoted, hbody, hdecode] at h ⊢
          cases h
          refine .illegal hquote hcloses ?_
          intro text hspells
          rw [hspells.decode_eq] at hdecode
          cases hdecode
      | some value =>
          simp only [quoted, hbody, hdecode] at h
          cases h

theorem faulty_number {fault : LexFault} {n : Numeral} (hread : Numeral.read? (c :: cs) = some n)
    (h : (number n).outcome = .error fault) : Faulty (c :: cs) fault n.text := by
  cases hliteral : numberLiteral? n with
  | none =>
      simp only [number, hliteral] at h
      cases h
      exact .outOfRange (Numeral.wellFormed_of_read? hread).1 (isLongest_of_read? hread)
        (numberLiteral?_eq_none_iff.1 hliteral)
  | some found =>
      simp only [number, hliteral] at h
      cases h

/-- The lexeme at the start of a text is faulty as the patterns and the end of the literal say. -/
theorem faulty_of_outcome {fault : LexFault} (h : (start c cs).outcome = .error fault) :
    Faulty (c :: cs) fault (start c cs).text := by
  by_cases hquote : IsQuote c
  · rw [start_quote hquote] at h ⊢
    exact faulty_quoted hquote h
  · cases hread : Numeral.read? (c :: cs) with
    | some n =>
        rw [start_of_read? hread] at h ⊢
        exact faulty_number hread h
    | none =>
        have hnone : ∀ kind text, ¬ MatchesAt (c :: cs) kind text := by
          intro kind text hmatch
          rcases matchesAt_cases hmatch with hword | hquote' | hmark | ⟨n, hread', -⟩
          · rw [start, if_pos hword] at h
            cases h
          · exact hquote hquote'
          · rcases exists_outcome_of_symbol? hquote hmark with ⟨piece, hpiece⟩
            rw [hpiece] at h
            cases h
          · simp [hread] at hread'
        rw [start_of_unmatched hquote hnone] at h ⊢
        cases h
        exact .unmatched hquote hnone

theorem outcome_of_faulty {fault : LexFault} (h : Faulty (c :: cs) fault text) :
    (start c cs).outcome = .error fault ∧ (start c cs).text = text := by
  cases h with
  | unterminated hquote hunclosed =>
      rw [start_quote hquote, quoted, hunclosed.body?_eq]
      exact ⟨rfl, rfl⟩
  | @illegal _ _ body hquote hcloses hillegal =>
      have hdecode : StringLiteral.decode body = none := by
        cases hdecode : StringLiteral.decode body with
        | none => rfl
        | some value =>
            exact (hillegal _ ((StringLiteral.decode_eq_some_iff hquote hcloses.1).1 hdecode)).elim
      rw [start_quote hquote, quoted, hcloses.body?_eq hquote]
      simp only [hdecode, and_self]
  | outOfRange hn hlongest hrange =>
      rw [start_of_read? (read?_of_isLongest hn hlongest), number,
        numberLiteral?_eq_none_iff.2 hrange]
      exact ⟨rfl, rfl⟩
  | unmatched hquote hnone =>
      rw [start_of_unmatched hquote hnone]
      exact ⟨rfl, rfl⟩

/-- The faults of lexemes. -/
theorem outcome_error_iff {fault : LexFault} :
    ((start c cs).outcome = .error fault ∧ (start c cs).text = text) ↔
      Faulty (c :: cs) fault text := by
  refine ⟨?_, outcome_of_faulty⟩
  rintro ⟨houtcome, rfl⟩
  exact faulty_of_outcome houtcome

end Lexeme

end FieldFilter
