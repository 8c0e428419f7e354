import FieldFilter.Proofs.Lexing.Faults

/-!
# What stands where a token should start

* `TokenStream.Reaches` — the places of a source at which a token should start, told by the tokens
  themselves;
* `TokenStream.FailsAt`, `TokenStream.YieldsAt` — the fault or the token at such a place;
* `TokenStream.failsAt_iff_faulty` — which faults there are, and where string literals end.
-/

namespace FieldFilter

open StringLiteral (IsQuote Closes Unclosed Itemizes Spells)

/-! ## Texts measured in bytes -/

namespace Text

theorem eq_nil_of_byteLength_eq_zero {cs : List Char} (h : byteLength cs = 0) : cs = [] := by
  have hle := length_le_byteLength cs
  exact List.length_eq_zero_iff.1 (by omega)

/-- Two texts that start the same text are equal when they take as many bytes. -/
theorem eq_of_prefix_of_byteLength_eq {cs ds text : List Char} (h : cs <+: text) (h' : ds <+: text)
    (hlength : byteLength cs = byteLength ds) : cs = ds := by
  rcases List.prefix_or_prefix_of_prefix h h' with ⟨rest, rfl⟩ | ⟨rest, rfl⟩
  · rw [byteLength_append] at hlength
    have hrest : rest = [] := eq_nil_of_byteLength_eq_zero (by omega)
    simp [hrest]
  · rw [byteLength_append] at hlength
    have hrest : rest = [] := eq_nil_of_byteLength_eq_zero (by omega)
    simp [hrest]

end Text

theorem Place.offset_start (cs : List Char) :
    (Place.afterText {} cs).offset = Text.byteLength cs := by
  rw [Place.offset_afterText]
  exact Nat.zero_add _

theorem Place.offset_behind (before text : List Char) :
    ((Place.afterText {} before).afterText text).offset = Text.byteLength (before ++ text) := by
  rw [← Place.afterText_append, Place.offset_start]

/-! ## A lexeme starts the text -/

theorem Lexeme.text_starts (c : Char) (cs : List Char) : (start c cs).text <+: c :: cs := by
  by_cases hquote : IsQuote c
  · rw [start_quote hquote, quoted]
    cases hbody : StringLiteral.body? c cs with
    | none => exact (List.prefix_cons_inj c).2 (List.takeWhile_prefix _)
    | some body =>
        have hcloses := (StringLiteral.body?_eq_some_iff hquote).1 hbody
        have hstarts : c :: (body ++ [c]) <+: c :: cs := (List.prefix_cons_inj c).2 hcloses.2
        cases hdecode : StringLiteral.decode body <;> simpa only [hdecode] using hstarts
  · rw [start, if_neg (StringLiteral.isQuote_iff.not.1 hquote)]
    split_ifs
    · exact (List.prefix_cons_inj c).2 (List.takeWhile_prefix _)
    · cases hsymbol : symbol? (c :: cs) with
      | some found => exact symbol?_starts hsymbol
      | none =>
          cases hread : Numeral.read? (c :: cs) with
          | some n => exact (Numeral.wellFormed_of_read? hread).2
          | none => exact ⟨cs, rfl⟩

namespace TokenStream

/-! ## Where tokens start -/

/-- The places at which a token of the source should start, each with the tokens before it, the
text before it and the text from it on: the start of the source, and behind a separator or a token
that such a place is followed by. -/
inductive Reaches (source : List Char) : List Token → List Char → List Char → Prop where
  | start : Reaches source [] [] source
  | separator {tokens : List Token} {before rest : List Char} {c : Char}
      (hreach : Reaches source tokens before (c :: rest)) (hsep : isSeparator c = true) :
      Reaches source tokens (before ++ [c]) rest
  | token {tokens : List Token} {before text rest : List Char} {token : Token}
      (hreach : Reaches source tokens before (text ++ rest))
      (hnext : tokens ++ [token] <+: (ofText source).tokens)
      (hspan : token.span = ⟨Text.byteLength before, Text.byteLength (before ++ text)⟩) :
      Reaches source (tokens ++ [token]) (before ++ text) rest

/-- The source is cut off behind `before` by a fault of `text`. -/
def FailsAt (source : List Char) (tokens : List Token) (before : List Char) (fault : LexFault)
    (text : List Char) : Prop :=
  before ++ text <+: source ∧
    ofText source =
      ⟨tokens, some ⟨fault, String.ofList text, (Place.afterText {} before).position,
        ⟨Text.byteLength before, Text.byteLength (before ++ text)⟩⟩⟩

/-- The next token of the source is `text` behind `before`. -/
def YieldsAt (source : List Char) (tokens : List Token) (before : List Char) (kind : TokenKind)
    (value : TokenValue) (text : List Char) : Prop :=
  before ++ text <+: source ∧
    tokens ++ [⟨kind, value, ⟨Text.byteLength before, Text.byteLength (before ++ text)⟩,
      (Place.afterText {} before).position⟩] <+: (ofText source).tokens

variable {source before rest text : List Char} {tokens : List Token} {token : Token} {c : Char}
  {place : Place} {cs : List Char}

/-! ## Reading on from such a place -/

theorem readLexeme_of_ok {piece : Piece} (h : (Lexeme.start c cs).outcome = .ok piece) :
    readLexeme place c cs =
      cons ⟨piece.1, piece.2, ⟨place.offset, (place.afterText (Lexeme.start c cs).text).offset⟩,
          place.position⟩
        (read (place.afterText (Lexeme.start c cs).text)
          ((c :: cs).drop (Lexeme.start c cs).text.length)) := by
  simp only [readLexeme, h]

theorem readLexeme_of_error {fault : LexFault}
    (h : (Lexeme.start c cs).outcome = .error fault) :
    readLexeme place c cs =
      ⟨[], some ⟨fault, String.ofList (Lexeme.start c cs).text, place.position,
        ⟨place.offset, (place.afterText (Lexeme.start c cs).text).offset⟩⟩⟩ := by
  simp only [readLexeme, h]

/-- A token that starts where reading starts is taken off the text. -/
theorem read_of_head (h : [token] <+: (read place (text ++ rest)).tokens)
    (hspan : token.span = ⟨place.offset, (place.afterText text).offset⟩) :
    read place (text ++ rest) = cons token (read (place.afterText text) rest) := by
  cases hdrop : (text ++ rest).dropWhile isSeparator with
  | nil => simp [read_of_dropWhile_eq_nil hdrop] at h
  | cons c ds =>
      rw [read_of_dropWhile_eq_cons hdrop] at h ⊢
      cases houtcome : (Lexeme.start c ds).outcome with
      | error fault => simp [readLexeme_of_error houtcome] at h
      | ok piece =>
          rw [readLexeme_of_ok houtcome] at h ⊢
          have htoken := (List.cons_prefix_cons.1 h).1
          subst htoken
          -- the token starts at once, so there are no separators before it
          simp only [Span.mk.injEq, Place.offset_afterText] at hspan
          have hnone : (text ++ rest).takeWhile isSeparator = [] :=
            Text.eq_nil_of_byteLength_eq_zero (by omega)
          have hsplit : text ++ rest = c :: ds := by
            rw [← List.takeWhile_append_dropWhile (p := isSeparator) (l := text ++ rest), hnone,
              hdrop, List.nil_append]
          have htext : (Lexeme.start c ds).text = text :=
            Text.eq_of_prefix_of_byteLength_eq (Lexeme.text_starts c ds)
              (hsplit ▸ List.prefix_append text rest) (by omega)
          simp only [hnone, Place.afterText_nil, htext]
          rw [← hsplit, List.drop_left]

theorem Reaches.read_eq (h : Reaches source tokens before rest) :
    source = before ++ rest ∧
      ofText source = (read (Place.afterText {} before) rest).prepend tokens := by
  induction h with
  | start => exact ⟨rfl, rfl⟩
  | separator _ hsep ih =>
      rcases ih with ⟨hsource, hread⟩
      refine ⟨by simpa using hsource, ?_⟩
      rw [hread, read_separator hsep, Place.afterText_append]
      rfl
  | @token tokens before text rest token _ hnext hspan ih =>
      -- the next token of the source is the first one that is read from here on
      rcases ih with ⟨hsource, hread⟩
      refine ⟨by simpa using hsource, ?_⟩
      rw [hread] at hnext
      have hhead := (List.prefix_append_right_inj tokens).1 hnext
      rw [hread, read_of_head hhead, Place.afterText_append]
      · simp [prepend, cons]
      · rw [hspan, Place.offset_start, Place.offset_behind]

namespace Reaches

/-- At a place where a token should start the source fails as the lexeme there does. -/
theorem failsAt_iff (h : Reaches source tokens before (c :: rest))
    (hsep : isSeparator c = false) {fault : LexFault} :
    FailsAt source tokens before fault text ↔
      (Lexeme.start c rest).outcome = .error fault ∧ (Lexeme.start c rest).text = text := by
  rcases h.read_eq with ⟨hsource, hread⟩
  rw [read_lexeme hsep] at hread
  constructor
  · rintro ⟨-, hfails⟩
    rw [hread] at hfails
    cases houtcome : (Lexeme.start c rest).outcome with
    | error fault' =>
        rw [readLexeme_of_error houtcome] at hfails
        simp only [prepend, mk.injEq, Option.some.injEq, LexError.mk.injEq] at hfails
        rcases hfails with ⟨-, rfl, htext, -⟩
        exact ⟨rfl, String.ofList_injective htext⟩
    | ok piece =>
        rw [readLexeme_of_ok houtcome] at hfails
        have htokens := congrArg (fun stream => stream.tokens.length) hfails
        simp [prepend, cons] at htokens
  · rintro ⟨houtcome, rfl⟩
    refine ⟨hsource ▸ (List.prefix_append_right_inj before).2 (Lexeme.text_starts c rest), ?_⟩
    rw [hread, readLexeme_of_error houtcome, Place.offset_start, Place.offset_behind]
    simp [prepend]

/-- At a place where a token should start the source yields the token that the lexeme there is. -/
theorem yieldsAt_iff (h : Reaches source tokens before (c :: rest))
    (hsep : isSeparator c = false) {kind : TokenKind} {value : TokenValue} :
    YieldsAt source tokens before kind value text ↔
      (Lexeme.start c rest).outcome = .ok (kind, value) ∧ (Lexeme.start c rest).text = text := by
  rcases h.read_eq with ⟨hsource, hread⟩
  rw [read_lexeme hsep] at hread
  constructor
  · rintro ⟨hstarts, hyields⟩
    rw [hread] at hyields
    have hhead := (List.prefix_append_right_inj tokens).1 hyields
    cases houtcome : (Lexeme.start c rest).outcome with
    | error fault => simp [readLexeme_of_error houtcome] at hhead
    | ok piece =>
        rw [readLexeme_of_ok houtcome] at hhead
        have htoken := (List.cons_prefix_cons.1 hhead).1
        simp only [Token.mk.injEq, Span.mk.injEq, Place.offset_afterText,
          Text.byteLength_append] at htoken
        rcases htoken with ⟨rfl, rfl, ⟨-, hstop⟩, -⟩
        refine ⟨rfl, ?_⟩
        rw [hsource, List.prefix_append_right_inj] at hstarts
        exact Text.eq_of_prefix_of_byteLength_eq (Lexeme.text_starts c rest) hstarts (by omega)
  · rintro ⟨houtcome, rfl⟩
    refine ⟨hsource ▸ (List.prefix_append_right_inj before).2 (Lexeme.text_starts c rest), ?_⟩
    rw [hread, readLexeme_of_ok houtcome, Place.offset_start, Place.offset_behind]
    simp [prepend, cons]

/-- Separators are skipped up to the next place. -/
theorem separators {separators : List Char} (h : Reaches source tokens before (separators ++ rest))
    (hall : ∀ c ∈ separators, isSeparator c = true) :
    Reaches source tokens (before ++ separators) rest := by
  induction separators generalizing before with
  | nil => simpa using h
  | cons c separators ih =>
      have hnext := ih (h.separator (hall c (by simp))) fun d hd => hall d (by simp [hd])
      simpa using hnext

/-- Behind such a place the source ends, or a token or a fault stands at the next one. -/
theorem next (h : Reaches source tokens before rest) :
    ofText source = ⟨tokens, none⟩ ∨
      ∃ before' c rest', Reaches source tokens before' (c :: rest') ∧ isSeparator c = false ∧
        ofText source = (readLexeme (Place.afterText {} before') c rest').prepend tokens := by
  have hplace : Reaches source tokens (before ++ rest.takeWhile isSeparator)
      (rest.dropWhile isSeparator) := by
    rw [← List.takeWhile_append_dropWhile (p := isSeparator) (l := rest)] at h
    exact h.separators fun c hc => List.mem_takeWhile_imp hc
  cases hdrop : rest.dropWhile isSeparator with
  | nil =>
      rw [hdrop] at hplace
      exact .inl (by simpa [prepend] using hplace.read_eq.2)
  | cons c ds =>
      rw [hdrop] at hplace
      have hsep : isSeparator c = false := by
        have hhead := List.head?_dropWhile_not isSeparator rest
        simpa [hdrop] using hhead
      have hread := hplace.read_eq.2
      rw [read_lexeme hsep] at hread
      exact .inr ⟨_, c, ds, hplace, hsep, hread⟩

end Reaches

/-- Behind every token of a source such a place follows. -/
theorem exists_reaches (h : tokens <+: (ofText source).tokens) :
    ∃ before rest, Reaches source tokens before rest := by
  induction tokens using List.reverseRecOn with
  | nil => exact ⟨[], source, .start⟩
  | append_singleton tokens token ih =>
      rcases ih ((List.prefix_append tokens [token]).trans h) with ⟨before, rest, hreach⟩
      rcases hreach.next with hend | ⟨before, c, rest, hplace, hsep, hread⟩
      · have hlength := h.length_le
        simp only [hend, List.length_append, List.length_singleton] at hlength
        omega
      · have hhead := h
        rw [hread] at hhead
        have hhead := (List.prefix_append_right_inj tokens).1 hhead
        cases houtcome : (Lexeme.start c rest).outcome with
        | error fault => simp [readLexeme_of_error houtcome] at hhead
        | ok piece =>
            rw [readLexeme_of_ok houtcome] at hhead
            have htoken := (List.cons_prefix_cons.1 hhead).1
            have hlexeme := List.prefix_iff_eq_append.1 (Lexeme.text_starts c rest)
            rw [← hlexeme] at hplace
            refine ⟨_, _, hplace.token h ?_⟩
            rw [htoken, Place.offset_start, Place.offset_behind]

end TokenStream

/-! ## String literals -/

namespace Lexeme

variable {c : Char} {cs text : List Char} {value : TokenValue}

theorem ofWord_ne_string (w : String) : TokenKind.ofWord w ≠ .string := by
  unfold TokenKind.ofWord
  split_ifs <;> decide

theorem numberLiteral?_ne_string (n : Numeral) (literal : Literal) :
    numberLiteral? n ≠ some (.string, literal) := by
  unfold numberLiteral?
  split_ifs <;> simp

/-- Only a quotation mark starts a string literal. -/
theorem isQuote_of_outcome (h : (start c cs).outcome = .ok (.string, value)) : IsQuote c := by
  by_contra hquote
  rw [start, if_neg (StringLiteral.isQuote_iff.not.1 hquote)] at h
  split_ifs at h with hword
  · simp only [word, Except.ok.injEq, Prod.mk.injEq] at h
    exact ofWord_ne_string _ h.1
  · cases hsymbol : symbol? (c :: cs) with
    | some found =>
        simp only [hsymbol, Except.ok.injEq, Prod.mk.injEq] at h
        have hspelling := (of_spelling?_symbol? (s := "") hsymbol).1
        rw [h.1] at hspelling
        cases hspelling
    | none =>
        cases hread : Numeral.read? (c :: cs) with
        | none => simp [hsymbol, hread] at h
        | some n =>
            cases hliteral : numberLiteral? n with
            | none => simp [hsymbol, hread, number, hliteral] at h
            | some found =>
                simp only [hsymbol, hread, number, hliteral, Except.ok.injEq, Prod.mk.injEq] at h
                exact numberLiteral?_ne_string n found.2 (by rw [hliteral, ← h.1])

/-- A string literal is the token of a closed literal with a legal body. -/
theorem outcome_string_iff :
    ((start c cs).outcome = .ok (.string, value) ∧ (start c cs).text = text) ↔
      ∃ body decoded, IsQuote c ∧ Closes c cs body ∧ Spells c body decoded ∧
        value = .literal (.string (String.ofList decoded)) ∧ text = c :: (body ++ [c]) := by
  constructor
  · rintro ⟨houtcome, rfl⟩
    have hquote := isQuote_of_outcome houtcome
    rw [start_quote hquote, quoted] at houtcome ⊢
    cases hbody : StringLiteral.body? c cs with
    | none => simp [hbody] at houtcome
    | some body =>
        have hcloses := (StringLiteral.body?_eq_some_iff hquote).1 hbody
        cases hdecode : StringLiteral.decode body with
        | none => simp [hbody, hdecode] at houtcome
        | some decoded =>
            have hspells := (StringLiteral.decode_eq_some_iff hquote hcloses.1).1 hdecode
            simp only [hbody, hdecode, Except.ok.injEq, Prod.mk.injEq, true_and] at houtcome
            exact ⟨body, decoded, hquote, hcloses, hspells, houtcome.symm, by simp [hdecode]⟩
  · rintro ⟨body, decoded, hquote, hcloses, hspells, rfl, rfl⟩
    rw [start_quote hquote, quoted, hcloses.body?_eq hquote]
    simp only [hspells.decode_eq, and_self]

end Lexeme

/-- The pattern of string literals matches closed literals only, and no more or less of them than
the whole. -/
theorem matchesAt_string_iff {c : Char} {cs text : List Char} :
    MatchesAt (c :: cs) .string text ↔
      ∃ body items, IsQuote c ∧ Closes c cs body ∧ Itemizes c body items ∧
        text = c :: (body ++ [c]) := by
  constructor
  · rintro ⟨hstarts, hmem⟩
    have hquoted : ∃ quote, IsQuote quote ∧ text ∈ Pattern.quoted quote := by
      rcases hmem with h | h
      · exact ⟨'"', .inl rfl, h⟩
      · exact ⟨'\'', .inr rfl, h⟩
    rcases hquoted with ⟨quote, hquote, hmem⟩
    rcases Pattern.mem_quoted_iff.1 hmem with ⟨body, items, hitems, rfl⟩
    rcases List.cons_prefix_cons.1 hstarts with ⟨rfl, hclosed⟩
    exact ⟨body, items, hquote, ⟨hitems.scanned hquote, hclosed⟩, hitems, rfl⟩
  · rintro ⟨body, items, hquote, hcloses, hitems, rfl⟩
    refine ⟨(List.prefix_cons_inj c).2 hcloses.2, ?_⟩
    have hmem := Pattern.mem_quoted_iff.2 ⟨body, items, hitems, rfl⟩
    rcases hquote with rfl | rfl
    · exact .inl hmem
    · exact .inr hmem

/-! ## The faults of a source -/

namespace TokenStream

/-- Every fault of a source stands where a token should start. -/
theorem exists_faulty_of_error {source : List Char} {error : LexError}
    (h : (ofText source).error = some error) :
    ∃ before c rest text, Reaches source (ofText source).tokens before (c :: rest) ∧
      isSeparator c = false ∧
        FailsAt source (ofText source).tokens before error.fault text ∧
          Faulty (c :: rest) error.fault text := by
  rcases exists_reaches (List.prefix_refl (ofText source).tokens) with ⟨before, rest, hreach⟩
  rcases hreach.next with hend | ⟨before, c, rest, hplace, hsep, hread⟩
  · rw [hend] at h
    cases h
  · cases houtcome : (Lexeme.start c rest).outcome with
    | ok piece =>
        rw [readLexeme_of_ok houtcome] at hread
        have htokens := congrArg (fun stream => stream.tokens.length) hread
        simp [prepend, cons] at htokens
    | error fault =>
        rw [hread, readLexeme_of_error houtcome] at h
        cases h
        exact ⟨before, c, rest, (Lexeme.start c rest).text, hplace, hsep,
          (hplace.failsAt_iff hsep).2 ⟨houtcome, rfl⟩, Lexeme.faulty_of_outcome houtcome⟩

/-- Where a token should start, the source fails with the faults of the text there and no others, a
closed literal with a legal body is a token, and the pattern of string literals agrees with the
scan for the closing quotation mark. -/
theorem failsAt_iff_faulty {source before rest : List Char} {tokens : List Token}
    {c : Char} (hreach : Reaches source tokens before (c :: rest))
    (hsep : isSeparator c = false) :
    (∀ fault text, FailsAt source tokens before fault text ↔ Faulty (c :: rest) fault text) ∧
      (∀ value text, YieldsAt source tokens before .string value text ↔
        ∃ body decoded, IsQuote c ∧ Closes c rest body ∧ Spells c body decoded ∧
          value = .literal (.string (String.ofList decoded)) ∧ text = c :: (body ++ [c])) ∧
      (IsQuote c → (∃ body, Closes c rest body) ∨ Unclosed c rest) ∧
      ∀ text, MatchesAt (c :: rest) .string text ↔
        ∃ body items, IsQuote c ∧ Closes c rest body ∧ Itemizes c body items ∧
          text = c :: (body ++ [c]) := by
  refine ⟨?_, ?_, fun _ => StringLiteral.closes_or_unclosed c rest,
    fun text => matchesAt_string_iff⟩
  · intro fault text
    exact (hreach.failsAt_iff hsep).trans Lexeme.outcome_error_iff
  · intro value text
    exact (hreach.yieldsAt_iff hsep).trans Lexeme.outcome_string_iff

/-- A literal with half of a surrogate pair, which the pattern lets through. -/
def halfPairText : List Char :=
  "tag = '\\ud83d'".toList

/-- The tokens before the literal. -/
def halfPairTokens : List Token :=
  [⟨.name, .text "tag", ⟨0, 3⟩, ⟨1, 1⟩⟩, ⟨.equals, .text "=", ⟨4, 5⟩, ⟨1, 5⟩⟩]

theorem faulty_halfPairText :
    ∃ rest, Reaches halfPairText halfPairTokens "tag = ".toList ('\'' :: rest) ∧
      isSeparator '\'' = false ∧
      FailsAt halfPairText halfPairTokens "tag = ".toList .invalidEscape ('\'' :: rest) ∧
      Faulty ('\'' :: rest) .invalidEscape ('\'' :: rest) ∧
      MatchesAt ('\'' :: rest) .string ('\'' :: rest) := by
  let rest := "\\ud83d'".toList
  have hname : Reaches halfPairText [⟨.name, .text "tag", ⟨0, 3⟩, ⟨1, 1⟩⟩] "tag".toList
      (" = '".toList ++ rest) :=
    @Reaches.token halfPairText [] [] "tag".toList (" = '".toList ++ rest) _ .start
      (by decide +kernel) (by decide +kernel)
  have hequals : Reaches halfPairText halfPairTokens "tag =".toList (" '".toList ++ rest) :=
    @Reaches.token halfPairText _ "tag ".toList "=".toList (" '".toList ++ rest) _
      (hname.separator rfl) (by decide +kernel) (by decide +kernel)
  have hreach : Reaches halfPairText halfPairTokens "tag = ".toList ('\'' :: rest) :=
    hequals.separator rfl
  have hfails : FailsAt halfPairText halfPairTokens "tag = ".toList .invalidEscape
      ('\'' :: rest) :=
    ⟨by decide +kernel, by decide +kernel⟩
  have hitems : Itemizes '\'' "\\ud83d".toList [.unit 0xd83d] := .unit (by decide +kernel) .nil
  have hcloses : Closes '\'' rest "\\ud83d".toList :=
    ⟨hitems.scanned (.inr rfl), by decide +kernel⟩
  rcases failsAt_iff_faulty hreach rfl with ⟨hfaults, -, -, hmatches⟩
  exact ⟨rest, hreach, rfl, hfails, (hfaults _ _).1 hfails,
    (hmatches _).2 ⟨_, _, .inr rfl, hcloses, hitems, rfl⟩⟩

end TokenStream

end FieldFilter
