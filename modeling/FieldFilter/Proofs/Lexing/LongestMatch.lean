import FieldFilter.Proofs.Lexing.Tiling

/-!
# Tokens are the longest matches

Every token is the longest text from its place on that matches a pattern, however far a longer
attempt gets before it fails.

* `Opening`, `Shape`, `exists_shape` — what the first character of a match tells of it;
* `TokenKind.IsKindOf`, `TokenKind.eq_of_mem_pattern` — the kind of a text: a reserved word goes
  before the name that it could be, and no other text matches two patterns;
* `Lexeme.isLongest_start`, `Lexeme.isKindOf_start` — the lexeme at the start of a text;
* `TokenStream.exists_start_of_mem_read` — every token is the lexeme at its place;
* `TokenStream.isLongest_ofText` — the tokens and the fault of a whole text.
-/

namespace FieldFilter

open StringLiteral (IsQuote Closes Unclosed)
open Text (byteLength dropBytes slice?)

variable {c : Char} {cs rest text : List Char} {kind kind' : TokenKind} {value : TokenValue}

/-! ## What the first character tells -/

/-- The sorts of tokens that the first character tells apart. -/
inductive Opening where
  | word
  | quoted
  | mark
  | number
  deriving DecidableEq, Repr

/-- The characters that operators and punctuation marks start with. -/
def startsMark (c : Char) : Bool :=
  ['!', '=', '<', '>', '~', '.', ',', '(', ')'].contains c

/-- The sort of the tokens that start with a character. -/
def Opening.of? (c : Char) : Option Opening :=
  if isIdentifierStart c then some .word
  else if c = '"' || c = '\'' then some .quoted
  else if startsMark c then some .mark
  else if c = '-' || c.isDigit then some .number
  else none

/-- What a match of a kind is like when it starts with a character of a sort. -/
inductive Shape (c : Char) (rest : List Char) (kind : TokenKind) : Opening → Prop where
  | word (hrest : ∀ d ∈ rest, isIdentifierPart d = true)
      (hkind : kind = .name ∨ isReserved (String.ofList (c :: rest)) = true) :
      Shape c rest kind .word
  | quoted (hkind : kind = .string) : Shape c rest kind .quoted
  | mark (hspelling : kind.spelling? = some (String.ofList (c :: rest))) : Shape c rest kind .mark
  | number {n : Numeral} (hn : n.WellFormed) (hkind : kind = n.kind) (htext : n.text = c :: rest) :
      Shape c rest kind .number

namespace Opening

theorem of?_of_identifierStart (h : isIdentifierStart c = true) : of? c = some .word := by
  rw [of?, if_pos h]

theorem of?_of_isQuote (h : IsQuote c) : of? c = some .quoted := by
  rcases h with rfl | rfl <;> rfl

theorem startsMark_of_symbol? (h : Lexeme.symbol? (c :: cs) = some (kind, text)) :
    startsMark c = true ∧ of? c = some .mark := by
  unfold Lexeme.symbol? at h
  split at h
  case h_13 => cases h
  all_goals
    rename_i heq
    cases heq
    exact ⟨rfl, rfl⟩

theorem of?_of_read? {n : Numeral} (h : Numeral.read? (c :: cs) = some n) :
    of? c = some .number := by
  have hnumber : c = '-' ∨ c.isDigit = true := Numeral.head_of_read? h
  rcases Lexeme.head_of_read? h with ⟨hstart, hquote, -⟩
  have hmark : startsMark c = false := by
    rw [Bool.eq_false_iff]
    intro hmark
    have hmem : c ∈ ['!', '=', '<', '>', '~', '.', ',', '(', ')'] := by
      simpa [startsMark] using hmark
    simp only [List.mem_cons, List.not_mem_nil, or_false] at hmem
    rcases hmem with rfl | rfl | rfl | rfl | rfl | rfl | rfl | rfl | rfl <;>
      rcases hnumber with hnumber | hnumber <;> cases hnumber
  rw [of?, if_neg (by simp [hstart]), if_neg (by simp [hquote]), if_neg (by simp [hmark]),
    if_pos (by simpa using hnumber)]

end Opening

theorem isIdentifier_of_isReserved {w : String} (h : isReserved w = true) :
    isIdentifier w = true := by
  have hall : ∀ w ∈ reservedWords, isIdentifier w = true := by decide
  exact hall w (by simpa [isReserved] using h)

namespace TokenKind

/-- A kind with one spelling is that of a reserved word or of a mark. -/
theorem isReserved_or_mark {s : String} (h : kind.spelling? = some s) :
    isReserved s = true ∨ ∃ c rest, s.toList = c :: rest ∧ Opening.of? c = some .mark := by
  cases kind <;> cases h
  case andWord | orWord | notWord | inWord | trueWord | falseWord | noneWord => exact .inl rfl
  all_goals exact .inr ⟨_, _, rfl, rfl⟩

theorem mem_all (kind : TokenKind) : kind ∈ all := by
  cases kind <;> decide

theorem eq_of_spelling? {s : String} (h : kind.spelling? = some s) (h' : kind'.spelling? = some s) :
    kind = kind' := by
  have hall : ∀ kind ∈ all, ∀ kind' ∈ all,
      kind.spelling?.isSome = true → kind.spelling? = kind'.spelling? → kind = kind' := by
    decide +kernel
  exact hall kind kind.mem_all kind' kind'.mem_all (by rw [h]; rfl) (h.trans h'.symm)

theorem spelling?_ofWord {w : String} (h : isReserved w = true) :
    (ofWord w).spelling? = some w := by
  have hall : ∀ w ∈ reservedWords, (ofWord w).spelling? = some w := by decide
  exact hall w (by simpa [isReserved] using h)

end TokenKind

/-- A match has a first character, and is of the sort that it tells. -/
theorem exists_shape (h : text ∈ kind.pattern) :
    ∃ c rest opening, text = c :: rest ∧ Opening.of? c = some opening ∧
      Shape c rest kind opening := by
  have hnumber : (∃ n : Numeral, n.WellFormed ∧ n.kind = kind ∧ text = n.text) →
      ∃ c rest opening, text = c :: rest ∧ Opening.of? c = some opening ∧
        Shape c rest kind opening := by
    rintro ⟨n, hn, hkind, rfl⟩
    have hread := hn.read?_text
    cases htext : n.text with
    | nil => exact absurd htext (Lexeme.text_ne_nil_of_read? hread)
    | cons c rest =>
        rw [htext] at hread
        exact ⟨c, rest, .number, rfl, Opening.of?_of_read? hread, .number hn hkind.symm htext⟩
  cases hspelling : kind.spelling? with
  | some s =>
      rw [TokenKind.pattern_of_spelling? hspelling, Pattern.mem_exactly_iff] at h
      have hs : String.ofList text = s := by rw [h, String.ofList_toList]
      rcases TokenKind.isReserved_or_mark hspelling with hreserved | ⟨c, rest, heq, hmark⟩
      · have hword := isIdentifier_of_isReserved hreserved
        cases text with
        | nil => simp [isIdentifier, ← h] at hword
        | cons c rest =>
            have hchars : isIdentifierStart c = true ∧ ∀ d ∈ rest, isIdentifierPart d = true := by
              simpa [isIdentifier, ← h] using hword
            exact ⟨c, rest, .word, rfl, Opening.of?_of_identifierStart hchars.1,
              .word hchars.2 (.inr (hs ▸ hreserved))⟩
      · obtain rfl : text = c :: rest := h.trans heq
        exact ⟨c, rest, .mark, rfl, hmark, .mark (hs ▸ hspelling)⟩
  | none =>
      cases kind with
      | int =>
          rcases Numeral.mem_int_iff.1 h with ⟨n, hn, hkind, htext⟩
          exact hnumber ⟨n, hn, hkind, htext⟩
      | float =>
          rcases Numeral.mem_float_iff.1 h with ⟨n, hn, hkind, htext⟩
          exact hnumber ⟨n, hn, hkind, htext⟩
      | string =>
          rcases h with h | h <;> rcases Pattern.mem_quoted_iff.1 h with ⟨body, items, -, rfl⟩
          · exact ⟨_, _, .quoted, rfl, rfl, .quoted rfl⟩
          · exact ⟨_, _, .quoted, rfl, rfl, .quoted rfl⟩
      | name =>
          rcases Pattern.mem_word_iff.1 h with ⟨c, rest, hstart, hrest, rfl⟩
          exact ⟨c, rest, .word, rfl, Opening.of?_of_identifierStart hstart,
            .word hrest (.inl rfl)⟩
      | _ => cases hspelling

/-- A match at the start of a text is of the sort that the first character of the text tells. -/
theorem exists_shape_of_matchesAt {opening : Opening} (hopening : Opening.of? c = some opening)
    (h : MatchesAt (c :: cs) kind text) :
    ∃ rest, text = c :: rest ∧ rest <+: cs ∧ Shape c rest kind opening := by
  rcases h with ⟨hstarts, hmem⟩
  rcases exists_shape hmem with ⟨d, rest, opening', rfl, hopening', hshape⟩
  rcases List.cons_prefix_cons.1 hstarts with ⟨rfl, hrest⟩
  obtain rfl : opening' = opening := Option.some.inj (hopening'.symm.trans hopening)
  exact ⟨rest, rfl, hrest, hshape⟩

/-! ## The kind of a text -/

namespace TokenKind

/-- The kind of a text that matches a pattern: that of the reserved word that it is, or else the one
kind whose pattern it matches. -/
def IsKindOf (kind : TokenKind) (text : List Char) : Prop :=
  if isReserved (String.ofList text) then kind.spelling? = some (String.ofList text)
  else text ∈ kind.pattern ∧ ∀ kind', text ∈ kind'.pattern → kind' = kind

/-- Only reserved words match two patterns. -/
theorem eq_of_mem_pattern (h : text ∈ kind.pattern) (h' : text ∈ kind'.pattern)
    (hreserved : isReserved (String.ofList text) = false) : kind = kind' := by
  rcases exists_shape h with ⟨c, rest, opening, rfl, hopening, hshape⟩
  rcases exists_shape_of_matchesAt hopening ⟨List.prefix_refl _, h'⟩ with
    ⟨rest', heq, -, hshape'⟩
  obtain rfl := (List.cons.inj heq).2
  cases hshape with
  | word _ hkind =>
      rcases hshape' with ⟨-, hkind'⟩
      simp only [hreserved, Bool.false_eq_true, or_false] at hkind hkind'
      rw [hkind, hkind']
  | quoted hkind =>
      rcases hshape' with _ | hkind'
      rw [hkind, hkind']
  | mark hspelling =>
      rcases hshape' with _ | _ | hspelling'
      exact eq_of_spelling? hspelling hspelling'
  | @number n hn hkind htext =>
      rcases hshape' with _ | _ | _ | ⟨hm, hkind', htext'⟩
      -- the numeral that is read from a text is the only one that it spells
      have hread := hn.read?_text
      rw [htext, ← htext', hm.read?_text] at hread
      obtain rfl := Option.some.inj hread
      rw [hkind, hkind']

end TokenKind

/-! ## The lexeme at the start of a text -/

/-- A text of characters of a class is no longer than all of them that a text starts with. -/
theorem length_le_takeWhile {p : Char → Bool} (hall : ∀ d ∈ text, p d = true) (h : text <+: cs) :
    text.length ≤ (cs.takeWhile p).length := by
  rcases h with ⟨behind, rfl⟩
  rw [List.takeWhile_append_of_pos hall, List.length_append]
  exact Nat.le_add_right _ _

namespace Lexeme

theorem isLongest_word (hstart : isIdentifierStart c = true) :
    IsLongest (c :: cs) (TokenKind.ofWord (String.ofList (word c cs).text)) (word c cs).text := by
  refine ⟨⟨(List.prefix_cons_inj c).2 (List.takeWhile_prefix _), ?_⟩, ?_⟩
  · cases hreserved : isReserved (String.ofList (word c cs).text) with
    | true =>
        rw [TokenKind.pattern_of_spelling? (TokenKind.spelling?_ofWord hreserved)]
        exact Pattern.mem_exactly_iff.2 String.toList_ofList.symm
    | false =>
        rw [TokenKind.ofWord_eq_name hreserved]
        exact Pattern.mem_word_iff.2 ⟨c, _, hstart, fun d hd => List.mem_takeWhile_imp hd, rfl⟩
  · intro kind text hmatch
    rcases exists_shape_of_matchesAt (Opening.of?_of_identifierStart hstart) hmatch with
      ⟨rest, rfl, hrest, hall, -⟩
    exact Nat.succ_le_succ (length_le_takeWhile hall hrest)

theorem isLongest_quoted {body : List Char} (hquote : IsQuote c) (hcloses : Closes c cs body)
    (hmatch : MatchesAt (c :: cs) .string (c :: (body ++ [c]))) :
    IsLongest (c :: cs) .string (c :: (body ++ [c])) := by
  refine ⟨hmatch, ?_⟩
  intro kind text h
  rcases exists_shape_of_matchesAt (Opening.of?_of_isQuote hquote) h with ⟨rest, -, -, hshape⟩
  obtain rfl : kind = .string := by
    cases hshape
    assumption
  -- a literal is closed at one place only
  rcases matchesAt_string_iff.1 h with ⟨body', items, -, hcloses', -, rfl⟩
  have hbody := (hcloses.body?_eq hquote).symm.trans (hcloses'.body?_eq hquote)
  rw [Option.some.inj hbody]

/-- A mark that starts a text is not longer than the one that is read. -/
theorem length_le_of_symbol? {s : String} {found : List Char}
    (h : symbol? cs = some (kind, found)) (hspelling : kind'.spelling? = some s)
    (hstarts : s.toList <+: cs) (hmark : isReserved s = false) :
    s.toList.length ≤ found.length := by
  rcases hstarts with ⟨rest, rfl⟩
  have hpos : 0 < found.length := List.length_pos_iff.2 (text_ne_nil_of_symbol? h)
  cases kind' <;> cases hspelling
  case notEquals | notContains | greaterEqual | lessEqual =>
    cases h
    exact Nat.le_refl _
  case andWord | orWord | notWord | inWord | trueWord | falseWord | noneWord => cases hmark
  all_goals exact hpos

theorem isLongest_symbol (h : symbol? (c :: cs) = some (kind, text)) :
    IsLongest (c :: cs) kind text := by
  refine ⟨matchesAt_of_symbol? h, ?_⟩
  intro kind' text' hmatch
  have hopening := (Opening.startsMark_of_symbol? h).2
  rcases exists_shape_of_matchesAt hopening hmatch with ⟨rest, rfl, -, hshape⟩
  rcases hshape with _ | _ | hspelling
  have hreserved : isReserved (String.ofList (c :: rest)) = false := by
    rw [Bool.eq_false_iff]
    intro hreserved
    have hword : isIdentifierStart c = true := by
      have hall := isIdentifier_of_isReserved hreserved
      simp only [isIdentifier, String.toList_ofList, Bool.and_eq_true] at hall
      exact hall.1
    rw [Opening.of?_of_identifierStart hword] at hopening
    cases hopening
  have hle := length_le_of_symbol? h hspelling (by simpa using hmatch.1) hreserved
  rwa [String.toList_ofList] at hle

theorem kind_eq_of_number {n : Numeral} (h : (number n).outcome = .ok (kind, value)) :
    kind = n.kind := by
  cases hliteral : numberLiteral? n with
  | none => simp [number, hliteral] at h
  | some found =>
      simp only [number, hliteral, Except.ok.injEq, Prod.mk.injEq] at h
      rw [← h.1, Numeral.kind]
      unfold numberLiteral? at hliteral
      split_ifs at hliteral with hwhole
      · rcases Option.map_eq_some_iff.1 hliteral with ⟨literal, -, rfl⟩
        rw [if_pos hwhole]
      · rcases Option.map_eq_some_iff.1 hliteral with ⟨literal, -, rfl⟩
        rw [if_neg hwhole]

/-- The lexeme at the start of a text is the longest match. -/
theorem isLongest_start (h : (start c cs).outcome = .ok (kind, value)) :
    IsLongest (c :: cs) kind (start c cs).text := by
  by_cases hquote : IsQuote c
  · obtain rfl : kind = .string := by
      rw [start_quote hquote] at h
      rcases spells_of_quoted h with ⟨_, hkind, -⟩
      exact hkind
    rcases outcome_string_iff.1 ⟨h, rfl⟩ with ⟨body, decoded, -, hcloses, hspells, -, htext⟩
    rw [htext]
    rcases hspells.exists_items with ⟨items, hitems, -⟩
    exact isLongest_quoted hquote hcloses
      (matchesAt_string_iff.2 ⟨body, items, hquote, hcloses, hitems, rfl⟩)
  · have hplain := StringLiteral.isQuote_iff.not.1 hquote
    by_cases hstart : isIdentifierStart c = true
    · rw [start, if_pos hstart] at h ⊢
      cases h
      exact isLongest_word hstart
    · cases hsymbol : symbol? (c :: cs) with
      | some found =>
          rw [start, if_neg hstart, if_neg hplain] at h ⊢
          simp only [hsymbol, Except.ok.injEq, Prod.mk.injEq] at h ⊢
          exact isLongest_symbol (by rw [hsymbol, ← h.1])
      | none =>
          cases hread : Numeral.read? (c :: cs) with
          | some n =>
              rw [start_of_read? hread] at h ⊢
              rw [kind_eq_of_number h]
              exact isLongest_of_read? hread
          | none =>
              rw [start, if_neg hstart, if_neg hplain] at h
              simp [hsymbol, hread] at h

/-- The lexeme at the start of a text is of the kind of what it takes of the text. -/
theorem isKindOf_start (h : (start c cs).outcome = .ok (kind, value)) :
    kind.IsKindOf (start c cs).text := by
  have hmem := (isLongest_start h).1.2
  unfold TokenKind.IsKindOf
  split_ifs with hreserved
  · rcases exists_text c cs with ⟨text, behind, htext, -⟩
    have hstart : isIdentifierStart c = true := by
      have hword := isIdentifier_of_isReserved hreserved
      rw [htext, isIdentifier, String.toList_ofList, Bool.and_eq_true] at hword
      exact hword.1
    rw [start, if_pos hstart] at h hreserved ⊢
    cases h
    exact TokenKind.spelling?_ofWord hreserved
  · refine ⟨hmem, ?_⟩
    intro kind' hmem'
    exact TokenKind.eq_of_mem_pattern hmem' hmem (Bool.eq_false_iff.2 hreserved)

end Lexeme

/-! ## The tokens of a text -/

namespace TokenStream

/-- Every token is the lexeme at its place. -/
theorem exists_start_of_mem_read (front cs : List Char) (token : Token) :
    token ∈ (read (Place.afterText {} front) cs).tokens →
      ∃ before c text behind piece, front ++ cs = before ++ (c :: text ++ behind) ∧
        isSeparator c = false ∧ (Lexeme.start c (text ++ behind)).outcome = .ok piece ∧
        (Lexeme.start c (text ++ behind)).text = c :: text ∧
        token = tokenAt (Place.afterText {} before) piece (c :: text) := by
  have hstep := readStep_read (Place.afterText {} front) cs
  generalize read (Place.afterText {} front) cs = stream at hstep ⊢
  intro h
  cases hstep with
  | blank _ => cases h
  | fault _ _ _ _ => cases h
  | @token separators text behind c piece hseparators hsep houtcome htext =>
      rcases List.mem_cons.1 h with rfl | h
      · refine ⟨front ++ separators, c, text, behind, piece, by simp, hsep, houtcome, htext, ?_⟩
        rw [Place.afterText_append]
      · rw [← Place.afterText_append, ← Place.afterText_append] at h
        rcases exists_start_of_mem_read _ behind token h with
          ⟨before, d, text', behind', piece', hsplit, hfound⟩
        exact ⟨before, d, text', behind', piece', by simpa using hsplit, hfound⟩
termination_by cs.length
decreasing_by
  simp
  omega

/-- On its own, the text of a token is that token. -/
theorem ofText_of_start {piece : Piece} {behind : List Char} (hsep : isSeparator c = false)
    (houtcome : (Lexeme.start c (text ++ behind)).outcome = .ok piece)
    (htext : (Lexeme.start c (text ++ behind)).text = c :: text) :
    ofText (c :: text) = ⟨[tokenAt {} piece (c :: text)], none⟩ := by
  have hcut : Lexeme.start c (text ++ ([] ++ [])) = Lexeme.start c (text ++ ([] ++ behind)) :=
    Lexeme.start_cut (by simp [StartsApart]) houtcome htext
  simp only [List.nil_append] at hcut
  rw [← hcut] at houtcome htext
  have hread : read {} (c :: (text ++ [])) = _ := read_token hsep houtcome htext
  rw [List.append_nil] at hread
  rw [ofText, hread, read_nil]
  rfl

/-- Where a fault says that nothing starts a token, no text matches a pattern. -/
theorem not_matchesAt_of_faulty {fault : LexFault} (h : Faulty (c :: cs) fault text)
    (hfault : fault = .unexpectedCharacter ∨ fault = .unterminatedString) (kind : TokenKind)
    (text' : List Char) : ¬ MatchesAt (c :: cs) kind text' := by
  intro hmatch
  cases h with
  | unmatched _ hnone => exact hnone kind text' hmatch
  | unterminated hquote hunclosed =>
      rcases exists_shape_of_matchesAt (Opening.of?_of_isQuote hquote) hmatch with
        ⟨rest, -, -, hshape⟩
      obtain rfl : kind = .string := by
        cases hshape
        assumption
      rcases matchesAt_string_iff.1 hmatch with ⟨body, items, -, hcloses, -, -⟩
      have hbody := (hcloses.body?_eq hquote).symm.trans hunclosed.body?_eq
      cases hbody
  | illegal | outOfRange => rcases hfault with hfault | hfault <;> cases hfault

/-- Every token takes the longest text from its place on that matches a pattern, its kind is the
kind of that text, and on its own the text is the same token again.  Where a character or a string
literal starts no token, no text matches a pattern. -/
theorem isLongest_ofText (source : List Char) :
    (∀ token ∈ (ofText source).tokens,
      slice? token.span.start token.span.stop source = some (token.spelling source) ∧
        IsLongest (dropBytes token.span.start source) token.kind (token.spelling source) ∧
        token.kind.IsKindOf (token.spelling source) ∧
        ofText (token.spelling source) =
          ⟨[{ token with span := ⟨0, byteLength (token.spelling source)⟩, position := {} }],
            none⟩) ∧
      ∀ error ∈ (ofText source).error,
        error.fault = .unexpectedCharacter ∨ error.fault = .unterminatedString →
          ∀ kind text, ¬ MatchesAt (dropBytes error.span.start source) kind text := by
  constructor
  · intro token htoken
    rcases exists_start_of_mem_read [] source token htoken with
      ⟨before, c, text, behind, piece, hsplit, hsep, houtcome, htext, rfl⟩
    rw [List.nil_append] at hsplit
    subst hsplit
    have hspan : (tokenAt (Place.afterText {} before) piece (c :: text)).span =
        ⟨byteLength before, byteLength (before ++ c :: text)⟩ := by
      simp only [tokenAt, Place.offset_start, Place.offset_behind]
    have hslice := Text.slice?_split before (c :: text) behind
    have hspelling : (tokenAt (Place.afterText {} before) piece (c :: text)).spelling
        (before ++ (c :: text ++ behind)) = c :: text :=
      Span.slice_eq_of_slice? (by rw [hspan, hslice])
    have hlongest := Lexeme.isLongest_start houtcome
    have hkind := Lexeme.isKindOf_start houtcome
    rw [htext] at hlongest hkind
    rw [hspelling, hspan, Text.dropBytes_byteLength_append]
    refine ⟨hslice, hlongest, hkind, ?_⟩
    rw [ofText_of_start hsep houtcome htext]
    simp only [tokenAt, Place.offset_start]
  · intro error herror hfault
    rcases exists_faulty_of_error herror with
      ⟨before, c, rest, text, hreach, -, ⟨-, hfails⟩, hfaulty⟩
    rw [hfails] at herror
    have hstart : error.span.start = byteLength before :=
      (congrArg (fun error => error.span.start) (Option.some.inj herror)).symm
    rw [hstart, hreach.read_eq.1, Text.dropBytes_byteLength_append]
    exact not_matchesAt_of_faulty hfaulty hfault

/-- A reserved word, a name that goes on behind one, and a float whose exponent has no digits. -/
def nearMissText : List Char :=
  "not nots>=-1.5e+".toList

/-- The float ends where it was complete, and nothing starts at its sign. -/
theorem isLongest_nearMissText :
    ⟨.float, .literal (.float (-1.5)), ⟨10, 14⟩, ⟨1, 11⟩⟩ ∈ (ofText nearMissText).tokens ∧
      IsLongest "-1.5e+".toList .float "-1.5".toList ∧
      ⟨.unexpectedCharacter, "+", ⟨1, 16⟩, ⟨15, 16⟩⟩ ∈ (ofText nearMissText).error ∧
      ∀ kind text, ¬ MatchesAt ['+'] kind text := by
  have htoken : ⟨.float, .literal (.float (-1.5)), ⟨10, 14⟩, ⟨1, 11⟩⟩ ∈
      (ofText nearMissText).tokens := by decide +kernel
  have herror : ⟨.unexpectedCharacter, "+", ⟨1, 16⟩, ⟨15, 16⟩⟩ ∈ (ofText nearMissText).error := by
    decide +kernel
  rcases isLongest_ofText nearMissText with ⟨htokens, herrors⟩
  exact ⟨htoken, (htokens _ htoken).2.1, herror, herrors _ herror (.inl rfl)⟩

end TokenStream

end FieldFilter
