import FieldFilter.Completion
import FieldFilter.Proofs.Lexing.TokenStarts

/-!
# Texts that are cut behind a token

What stands behind a token does not change it when the text is cut there and goes on with a
character that no token goes on with.

* `TokenStream.ReadStep` — what reading a text comes to, up to its first token;
* `continuesToken`, `StartsApart` — the texts in front of which every token is over;
* `Lexeme.start_cut` — a lexeme stays the same when what follows it is cut;
* `TokenStream.exists_front` — so do several tokens, and the text up to their end reads as them;
* `TokenStream.exists_front_of_error_eq_none` — of a text without faults nothing but separators is
  left behind its tokens;
* `TokenStream.read_blanks` — what blanks in front of a text do;
* `TokenStream.read_append` — a text without faults is read in front of such a text as on its own.
-/

namespace FieldFilter

variable {c : Char} {cs rest kept lost more text : List Char}

/-! ## Blanks -/

namespace Text

/-- The numbers of the blanks. -/
def blankNumbers : List Nat :=
  [0x9, 0xa, 0xb, 0xc, 0xd, 0x20, 0x85, 0xa0, 0x1680, 0x2000, 0x2001, 0x2002, 0x2003, 0x2004,
    0x2005, 0x2006, 0x2007, 0x2008, 0x2009, 0x200a, 0x2028, 0x2029, 0x202f, 0x205f, 0x3000]

theorem toNat_mem_blankNumbers (h : isBlank c = true) : c.toNat ∈ blankNumbers := by
  simp only [isBlank, Bool.or_eq_true, Bool.and_eq_true, decide_eq_true_eq, beq_iff_eq] at h
  simp only [blankNumbers, List.mem_cons, List.not_mem_nil, or_false]
  omega

/-- What holds of no blank is false of a character that is one. -/
theorem eq_false_of_isBlank {p : Char → Bool}
    (hp : blankNumbers.all (fun n => !p (Char.ofNat n)) = true) (h : isBlank c = true) :
    p c = false := by
  have hnot := List.all_eq_true.1 hp c.toNat (toNat_mem_blankNumbers h)
  simpa using hnot

theorem isBlank_of_isSeparator (h : TokenStream.isSeparator c = true) : isBlank c = true := by
  simp only [TokenStream.isSeparator, Bool.or_eq_true, beq_iff_eq] at h
  rcases h with (((rfl | rfl) | rfl) | rfl) | rfl <;> rfl

end Text

/-! ## Characters that end tokens -/

/-- A character that a word, a mark or a numeral may go on with. -/
def continuesToken (c : Char) : Bool :=
  isIdentifierPart c || c == '=' || c == '.' || c == '+' || c == '-'

/-- A text that no token in front of it goes on with. -/
def StartsApart (more : List Char) : Prop :=
  ∀ c ∈ more.head?, continuesToken c = false

theorem isBlank_eq_false_of_continuesToken (h : continuesToken c = true) :
    Text.isBlank c = false := by
  rw [Bool.eq_false_iff]
  intro hblank
  have hends : continuesToken c = false := Text.eq_false_of_isBlank (by decide) hblank
  rw [h] at hends
  cases hends

theorem continuesToken_of_isDigit (h : c.isDigit = true) : continuesToken c = true := by
  simp [continuesToken, isIdentifierPart, Char.isAlphanum, h]

theorem StartsApart.cons (h : continuesToken c = false) (more : List Char) :
    StartsApart (c :: more) := by
  rintro d ⟨⟩
  exact h

theorem StartsApart.of_isBlank (h : ∀ d ∈ more.head?, Text.isBlank d = true) :
    StartsApart more :=
  fun d hd => Text.eq_false_of_isBlank (by decide) (h d hd)

/-- Blanks in front of a text that starts apart change nothing about that. -/
theorem StartsApart.append_of_isBlank (hblanks : ∀ d ∈ text, Text.isBlank d = true)
    (hmore : StartsApart more) : StartsApart (text ++ more) := by
  cases text with
  | nil => exact hmore
  | cons d text => exact .of_isBlank (by simpa using hblanks d (by simp))

/-- What the rest of a text does not start with, it does not start with when it is cut. -/
theorem StartsApart.head?_cut {p : Char → Bool} (hmore : StartsApart more)
    (hp : ∀ d, p d = true → continuesToken d = true)
    (hrest : ∀ d ∈ (kept ++ lost).head?, p d = false) :
    ∀ d ∈ (kept ++ more).head?, p d = false := by
  cases kept with
  | nil =>
      intro d hd
      rw [Bool.eq_false_iff]
      intro hpd
      have hends := hmore d hd
      rw [hp d hpd] at hends
      cases hends
  | cons d kept => exact hrest

theorem StartsApart.takeWhile_cut {p : Char → Bool} (hmore : StartsApart more)
    (hp : ∀ d, p d = true → continuesToken d = true)
    (h : (text ++ (kept ++ lost)).takeWhile p = text) :
    (text ++ (kept ++ more)).takeWhile p = text := by
  have hall : ∀ d ∈ text, p d = true := fun d hd => List.mem_takeWhile_imp (h ▸ hd)
  have hdrop : (text ++ (kept ++ lost)).dropWhile p = kept ++ lost := by
    have hsplit := List.takeWhile_append_dropWhile (p := p) (l := text ++ (kept ++ lost))
    rw [h] at hsplit
    exact List.append_cancel_left hsplit
  have hhead : ∀ d ∈ (kept ++ lost).head?, p d = false := by
    intro d hd
    have hfirst := List.head?_dropWhile_not p (text ++ (kept ++ lost))
    rw [hdrop, hd] at hfirst
    simpa using hfirst
  exact takeWhile_append_of_head hall (hmore.head?_cut hp hhead)

/-- A text of characters that tokens go on with ends before the cut if it starts in front of it. -/
theorem StartsApart.starts_of_continuesToken (hmore : StartsApart more)
    (htext : ∀ d ∈ text, continuesToken d = true) (h : text <+: kept ++ more) : text <+: kept := by
  rcases List.prefix_or_prefix_of_prefix h (List.prefix_append kept more) with hkept | ⟨behind, rfl⟩
  · exact hkept
  · have hbehind := (List.prefix_append_right_inj kept).1 h
    cases behind with
    | nil => simp
    | cons d behind =>
        rcases hbehind with ⟨rest, rfl⟩
        have hends := hmore d rfl
        rw [htext d (by simp)] at hends
        cases hends

/-! ## The characters of numerals -/

theorem Exponent.WellFormed.continuesToken {e : Exponent} (he : e.WellFormed) :
    ∀ d ∈ e.text, continuesToken d = true := by
  intro d hd
  simp only [Exponent.text, List.cons_append, List.mem_cons, List.mem_append,
    Option.mem_toList] at hd
  rcases hd with rfl | hsign | hdigit
  · rcases he.mark with hmark | hmark <;> rw [hmark] <;> rfl
  · rcases he.sign d hsign with rfl | rfl <;> rfl
  · exact continuesToken_of_isDigit (he.digits d hdigit)

theorem Numeral.WellFormed.continuesToken {n : Numeral} (hn : n.WellFormed) :
    ∀ d ∈ n.text, continuesToken d = true := by
  intro d hd
  rw [Numeral.text_eq, List.mem_append, List.mem_append, List.mem_append] at hd
  rcases hd with hsign | hwhole | hfraction | hpower
  · split at hsign
    · rw [List.mem_singleton.1 hsign]; rfl
    · cases hsign
  · exact continuesToken_of_isDigit (hn.whole.isDigit d hwhole)
  · unfold fractionText at hfraction
    split at hfraction
    · cases hfraction
    · rcases List.mem_cons.1 hfraction with rfl | hdigit
      · rfl
      · exact continuesToken_of_isDigit (hn.fraction d hdigit)
  · cases hexponent : n.exponent with
    | none => simp [hexponent] at hpower
    | some e =>
        have hd : d ∈ e.text := by simpa [hexponent] using hpower
        exact (hn.exponent e hexponent).continuesToken d hd

/-! ## Lexemes in front of a text that is cut -/

namespace Lexeme

variable {kind : TokenKind} {piece : Piece}

theorem symbol?_cut (hmore : StartsApart more)
    (h : symbol? (text ++ (kept ++ lost)) = some (kind, text)) :
    symbol? (text ++ (kept ++ more)) = some (kind, text) := by
  have hcut : (∀ d ∈ (kept ++ lost).head?, (d == '=') = false) →
      ∀ d ∈ (kept ++ more).head?, (d == '=') = false :=
    hmore.head?_cut fun d hd => by simp [continuesToken, hd]
  generalize hcs : text ++ (kept ++ lost) = cs at h
  unfold symbol? at h
  split at h
  -- only `>` and `<` depend on what follows them
  case h_6 hne | h_7 hne =>
    cases h
    obtain rfl := (List.cons.inj hcs).2
    have hhead : ∀ d ∈ (kept ++ more).head?, (d == '=') = false := by
      refine hcut ?_
      intro d hd
      rw [beq_eq_false_iff_ne]
      rintro rfl
      rcases List.head?_eq_some_iff.1 hd with ⟨rest, hrest⟩
      exact hne rest hrest
    generalize kept ++ more = behind at hhead
    cases behind with
    | nil => rfl
    | cons d behind =>
        have hd : d ≠ '=' := by simpa using hhead d rfl
        simp [symbol?, hd]
  case h_13 => cases h
  all_goals
    cases h
    rfl

theorem read?_cut (hmore : StartsApart more) {n : Numeral}
    (h : Numeral.read? (n.text ++ (kept ++ lost)) = some n) :
    Numeral.read? (n.text ++ (kept ++ more)) = some n := by
  have hn := (Numeral.wellFormed_of_read? h).1
  rcases Numeral.read?_text_append hn (kept ++ more) with ⟨m, hread, rfl | ⟨-, hlonger⟩⟩
  · exact hread
  · -- tokens go on with all of a longer numeral, so it would have been read before the cut as well
    rcases Numeral.wellFormed_of_read? hread with ⟨hm, hstarts⟩
    have hkept : m.text <+: n.text ++ kept := by
      rw [← List.append_assoc] at hstarts
      exact hmore.starts_of_continuesToken hm.continuesToken hstarts
    rcases hkept with ⟨behind, hbehind⟩
    rcases Numeral.read?_text_append hm (behind ++ lost) with ⟨m', hread', hm'⟩
    rw [← List.append_assoc, hbehind, List.append_assoc, h] at hread'
    cases hread'
    rcases hm' with rfl | ⟨-, hlt⟩
    · exact hread
    · omega

/-- A lexeme stays the same when what follows it is cut. -/
theorem start_cut (hmore : StartsApart more)
    (houtcome : (start c (text ++ (kept ++ lost))).outcome = .ok piece)
    (htext : (start c (text ++ (kept ++ lost))).text = c :: text) :
    start c (text ++ (kept ++ more)) = start c (text ++ (kept ++ lost)) := by
  by_cases hquote : StringLiteral.IsQuote c
  · rw [start_quote hquote, quoted] at houtcome htext
    cases hbody : StringLiteral.body? c (text ++ (kept ++ lost)) with
    | none => simp [hbody] at houtcome
    | some body =>
        have hscanned := ((StringLiteral.body?_eq_some_iff hquote).1 hbody).1
        have hclosed : text = body ++ [c] := by
          cases hdecode : StringLiteral.decode body <;>
            simp only [hbody, hdecode, List.cons.injEq, true_and] at htext <;> exact htext.symm
        have hbody' : StringLiteral.body? c (text ++ (kept ++ more)) = some body :=
          (StringLiteral.body?_eq_some_iff hquote).2 ⟨hscanned, hclosed ▸ List.prefix_append _ _⟩
        simp only [start_quote hquote, quoted, hbody, hbody']
  · have hplain := StringLiteral.isQuote_iff.not.1 hquote
    by_cases hword : isIdentifierStart c = true
    · simp only [start, hword, if_true, word, List.cons.injEq, true_and] at htext ⊢
      rw [htext, hmore.takeWhile_cut (fun d hd => by simp [continuesToken, hd]) htext]
    · cases hsymbol : symbol? (c :: (text ++ (kept ++ lost))) with
      | some found =>
          have hfound : ∀ {cs}, symbol? (c :: cs) = some found →
              start c cs = ⟨found.2, .ok (found.1, .text (String.ofList found.2))⟩ := by
            intro cs hcs
            rw [start, if_neg hword, if_neg hplain]
            simp only [hcs]
          rw [hfound hsymbol] at htext ⊢
          have hsymbol' : symbol? (c :: (text ++ (kept ++ more))) = some found := by
            rcases found with ⟨kind, _⟩
            obtain rfl : _ = c :: text := htext
            rw [← List.cons_append] at hsymbol ⊢
            exact symbol?_cut hmore hsymbol
          exact hfound hsymbol'
      | none =>
          cases hread : Numeral.read? (c :: (text ++ (kept ++ lost))) with
          | none =>
              rw [start, if_neg hword, if_neg hplain] at houtcome
              simp [hsymbol, hread] at houtcome
          | some n =>
              rw [start_of_read? hread] at htext ⊢
              have htext : n.text = c :: text := htext
              rw [← List.cons_append, ← htext] at hread
              have hread' := read?_cut hmore hread
              rw [htext] at hread'
              exact start_of_read? hread'

/-- No blank starts a token. -/
theorem exists_fault_of_isBlank (h : Text.isBlank c = true) (cs : List Char) :
    ∃ fault, (start c cs).outcome = .error fault := by
  have hword : isIdentifierStart c = false := Text.eq_false_of_isBlank (by decide) h
  have hquote : (c = '"' || c = '\'') = false :=
    Text.eq_false_of_isBlank (p := fun c => c = '"' || c = '\'') (by decide) h
  have hsymbol : symbol? (c :: cs) = none := by
    unfold symbol?
    split
    case h_13 => rfl
    all_goals
      rename_i heq
      cases heq
      cases h
  have hread : Numeral.read? (c :: cs) = none := by
    rw [Option.eq_none_iff_forall_ne_some]
    intro n hn
    rcases Numeral.head_of_read? hn with rfl | hdigit
    · cases h
    · rw [isBlank_eq_false_of_continuesToken (continuesToken_of_isDigit hdigit)] at h
      cases h
  rw [start, if_neg (by simp [hword]), if_neg (by simp [hquote])]
  simp only [hsymbol, hread]
  exact ⟨_, rfl⟩

theorem exists_text (c : Char) (cs : List Char) :
    ∃ text behind, (start c cs).text = c :: text ∧ cs = text ++ behind := by
  have hstarts := text_starts c cs
  cases htext : (start c cs).text with
  | nil => exact absurd htext (text_ne_nil c cs)
  | cons d text =>
      rw [htext] at hstarts
      rcases List.cons_prefix_cons.1 hstarts with ⟨rfl, behind, hbehind⟩
      exact ⟨text, behind, rfl, hbehind.symm⟩

end Lexeme

/-! ## Texts that are cut -/

namespace TokenStream

variable {place : Place} {tokens : List Token} {source front blanks : List Char}

theorem read_separators {separators : List Char}
    (hall : ∀ d ∈ separators, isSeparator d = true) :
    read place (separators ++ cs) = read (place.afterText separators) cs := by
  induction separators generalizing place with
  | nil => rfl
  | cons d separators ih =>
      rw [List.cons_append, read_separator (hall d (by simp)),
        ih fun d hd => hall d (List.mem_cons_of_mem _ hd), Place.afterText_cons]

/-- The token of a text at a place. -/
def tokenAt (place : Place) (piece : Piece) (text : List Char) : Token :=
  ⟨piece.1, piece.2, ⟨place.offset, (place.afterText text).offset⟩, place.position⟩

/-- The fault of a text at a place. -/
def faultAt (place : Place) (fault : LexFault) (text : List Char) : LexError :=
  ⟨fault, String.ofList text, place.position, ⟨place.offset, (place.afterText text).offset⟩⟩

theorem read_token {piece : Piece} {behind : List Char} (hsep : isSeparator c = false)
    (houtcome : (Lexeme.start c (text ++ behind)).outcome = .ok piece)
    (htext : (Lexeme.start c (text ++ behind)).text = c :: text) :
    read place (c :: (text ++ behind)) =
      cons (tokenAt place piece (c :: text)) (read (place.afterText (c :: text)) behind) := by
  rw [read_lexeme hsep, readLexeme_of_ok houtcome, htext, ← List.cons_append, List.drop_left]
  rfl

theorem read_fault {fault : LexFault} {behind : List Char} (hsep : isSeparator c = false)
    (houtcome : (Lexeme.start c (text ++ behind)).outcome = .error fault)
    (htext : (Lexeme.start c (text ++ behind)).text = c :: text) :
    read place (c :: (text ++ behind)) = ⟨[], some (faultAt place fault (c :: text))⟩ := by
  rw [read_lexeme hsep, readLexeme_of_error houtcome, htext]
  rfl

/-- What reading a text comes to: there is nothing to read in a text of separators, and otherwise
the lexeme behind the separators is a fault, or a token behind which reading goes on. -/
inductive ReadStep (place : Place) : List Char → TokenStream → Prop where
  | blank {cs : List Char} (hall : ∀ d ∈ cs, isSeparator d = true) : ReadStep place cs ⟨[], none⟩
  | fault {separators text behind : List Char} {c : Char} {fault : LexFault}
      (hseparators : ∀ d ∈ separators, isSeparator d = true) (hsep : isSeparator c = false)
      (houtcome : (Lexeme.start c (text ++ behind)).outcome = .error fault)
      (htext : (Lexeme.start c (text ++ behind)).text = c :: text) :
      ReadStep place (separators ++ c :: (text ++ behind))
        ⟨[], some (faultAt (place.afterText separators) fault (c :: text))⟩
  | token {separators text behind : List Char} {c : Char} {piece : Piece}
      (hseparators : ∀ d ∈ separators, isSeparator d = true) (hsep : isSeparator c = false)
      (houtcome : (Lexeme.start c (text ++ behind)).outcome = .ok piece)
      (htext : (Lexeme.start c (text ++ behind)).text = c :: text) :
      ReadStep place (separators ++ c :: (text ++ behind))
        (cons (tokenAt (place.afterText separators) piece (c :: text))
          (read ((place.afterText separators).afterText (c :: text)) behind))

theorem readStep_read (place : Place) (cs : List Char) : ReadStep place cs (read place cs) := by
  have hsplit := List.takeWhile_append_dropWhile (p := isSeparator) (l := cs)
  have hseparators : ∀ d ∈ cs.takeWhile isSeparator, isSeparator d = true :=
    fun d hd => List.mem_takeWhile_imp hd
  generalize cs.takeWhile isSeparator = separators at hsplit hseparators
  cases hdrop : cs.dropWhile isSeparator with
  | nil =>
      rw [read_of_dropWhile_eq_nil hdrop]
      exact .blank (List.dropWhile_eq_nil_iff.1 hdrop)
  | cons c rest =>
      have hsep : isSeparator c = false := by
        have hhead := List.head?_dropWhile_not isSeparator cs
        simpa [hdrop] using hhead
      rcases Lexeme.exists_text c rest with ⟨text, behind, htext, rfl⟩
      rw [hdrop] at hsplit
      subst hsplit
      rw [read_separators hseparators]
      cases houtcome : (Lexeme.start c (text ++ behind)).outcome with
      | error fault =>
          rw [read_fault hsep houtcome htext]
          exact .fault hseparators hsep houtcome htext
      | ok piece =>
          rw [read_token hsep houtcome htext]
          exact .token hseparators hsep houtcome htext

/-- The text up to the end of tokens that start a text: it reads as them whatever follows apart from
them, and reading the whole text goes on behind it. -/
structure Front (place : Place) (cs : List Char) (tokens : List Token) (front back : List Char) :
    Prop where
  split : cs = front ++ back
  read_eq : read place cs = (read (place.afterText front) back).prepend tokens
  read_cut : ∀ more, StartsApart more →
    read place (front ++ more) = (read (place.afterText front) more).prepend tokens
  stop_eq : ((tokens.reverse.head?.map fun token => token.span.stop).getD place.offset) =
    (place.afterText front).offset

theorem Front.nil (place : Place) (cs : List Char) : Front place cs [] [] cs :=
  ⟨rfl, rfl, fun _ _ => rfl, rfl⟩

theorem lastStop_cons (token : Token) (tokens : List Token) (offset : Nat) :
    (((token :: tokens).reverse.head?.map fun token => token.span.stop).getD offset) =
      ((tokens.reverse.head?.map fun token => token.span.stop).getD token.span.stop) := by
  rw [List.reverse_cons]
  cases tokens.reverse <;> rfl

/-- One more token in front of the text up to the end of others. -/
theorem Front.cons {piece : Piece} {separators behind back : List Char}
    (hseparators : ∀ d ∈ separators, isSeparator d = true) (hsep : isSeparator c = false)
    (houtcome : (Lexeme.start c (text ++ behind)).outcome = .ok piece)
    (htext : (Lexeme.start c (text ++ behind)).text = c :: text)
    (hfront : Front ((place.afterText separators).afterText (c :: text)) behind tokens front back) :
    Front place (separators ++ c :: (text ++ behind))
      (tokenAt (place.afterText separators) piece (c :: text) :: tokens)
      (separators ++ (c :: text ++ front)) back where
  split := by simp [hfront.split]
  read_eq := by
    rw [read_separators hseparators, read_token hsep houtcome htext, hfront.read_eq]
    simp [prepend, TokenStream.cons]
  read_cut := by
    intro more hmore
    rw [hfront.split] at houtcome htext
    have hcut := Lexeme.start_cut hmore houtcome htext
    have hread : read (place.afterText separators) (c :: (text ++ (front ++ more))) = _ :=
      read_token hsep (hcut ▸ houtcome) (hcut ▸ htext)
    rw [List.append_assoc, read_separators hseparators, List.append_assoc, List.cons_append, hread,
      hfront.read_cut more hmore]
    simp [prepend, TokenStream.cons]
  stop_eq := by
    rw [lastStop_cons, Place.afterText_append, Place.afterText_append]
    exact hfront.stop_eq

/-- Tokens that start a text end somewhere in it. -/
theorem exists_front (place : Place) (cs : List Char) (h : tokens <+: (read place cs).tokens) :
    ∃ front back, Front place cs tokens front back := by
  induction tokens generalizing place cs with
  | nil => exact ⟨[], cs, .nil place cs⟩
  | cons token tokens ih =>
      have hstep := readStep_read place cs
      generalize read place cs = stream at hstep h
      cases hstep with
      | blank _ => exact absurd h (by simp)
      | fault _ _ _ _ => exact absurd h (by simp)
      | token hseparators hsep houtcome htext =>
          rcases List.cons_prefix_cons.1 h with ⟨rfl, htokens⟩
          rcases ih _ _ htokens with ⟨front, back, hfront⟩
          exact ⟨_, back, .cons hseparators hsep houtcome htext hfront⟩

/-! ## Blanks behind a text -/

/-- Blanks that are no separators start no token. -/
theorem read_blanks (hblanks : ∀ d ∈ blanks, Text.isBlank d = true) :
    read place (blanks ++ cs) = read (place.afterText blanks) cs ∨
      (read place (blanks ++ cs)).tokens = [] ∧ (read place (blanks ++ cs)).error ≠ none := by
  induction blanks generalizing place with
  | nil => exact .inl rfl
  | cons d blanks ih =>
      cases hsep : isSeparator d with
      | true =>
          rw [List.cons_append, read_separator hsep]
          exact ih fun e he => hblanks e (List.mem_cons_of_mem _ he)
      | false =>
          rcases Lexeme.exists_fault_of_isBlank (hblanks d (by simp)) (blanks ++ cs) with
            ⟨fault, hfault⟩
          rw [List.cons_append, read_lexeme hsep, readLexeme_of_error hfault]
          exact .inr ⟨rfl, by simp⟩

/-- What reads as nothing consists of separators. -/
theorem isSeparator_of_read_eq (h : read place cs = ⟨[], none⟩) :
    ∀ d ∈ cs, isSeparator d = true := by
  cases hdrop : cs.dropWhile isSeparator with
  | nil => exact List.dropWhile_eq_nil_iff.1 hdrop
  | cons c rest =>
      rw [read_of_dropWhile_eq_cons hdrop] at h
      cases houtcome : (Lexeme.start c rest).outcome with
      | error fault => simp [readLexeme_of_error houtcome] at h
      | ok piece => simp [readLexeme_of_ok houtcome, cons] at h

/-- A text without faults is that of its tokens, and separators behind them. -/
theorem exists_front_of_error_eq_none (herror : (read place source).error = none) :
    ∃ front back, Front place source (read place source).tokens front back ∧
      ∀ d ∈ back, isSeparator d = true := by
  rcases exists_front place source (List.prefix_refl (read place source).tokens) with
    ⟨front, back, h⟩
  have hback : read (place.afterText front) back = ⟨[], none⟩ := by
    have hread := h.read_eq
    have htokens := congrArg tokens hread
    rw [hread] at herror
    generalize read (place.afterText front) back = stream at htokens herror
    rcases stream with ⟨tokens, error⟩
    simp only [prepend, List.self_eq_append_right] at htokens herror
    rw [htokens, herror]
  exact ⟨front, back, h, isSeparator_of_read_eq hback⟩

/-- In front of a text that starts apart, a text without faults is read as on its own. -/
theorem read_append (herror : (read place source).error = none) (hmore : StartsApart more) :
    read place (source ++ more) =
      (read (place.afterText source) more).prepend (read place source).tokens := by
  rcases exists_front_of_error_eq_none herror with ⟨front, back, h, hseparators⟩
  have hapart : StartsApart (back ++ more) :=
    hmore.append_of_isBlank fun d hd => Text.isBlank_of_isSeparator (hseparators d hd)
  calc
    read place (source ++ more) = read place (front ++ (back ++ more)) := by
      rw [← List.append_assoc, ← h.split]
    _ = (read (place.afterText front) (back ++ more)).prepend (read place source).tokens :=
      h.read_cut _ hapart
    _ = (read (place.afterText source) more).prepend (read place source).tokens := by
      rw [read_separators hseparators, ← Place.afterText_append, ← h.split]

/-- A text without faults is not changed by what follows it behind a space. -/
theorem ofText_append_space (herror : (ofText source).error = none) (more : List Char) :
    ofText (source ++ ' ' :: more) =
      (read (Place.afterText {} (source ++ [' '])) more).prepend (ofText source).tokens := by
  rw [ofText, read_append herror (.cons rfl more), read_separator rfl, Place.afterText_append]
  rfl

end TokenStream
end FieldFilter
