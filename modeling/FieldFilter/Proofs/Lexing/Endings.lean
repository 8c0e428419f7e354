import FieldFilter.Proofs.Lexing.LongestMatch
import FieldFilter.Proofs.Paths

/-!
# Where texts and tokens end

Behind a separator and behind an opening parenthesis a token is over, whatever follows.

* `endsTokens`, `Lexeme.text_eq_of_endsTokens` — the characters that no token but the parenthesis
  ends with;
* `TokenStream.read_append_of_endsTokens` — a text that ends with one is read in front of any other
  text as on its own;
* `TokenStream.stop_lt_of_separator` — no token reaches the end of a text that ends with a
  separator;
* `Lexes.exists_gapless` — the tokens of a text without separators;
* `Tiles.exists_behind`, `Tiles.exists_text_of_gapless` — the text of tokens without a gap.
-/

namespace FieldFilter

open Text (byteLength)
open TokenStream (isSeparator)

variable {c d : Char} {cs text behind more source before : List Char} {piece : Piece}

/-- A character behind which a token is over, whatever follows. -/
def endsTokens (c : Char) : Bool :=
  isSeparator c || c == '('

theorem endsTokens_of_isSeparator (h : isSeparator c = true) : endsTokens c = true := by
  simp [endsTokens, h]

theorem continuesToken_eq_false_of_endsTokens (h : endsTokens c = true) :
    continuesToken c = false := by
  simp only [endsTokens, isSeparator, Bool.or_eq_true, beq_iff_eq] at h
  rcases h with ((((rfl | rfl) | rfl) | rfl) | rfl) | rfl <;> rfl

/-! ## The last character of a token -/

namespace Lexeme

/-- The parenthesis is the only token that ends with a character behind which tokens are over. -/
theorem text_eq_of_endsTokens (h : (start c cs).outcome = .ok piece)
    (hd : d ∈ (start c cs).text.getLast?) (hends : endsTokens d = true) :
    (start c cs).text = ['('] := by
  have hcontinues : ¬ ∀ e ∈ (start c cs).text, continuesToken e = true := by
    intro hall
    have hlast := hall d (List.mem_of_getLast? hd)
    rw [continuesToken_eq_false_of_endsTokens hends] at hlast
    cases hlast
  by_cases hquote : StringLiteral.IsQuote c
  · -- a string ends with its quotation mark
    have hmark : endsTokens c = false := by rcases hquote with rfl | rfl <;> rfl
    rw [start_quote hquote, quoted] at h hd
    cases hbody : StringLiteral.body? c cs with
    | none => simp [hbody] at h
    | some body =>
        have hlast : d ∈ (c :: body ++ [c]).getLast? := by
          simp only [hbody] at hd
          rw [List.cons_append]
          cases hdecode : StringLiteral.decode body <;> simpa only [hdecode] using hd
        obtain rfl : c = d := by simpa only [List.getLast?_concat, Option.mem_some_iff] using hlast
        rw [hends] at hmark
        cases hmark
  · by_cases hword : isIdentifierStart c = true
    · refine absurd ?_ hcontinues
      rw [start, if_pos hword, word]
      refine List.forall_mem_cons.2 ⟨?_, fun e he => ?_⟩
      · simp [continuesToken, isIdentifierPart_of_isIdentifierStart hword]
      · simp [continuesToken, List.mem_takeWhile_imp he]
    · rw [start, if_neg hword, if_neg (StringLiteral.isQuote_iff.not.1 hquote)] at h hd ⊢
      cases hsymbol : symbol? (c :: cs) with
      | some found =>
          simp only [hsymbol] at hd ⊢
          unfold symbol? at hsymbol
          split at hsymbol <;> cases hsymbol <;> cases hd <;> first | rfl | cases hends
      | none =>
          cases hread : Numeral.read? (c :: cs) with
          | none => simp [hsymbol, hread] at h
          | some n =>
              refine absurd ?_ hcontinues
              rw [start_of_read? hread]
              exact (Numeral.wellFormed_of_read? hread).1.continuesToken

/-- A token of a text that ends where tokens are over is the same whatever follows the text. -/
theorem start_append_of_endsTokens (houtcome : (start c (text ++ behind)).outcome = .ok piece)
    (htext : (start c (text ++ behind)).text = c :: text)
    (hends : ∀ d ∈ (c :: text ++ behind).getLast?, endsTokens d = true) (more : List Char) :
    start c (text ++ (behind ++ more)) = start c (text ++ behind) := by
  rcases List.eq_nil_or_concat behind with rfl | ⟨kept, d, rfl⟩
  · rw [List.append_nil] at houtcome htext hends
    have hparen : (start c text).text = ['('] := by
      rcases hlast : (c :: text).getLast? with _ | d
      · simp at hlast
      · exact text_eq_of_endsTokens houtcome (htext ▸ hlast) (hends d hlast)
    obtain ⟨rfl, rfl⟩ := List.cons.inj (htext.symm.trans hparen)
    rfl
  · rw [List.concat_eq_append] at *
    have hd : endsTokens d = true := by
      refine hends d (List.mem_getLast?_append_of_mem_getLast? ?_)
      exact Option.mem_def.2 List.getLast?_concat
    have hmore : StartsApart (d :: more) := .cons (continuesToken_eq_false_of_endsTokens hd) more
    have hcut := start_cut hmore houtcome htext
    simpa using hcut

end Lexeme

namespace TokenStream

variable {place : Place} {token : Token} {tokens : List Token}

/-! ## Texts that end where tokens are over -/

/-- In front of any text, a text without faults that ends where tokens are over is read as on its
own. -/
theorem read_append_of_endsTokens (herror : (read place source).error = none)
    (hends : ∀ d ∈ source.getLast?, endsTokens d = true) (more : List Char) :
    read place (source ++ more) =
      (read (place.afterText source) more).prepend (read place source).tokens := by
  -- what stands behind the first token is shorter, ends in the same way and is read elsewhere
  induction hlength : source.length using Nat.strong_induction_on generalizing place source with
  | _ n ih =>
      have hstep := readStep_read place source
      generalize read place source = stream at hstep herror ⊢
      cases hstep with
      | blank hall => exact read_separators hall
      | fault _ _ _ _ => cases herror
      | @token separators text behind c piece hseparators hsep houtcome htext =>
          have hlast : ∀ d ∈ (c :: text ++ behind).getLast?, endsTokens d = true := fun d hd =>
            hends d (List.mem_getLast?_append_of_mem_getLast? hd)
          have hstart := Lexeme.start_append_of_endsTokens houtcome htext hlast more
          have hbehind : ∀ d ∈ behind.getLast?, endsTokens d = true := fun d hd =>
            hlast d (List.mem_getLast?_append_of_mem_getLast? hd)
          have hshorter : behind.length < n := by
            rw [← hlength]
            simp
            omega
          have hfirst : read (place.afterText separators) (c :: (text ++ (behind ++ more))) = _ :=
            read_token hsep (hstart ▸ houtcome) (hstart ▸ htext)
          rw [List.append_assoc, read_separators hseparators, List.cons_append, List.append_assoc,
            hfirst, ih _ hshorter herror hbehind rfl]
          simp [prepend, cons]

/-- No token reaches the end of a text that ends with a separator. -/
theorem stop_lt_of_separator (h : token ∈ (ofText source).tokens)
    (hends : ∃ d ∈ source.getLast?, isSeparator d = true) :
    token.span.stop < byteLength source := by
  rcases hends with ⟨d, hd, hsep⟩
  rcases exists_start_of_mem_read [] source token h with
    ⟨before, c, text, behind, piece, hsplit, -, houtcome, htext, rfl⟩
  rw [List.nil_append] at hsplit
  subst hsplit
  simp only [tokenAt, Place.offset_behind]
  rcases behind with _ | ⟨e, behind⟩
  · -- the token would end with the separator
    have hlast : d ∈ (Lexeme.start c (text ++ [])).text.getLast? := by
      rw [htext]
      simpa [List.getLast?_append] using hd
    have hparen := Lexeme.text_eq_of_endsTokens houtcome hlast (endsTokens_of_isSeparator hsep)
    rw [hparen] at hlast
    cases hlast
    cases hsep
  · have hpos := e.utf8Size_pos
    simp only [Text.byteLength_append, Text.byteLength_cons]
    omega

end TokenStream

/-! ## Tokens without a gap -/

/-- What some items leave of a text is tiled by the others. -/
theorem Tiles.exists_behind {items later : List TokenStream.Item}
    (h : Tiles before source (items ++ later)) (hne : later ≠ []) :
    ∃ front behind, source = front ++ behind ∧ Tiles (before ++ front) behind later := by
  induction items generalizing before source with
  | nil => exact ⟨[], source, rfl, by simpa using h⟩
  | cons item items ih =>
      generalize hitems : item :: items ++ later = all at h
      cases h with
      | gap _ => cases hitems
      | fault _ _ =>
          rw [List.cons_append] at hitems
          have hnil := (List.cons.inj hitems).2
          simp [hne] at hnil
      | @token _ gap text behind _ _ _ _ hbehind =>
          rw [List.cons_append] at hitems
          rw [← (List.cons.inj hitems).2] at hbehind
          rcases ih hbehind with ⟨front, rest, rfl, hrest⟩
          exact ⟨gap ++ text ++ front, rest, by simp, by simpa using hrest⟩

/-- From the first of some tokens on, a text that they cover to its end without a gap consists of
what they carry. -/
theorem Tiles.exists_text_of_gapless {tokens : List Token} {start : Nat}
    (h : Tiles before source (tokens.map .ok)) (hne : tokens ≠ [])
    (hgapless : Span.Gapless start (tokens.map Token.span) (byteLength (before ++ source)))
    (htexts : ∀ token ∈ tokens, ∃ text, token.value = .text text) :
    ∃ gap, source = gap ++ tokens.flatMap (fun token => token.valueText.toList) ∧
      start = byteLength (before ++ gap) := by
  rcases tokens with _ | ⟨token, tokens⟩
  · exact absurd rfl hne
  · cases h with
    | @token _ gap text behind _ _ hgap hcovers hbehind =>
        have hstart : start = byteLength (before ++ gap) := by
          have hspan : token.span =
              ⟨byteLength (before ++ gap), byteLength (before ++ gap ++ text)⟩ := hcovers.span_eq
          rw [← hgapless.1, hspan]
        -- what the tokens cover is tiled without the gap in front of it
        have htiles : Tiles (before ++ gap) (text ++ behind) ((token :: tokens).map .ok) :=
          @Tiles.token (before ++ gap) [] text behind token _ (by simp) (by simpa using hcovers)
            (by simpa using hbehind)
        refine ⟨gap, ?_, hstart⟩
        rw [← htiles.eq_flatMap_valueText ?_ htexts]
        rw [hstart, ← List.append_assoc] at hgapless
        exact hgapless

/-- A text without separators that reads as pieces has, behind another text, tokens with these
pieces and without a gap. -/
theorem Lexes.exists_gapless {pieces : List Piece} (h : Lexes text pieces [])
    (hall : ∀ c ∈ text, isSeparator c = false) (before : List Char) :
    ∃ tokens, TokenStream.read (Place.afterText {} before) text = ⟨tokens, none⟩ ∧
      tokens.map Token.piece = pieces ∧
      Span.Gapless (byteLength before) (tokens.map Token.span) (byteLength (before ++ text)) := by
  rcases h (Place.afterText {} before) with ⟨tokens, hpieces, hread⟩
  have hstream : TokenStream.read (Place.afterText {} before) text = ⟨tokens, none⟩ := by
    simpa [TokenStream.prepend] using hread
  have htiles : Tiles before text (tokens.map .ok) := by
    have htiles := tiles_read before text
    simpa [hstream, TokenStream.items] using htiles
  have hgapless := htiles.gapless (by simp [Except.isOk, Except.toBool]) hall
  refine ⟨tokens, hstream, hpieces, ?_⟩
  simpa [Function.comp_def, TokenStream.Item.span] using hgapless

end FieldFilter
