import FieldFilter.Proofs.Lexing.Tiling
import FieldFilter.Proofs.Printing.FewestGroups

/-!
# Two rules for dotted texts

Which dotted texts spell a path is said by the constructor of paths, which cuts at the dots, and
again by reading tokens, which tells names from reserved words and from numbers.  Both say the same.

* `FieldPath.ofDotted?_eq_some_iff` — a dotted text spells the path that it is the text of;
* `Alternates`, `PathTokens.alternates`, `Alternates.exists_pathTokens` — the kinds of the tokens of
  a path;
* `Span.Gapless`, `Tiles.gapless`, `Tiles.eq_flatMap_valueText` — tokens without separators between
  them;
* `FieldPath.ofDotted?_iff_tokens` — the texts that spell a path are those with such tokens.
-/

namespace FieldFilter

open Text (byteLength)
open TokenStream (isSeparator)

/-! ## Cutting at dots -/

namespace FieldPath

variable {path : FieldPath} {cs : List Char}

theorem joinDots_eq_intercalate (words : List (List Char)) :
    joinDots words = ['.'].intercalate words := by
  fun_induction joinDots words with
  | case1 => rfl
  | case2 word => simp [List.intercalate]
  | case3 word words hwords ih =>
      cases words with
      | nil => exact absurd rfl hwords
      | cons next words =>
          rw [ih, List.intercalate_cons_cons, List.append_assoc]
          rfl

theorem cutDots_eq_splitOn (cs : List Char) : cutDots cs = cs.splitOn '.' := by
  induction cs with
  | nil => rfl
  | cons c cs ih =>
      rw [cutDots, List.splitOn_cons_eq_if_modifyHead, ih]
      by_cases hdot : c = '.'
      · simp [hdot]
      · cases hsplit : cs.splitOn '.' with
        | nil => exact absurd hsplit (List.splitOn_ne_nil _ _)
        | cons word words => simp [hdot]

theorem isIdentifierPart_of_isSegment {word : String} (h : isSegment word = true) :
    ∀ c ∈ word.toList, isIdentifierPart c = true := by
  simp only [isSegment, Bool.and_eq_true] at h
  exact isIdentifierPart_of_isIdentifier h.1

/-- The words of a path have no dots. -/
theorem dot_not_mem_words : ∀ word ∈ path.words.map String.toList, '.' ∉ word := by
  intro word hword hdot
  obtain ⟨w, hw, rfl⟩ := List.mem_map.1 hword
  cases isIdentifierPart_of_isSegment (isSegment_of_mem_words hw) '.' hdot

theorem cutDots_text (path : FieldPath) : cutDots path.text = path.words.map String.toList := by
  rw [cutDots_eq_splitOn, text, joinDots_eq_intercalate]
  exact List.splitOn_intercalate '.' dot_not_mem_words (by simp [words, segments])

/-- A dotted text spells the path that it is the text of. -/
theorem ofDotted?_eq_some_iff : ofDotted? cs = some path ↔ path.text = cs := by
  have hwords : ofDotted? cs = some path ↔ path.words = (cutDots cs).map String.ofList := by
    rw [ofDotted?, ← ofWords_eq_ok_iff]
    cases ofWords ((cutDots cs).map String.ofList) <;> simp [Except.toOption]
  rw [hwords]
  constructor
  · intro h
    rw [text, h, joinDots_eq_intercalate, cutDots_eq_splitOn]
    simp [Function.comp_def, List.intercalate_splitOn]
  · rintro rfl
    simp [cutDots_text]

/-- The text of a path is that of its tokens. -/
theorem text_eq_flatMap_pieces (path : FieldPath) :
    path.text = path.pieces.flatMap fun piece => piece.2.printable.toList := by
  simp [text, words, segments, joinDots_cons, pieces, Segment.piece, TokenValue.printable,
    List.flatMap_map, List.flatMap_assoc, Function.comp_def]

theorem isSeparator_of_mem_text : ∀ c ∈ path.text, isSeparator c = false := by
  have hpart : ∀ segment : Segment, ∀ c ∈ segment.word.toList, isSeparator c = false :=
    fun segment c hc => TokenStream.isSeparator_eq_false (by rfl)
      (isIdentifierPart_of_isSegment segment.valid c hc)
  intro c hc
  simp only [text, words, segments, List.map_cons, joinDots_cons, List.mem_append,
    List.mem_flatMap, List.mem_map, List.mem_cons] at hc
  rcases hc with hc | ⟨_, ⟨_, ⟨segment, -, rfl⟩, rfl⟩, rfl | hc⟩
  · exact hpart _ c hc
  · rfl
  · exact hpart segment c hc

end FieldPath

/-! ## Names and dots in turn -/

/-- Names with a dot between each two of them. -/
def Alternates (tokens : List Token) : Prop :=
  ∃ n, tokens.map Token.kind = .name :: (List.replicate n [TokenKind.dot, .name]).flatten

section
variable {tokens : List Token} {path : FieldPath}

theorem PathTokens.alternates (h : PathTokens tokens path) : Alternates tokens := by
  induction h with
  | single hkind _ => exact ⟨0, by simp [hkind]⟩
  | push _ hdot hkind _ ih =>
      rcases ih with ⟨n, hn⟩
      exact ⟨n + 1, by simp [hn, hdot, hkind, List.replicate_succ']⟩

/-- Names and dots in turn are the tokens of a path. -/
theorem Alternates.exists_pathTokens (h : Alternates tokens)
    (hagrees : ∀ token ∈ tokens, token.agrees = true) : ∃ path, PathTokens tokens path := by
  rcases h with ⟨n, hn⟩
  induction n generalizing tokens with
  | zero =>
      obtain ⟨name, rfl, hkind⟩ := List.map_eq_singleton_iff.1 hn
      have hsegment := Token.isSegment_of_agrees (hagrees name (by simp)) hkind
      exact ⟨.single ⟨name.valueText, hsegment⟩, .single hkind rfl⟩
  | succ n ih =>
      rw [List.replicate_succ', List.flatten_append, ← List.cons_append] at hn
      rcases List.map_eq_append_iff.1 hn with ⟨front, behind, rfl, hfront, hbehind⟩
      rcases ih (fun token htoken => hagrees token (by simp [htoken])) hfront with ⟨path, hpath⟩
      obtain ⟨dot, names, rfl, hdot, hnames⟩ := List.map_eq_cons_iff.1 hbehind
      obtain ⟨name, rfl, hkind⟩ := List.map_eq_singleton_iff.1 hnames
      have hsegment := Token.isSegment_of_agrees (hagrees name (by simp)) hkind
      exact ⟨path.push ⟨name.valueText, hsegment⟩, hpath.push hdot hkind rfl⟩

theorem PathTokens.kind_cases (h : PathTokens tokens path) :
    ∀ token ∈ tokens, token.kind = .name ∨ token.kind = .dot := by
  induction h with
  | single hkind _ => simp [hkind]
  | push _ hdot hkind _ ih =>
      refine List.forall_mem_append.2 ⟨ih, ?_⟩
      simp [hdot, hkind]

/-- The words of a path are what its names carry. -/
theorem PathTokens.words_eq (h : PathTokens tokens path) :
    path.words = (tokens.filter fun token => token.kind = .name).map Token.valueText := by
  induction h with
  | single hkind hword => simp [hkind, hword]
  | push _ hdot hkind hword ih => simp [ih, hdot, hkind, hword]

end

/-! ## Tokens without a gap -/

/-- From one offset to another, spans follow each other without a gap. -/
def Span.Gapless (start : Nat) : List Span → Nat → Prop
  | [], stop => start = stop
  | span :: spans, stop => span.start = start ∧ Gapless span.stop spans stop

namespace Tiles

variable {before rest : List Char}

/-- Where nothing separates, there are no gaps. -/
theorem gapless {items : List TokenStream.Item} (h : Tiles before rest items)
    (hitems : ∀ item ∈ items, item.isOk = true) (hrest : ∀ c ∈ rest, isSeparator c = false) :
    Span.Gapless (byteLength before) (items.map TokenStream.Item.span)
      (byteLength (before ++ rest)) := by
  have hnil : ∀ gap : List Char, (∀ c ∈ gap, isSeparator c = true) →
      (∀ c ∈ gap, isSeparator c = false) → gap = [] := by
    intro gap hgap hnot
    refine List.eq_nil_iff_forall_not_mem.2 fun c hc => ?_
    cases (hgap c hc).symm.trans (hnot c hc)
  induction h with
  | @gap before gap hgap =>
      rw [hnil gap hgap hrest, List.append_nil]
      rfl
  | fault _ _ => cases hitems _ (List.mem_singleton.2 rfl)
  | @token before gap text behind token items hgap hcovers _ ih =>
      obtain rfl := hnil gap hgap fun c hc => hrest c (by simp [hc])
      have hbehind := ih (fun item hitem => hitems item (List.mem_cons_of_mem _ hitem))
        fun c hc => hrest c (by simp [hc])
      rw [List.map_cons, Span.Gapless, hcovers.span_eq]
      refine ⟨by simp, ?_⟩
      simpa using hbehind

/-- A text that its tokens cover without a gap consists of what they carry. -/
theorem eq_flatMap_valueText {tokens : List Token} (h : Tiles before rest (tokens.map .ok))
    (hgapless : Span.Gapless (byteLength before) (tokens.map Token.span)
      (byteLength (before ++ rest)))
    (htexts : ∀ token ∈ tokens, ∃ text, token.value = .text text) :
    rest = tokens.flatMap fun token => token.valueText.toList := by
  induction tokens generalizing before rest with
  | nil =>
      have hlength : byteLength before = byteLength (before ++ rest) := hgapless
      rw [Text.byteLength_append] at hlength
      exact Text.eq_nil_of_byteLength_eq_zero (by omega)
  | cons token tokens ih =>
      cases h with
      | @token _ gap text behind _ _ hgap hcovers hbehind =>
          rcases hgapless with ⟨hstart, hgapless⟩
          have hspan : token.span = ⟨byteLength (before ++ gap), byteLength (before ++ gap ++ text)⟩ :=
            hcovers.span_eq
          obtain rfl : gap = [] := by
            have hlength : token.span.start = byteLength (before ++ gap) := by rw [hspan]
            rw [hstart, Text.byteLength_append] at hlength
            exact Text.eq_nil_of_byteLength_eq_zero (by omega)
          rcases htexts token (by simp) with ⟨spelling, hvalue⟩
          have hspelled : token.value.SpelledBy text := hcovers.spelled
          have htext : token.valueText.toList = text := by
            rw [Token.valueText, hvalue, TokenValue.printable, hspelled.text_eq spelling hvalue,
              String.toList_ofList]
          rw [hspan] at hgapless
          have hrest := ih hbehind (by simpa using hgapless) fun t ht => htexts t (by simp [ht])
          rw [List.nil_append, List.flatMap_cons, htext, ← hrest]

end Tiles

/-! ## The tokens of dotted texts -/

section
variable {source : List Char} {tokens : List Token} {path : FieldPath}

/-- A token that is no literal carries a text. -/
theorem Token.exists_text_of_agrees {token : Token} (h : token.agrees = true)
    (hkind : token.kind.isLiteral = false) : ∃ text, token.value = .text text := by
  cases hvalue : token.value with
  | text text => exact ⟨text, rfl⟩
  | literal value =>
      have hliteral : token.literal? = some value := by
        rw [literal?, hvalue, TokenValue.literal?]
      rw [kind_eq_of_agrees h hliteral, value.isLiteral_tokenKind] at hkind
      cases hkind

/-- A name carries its spelling. -/
theorem TokenStream.valueText_of_mem_ofText {token : Token}
    (h : token ∈ (ofText source).tokens) (hkind : token.kind = .name) :
    token.valueText = String.ofList (token.spelling source) := by
  rcases covered_of_mem_items (mem_items_of_mem_tokens h) with ⟨-, text, hslice, hspelled⟩
  have hspelled : token.value.SpelledBy text := hspelled
  have hagrees := agrees_of_mem_ofText source token h
  rcases Token.exists_text_of_agrees hagrees (by rw [hkind]; rfl) with ⟨word, hvalue⟩
  have hspelling : token.spelling source = text := Span.slice_eq_of_slice? hslice
  rw [hspelling, Token.valueText, hvalue, TokenValue.printable, hspelled.text_eq word hvalue]

theorem TokenStream.items_of_ofText (hstream : TokenStream.ofText source = ⟨tokens, none⟩) :
    (TokenStream.ofText source).items = tokens.map .ok := by
  simp [hstream, TokenStream.items]

/-- The tokens of the text of a path are those of the path, without a gap. -/
theorem FieldPath.exists_ofText_text (path : FieldPath) :
    ∃ tokens, TokenStream.ofText path.text = ⟨tokens, none⟩ ∧ PathTokens tokens path ∧
      Span.Gapless 0 (tokens.map Token.span) (byteLength path.text) := by
  rcases (Lexes.path path IsBoundary.nil.endsWord).exists_ofText with ⟨tokens, hstream, hpieces, -⟩
  refine ⟨tokens, hstream, pathTokens_of_pieces hpieces, ?_⟩
  have htiles : Tiles [] path.text (tokens.map .ok) :=
    TokenStream.items_of_ofText hstream ▸ tiles_read [] path.text
  have hitems : ∀ item ∈ tokens.map (Except.ok (ε := LexError)), item.isOk = true := by
    simp [Except.isOk, Except.toBool]
  have hgapless := htiles.gapless hitems path.isSeparator_of_mem_text
  simpa [Function.comp_def, TokenStream.Item.span] using hgapless

/-- The text of a path is what its tokens carry. -/
theorem PathTokens.text_eq_flatMap (hpath : PathTokens tokens path)
    (htokens : ∀ token ∈ tokens, token ∈ (TokenStream.ofText source).tokens) :
    path.text = tokens.flatMap fun token => token.valueText.toList := by
  have hpieces : tokens.map Token.piece = path.pieces :=
    pieces_of_pathTokens hpath fun token htoken =>
      ⟨TokenStream.agrees_of_mem_ofText source token (htokens token htoken),
        TokenStream.isFixed_of_mem_ofText (htokens token htoken)⟩
  rw [path.text_eq_flatMap_pieces, ← hpieces, List.flatMap_map]
  rfl

/-- A text that the tokens of a path cover without a gap is the text of the path. -/
theorem PathTokens.text_eq (hpath : PathTokens tokens path)
    (hstream : TokenStream.ofText source = ⟨tokens, none⟩)
    (hgapless : Span.Gapless 0 (tokens.map Token.span) (byteLength source)) :
    path.text = source := by
  have htiles : Tiles [] source (tokens.map .ok) :=
    TokenStream.items_of_ofText hstream ▸ tiles_read [] source
  have hmem : ∀ token ∈ tokens, token ∈ (TokenStream.ofText source).tokens := by simp [hstream]
  calc
    path.text = tokens.flatMap fun token => token.valueText.toList := hpath.text_eq_flatMap hmem
    _ = source := by
        refine (htiles.eq_flatMap_valueText hgapless fun token htoken => ?_).symm
        have hagrees := TokenStream.agrees_of_mem_ofText source token (hmem token htoken)
        refine Token.exists_text_of_agrees hagrees ?_
        rcases hpath.kind_cases token htoken with hkind | hkind <;> rw [hkind] <;> rfl

namespace FieldPath

/-- A path before `= 1` is read as the comparison of its field with one. -/
theorem parse_text_append (limit : Nat) (path : FieldPath) :
    Query.parse limit (path.text ++ " = 1".toList) =
      .ok (.comparison path .equal (.single (.int 1))) := by
  have hreads : ∀ value ∈ (Expr.comparison path .equal (.single (.int 1))).literals,
      value.ReadsBack := by
    simp [Expr.literals, Operand.literals, Literal.ReadsBack]
  have htext : path.text ++ " = 1".toList =
      (Expr.comparison path .equal (.single (.int 1))).text := by
    rw [Expr.text_comparison]
    rfl
  have hwell : (Expr.comparison path .equal (.single (.int 1))).WellTyped := rfl
  rcases Query.ofText_text hwell hreads with ⟨tokens, hstream, -, hread⟩
  rw [htext, Query.parse_eq_ofTokens hstream]
  exact hread limit (Nat.zero_le limit)

/-- A dotted text spells a path exactly if its tokens are names and dots in turn that cover it
without a gap.  The segments of the path are then what its names spell, its text is the dotted text,
and where a field is expected it is read as that path.  Every path that words make is spelled by its
own text. -/
theorem ofDotted?_iff_tokens (source : List Char) :
    ((∃ path, ofDotted? source = some path) ↔
        ∃ tokens, (TokenStream.ofText source).toExcept = .ok tokens ∧ Alternates tokens ∧
          Span.Gapless 0 (tokens.map Token.span) (byteLength source)) ∧
      (∀ path, ofDotted? source = some path →
        path.words = ((TokenStream.ofText source).tokens.filter fun token =>
            token.kind = .name).map (fun token => String.ofList (token.spelling source)) ∧
          path.text = source ∧
          ∀ limit, Query.parse limit (source ++ " = 1".toList) =
            .ok (.comparison path .equal (.single (.int 1)))) ∧
      ∀ words path, ofWords words = .ok path → path.words = words ∧
        ofDotted? path.text = some path := by
  refine ⟨⟨?_, ?_⟩, ?_, ?_⟩
  · rintro ⟨path, hpath⟩
    obtain rfl := ofDotted?_eq_some_iff.1 hpath
    rcases path.exists_ofText_text with ⟨tokens, hstream, htokens, hgapless⟩
    exact ⟨tokens, TokenStream.toExcept_eq_ok_iff.2 hstream, htokens.alternates, hgapless⟩
  · rintro ⟨tokens, htokens, halternates, hgapless⟩
    have hstream := TokenStream.toExcept_eq_ok_iff.1 htokens
    have hagrees := TokenStream.agrees_of_mem_ofText source
    rw [hstream] at hagrees
    rcases halternates.exists_pathTokens hagrees with ⟨path, hpath⟩
    exact ⟨path, ofDotted?_eq_some_iff.2 (hpath.text_eq hstream hgapless)⟩
  · intro path hpath
    obtain rfl := ofDotted?_eq_some_iff.1 hpath
    rcases path.exists_ofText_text with ⟨tokens, hstream, htokens, -⟩
    refine ⟨?_, rfl, fun limit => parse_text_append limit path⟩
    rw [htokens.words_eq, hstream]
    refine List.map_congr_left fun token htoken => ?_
    rcases List.mem_filter.1 htoken with ⟨hmem, hkind⟩
    exact TokenStream.valueText_of_mem_ofText (by rwa [hstream]) (by simpa using hkind)
  · intro words path hwords
    exact ⟨ofWords_eq_ok_iff.1 hwords, ofDotted?_eq_some_iff.2 rfl⟩

/-- A path of two segments; and a keyword, a number and a blank that keep a dotted text from being
one. -/
theorem ofDotted?_iff_tokens_instances :
    let path : FieldPath := ⟨⟨"author", by decide⟩, [⟨"n2", by decide⟩]⟩
    ofDotted? "author.n2".toList = some path ∧ ofWords ["author", "n2"] = .ok path ∧
      path.words = ["author", "n2"] ∧
      Query.parse 0 "author.n2 = 1".toList = .ok (.comparison path .equal (.single (.int 1))) ∧
      ∀ text ∈ ["author.in", "author.2n", "author. n2"], ofDotted? text.toList = none := by
  intro path
  have hdotted : ofDotted? "author.n2".toList = some path := by decide +kernel
  have hwords : ofWords ["author", "n2"] = .ok path := by decide
  rcases ofDotted?_iff_tokens "author.n2".toList with ⟨-, hpath, hback⟩
  rcases hpath path hdotted with ⟨-, -, hparse⟩
  exact ⟨hdotted, hwords, (hback _ _ hwords).1, hparse 0, by decide +kernel⟩

end FieldPath

end

end FieldFilter
