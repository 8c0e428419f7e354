import FieldFilter.Proofs.Grammar
import FieldFilter.Proofs.Lexing.Spellings
import Mathlib.Tactic.SplitIfs

/-!
# What the tokens of a text carry

* `Lexeme.spells_of_start` — what a lexeme carries is of the sort that its kind promises, and a
  float is finite;
* `Token.IsSpelled` — the same of a token in its place;
* `TokenStream.agrees_of_mem_ofText`, `TokenStream.isFinite_of_mem_ofText` — every token of a text
  is such a token;
* `Lexes.exists_ofText` — the tokens of a text that reads as given pieces.
-/

namespace FieldFilter

/-! ## Lexemes -/

namespace Lexeme

variable {c : Char} {cs : List Char} {kind : TokenKind} {value : TokenValue}

theorem isIdentifier_word (hstart : isIdentifierStart c = true) (cs : List Char) :
    isIdentifier (String.ofList (c :: cs.takeWhile isIdentifierPart)) = true := by
  simp [isIdentifier, hstart]

theorem fits_wordValue {w : String} (h : isIdentifier w = true) :
    (TokenKind.ofWord w).fits (wordValue (TokenKind.ofWord w) w) = true := by
  cases hreserved : isReserved w with
  | false =>
      rw [TokenKind.ofWord_eq_name hreserved]
      simp [TokenKind.fits, wordValue, isSegment, h, hreserved]
  | true =>
      have hmem : w ∈ reservedWords := by simpa [isReserved] using hreserved
      simp only [reservedWords, List.mem_cons, List.not_mem_nil, or_false] at hmem
      rcases hmem with rfl | rfl | rfl | rfl | rfl | rfl | rfl <;> decide

theorem fits_of_symbol? {text : List Char} {spelling : String}
    (h : symbol? cs = some (kind, text)) : kind.fits (.text spelling) = true := by
  unfold symbol? at h
  split at h <;> cases h <;> rfl

theorem of_numberLiteral? {n : Numeral} {literal : Literal}
    (h : numberLiteral? n = some (kind, literal)) :
    kind = literal.tokenKind ∧ literal.isFinite = true := by
  unfold numberLiteral? Literal.ofInt? Literal.ofFloat? at h
  split_ifs at h with hwhole hrange hfinite
  · cases h
    exact ⟨rfl, rfl⟩
  · cases h
  · cases h
    exact ⟨rfl, hfinite⟩
  · cases h

theorem spells_of_quoted {quote : Char} (h : (quoted quote cs).outcome = .ok (kind, value)) :
    ∃ text, kind = .string ∧ value = .literal (.string text) := by
  unfold quoted at h
  split at h
  · cases h
  · dsimp only at h
    split at h
    · cases h
    · cases h
      exact ⟨_, rfl, rfl⟩

theorem spells_of_number {n : Numeral} (h : (number n).outcome = .ok (kind, value)) :
    ∃ literal : Literal, kind = literal.tokenKind ∧ value = .literal literal ∧
      literal.isFinite = true := by
  unfold number at h
  dsimp only at h
  split at h
  · rename_i hliteral
    cases h
    rcases of_numberLiteral? hliteral with ⟨hkind, hfinite⟩
    exact ⟨_, hkind, rfl, hfinite⟩
  · cases h

/-- What a lexeme carries is of the sort that its kind promises, and a float is finite. -/
theorem spells_of_start (h : (start c cs).outcome = .ok (kind, value)) :
    kind.fits value = true ∧ ∀ literal, value = .literal literal → literal.isFinite = true := by
  unfold start at h
  split_ifs at h with hstart hquote
  · cases h
    refine ⟨fits_wordValue (isIdentifier_word hstart cs), ?_⟩
    intro literal hvalue
    unfold wordValue at hvalue
    split at hvalue <;> cases hvalue <;> rfl
  · rcases spells_of_quoted h with ⟨text, rfl, rfl⟩
    refine ⟨rfl, ?_⟩
    rintro literal ⟨⟩
    rfl
  · split at h
    · rename_i hsymbol
      cases h
      exact ⟨fits_of_symbol? hsymbol, fun literal hvalue => by cases hvalue⟩
    · split at h
      · rcases spells_of_number h with ⟨literal, rfl, rfl, hfinite⟩
        refine ⟨by simp [TokenKind.fits], ?_⟩
        rintro literal' ⟨⟩
        exact hfinite
      · cases h

end Lexeme

/-! ## Texts -/

/-- A token as texts spell it: its value is of the sort that its kind promises, and a float is
finite. -/
def Token.IsSpelled (token : Token) : Prop :=
  token.agrees = true ∧ ∀ value, token.literal? = some value → value.isFinite = true

namespace TokenStream

theorem isSpelled_of_mem_read {place : Place} {cs : List Char} {token : Token}
    (h : token ∈ (read place cs).tokens) : token.IsSpelled := by
  rcases exists_lexeme_of_mem_read h with ⟨c, rest, houtcome⟩
  rcases Lexeme.spells_of_start houtcome with ⟨hfits, hfinite⟩
  refine ⟨hfits, ?_⟩
  intro literal hliteral
  exact hfinite literal (Token.value_eq_of_literal? hliteral)

theorem agrees_of_mem_ofText (source : List Char) :
    ∀ token ∈ (ofText source).tokens, token.agrees = true :=
  fun _ hmem => (isSpelled_of_mem_read hmem).1

theorem isFinite_of_mem_ofText {source : List Char} {token : Token}
    (hmem : token ∈ (ofText source).tokens) {value : Literal}
    (hvalue : token.literal? = some value) : value.isFinite = true :=
  (isSpelled_of_mem_read hmem).2 value hvalue

end TokenStream

/-- A whole text that reads as pieces has no fault, and its tokens carry these pieces. -/
theorem Lexes.exists_ofText {text : List Char} {pieces : List Piece} (h : Lexes text pieces []) :
    ∃ tokens, TokenStream.ofText text = ⟨tokens, none⟩ ∧ tokens.map Token.piece = pieces ∧
      ∀ token ∈ tokens, token.agrees = true := by
  rcases h.ofText with ⟨herror, hpieces⟩
  have hagrees := TokenStream.agrees_of_mem_ofText text
  generalize TokenStream.ofText text = stream at *
  rcases stream with ⟨tokens, error⟩
  obtain rfl : error = none := herror
  exact ⟨tokens, rfl, hpieces, hagrees⟩

end FieldFilter
