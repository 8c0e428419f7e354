import FieldFilter.Proofs.Lexing.Lexes
import Mathlib.Tactic.SplitIfs

/-!
# Kinds with one spelling

Reserved words, operators and punctuation marks are spelled in one way only, so that the kind of
such a token tells what it carries.

* `TokenKind.spelling?` — the spelling of a kind that has only one;
* `Lexeme.of_spelling?` — a lexeme of such a kind is that spelling and carries its value;
* `TokenStream.exists_lexeme_of_mem_read` — every token of a text is a lexeme of it;
* `Token.IsFixed` — tokens that carry what their kind tells, as all tokens of a text do.
-/

namespace FieldFilter

/-- The spelling of a kind that has only one. -/
def TokenKind.spelling? : TokenKind → Option String
  | .andWord => some "and"
  | .orWord => some "or"
  | .notWord => some "not"
  | .inWord => some "in"
  | .trueWord => some "True"
  | .falseWord => some "False"
  | .noneWord => some "None"
  | .equals => some "="
  | .notEquals => some "!="
  | .greater => some ">"
  | .greaterEqual => some ">="
  | .less => some "<"
  | .lessEqual => some "<="
  | .contains => some "~"
  | .notContains => some "!~"
  | .dot => some "."
  | .comma => some ","
  | .openParen => some "("
  | .closeParen => some ")"
  | .int | .float | .string | .name => none

/-! ## Lexemes -/

namespace Lexeme

variable {c : Char} {cs : List Char} {kind : TokenKind} {value : TokenValue} {s : String}

theorem eq_of_spelling?_ofWord {w : String} (h : (TokenKind.ofWord w).spelling? = some s) :
    w = s := by
  unfold TokenKind.ofWord at h
  split_ifs at h <;> simp_all [TokenKind.spelling?]

theorem of_spelling?_symbol? {text : List Char} (h : symbol? cs = some (kind, text)) :
    kind.spelling? = some (String.ofList text) ∧ wordValue kind s = .text s := by
  unfold symbol? at h
  split at h <;> cases h <;> exact ⟨by decide, rfl⟩

theorem spelling?_numberLiteral? {n : Numeral} {literal : Literal}
    (h : numberLiteral? n = some (kind, literal)) : kind.spelling? = none := by
  unfold numberLiteral? at h
  split_ifs at h
  · rcases Option.map_eq_some_iff.1 h with ⟨_, _, heq⟩
    cases heq
    rfl
  · rcases Option.map_eq_some_iff.1 h with ⟨_, _, heq⟩
    cases heq
    rfl

/-- A lexeme of a kind with one spelling is that spelling and carries its value. -/
theorem of_spelling? (h : (start c cs).outcome = .ok (kind, value))
    (hs : kind.spelling? = some s) : (start c cs).text = s.toList ∧ value = wordValue kind s := by
  unfold start at h ⊢
  split_ifs at h ⊢ with hstart hquote
  · cases h
    have hword := eq_of_spelling?_ofWord hs
    rw [← hword]
    exact ⟨String.toList_ofList.symm, rfl⟩
  · unfold quoted at h
    split at h
    · cases h
    · dsimp only at h
      split at h <;> cases h
      cases hs
  · cases hsymbol : symbol? (c :: cs) with
    | some found =>
        rcases found with ⟨found, text⟩
        simp only [hsymbol] at h ⊢
        cases h
        rcases of_spelling?_symbol? (s := s) hsymbol with ⟨hspelling, hvalue⟩
        have htext : String.ofList text = s := by simpa [hspelling] using hs
        rw [hvalue, ← htext]
        exact ⟨String.toList_ofList.symm, rfl⟩
    | none =>
        simp only [hsymbol] at h
        cases hread : Numeral.read? (c :: cs) with
        | none => simp [hread] at h
        | some n =>
            simp only [hread, number] at h
            split at h
            · rename_i hliteral
              cases h
              rw [spelling?_numberLiteral? hliteral] at hs
              cases hs
            · cases h

end Lexeme

/-! ## Tokens of a text -/

namespace TokenStream

/-- Every token that is read is a lexeme of the text. -/
theorem exists_lexeme_of_mem_read {place : Place} {cs : List Char} {token : Token}
    (h : token ∈ (read place cs).tokens) :
    ∃ c rest, (Lexeme.start c rest).outcome = .ok token.piece := by
  induction place, cs using read.induct_unfolding with
  | case1 place cs _ => cases h
  | case2 place cs _ c rest _ _ _ _ fault _ => cases h
  | case3 place cs _ c rest _ _ _ _ kind value houtcome ih =>
      rcases List.mem_cons.1 h with rfl | h
      · exact ⟨c, rest, houtcome⟩
      · exact ih h

end TokenStream

/-- A token of a kind with one spelling carries the value of that spelling. -/
def Token.IsFixed (token : Token) : Prop :=
  ∀ s, token.kind.spelling? = some s → token.value = Lexeme.wordValue token.kind s

theorem Token.IsFixed.piece_eq {token : Token} (h : token.IsFixed) {s : String}
    (hs : token.kind.spelling? = some s) :
    token.piece = (token.kind, Lexeme.wordValue token.kind s) := by
  rw [Token.piece, h s hs]

theorem TokenStream.isFixed_of_mem_ofText {source : List Char} {token : Token}
    (h : token ∈ (ofText source).tokens) : token.IsFixed := by
  intro s hs
  rcases exists_lexeme_of_mem_read h with ⟨c, rest, houtcome⟩
  exact (Lexeme.of_spelling? houtcome hs).2

/-- A token of a kind with one spelling carries that spelling, unless it stands for a literal. -/
theorem TokenStream.value_of_mem_ofText {source : List Char} {token : Token} {kind : TokenKind}
    {s : String} (h : token ∈ (ofText source).tokens) (hkind : token.kind = kind)
    (hs : kind.spelling? = some s) (hword : Lexeme.wordValue kind s = .text s) :
    token.value = .text s := by
  subst hkind
  exact (isFixed_of_mem_ofText h s hs).trans hword

end FieldFilter
