import FieldFilter.Proofs.Lexing.TokenStarts

/-!
# The order of tokens in a text

* `Span.Precedes` — a span that ends before another one starts;
* `TokenStream.Ordered` — tokens that cover some text each, one behind the other;
* `TokenStream.ordered_read`, `TokenStream.ordered_ofText` — the tokens of a text are ordered.
-/

namespace FieldFilter

/-- One span ends before another one starts. -/
def Span.Precedes (s t : Span) : Prop :=
  s.stop ≤ t.start

theorem Lexeme.byteLength_text_pos (c : Char) (cs : List Char) :
    0 < Text.byteLength (start c cs).text := by
  by_contra hzero
  exact text_ne_nil c cs (Text.eq_nil_of_byteLength_eq_zero (Nat.eq_zero_of_not_pos hzero))

namespace TokenStream

/-- Tokens from an offset on that cover some text each, one behind the other. -/
structure Ordered (offset : Nat) (tokens : List Token) : Prop where
  pairwise : tokens.Pairwise fun a b => a.span.Precedes b.span
  covers : ∀ token ∈ tokens, offset ≤ token.span.start ∧ token.span.start < token.span.stop

variable {offset offset' : Nat} {tokens : List Token} {token : Token}

theorem Ordered.nil : Ordered offset [] :=
  ⟨.nil, by simp⟩

theorem Ordered.cons (hstart : offset ≤ token.span.start)
    (hcovers : token.span.start < token.span.stop) (h : Ordered token.span.stop tokens) :
    Ordered offset (token :: tokens) := by
  refine ⟨List.pairwise_cons.2 ⟨fun next hnext => (h.covers next hnext).1, h.pairwise⟩, ?_⟩
  intro next hnext
  rcases List.mem_cons.1 hnext with rfl | hnext
  · exact ⟨hstart, hcovers⟩
  · rcases h.covers next hnext with ⟨hbehind, hnonempty⟩
    exact ⟨by omega, hnonempty⟩

theorem ordered_read (place : Place) (cs : List Char) :
    Ordered place.offset (read place cs).tokens := by
  induction place, cs using read.induct_unfolding with
  | case1 place cs _ => exact .nil
  | case2 place cs _ c rest _ _ _ _ fault _ => exact .nil
  | case3 place cs here c rest _ lexeme next span kind value _ ih =>
      have hstart : place.offset ≤ here.offset := by
        rw [Place.offset_afterText]
        exact Nat.le_add_right _ _
      have hcovers : here.offset < next.offset := by
        have hnext : next.offset = here.offset + Text.byteLength lexeme.text :=
          Place.offset_afterText here lexeme.text
        rw [hnext]
        exact Nat.lt_add_of_pos_right (Lexeme.byteLength_text_pos c rest)
      exact .cons hstart hcovers ih

/-- The tokens of a text cover some of it each, one behind the other. -/
theorem ordered_ofText (source : List Char) : Ordered 0 (ofText source).tokens :=
  ordered_read {} source

end TokenStream
end FieldFilter
