import FieldFilter.Proofs.Lexing.Agreement
import FieldFilter.Proofs.Printing.Groups
import FieldFilter.Proofs.Reading.Nesting
import Mathlib.Order.Bounds.Basic

/-!
# Printing and reading back

* `Derives.wellTyped`, `Derives.exists_token_of_mem_literals` — what the grammar derives keeps the
  rules of the tree, and its literals are those of the tokens;
* `Query.ofText_text` — the tokens of the canonical text are read as the tree;
* `Query.parse_text` — the canonical text of a filter under every cap;
* `Query.parse_text_of_parse` — the canonical text of a query under the cap of the query.
-/

namespace FieldFilter

/-! ## Trees that the grammar derives -/

theorem ItemTokens.exists_token_of_mem {tokens : List Token} {items : LiteralList}
    (h : ItemTokens tokens items) :
    ∀ value ∈ items.items, ∃ token ∈ tokens, token.literal? = some value := by
  induction h with
  | @single token value _ hvalue =>
      intro value' hmem
      have heq : value' = value := by simpa using hmem
      exact ⟨token, by simp, heq ▸ hvalue⟩
  | @push tokens items comma token value _ _ _ hvalue ih =>
      intro value' hmem
      rw [LiteralList.items_push] at hmem
      rcases List.mem_append.1 hmem with hmem | hmem
      · rcases ih value' hmem with ⟨token', htoken, hvalue'⟩
        exact ⟨token', by simp [htoken], hvalue'⟩
      · have heq : value' = value := by simpa using hmem
        exact ⟨token, by simp, heq ▸ hvalue⟩

namespace ComparisonTokens

variable {tokens : List Token} {e : Expr}

theorem wellTyped (h : ComparisonTokens tokens e)
    (hagrees : ∀ token ∈ tokens, token.agrees = true) : e.WellTyped := by
  cases h with
  | @single path _ comparator token _ _ _ _ hkind hvalue =>
      have htoken := Token.kind_eq_of_agrees (hagrees token (by simp)) hvalue
      exact Comparator.accepts_single_iff.2 (htoken ▸ hkind)
  | list _ hwords _ _ _ => cases hwords <;> rfl

theorem exists_token_of_mem_literals (h : ComparisonTokens tokens e) :
    ∀ value ∈ e.literals, ∃ token ∈ tokens, token.literal? = some value := by
  cases h with
  | @single path _ comparator token _ value _ _ _ hvalue =>
      intro value' hmem
      have heq : value' = value := by simpa [Expr.literals, Operand.literals] using hmem
      exact ⟨token, by simp, heq ▸ hvalue⟩
  | list _ _ _ hitems _ =>
      intro value hmem
      rcases hitems.exists_token_of_mem value hmem with ⟨token, htoken, hvalue⟩
      exact ⟨token, by simp [htoken], hvalue⟩

end ComparisonTokens

namespace Derives

variable {d : Nat} {layer : Layer} {tokens : List Token} {e : Expr}

theorem wellTyped (h : Derives d layer tokens e)
    (hagrees : ∀ token ∈ tokens, token.agrees = true) : e.WellTyped := by
  induction h with
  | comparison h => exact h.wellTyped hagrees
  | group _ _ _ ih => exact ih fun t ht => hagrees t (by simp [ht])
  | ofPrimary _ ih => exact ih hagrees
  | and _ _ _ ihl ihr =>
      exact ⟨ihl fun t ht => hagrees t (by simp [ht]), ihr fun t ht => hagrees t (by simp [ht])⟩
  | ofConjunction _ ih => exact ih hagrees
  | or _ _ _ ihl ihr =>
      exact ⟨ihl fun t ht => hagrees t (by simp [ht]), ihr fun t ht => hagrees t (by simp [ht])⟩

/-- The literals of a tree are those of the tokens that it is derived from. -/
theorem exists_token_of_mem_literals (h : Derives d layer tokens e) :
    ∀ value ∈ e.literals, ∃ token ∈ tokens, token.literal? = some value := by
  induction h with
  | comparison h => exact h.exists_token_of_mem_literals
  | group _ _ _ ih =>
      intro value hmem
      rcases ih value hmem with ⟨token, htoken, hvalue⟩
      exact ⟨token, by simp [htoken], hvalue⟩
  | ofPrimary _ ih => exact ih
  | ofConjunction _ ih => exact ih
  | and _ _ _ ihl ihr | or _ _ _ ihl ihr =>
      intro value hmem
      rcases List.mem_append.1 hmem with hmem | hmem
      · rcases ihl value hmem with ⟨token, htoken, hvalue⟩
        exact ⟨token, by simp [htoken], hvalue⟩
      · rcases ihr value hmem with ⟨token, htoken, hvalue⟩
        exact ⟨token, by simp [htoken], hvalue⟩

end Derives

namespace Query

variable {limit : Nat} {source : List Char} {e : Expr}

/-! ## Texts and their tokens -/

theorem parse_eq_ofTokens {tokens : List Token} (h : TokenStream.ofText source = ⟨tokens, none⟩) :
    parse limit source = ofTokens limit tokens := by
  rw [parse, h]
  rfl

theorem ofText_of_parse (h : parse limit source = .ok e) :
    ∃ tokens, TokenStream.ofText source = ⟨tokens, none⟩ ∧ ofTokens limit tokens = .ok e := by
  rcases hstream : TokenStream.ofText source with ⟨tokens, error⟩
  cases error with
  | none => exact ⟨tokens, rfl, (parse_eq_ofTokens hstream).symm.trans h⟩
  | some error =>
      rw [parse, hstream, Session.next, Session.ofStream, Reading.readFrom_fst] at h
      cases hrun : Reading.run limit 0 {} tokens with
      | error failure => simp [hrun, Except.bind] at h
      | ok r => simp [hrun, Except.bind] at h

/-- A tree that a text stands for keeps the rules of trees, and its floats have spellings. -/
theorem rules_of_parse (h : parse limit source = .ok e) :
    e.groupDepth ≤ limit ∧ e.WellTyped ∧ e.Finite := by
  rcases ofText_of_parse h with ⟨tokens, hstream, hread⟩
  have hagrees : ∀ token ∈ tokens, token.agrees = true := by
    simpa [hstream] using TokenStream.agrees_of_mem_ofText source
  have hderives := Reading.derives_of_ofTokens hagrees hread
  refine ⟨Nat.le_trans (Nat.le_add_right _ _) hderives.groupDepth_le,
    hderives.wellTyped hagrees, ?_⟩
  intro value hmem
  rcases hderives.exists_token_of_mem_literals value hmem with ⟨token, htoken, hvalue⟩
  have htoken' : token ∈ (TokenStream.ofText source).tokens := by rwa [hstream]
  exact TokenStream.isFinite_of_mem_ofText htoken' hvalue

/-! ## Canonical texts -/

/-- The canonical text of a tree has no fault, and its tokens are read as the tree wherever its
groups are allowed. -/
theorem ofText_text (hwell : e.WellTyped) (hreads : ∀ value ∈ e.literals, value.ReadsBack) :
    ∃ tokens, TokenStream.ofText e.text = ⟨tokens, none⟩ ∧
      (∀ token ∈ tokens, token.agrees = true) ∧
      ∀ limit, e.groupDepth ≤ limit → ofTokens limit tokens = .ok e := by
  rcases (Lexes.expr hreads .nil).exists_ofText with ⟨tokens, hstream, hpieces, hagrees⟩
  refine ⟨tokens, hstream, hagrees, ?_⟩
  intro limit hle
  exact Reading.ofTokens_of_derives (Expr.derives_disjunction_of_pieces hwell hpieces hle) hagrees

/-- Let `n` be the greatest number of groups that the canonical text of a filter has open at once.
It is less than the depth of the tree.  A cap of `n` and more reads the text as the tree, and a
lower one refuses the first parenthesis that would open a group beyond it. -/
theorem parse_text (e : Expr) (hwell : e.WellTyped) (hfinite : e.Finite)
    (hfloats : e.FloatsReadBack) :
    ∃ tokens n, TokenStream.ofText e.text = ⟨tokens, none⟩ ∧
      IsGreatest {m | ∃ i, groupsOpen (tokens.take i) = m} n ∧ n ≤ e.depth - 1 ∧
      ∀ limit,
        (n ≤ limit → parse limit e.text = .ok e) ∧
        (limit < n →
          ∃ i, ∃ hi : i < tokens.length, tokens[i].kind = .openParen ∧
            IsLeast {i | OpensGroup tokens i ∧ groupsOpen (tokens.take i) = limit} i ∧
            parse limit e.text = .error (.grammatical (.unexpectedToken tokens[i].valueText
              (.nesting limit) tokens[i].position tokens[i].span))) := by
  rcases ofText_text hwell (e.readsBack hfinite hfloats) with ⟨tokens, hstream, hagrees, hread⟩
  have hok : ofTokens e.groupDepth tokens = .ok e := hread e.groupDepth (Nat.le_refl _)
  have hnesting : groupNesting tokens ≤ e.groupDepth := groupNesting_le_of_ofTokens hok hagrees
  have hdepth : e.groupDepth < e.depth := e.groupDepth_lt_depth
  -- one cap that reads the text settles what every other cap does
  refine ⟨tokens, groupNesting tokens, hstream, isGreatest_groupNesting tokens, by omega, ?_⟩
  intro limit
  constructor
  · intro hle
    rw [parse_eq_ofTokens hstream]
    exact ofTokens_of_nesting_le hok hagrees hle
  · intro hlt
    rcases ofTokens_of_lt_nesting hok hagrees hlt with ⟨i, hi, hkind, hleast, herror⟩
    exact ⟨i, hi, hkind, hleast, (parse_eq_ofTokens hstream).trans herror⟩

theorem floatReadsBack_oneAndHalf : Literal.FloatReadsBack 1.5 :=
  ⟨⟨false, ['1'], ['5'], none⟩, by decide +kernel, by decide +kernel, rfl, by decide +kernel⟩

theorem floatsReadBack_groupedFilter : groupedFilter.FloatsReadBack := by
  intro value hmem _
  have hvalue : value = 1.5 := by
    simpa [groupedFilter, Expr.literals, Operand.literals, LiteralList.items] using hmem
  exact hvalue ▸ floatReadsBack_oneAndHalf

/-- A cap of one group reads the canonical text of a filter with one group, and a cap of none
refuses it. -/
theorem parse_text_groupedFilter :
    groupedFilter.WellTyped ∧ groupedFilter.Finite ∧ groupedFilter.FloatsReadBack ∧
      parse 1 groupedFilter.text = .ok groupedFilter ∧
      ∃ value position span, parse 0 groupedFilter.text =
        .error (.grammatical (.unexpectedToken value (.nesting 0) position span)) := by
  have hwell : groupedFilter.WellTyped := ⟨rfl, rfl, rfl⟩
  have hfinite : groupedFilter.Finite := by
    unfold Expr.Finite
    decide
  rcases parse_text groupedFilter hwell hfinite floatsReadBack_groupedFilter with
    ⟨tokens, n, hstream, hgreatest, -, hcaps⟩
  have hone : n = 1 := by
    have hcounted : groupNesting (TokenStream.ofText groupedFilter.text).tokens = 1 := by
      decide +kernel
    rw [hstream] at hcounted
    rw [hgreatest.unique (isGreatest_groupNesting tokens), hcounted]
  rcases (hcaps 0).2 (by omega) with ⟨i, hi, -, -, herror⟩
  exact ⟨hwell, hfinite, floatsReadBack_groupedFilter, (hcaps 1).1 (by omega), _, _, _, herror⟩

/-- What a cap accepts, it accepts in canonical form too and reads as the same tree, so the
canonical form does not change any more. -/
theorem parse_text_of_parse (limit : Nat) (source : List Char) (e : Expr)
    (h : parse limit source = .ok e) (hfloats : e.FloatsReadBack) :
    parse limit e.text = .ok e ∧ (parse limit e.text).map Expr.text = .ok e.text := by
  rcases rules_of_parse h with ⟨hle, hwell, hfinite⟩
  rcases ofText_text hwell (e.readsBack hfinite hfloats) with ⟨tokens, hstream, -, hread⟩
  have hparse : parse limit e.text = .ok e := (parse_eq_ofTokens hstream).trans (hread limit hle)
  exact ⟨hparse, by rw [hparse, Except.map]⟩

/-- A spelling with more groups than the canonical text has. -/
theorem parse_text_of_parse_groupedFilter :
    parse 2 "price<1.5 and ((tag in ('a\\n', None)) or author.name ~ 'x')".toList =
        .ok groupedFilter ∧
      groupedFilter.FloatsReadBack ∧ parse 2 groupedFilter.text = .ok groupedFilter := by
  have hparse : parse 2 "price<1.5 and ((tag in ('a\\n', None)) or author.name ~ 'x')".toList =
      .ok groupedFilter := by
    decide +kernel
  rcases parse_text_of_parse 2 _ groupedFilter hparse floatsReadBack_groupedFilter with
    ⟨hcanonical, -⟩
  exact ⟨hparse, floatsReadBack_groupedFilter, hcanonical⟩

end Query
end FieldFilter
