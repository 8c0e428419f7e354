import FieldFilter.Proofs.Lexing.Spellings
import FieldFilter.Proofs.Reading.Balance
import FieldFilter.Proofs.RoundTrip
import Mathlib.Logic.Relation

/-!
# The canonical text has the fewest groups

* `DropsGroup` — one pair of parentheses that encloses a group is deleted;
* `pieces_of_comparisonTokens` — the tokens of a comparison are those of its canonical text;
* `Derives.reducesTo` — however a tree is spelled, its canonical text is what is left when
  some groups lose their parentheses;
* `Query.pieces_text_of_parse` — so the canonical text of a query loses nothing but groups, and no
  other text of the tree has fewer of them.
-/

namespace FieldFilter

/-! ## Deleting the parentheses of a group -/

/-- A group loses its parentheses: one that opens a group, and the one that closes it, which is the
first to leave no more groups open than there were before. -/
inductive DropsGroup : List Token → List Token → Prop where
  | mk {before inside after : List Token} {openParen closeParen : Token}
      (hopen : openParen.kind = .openParen) (hclose : closeParen.kind = .closeParen)
      (hinside : ∀ front, front <+: inside →
        groupsOpen before < groupsOpen (before ++ [openParen] ++ front))
      (hcloses : groupsOpen (before ++ [openParen] ++ inside ++ [closeParen]) = groupsOpen before) :
      DropsGroup (before ++ [openParen] ++ inside ++ [closeParen] ++ after)
        (before ++ inside ++ after)

/-- Tokens after which no list is open, so that a parenthesis opens a group. -/
def EndsOutside (tokens : List Token) : Prop :=
  (tokens.foldl Parentheses.after {}).list = .outside

theorem EndsOutside.foldl_eq {tokens : List Token} (h : EndsOutside tokens) :
    tokens.foldl Parentheses.after {} = ⟨groupsOpen tokens, .outside⟩ :=
  congrArg (Parentheses.mk (groupsOpen tokens)) h

section
variable {before inside after tokens : List Token} {openParen closeParen token : Token}

theorem EndsOutside.append_balanced (h : EndsOutside before) (hbalanced : Balanced inside) :
    EndsOutside (before ++ inside) := by
  rw [EndsOutside, List.foldl_append, h.foldl_eq, hbalanced.returns]

theorem EndsOutside.append_openParen (h : EndsOutside before) (hopen : openParen.kind = .openParen) :
    EndsOutside (before ++ [openParen]) := by
  rw [EndsOutside, List.foldl_append, h.foldl_eq]
  simp [Parentheses.after, hopen]

theorem EndsOutside.append_connective (h : EndsOutside before)
    (hword : token.kind = .andWord ∨ token.kind = .orWord) : EndsOutside (before ++ [token]) := by
  rw [EndsOutside, List.foldl_append, h.foldl_eq]
  rcases hword with hword | hword <;> simp [Parentheses.after, hword]

/-- Parentheses around balanced tokens enclose a group. -/
theorem DropsGroup.of_balanced (hbefore : EndsOutside before)
    (hopen : openParen.kind = .openParen) (hbalanced : Balanced inside)
    (hclose : closeParen.kind = .closeParen) (after : List Token) :
    DropsGroup (before ++ [openParen] ++ inside ++ [closeParen] ++ after)
      (before ++ inside ++ after) := by
  have hopened : (before ++ [openParen]).foldl Parentheses.after {} =
      ⟨groupsOpen before + 1, .outside⟩ := by
    rw [List.foldl_append, hbefore.foldl_eq]
    simp [Parentheses.after, hopen]
  refine .mk hopen hclose ?_ ?_
  · intro front hfront
    rw [groupsOpen, groupsOpen, List.foldl_append, hopened]
    exact hbalanced.stays _ front hfront
  · rw [groupsOpen, List.foldl_append, List.foldl_append, hopened, hbalanced.returns]
    simp [Parentheses.after, hclose]

/-- Without the parentheses there is one group less. -/
theorem groupCount_of_balanced (hbefore : EndsOutside before)
    (hopen : openParen.kind = .openParen) (hbalanced : Balanced inside)
    (hclose : closeParen.kind = .closeParen) (after : List Token) :
    groupCount (before ++ [openParen] ++ inside ++ [closeParen] ++ after) =
      groupCount (before ++ inside ++ after) + 1 := by
  have hinside : Parentheses.opened ⟨groupsOpen before + 1, .outside⟩ inside =
      Parentheses.opened ⟨groupsOpen before, .outside⟩ inside := by
    apply Parentheses.opened_congr
    rfl
  have hclosed : ¬ groupsOpen before + 1 < groupsOpen before := by omega
  simp only [groupCount, List.append_assoc, Parentheses.opened_append, hbefore.foldl_eq]
  simp [Parentheses.opened, Parentheses.after, hopen, hclose, hbalanced.returns, hinside, hclosed]
  omega

end

/-! ## Comparisons -/

section
variable {tokens : List Token}

/-- A token as the texts of queries have it: its value is of the sort that its kind promises, and
what its kind tells. -/
def Token.IsCanonical (token : Token) : Prop :=
  token.agrees = true ∧ token.IsFixed

/-- The piece of a kind with one spelling. -/
theorem Token.IsCanonical.piece_of_spelling? {token : Token} (h : token.IsCanonical)
    {kind : TokenKind} (hkind : token.kind = kind) {s : String} (hs : kind.spelling? = some s) :
    token.piece = (kind, Lexeme.wordValue kind s) := by
  subst hkind
  exact h.2.piece_eq hs

theorem Segment.piece_of_canonical {token : Token} (h : token.IsCanonical)
    (hkind : token.kind = .name) {segment : Segment} (hword : token.valueText = segment.word) :
    token.piece = segment.piece := by
  cases hvalue : token.value with
  | text spelling =>
      have hspelling : spelling = segment.word := by
        simpa [Token.valueText, hvalue, TokenValue.printable] using hword
      rw [Token.piece, Segment.piece, hkind, hvalue, hspelling]
  | literal value =>
      have hliteral := value.isLiteral_tokenKind
      rw [← Token.kind_eq_of_agrees h.1 (by rw [Token.literal?, hvalue, TokenValue.literal?]),
        hkind] at hliteral
      cases hliteral

theorem Literal.piece_of_canonical {token : Token} (h : token.IsCanonical) {value : Literal}
    (hvalue : token.literal? = some value) : token.piece = value.piece := by
  rw [Token.piece, Literal.piece, Token.kind_eq_of_agrees h.1 hvalue,
    Token.value_eq_of_literal? hvalue]

theorem Comparator.pieces_of_canonical {token : Token} (h : token.IsCanonical) {op : Comparator}
    (hop : token.kind.comparator? = some op) : [token.piece] = op.pieces := by
  cases hkind : token.kind <;> rw [hkind] at hop <;> cases hop <;>
    rw [h.piece_of_spelling? hkind rfl] <;> rfl

theorem pieces_of_membershipTokens {op : Comparator} (h : MembershipTokens tokens op)
    (hcanonical : ∀ token ∈ tokens, token.IsCanonical) : tokens.map Token.piece = op.pieces := by
  cases h with
  | @memberOf word hword =>
      have hpiece := (hcanonical word (by simp)).piece_of_spelling? hword rfl
      rw [List.map_singleton, hpiece]
      rfl
  | @notMemberOf negation word hnot hword =>
      have hfirst := (hcanonical negation (by simp)).piece_of_spelling? hnot rfl
      have hsecond := (hcanonical word (by simp)).piece_of_spelling? hword rfl
      rw [List.map_cons, List.map_singleton, hfirst, hsecond]
      rfl

theorem pieces_of_pathTokens {path : FieldPath} (h : PathTokens tokens path)
    (hcanonical : ∀ token ∈ tokens, token.IsCanonical) : tokens.map Token.piece = path.pieces := by
  induction h with
  | @single name segment hkind hword =>
      simp [FieldPath.pieces, FieldPath.single,
        Segment.piece_of_canonical (hcanonical name (by simp)) hkind hword]
  | @push tokens path dot name segment _ hdot hkind hword ih =>
      have hpoint := (hcanonical dot (by simp)).piece_of_spelling? hdot rfl
      have hname := Segment.piece_of_canonical (hcanonical name (by simp)) hkind hword
      rw [List.map_append, ih fun t ht => hcanonical t (by simp [ht])]
      simp [FieldPath.pieces, FieldPath.push, hpoint, hname, Lexeme.wordValue]

theorem pieces_of_itemTokens {items : LiteralList} (h : ItemTokens tokens items)
    (hcanonical : ∀ token ∈ tokens, token.IsCanonical) :
    tokens.map Token.piece =
      items.first.piece :: items.rest.flatMap fun value => [(.comma, .text ","), value.piece] := by
  induction h with
  | @single token value _ hvalue =>
      simp [LiteralList.single, Literal.piece_of_canonical (hcanonical token (by simp)) hvalue]
  | @push tokens items comma token value _ hcomma _ hvalue ih =>
      have hpiece := (hcanonical comma (by simp)).piece_of_spelling? hcomma rfl
      have hliteral := Literal.piece_of_canonical (hcanonical token (by simp)) hvalue
      rw [List.map_append, ih fun t ht => hcanonical t (by simp [ht])]
      simp [LiteralList.push, hpiece, hliteral, Lexeme.wordValue]

/-- A comparison has the tokens of its canonical text. -/
theorem pieces_of_comparisonTokens {e : Expr} (h : ComparisonTokens tokens e)
    (hcanonical : ∀ token ∈ tokens, token.IsCanonical) : tokens.map Token.piece = e.pieces := by
  cases h with
  | @single path field comparator token op value hpath hop _ hvalue =>
      have hpieces := pieces_of_pathTokens hpath fun t ht => hcanonical t (by simp [ht])
      have hcomparator := Comparator.pieces_of_canonical (hcanonical comparator (by simp)) hop
      have hliteral := Literal.piece_of_canonical (hcanonical token (by simp)) hvalue
      simp [Expr.pieces, Operand.pieces, hpieces, ← hcomparator, hliteral]
  | @list path words items field openParen closeParen op values hpath hwords hopen hitems hclose =>
      have hpieces := pieces_of_pathTokens hpath fun t ht => hcanonical t (by simp [ht])
      have hmember := pieces_of_membershipTokens hwords fun t ht => hcanonical t (by simp [ht])
      have hlist := pieces_of_itemTokens hitems fun t ht => hcanonical t (by simp [ht])
      have hleft := (hcanonical openParen (by simp)).piece_of_spelling? hopen rfl
      have hright := (hcanonical closeParen (by simp)).piece_of_spelling? hclose rfl
      simp [Expr.pieces, Operand.pieces, LiteralList.pieces, hpieces, hmember, hlist, hleft, hright,
        Lexeme.wordValue]

end

/-! ## Every spelling comes to the canonical text -/

open Relation (ReflTransGen)

/-- Between other tokens, some groups of the tokens lose their parentheses, and given pieces are
left. -/
def ReducesTo (before after tokens : List Token) (pieces : List Piece) : Prop :=
  ∃ kept, ReflTransGen DropsGroup (before ++ tokens ++ after) (before ++ kept ++ after) ∧
    groupCount (before ++ kept ++ after) ≤ groupCount (before ++ tokens ++ after) ∧
    kept.map Token.piece = pieces

namespace ReducesTo

variable {before after tokens lefts rights : List Token} {pieces pieces' : List Piece}

theorem refl (h : tokens.map Token.piece = pieces) : ReducesTo before after tokens pieces :=
  ⟨tokens, .refl, Nat.le_refl _, h⟩

theorem append (hleft : ∀ rest, ReducesTo before rest lefts pieces)
    (hright : ReducesTo (before ++ lefts) after rights pieces') :
    ReducesTo before after (lefts ++ rights) (pieces ++ pieces') := by
  -- the right part first, so that what precedes it is still as it was read
  rcases hright with ⟨keptRight, hdropsRight, hcountRight, hpiecesRight⟩
  rcases hleft (keptRight ++ after) with ⟨keptLeft, hdropsLeft, hcountLeft, hpiecesLeft⟩
  refine ⟨keptLeft ++ keptRight, ?_, ?_, by simp [hpiecesLeft, hpiecesRight]⟩
  · simp only [List.append_assoc] at hdropsRight hdropsLeft ⊢
    exact hdropsRight.trans hdropsLeft
  · simp only [List.append_assoc] at hcountRight hcountLeft ⊢
    exact Nat.le_trans hcountLeft hcountRight

theorem head (hdrop : DropsGroup (before ++ tokens ++ after) (before ++ lefts ++ after))
    (hcount : groupCount (before ++ lefts ++ after) ≤ groupCount (before ++ tokens ++ after))
    (h : ReducesTo before after lefts pieces) : ReducesTo before after tokens pieces := by
  rcases h with ⟨kept, hdrops, hless, hpieces⟩
  exact ⟨kept, .head hdrop hdrops, Nat.le_trans hless hcount, hpieces⟩

theorem logical {left right : Expr} {op : Connective} {word : Token} {layer : Layer}
    (hword : word.piece = op.piece) (hle : op.layer.looseness ≤ layer.looseness)
    (hleft : ∀ rest, ReducesTo before rest lefts
      (Expr.groupedPieces (left.needsGroup op.layer) left.pieces))
    (hright : ReducesTo (before ++ (lefts ++ [word])) after rights
      (Expr.groupedPieces (right.needsGroup op.rightLayer) right.pieces)) :
    ReducesTo before after (lefts ++ [word] ++ rights)
      (Expr.groupedPieces ((Expr.logical left op right).needsGroup layer)
        (Expr.logical left op right).pieces) := by
  have hgroup : (Expr.logical left op right).needsGroup layer = false :=
    decide_eq_false (Nat.not_lt_of_le hle)
  have hpiece : [word].map Token.piece = [op.piece] := by rw [List.map_singleton, hword]
  rw [hgroup, Expr.pieces, Expr.groupsLeft_eq_needsGroup, Expr.groupsRight_eq_needsGroup]
  exact .append (fun rest => .append hleft (.refl hpiece)) hright

end ReducesTo

theorem Connective.piece_of_canonical {token : Token} (h : token.IsCanonical) {op : Connective}
    (hop : token.kind.connective? = some op) : token.piece = op.piece := by
  cases hkind : token.kind <;> rw [hkind] at hop <;> cases hop <;>
    rw [h.piece_of_spelling? hkind rfl] <;> rfl

/-- However the tree of a layer is spelled, the tokens of its canonical text are left, in
parentheses where a looser layer needs them. -/
theorem Derives.reducesTo {d : Nat} {layer : Layer} {tokens : List Token} {e : Expr}
    (h : Derives d layer tokens e) (hcanonical : ∀ token ∈ tokens, token.IsCanonical)
    {layer' : Layer} (hle : layer.looseness ≤ layer'.looseness) {before : List Token}
    (hbefore : EndsOutside before) (after : List Token) :
    ReducesTo before after tokens (Expr.groupedPieces (e.needsGroup layer') e.pieces) := by
  induction h generalizing layer' before after with
  | @comparison d tokens e h =>
      have hgroup : e.needsGroup layer' = false := by
        cases h <;> cases layer' <;> rfl
      rw [hgroup]
      exact .refl (pieces_of_comparisonTokens h hcanonical)
  | @group d tokens openParen closeParen e hopen hinside hclose ih =>
      have htokens : ∀ token ∈ tokens, token.IsCanonical := fun t ht => hcanonical t (by simp [ht])
      have hbalanced : Balanced tokens := hinside.balanced fun t ht => (htokens t ht).1
      have hpieces : Expr.groupedPieces (e.needsGroup .disjunction) e.pieces = e.pieces := by
        rw [Expr.needsGroup_disjunction]
        rfl
      cases hneeds : e.needsGroup layer' with
      | true =>
          -- the parentheses stay
          have hleft : [openParen].map Token.piece = [(.openParen, .text "(")] := by
            rw [List.map_singleton,
              (hcanonical openParen (by simp)).piece_of_spelling? hopen rfl]
            rfl
          have hright : [closeParen].map Token.piece = [(.closeParen, .text ")")] := by
            rw [List.map_singleton,
              (hcanonical closeParen (by simp)).piece_of_spelling? hclose rfl]
            rfl
          have hopened := hbefore.append_openParen hopen
          have hreduces : ∀ rest, ReducesTo (before ++ [openParen]) rest tokens e.pieces := by
            intro rest
            rw [← hpieces]
            exact ih htokens (Nat.le_refl _) hopened rest
          exact .append (fun rest => .append (fun rest => .refl hleft) (hreduces rest))
            (.refl hright)
      | false =>
          -- the parentheses go, and then those inside that are not needed
          have hdrop : DropsGroup (before ++ ([openParen] ++ tokens ++ [closeParen]) ++ after)
              (before ++ tokens ++ after) := by
            simpa using DropsGroup.of_balanced hbefore hopen hbalanced hclose after
          have hcount : groupCount (before ++ tokens ++ after) ≤
              groupCount (before ++ ([openParen] ++ tokens ++ [closeParen]) ++ after) := by
            have hless := groupCount_of_balanced hbefore hopen hbalanced hclose after
            simp only [List.append_assoc] at hless ⊢
            omega
          have hreduces := ih htokens (Nat.le_refl _) hbefore after
          rw [hpieces] at hreduces
          exact .head hdrop hcount hreduces
  | ofPrimary _ ih => exact ih hcanonical (Nat.le_trans (by decide) hle) hbefore after
  | ofConjunction _ ih => exact ih hcanonical (Nat.le_trans (by decide) hle) hbefore after
  | @and d lefts rights word left right hleft hword _ ihl ihr =>
      have hlefts : ∀ token ∈ lefts, token.IsCanonical := fun t ht => hcanonical t (by simp [ht])
      have hbalanced : Balanced lefts := hleft.balanced fun t ht => (hlefts t ht).1
      have hpiece : word.piece = Connective.and.piece :=
        Connective.piece_of_canonical (hcanonical word (by simp)) (by rw [hword]; rfl)
      have hafter := (hbefore.append_balanced hbalanced).append_connective (.inl hword)
      rw [List.append_assoc] at hafter
      exact .logical hpiece hle (ihl hlefts (Nat.le_refl _) hbefore)
        (ihr (fun t ht => hcanonical t (by simp [ht])) (Nat.le_refl _) hafter after)
  | @or d lefts rights word left right hleft hword _ ihl ihr =>
      have hlefts : ∀ token ∈ lefts, token.IsCanonical := fun t ht => hcanonical t (by simp [ht])
      have hbalanced : Balanced lefts := hleft.balanced fun t ht => (hlefts t ht).1
      have hpiece : word.piece = Connective.or.piece :=
        Connective.piece_of_canonical (hcanonical word (by simp)) (by rw [hword]; rfl)
      have hafter := (hbefore.append_balanced hbalanced).append_connective (.inr hword)
      rw [List.append_assoc] at hafter
      exact .logical hpiece hle (ihl hlefts (Nat.le_refl _) hbefore)
        (ihr (fun t ht => hcanonical t (by simp [ht])) (Nat.le_refl _) hafter after)

/-! ## Queries -/

/-- How many groups tokens open hangs on their kinds alone. -/
theorem Parentheses.opened_of_pieces_eq {tokens tokens' : List Token}
    (h : tokens.map Token.piece = tokens'.map Token.piece) (p : Parentheses) :
    p.opened tokens = p.opened tokens' := by
  induction tokens generalizing p tokens' with
  | nil =>
      have hnil : tokens' = [] := by simpa using h.symm
      rw [hnil]
  | cons token tokens ih =>
      rcases List.map_eq_cons_iff.1 h.symm with ⟨token', rest, rfl, hpiece, hrest⟩
      have hkind : token'.kind = token.kind := congrArg Prod.fst hpiece
      have hafter : p.after token = p.after token' := by simp only [after, hkind]
      rw [opened, opened, hafter, ih hrest.symm]

namespace Query

variable {limit : Nat} {source : List Char} {e : Expr}

theorem reducesTo_pieces (h : parse limit source = .ok e) :
    ∃ tokens, TokenStream.ofText source = ⟨tokens, none⟩ ∧ ReducesTo [] [] tokens e.pieces := by
  rcases ofText_of_parse h with ⟨tokens, hstream, hread⟩
  have hmem : ∀ token ∈ tokens, token ∈ (TokenStream.ofText source).tokens := by
    rw [hstream]
    exact fun token htoken => htoken
  have hcanonical : ∀ token ∈ tokens, token.IsCanonical := by
    intro token htoken
    exact ⟨TokenStream.agrees_of_mem_ofText source token (hmem token htoken),
      TokenStream.isFixed_of_mem_ofText (hmem token htoken)⟩
  have hderives := Reading.derives_of_ofTokens (fun t ht => (hcanonical t ht).1) hread
  have hbefore : EndsOutside [] := rfl
  have hreduces := hderives.reducesTo hcanonical (Nat.le_refl _) hbefore []
  rw [Expr.needsGroup_disjunction] at hreduces
  exact ⟨tokens, hstream, hreduces⟩

/-- The tokens of the canonical text of a query are those of the query, but for the parentheses of
some groups; no text that stands for the same filter opens fewer groups. -/
theorem pieces_text_of_parse (limit : Nat) (source : List Char) (e : Expr)
    (h : parse limit source = .ok e) (hfloats : e.FloatsReadBack) :
    ∃ tokens canonical, TokenStream.ofText source = ⟨tokens, none⟩ ∧
      TokenStream.ofText e.text = ⟨canonical, none⟩ ∧
      (∃ kept, ReflTransGen DropsGroup tokens kept ∧
        kept.map Token.piece = canonical.map Token.piece) ∧
      ∀ limit' source', parse limit' source' = .ok e →
        ∃ tokens', TokenStream.ofText source' = ⟨tokens', none⟩ ∧
          groupCount canonical ≤ groupCount tokens' := by
  rcases rules_of_parse h with ⟨-, -, hfinite⟩
  have hboundary : IsBoundary [] := by simp [IsBoundary]
  rcases (Lexes.expr (e.readsBack hfinite hfloats) hboundary).ofText with ⟨herror, hcanonical⟩
  rcases reducesTo_pieces h with ⟨tokens, hstream, kept, hdrops, -, hpieces⟩
  refine ⟨tokens, (TokenStream.ofText e.text).tokens, hstream, by rw [← herror], ⟨kept, ?_, ?_⟩, ?_⟩
  · simpa using hdrops
  · rw [hpieces, hcanonical]
  · intro limit' source' h'
    rcases reducesTo_pieces h' with ⟨tokens', hstream', kept', -, hcount, hpieces'⟩
    have hsame : groupCount (TokenStream.ofText e.text).tokens = groupCount kept' := by
      apply Parentheses.opened_of_pieces_eq
      rw [hcanonical, hpieces']
    refine ⟨tokens', hstream', ?_⟩
    rw [hsame]
    simpa using hcount

/-- A text of the filter with a group that it does not need. -/
def twiceGroupedText : List Char :=
  "price<1.5 and ((tag in ('a\\n', None)) or author.name ~ 'x')".toList

/-- The inner parentheses are deleted, those of the list and of the outer group are not. -/
theorem reduces_twiceGroupedText :
    parse 2 twiceGroupedText = .ok groupedFilter ∧ groupedFilter.FloatsReadBack ∧
      ∃ tokens canonical kept, TokenStream.ofText twiceGroupedText = ⟨tokens, none⟩ ∧
        TokenStream.ofText groupedFilter.text = ⟨canonical, none⟩ ∧
        ReflTransGen DropsGroup tokens kept ∧ kept.map Token.piece = canonical.map Token.piece ∧
        groupCount tokens = 2 ∧ groupCount canonical = 1 := by
  have hparse : parse 2 twiceGroupedText = .ok groupedFilter := by decide +kernel
  have hfloats := floatsReadBack_groupedFilter
  rcases pieces_text_of_parse 2 _ groupedFilter hparse hfloats with
    ⟨tokens, canonical, hstream, hcanonical, ⟨kept, hdrops, hpieces⟩, -⟩
  have htwo : groupCount (TokenStream.ofText twiceGroupedText).tokens = 2 := by decide +kernel
  have hone : groupCount (TokenStream.ofText groupedFilter.text).tokens = 1 := by decide +kernel
  rw [hstream] at htwo
  rw [hcanonical] at hone
  exact ⟨hparse, hfloats, tokens, canonical, kept, hstream, hcanonical, hdrops, hpieces, htwo, hone⟩

end Query
end FieldFilter
