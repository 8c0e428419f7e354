import FieldFilter.Proofs.Lexing.Cuts
import FieldFilter.Proofs.RoundTrip

/-!
# Queries composed of queries

Two texts that stand for filters, in parentheses and with a connective between them, stand for both
filters joined by the connective.

* `Lexes.of_read` — a text without faults reads as its tokens in front of what starts apart;
* `Reading.Moves.of_piece_eq`, `Query.ofTokens_of_pieces_eq` — where tokens stand does not matter to
  the tree that they are read as;
* `Query.parse_composed` — the text of both filters.
-/

namespace FieldFilter

variable {limit : Nat} {source rest left right : List Char} {tokens : List Token} {e e' : Expr}

/-! ## Texts as parts of others -/

namespace Lexes

theorem separators {separators : List Char}
    (hall : ∀ c ∈ separators, TokenStream.isSeparator c = true) : Lexes separators [] rest := by
  intro place
  exact ⟨[], rfl, TokenStream.read_separators hall⟩

/-- In front of what starts apart, a text without faults reads as the tokens that it has on its
own. -/
theorem of_read {place : Place} (herror : (TokenStream.read place source).error = none)
    (hrest : StartsApart rest) :
    Lexes source ((TokenStream.read place source).tokens.map Token.piece) rest := by
  -- what stands behind the first token is shorter, and read at another place
  induction hlength : source.length using Nat.strong_induction_on generalizing place source with
  | _ n ih =>
      have hstep := TokenStream.readStep_read place source
      generalize TokenStream.read place source = stream at hstep herror
      cases hstep with
      | blank hall => exact separators hall
      | fault _ _ _ _ => cases herror
      | @token gap text behind c piece hgap hsep houtcome htext =>
          -- cut where the text ends, its first lexeme stays the same in front of `rest`
          have hstart : Lexeme.start c (text ++ (behind ++ rest)) = ⟨c :: text, .ok piece⟩ := by
            rw [← List.append_nil behind] at houtcome htext
            rw [Lexeme.start_cut hrest houtcome htext, ← houtcome, ← htext]
          have hlexeme : LexesAs (c :: text) piece (behind ++ rest) := ⟨c, text, rfl, hsep, hstart⟩
          have hshorter : behind.length < n := by
            rw [← hlength]
            simp
            omega
          exact (separators hgap).append (hlexeme.lexes.append (ih _ hshorter herror rfl))

end Lexes

theorem IsBoundary.startsApart (h : IsBoundary rest) : StartsApart rest := by
  intro c hc
  rcases h c hc with rfl | rfl | rfl <;> rfl

/-! ## Tokens at other places -/

namespace Reading

variable {room leaked : Nat} {r r' : Reading} {token token' : Token} {tokens' : List Token}

/-- What a token does depends on its kind and value only. -/
theorem Moves.of_piece_eq (h : Moves room r token r') (hpiece : token'.piece = token.piece) :
    Moves room r token' r' := by
  have hkind : token'.kind = token.kind := congrArg Prod.fst hpiece
  have hvalue : token'.value = token.value := congrArg Prod.snd hpiece
  have htext : token'.valueText = token.valueText := by simp only [Token.valueText, hvalue]
  have hliteral : token'.literal? = token.literal? := by simp only [Token.literal?, hvalue]
  cases h <;> constructor <;> simp_all

theorem run_of_pieces_eq (h : run limit leaked r tokens = .ok r')
    (hpieces : tokens'.map Token.piece = tokens.map Token.piece) :
    run limit leaked r tokens' = .ok r' := by
  induction tokens generalizing r tokens' with
  | nil =>
      have hnil : tokens' = [] := by simpa using hpieces
      rw [hnil]
      exact h
  | cons token tokens ih =>
      rw [List.map_cons] at hpieces
      rcases List.map_eq_cons_iff.1 hpieces with ⟨token', rest', rfl, hpiece, hrest⟩
      rcases exists_of_run_cons h with ⟨r₁, hmoves, hrun⟩
      rw [run_cons_of_moves (hmoves.of_piece_eq hpiece)]
      exact ih hrun hrest

end Reading

namespace Query

open Reading

/-! ## Texts in parentheses -/

theorem lexes_grouped_of_parse (h : parse limit source = .ok e) (hrest : IsBoundary rest) :
    Lexes (Expr.grouped true source)
      (Expr.groupedPieces true ((TokenStream.ofText source).tokens.map Token.piece)) rest := by
  rcases ofText_of_parse h with ⟨tokens, hstream, -⟩
  have herror : (TokenStream.ofText source).error = none := by rw [hstream]
  exact Lexes.grouped true (fun _ hboundary => Lexes.of_read herror hboundary.startsApart) hrest

/-- The tokens of a text that stands for a filter are an operand when they stand in parentheses. -/
theorem derives_grouped_of_parse (h : parse limit source = .ok e)
    (hpieces : tokens.map Token.piece =
      Expr.groupedPieces true ((TokenStream.ofText source).tokens.map Token.piece))
    (hagrees : ∀ token ∈ tokens, token.agrees = true) :
    Derives (limit + 1) .primary tokens e := by
  -- the parentheses are cut off, and the machine reads what stands between them as on its own
  rcases ofText_of_parse h with ⟨tokens', hstream, hread⟩
  rcases ofTokens_eq_ok_iff.1 hread with ⟨r, hrun, hfinish⟩
  rcases List.map_eq_append_iff.1 hpieces with ⟨front, after, rfl, hfront, hafter⟩
  rcases List.map_eq_append_iff.1 hfront with ⟨before, inside, rfl, hbefore, hinside⟩
  rcases List.map_eq_singleton_iff.1 hbefore with ⟨openParen, rfl, hopen⟩
  rcases List.map_eq_singleton_iff.1 hafter with ⟨closeParen, rfl, hclose⟩
  rw [hstream] at hinside
  have hread' : ofTokens limit inside = .ok e :=
    ofTokens_eq_ok_iff.2 ⟨r, run_of_pieces_eq hrun hinside, hfinish⟩
  have hderives : Derives limit .disjunction inside e :=
    derives_of_ofTokens (fun t ht => hagrees t (by simp [ht])) hread'
  exact .group (congrArg Prod.fst hopen) hderives (congrArg Prod.fst hclose)

/-- Two texts that stand for filters, in parentheses and with a connective between them, stand for
both filters joined by the connective, under a cap of one group more. -/
theorem parse_composed (hleft : parse limit left = .ok e) (hright : parse limit right = .ok e')
    (op : Connective) :
    parse (limit + 1) ("(".toList ++ left ++ ") ".toList ++ op.symbol.toList ++ " (".toList ++
      right ++ ")".toList) = .ok (.logical e op e') := by
  have htext : "(".toList ++ left ++ ") ".toList ++ op.symbol.toList ++ " (".toList ++ right ++
      ")".toList = Expr.grouped true left ++ ' ' :: (op.symbol.toList ++
        ' ' :: Expr.grouped true right) := by
    simp [Expr.grouped]
  have hword : Lexes op.symbol.toList [op.piece] (' ' :: Expr.grouped true right ++ []) :=
    Lexes.connective op (.cons_space _)
  have hlexes := (lexes_grouped_of_parse hleft (.cons_space _)).append
    (hword.append (lexes_grouped_of_parse hright .nil).space).space
  rcases hlexes.exists_ofText with ⟨tokens, hstream, hpieces, hagrees⟩
  rcases List.map_eq_append_iff.1 hpieces with ⟨lefts, behind, rfl, hlefts, hbehind⟩
  rcases List.map_eq_cons_iff.1 hbehind with ⟨word, rights, rfl, hwordPiece, hrights⟩
  have hderiveLeft : Derives (limit + 1) .primary lefts e :=
    derives_grouped_of_parse hleft hlefts fun t ht => hagrees t (by simp [ht])
  have hderiveRight : Derives (limit + 1) .primary rights e' :=
    derives_grouped_of_parse hright hrights fun t ht => hagrees t (by simp [ht])
  -- a group binds tighter than both connectives, whatever stands in it
  have hderives : Derives (limit + 1) op.layer (lefts ++ [word] ++ rights) (.logical e op e') :=
    (hderiveLeft.loosen (Nat.zero_le _)).logical hwordPiece (hderiveRight.loosen (Nat.zero_le _))
  rw [htext, parse_eq_ofTokens hstream]
  refine ofTokens_of_derives ?_ hagrees
  rw [← List.singleton_append, ← List.append_assoc]
  exact hderives.loosen (by cases op <;> decide)

/-- A disjunction with quotes, parentheses and line breaks. -/
def quotedText : List Char :=
  "\ntag = 'it\\'s )' or\r\n\tage in (1, 2)\n".toList

/-- A comparison in a group. -/
def groupText : List Char :=
  "(name ~ \"(\")".toList

/-- The disjunction stays one operand of `and`, which binds tighter than `or`. -/
theorem parse_composed_quotedText :
    let tagged : Expr := .comparison ⟨⟨"tag", by decide⟩, []⟩ .equal (.single (.string "it's )"))
    let aged : Expr :=
      .comparison ⟨⟨"age", by decide⟩, []⟩ .memberOf (.list ⟨.int 1, [.int 2]⟩)
    let named : Expr := .comparison ⟨⟨"name", by decide⟩, []⟩ .contains (.single (.string "("))
    parse 1 quotedText = .ok (.logical tagged .or aged) ∧ parse 1 groupText = .ok named ∧
      parse 2 ("(".toList ++ quotedText ++ ") ".toList ++ Connective.and.symbol.toList ++
        " (".toList ++ groupText ++ ")".toList) =
          .ok (.logical (.logical tagged .or aged) .and named) := by
  intro tagged aged named
  have hleft : parse 1 quotedText = .ok (.logical tagged .or aged) := by decide +kernel
  have hright : parse 1 groupText = .ok named := by decide +kernel
  exact ⟨hleft, hright, parse_composed hleft hright .and⟩

end Query
end FieldFilter
