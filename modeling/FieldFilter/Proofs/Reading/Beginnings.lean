import FieldFilter.Proofs.Comparisons
import FieldFilter.Proofs.Lexing.Cuts
import FieldFilter.Proofs.Printing.Pieces
import FieldFilter.Proofs.Reading.Laziness
import FieldFilter.Proofs.Reading.Nesting

/-!
# Texts that begin a query

* `Query.Begins` — a text is a query or ends too early for one, however deep groups may nest;
* `Query.ReadsTo`, `Query.begins_iff` — it has no faults, and the machine takes its tokens;
* `Query.AwaitsOperand` — a comparison may start behind it;
* `Query.ReadsTo.begins_append` — it goes on behind a space with what the machine takes next;
* `Reading.Leads` — what the last token tells about what may come next.
-/

namespace FieldFilter
namespace Query

open Reading

/-- A text that is a query or that more text could make one, under every cap that is high enough. -/
def Begins (source : List Char) : Prop :=
  ∃ cap, ∀ limit, cap ≤ limit → (∃ e, parse limit source = .ok e) ∨
    ∃ failure, parse limit source = .error failure ∧ failure.isEnd = true

variable {source text : List Char} {limit : Nat} {r r' : Reading} {tokens : List Token}
  {token : Token} {pieces : List Piece}

theorem error_eq_none_of_parse {outcome : Except Failure Expr}
    (hparse : parse limit source = outcome)
    (h : (∃ e, outcome = .ok e) ∨ ∃ failure, outcome = .error failure ∧ failure.isEnd = true) :
    (TokenStream.ofText source).error = none ∧
      ∃ r, run limit 0 {} (TokenStream.ofText source).tokens = .ok r := by
  rw [parse_eq_run] at hparse
  cases hrun : run limit 0 {} (TokenStream.ofText source).tokens with
  | error failure =>
      rcases unexpected_of_run (TokenStream.agrees_of_mem_ofText source) hrun with
        ⟨expected, token, rfl⟩
      rw [hrun] at hparse
      subst hparse
      rcases h with ⟨e, h⟩ | ⟨failure, h, hend⟩ <;> cases h
      cases hend
  | ok r =>
      refine ⟨?_, r, rfl⟩
      cases herror : (TokenStream.ofText source).error with
      | none => rfl
      | some error =>
          rw [hrun, herror] at hparse
          subst hparse
          rcases h with ⟨e, h⟩ | ⟨failure, h, hend⟩ <;> cases h
          cases hend

/-- The machine stands at a state behind a text without faults. -/
def ReadsTo (source : List Char) (r : Reading) : Prop :=
  (TokenStream.ofText source).error = none ∧
    ∃ limit, run limit 0 {} (TokenStream.ofText source).tokens = .ok r

/-- The texts that begin a query are those without faults whose tokens the machine takes. -/
theorem begins_iff : Begins source ↔ ∃ r, ReadsTo source r := by
  constructor
  · rintro ⟨cap, hcap⟩
    rcases error_eq_none_of_parse rfl (hcap cap (Nat.le_refl cap)) with ⟨herror, r, hrun⟩
    exact ⟨r, herror, cap, hrun⟩
  · rintro ⟨r, herror, cap, hrun⟩
    refine ⟨cap, ?_⟩
    intro limit hle
    rw [parse_eq_run, run_mono hrun hle, herror]
    rcases finish_cases r with ⟨e, hfinish⟩ | ⟨expected, hfinish⟩
    · exact .inl ⟨e, hfinish⟩
    · exact .inr ⟨_, hfinish, rfl⟩

/-- A text behind which a group or a comparison may start. -/
def AwaitsOperand (source : List Char) : Prop :=
  ∃ r, ReadsTo source r ∧ r.awaiting = .operand

theorem awaitsOperand_nil : AwaitsOperand [] :=
  ⟨{}, ⟨by simp [TokenStream.ofText], 0, by simp [TokenStream.ofText]⟩, rfl⟩

/-! ## Going on behind a space -/

/-- Behind a space a text without faults goes on with the tokens of what follows. -/
theorem exists_tokens_append_space (herror : (TokenStream.ofText source).error = none)
    (hlexes : Lexes text pieces []) :
    ∃ more : List Token, more.map Token.piece = pieces ∧
      TokenStream.ofText (source ++ ' ' :: text) =
        ⟨(TokenStream.ofText source).tokens ++ more, none⟩ := by
  rcases hlexes (Place.afterText {} (source ++ [' '])) with ⟨more, hpieces, hread⟩
  refine ⟨more, hpieces, ?_⟩
  rw [List.append_nil] at hread
  rw [TokenStream.ofText_append_space herror, hread]
  simp [TokenStream.prepend]

/-- A text goes on behind a space with what the machine takes next. -/
theorem ReadsTo.begins_append (h : ReadsTo source r) (hlexes : Lexes text pieces [])
    (htakes : ∀ limit, ∀ more : List Token, more.map Token.piece = pieces →
      ∃ r', run limit 0 r more = .ok r') : Begins (source ++ ' ' :: text) := by
  rcases h with ⟨herror, limit, hrun⟩
  rcases exists_tokens_append_space herror hlexes with ⟨more, hpieces, hread⟩
  rcases htakes limit more hpieces with ⟨r', hmore⟩
  refine begins_iff.2 ⟨r', by rw [hread], limit, ?_⟩
  rw [hread, run_append hrun, hmore]

/-- A text goes on behind a space with a token that the machine takes next. -/
theorem ReadsTo.begins_append_token (h : ReadsTo source r) {piece : Piece}
    (hlexes : Lexes text [piece] [])
    (htakes : ∀ room, ∀ token : Token, token.piece = piece → ∃ r', Moves room r token r') :
    Begins (source ++ ' ' :: text) := by
  refine h.begins_append hlexes ?_
  intro limit more hmore
  rcases List.map_eq_singleton_iff.1 hmore with ⟨token, rfl, hpiece⟩
  rcases htakes (limit - 0) token hpiece with ⟨r', hmoves⟩
  exact ⟨r', run_singleton_of_moves hmoves⟩

end Query

namespace Reading

variable {limit room : Nat} {r r' : Reading} {tokens : List Token} {token : Token}

/-! ## What the last token tells -/

/-- The kinds of tokens that lead to what may come next. -/
def Leads (kind : TokenKind) : Awaiting → Prop
  | .operand => kind.isConnective = true ∨ kind = .openParen
  | .path _ => kind = .name
  | .segment _ => kind = .dot
  | .inWord _ => kind = .notWord
  | .value _ op => kind.comparator? = some op
  | .list _ _ => kind = .inWord
  | .firstItem _ _ => kind = .openParen
  | .nextItem _ _ _ => kind = .comma
  | .separator _ _ _ => kind.isLiteral = true
  | .connective _ => kind.isLiteral = true ∨ kind = .closeParen

theorem isLiteral_of_literal? (hagrees : token.agrees = true) {value : Literal}
    (hvalue : token.literal? = some value) : token.kind.isLiteral = true :=
  Token.kind_eq_of_agrees hagrees hvalue ▸ value.isLiteral_tokenKind

theorem Moves.leads (h : Moves room r token r') (hagrees : token.agrees = true) :
    Leads token.kind r'.awaiting := by
  cases h with
  | openGroup hkind | closeGroup hkind => exact .inr hkind
  | value hvalue => exact .inl (isLiteral_of_literal? hagrees hvalue)
  | firstItem hvalue | nextItem hvalue => exact isLiteral_of_literal? hagrees hvalue
  | closeList hkind => exact .inr hkind
  | connective hop => exact .inl (by simp [TokenKind.isConnective, hop])
  | _ => assumption

namespace Leads

variable {kind : TokenKind} {awaiting : Awaiting}

theorem operand_of_connective (h : Leads kind awaiting) (hkind : kind.isConnective = true) :
    awaiting = .operand := by
  cases kind <;> cases hkind <;> cases awaiting <;>
    simp_all [Leads, TokenKind.isLiteral, TokenKind.comparator?]

theorem path_of_name (h : Leads .name awaiting) : ∃ path, awaiting = .path path := by
  cases awaiting <;> simp_all [Leads, TokenKind.isLiteral, TokenKind.comparator?,
    TokenKind.isConnective, TokenKind.connective?]

theorem value_of_comparator (h : Leads kind awaiting) (hkind : kind.isComparator = true) :
    ∃ path op, awaiting = .value path op ∧ kind.comparator? = some op := by
  cases kind <;> cases hkind <;> cases awaiting <;>
    simp_all [Leads, TokenKind.isLiteral, TokenKind.comparator?, TokenKind.isConnective,
      TokenKind.connective?]

theorem list_of_inWord (h : Leads .inWord awaiting) : ∃ path op, awaiting = .list path op := by
  cases awaiting <;> simp_all [Leads, TokenKind.isLiteral, TokenKind.comparator?,
    TokenKind.isConnective, TokenKind.connective?]

theorem cases_of_literal (h : Leads kind awaiting)
    (hkind : kind.isLiteral = true ∨ kind = .closeParen) :
    (∃ operand, awaiting = .connective operand) ∨
      ∃ path op items, awaiting = .separator path op items := by
  cases awaiting with
  | connective operand => exact .inl ⟨operand, rfl⟩
  | separator path op items => exact .inr ⟨path, op, items, rfl⟩
  | _ => cases kind <;> simp_all [Leads, TokenKind.isLiteral, TokenKind.comparator?,
      TokenKind.isConnective, TokenKind.connective?]

end Leads

/-- The last token of a run leads to the state behind it. -/
theorem exists_of_run_append_singleton
    (h : run limit 0 {} (tokens ++ [token]) = .ok r) (hagrees : token.agrees = true) :
    ∃ r₀, run limit 0 {} tokens = .ok r₀ ∧ Moves (limit - 0) r₀ token r ∧
      Leads token.kind r.awaiting := by
  rcases exists_run_of_append h with ⟨r₀, hrun⟩
  rw [run_append hrun] at h
  rcases exists_of_run_cons h with ⟨r₁, hmoves, hrest⟩
  cases hrest
  exact ⟨r₀, hrun, hmoves, hmoves.leads hagrees⟩

/-- A parenthesis opens a group or a list. -/
theorem Moves.cases_of_openParen (h : Moves room r token r') (hkind : token.kind = .openParen)
    (hagrees : token.agrees = true) :
    r.awaiting = .operand ∧ r'.awaiting = .operand ∨
      ∃ path op, r.awaiting = .list path op ∧ r'.awaiting = .firstItem path op := by
  cases h with
  | openGroup => exact .inl ⟨rfl, rfl⟩
  | openList => exact .inr ⟨_, _, rfl, rfl⟩
  | value hvalue | firstItem hvalue | nextItem hvalue =>
      have hliteral := isLiteral_of_literal? hagrees hvalue
      rw [hkind] at hliteral
      cases hliteral
  | comparator hop | connective hop =>
      rw [hkind] at hop
      cases hop
  | _ => simp_all

/-- No connective is taken inside a list. -/
theorem Moves.listPart_of_connective {op : Connective} (h : Moves room r token r')
    (hop : token.kind.connective? = some op) (hagrees : token.agrees = true) :
    r.listPart = .outside := by
  have hliteral : token.kind.isLiteral = false := by
    cases hkind : token.kind <;> simp_all [TokenKind.connective?, TokenKind.isLiteral]
  cases h with
  | firstItem hvalue | nextItem hvalue =>
      rw [isLiteral_of_literal? hagrees hvalue] at hliteral
      cases hliteral
  | openList hkind | comma hkind | closeList hkind =>
      rw [hkind] at hop
      cases hop
  | _ => rfl

end Reading

/-! ## What may follow -/

namespace Query

open Reading

variable {source : List Char} {outer : List Level} {inner : Level} {path : FieldPath}
  {op : Comparator} {r : Reading}

theorem kind_eq_of_piece {token : Token} {kind : TokenKind} {value : TokenValue}
    (h : token.piece = (kind, value)) : token.kind = kind ∧ token.value = value :=
  Prod.mk.inj h

theorem ReadsTo.begins_name (h : ReadsTo source r) (hawaiting : r.awaiting = .operand)
    (segment : Segment) : Begins (source ++ ' ' :: segment.word.toList) := by
  rcases r with ⟨outer, inner, awaiting⟩
  obtain rfl : awaiting = .operand := hawaiting
  refine h.begins_append_token (Lexes.segment segment IsBoundary.nil.endsWord) ?_
  intro room token hpiece
  rcases kind_eq_of_piece hpiece with ⟨hkind, hvalue⟩
  have hword : token.valueText = segment.word := by
    rw [Token.valueText, hvalue]
    rfl
  exact ⟨_, .firstSegment hkind hword⟩

theorem ReadsTo.begins_comparator (h : ReadsTo source ⟨outer, inner, .path path⟩)
    (op : Comparator) : Begins (source ++ ' ' :: op.symbol.toList) := by
  refine h.begins_append (Lexes.comparator op .nil) ?_
  intro limit more hmore
  exact ⟨_, run_of_comparatorPieces hmore⟩

theorem ReadsTo.begins_literal (h : ReadsTo source r)
    (htakes : ∀ room, ∀ token : Token, token.literal? = some (.string "") →
      ∃ r', Moves room r token r') :
    Begins (source ++ ' ' :: (Literal.string "").text) := by
  refine h.begins_append_token (Lexes.literal trivial (.inl rfl)) ?_
  intro room token hpiece
  refine htakes room token ?_
  rw [Token.literal?, (kind_eq_of_piece hpiece).2]
  rfl

theorem ReadsTo.begins_value {word : TokenKind} (h : ReadsTo source ⟨outer, inner, .value path op⟩)
    (hop : word.comparator? = some op) :
    Begins (source ++ ' ' :: (Literal.string "").text) := by
  have haccepts := accepts_string hop ""
  refine h.begins_literal ?_
  intro room token hvalue
  exact ⟨_, .value hvalue (admits_of_accepts haccepts) haccepts⟩

theorem ReadsTo.begins_firstItem (h : ReadsTo source ⟨outer, inner, .firstItem path op⟩) :
    Begins (source ++ ' ' :: (Literal.string "").text) :=
  h.begins_literal fun _ _ hvalue => ⟨_, .firstItem hvalue⟩

theorem ReadsTo.begins_list (h : ReadsTo source ⟨outer, inner, .list path op⟩) :
    Begins (source ++ ' ' :: ['(']) :=
  h.begins_append_token Lexes.openParen fun _ _ hpiece =>
    ⟨_, .openList (kind_eq_of_piece hpiece).1⟩

/-- In front of a place where a comparison may start stands a connective, a parenthesis or
nothing. -/
theorem AwaitsOperand.kind_of_getLast? (h : AwaitsOperand source) :
    ∀ token ∈ (TokenStream.ofText source).tokens.getLast?,
      token.kind.isConnective = true ∨ token.kind = .openParen := by
  rcases h with ⟨r, ⟨-, limit, hrun⟩, hawaiting⟩
  have hagrees := TokenStream.agrees_of_mem_ofText source
  intro token htoken
  rcases List.getLast?_eq_some_iff.1 htoken with ⟨tokens, htokens⟩
  rw [htokens] at hrun hagrees
  rcases exists_of_run_append_singleton hrun (hagrees token (by simp)) with ⟨_, -, -, hleads⟩
  rwa [hawaiting] at hleads

/-- A text that ends inside a list. -/
def InsideList (source : List Char) : Prop :=
  ((TokenStream.ofText source).tokens.foldl Parentheses.after {}).list = .inside

theorem ReadsTo.insideList_iff (h : ReadsTo source r) :
    InsideList source ↔ r.listPart = .inside := by
  rcases h with ⟨-, limit, hrun⟩
  have hparentheses := parentheses_of_run hrun (TokenStream.agrees_of_mem_ofText source)
  have hlist := congrArg Parentheses.list hparentheses
  rw [InsideList]
  exact Eq.congr_left hlist

/-- After an operand or a literal of a list a connective may follow, unless the list is not
closed. -/
theorem ReadsTo.begins_connective_iff (h : ReadsTo source r)
    (hawaiting : (∃ operand, r.awaiting = .connective operand) ∨
      ∃ path op items, r.awaiting = .separator path op items) (op : Connective) :
    Begins (source ++ ' ' :: op.symbol.toList) ↔ ¬ InsideList source := by
  have hlexes : Lexes op.symbol.toList [op.piece] [] := Lexes.connective op .nil
  have hop : op.piece.1.connective? = some op := by cases op <;> rfl
  constructor
  · intro hbegins hinside
    rcases exists_tokens_append_space h.1 hlexes with ⟨more, hmore, hread⟩
    rcases List.map_eq_singleton_iff.1 hmore with ⟨token, rfl, hpiece⟩
    rcases begins_iff.1 hbegins with ⟨r', -, limit, hrun⟩
    have hagrees := TokenStream.agrees_of_mem_ofText (source ++ ' ' :: op.symbol.toList)
    rw [hread] at hrun hagrees
    rcases exists_of_run_append_singleton hrun (hagrees token (by simp)) with
      ⟨r₀, hrun₀, hmoves, -⟩
    rw [← hpiece] at hop
    have houtside := hmoves.listPart_of_connective hop (hagrees token (by simp))
    rw [ReadsTo.insideList_iff ⟨h.1, limit, hrun₀⟩, houtside] at hinside
    cases hinside
  · intro houtside
    rw [h.insideList_iff] at houtside
    rcases r with ⟨outer, inner, awaiting⟩
    rcases hawaiting with ⟨operand, rfl⟩ | ⟨path, op, items, rfl⟩
    · refine h.begins_append_token hlexes ?_
      intro room token hpiece
      rw [← hpiece] at hop
      exact ⟨_, .connective hop⟩
    · exact absurd rfl houtside

end Query
end FieldFilter
