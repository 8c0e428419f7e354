import FieldFilter.Proofs.Completion.Layouts
import FieldFilter.Proofs.Composition

/-!
# Completing a comparison behind its comparator

* `Separates`, `Comparator.IsSpelling` — the texts between words, and the spellings of a comparator;
* `Completion.exists_comparison_tokens` — the tokens of a comparison up to its operand;
* `Completion.scopeAfter_comparator` — what is reported behind them;
* `Completion.atOffset_comparator` — behind a path and a comparator a value is reported with the
  path, but for `not in`.
-/

namespace FieldFilter

open Text (byteLength)
open TokenStream (isSeparator)

/-! ## Spellings -/

/-- A text that stands between words: separators, and at least one. -/
structure Separates (gap : List Char) : Prop where
  ne_nil : gap ≠ []
  isSeparator : ∀ c ∈ gap, isSeparator c = true

/-- How a comparator may be spelled: by its symbol, but the words `not` and `in` may stand apart. -/
def Comparator.IsSpelling (op : Comparator) (text : List Char) : Prop :=
  match op with
  | .notMemberOf => ∃ gap, Separates gap ∧ text = "not".toList ++ gap ++ "in".toList
  | op => text = op.symbol.toList

section
variable {gap text rest : List Char} {pieces : List Piece} {op : Comparator}

theorem Separates.singleton {c : Char} (h : TokenStream.isSeparator c = true) : Separates [c] :=
  ⟨by simp, by simpa using h⟩

theorem Separates.startsApart (h : Separates gap) (rest : List Char) :
    StartsApart (gap ++ rest) := by
  cases gap with
  | nil => exact absurd rfl h.ne_nil
  | cons c gap =>
      have hends := endsTokens_of_isSeparator (h.isSeparator c (by simp))
      exact .cons (continuesToken_eq_false_of_endsTokens hends) _

/-- What reads as pieces on its own does so in front of what starts apart. -/
theorem Lexes.of_nil (h : Lexes text pieces []) (hrest : StartsApart rest) :
    Lexes text pieces rest := by
  rcases h.ofText with ⟨herror, hpieces⟩
  exact hpieces ▸ Lexes.of_read herror hrest

theorem Comparator.IsSpelling.lexes (h : op.IsSpelling text) (hrest : StartsApart rest) :
    Lexes text op.pieces rest := by
  have hsymbol : Lexes op.symbol.toList op.pieces rest :=
    (Lexes.comparator op IsBoundary.nil).of_nil hrest
  cases op with
  | notMemberOf =>
      rcases h with ⟨gap, hgap, rfl⟩
      have hin : Lexes "in".toList [(.inWord, .text "in")] rest :=
        (Lexes.word (by decide) IsBoundary.nil.endsWord).of_nil hrest
      have hnot : Lexes "not".toList [(.notWord, .text "not")] (gap ++ ("in".toList ++ rest)) :=
        (Lexes.word (by decide) IsBoundary.nil.endsWord).of_nil (hgap.startsApart _)
      rw [List.append_assoc]
      rw [← List.append_assoc] at hnot
      exact hnot.append ((Lexes.separators hgap.isSeparator).append hin)
  | _ =>
      obtain rfl := h
      exact hsymbol

end

namespace Completion

variable {u gap gap' spelling : List Char} {path : FieldPath} {op : Comparator}
  {last name : Token} {rest names words : List Token}

/-! ## Tokens -/

/-- Behind a text that ends where tokens are over, a comparison up to its operand has the tokens of
its path, without a gap, and of its comparator. -/
theorem exists_comparison_tokens (herror : (TokenStream.ofText u).error = none)
    (hends : ∀ c ∈ u.getLast?, endsTokens c = true) (path : FieldPath) (hgap : Separates gap)
    (hgap' : Separates gap') (hop : op.IsSpelling spelling) :
    ∃ names words, TokenStream.ofText (u ++ path.text ++ gap ++ spelling ++ gap') =
        ⟨(TokenStream.ofText u).tokens ++ names ++ words, none⟩ ∧
      PathTokens names path ∧ names.IsChain Token.Adjoins ∧
      words.map Token.piece = op.pieces := by
  have hpath : Lexes path.text path.pieces [] := Lexes.path path IsBoundary.nil.endsWord
  rcases hpath.exists_gapless path.isSeparator_of_mem_text u with
    ⟨names, hnames, hpieces, hgapless⟩
  have hspelling : Lexes spelling op.pieces (gap' ++ []) := hop.lexes (hgap'.startsApart [])
  have hbehind : Lexes (gap ++ (spelling ++ gap')) op.pieces [] := by
    have hlexes := hspelling.append (Lexes.separators hgap'.isSeparator)
    rw [List.append_nil] at hlexes
    exact (Lexes.separators hgap.isSeparator).append hlexes
  rcases hbehind ((Place.afterText {} u).afterText path.text) with ⟨words, hwords, hread⟩
  refine ⟨names, words, ?_, FieldPath.pathTokens_of_pieces hpieces,
    (Span.gapless_map_iff.1 hgapless).1, hwords⟩
  -- the text in front, the path and the rest are read one after the other
  have hnames' : (TokenStream.read (Place.afterText {} u) path.text).error = none := by rw [hnames]
  have hcomparison := TokenStream.read_append hnames' (hgap.startsApart (spelling ++ gap'))
  have hwhole := TokenStream.read_append_of_endsTokens herror hends
    (path.text ++ (gap ++ (spelling ++ gap')))
  rw [List.append_nil] at hread
  have htext : u ++ path.text ++ gap ++ spelling ++ gap' =
      u ++ (path.text ++ (gap ++ (spelling ++ gap'))) := by simp
  rw [htext, TokenStream.ofText, hwhole, hcomparison, hread, hnames]
  simp [TokenStream.prepend, TokenStream.ofText]

/-! ## What is reported -/

/-- Behind a name and a comparator of one token, and a blank, a value is reported. -/
theorem scopeAfter_value (hlast : last.kind.isComparator = true ∨ last.kind = .inWord)
    (hname : name.kind = .name) (typed : List Char) :
    scopeAfter (last :: name :: rest) true typed = (some .value, pathEnding (name :: rest)) := by
  have hconnective : last.kind.isConnective = false := by
    cases hkind : last.kind <;> simp_all [TokenKind.isComparator, TokenKind.comparator?,
      TokenKind.isConnective, TokenKind.connective?]
  have hopen : last.kind ≠ .openParen := by
    cases hkind : last.kind <;> simp_all [TokenKind.isComparator, TokenKind.comparator?]
  rw [scopeAfter_of_gap]
  simp [scopeAfter, hconnective, hopen, hname, hlast]

/-- Behind a comparator a value is reported, but behind two words nothing is. -/
theorem scopeAfter_comparator (hwords : words.map Token.piece = op.pieces)
    (hname : name.kind = .name) (typed : List Char) :
    scopeAfter (words.reverse ++ name :: rest) true typed =
      if op = .notMemberOf then (none, none) else (some .value, pathEnding (name :: rest)) := by
  cases op with
  | notMemberOf =>
      -- the token before the last one is `not` and no name
      rcases List.map_eq_cons_iff.1 hwords with ⟨notWord, more, rfl, hnot, hmore⟩
      rcases List.map_eq_singleton_iff.1 hmore with ⟨inWord, rfl, hin⟩
      have hnotKind : notWord.kind = .notWord := congrArg Prod.fst hnot
      have hinKind : inWord.kind = .inWord := congrArg Prod.fst hin
      rw [scopeAfter_of_gap]
      simp [scopeAfter, hnotKind, hinKind, TokenKind.isConnective, TokenKind.connective?,
        TokenKind.isComparator, TokenKind.comparator?, TokenKind.isLiteral]
  | memberOf =>
      rcases List.map_eq_singleton_iff.1 hwords with ⟨inWord, rfl, hin⟩
      exact scopeAfter_value (.inr (congrArg Prod.fst hin)) hname typed
  | _ =>
      rcases Comparator.exists_token_of_pieces rfl hwords with ⟨mark, rfl, hmark⟩
      exact scopeAfter_value (.inl (by simp [TokenKind.isComparator, hmark])) hname typed

/-- Where a comparison may start, a path and a comparator with blanks behind each: a value is
reported with the path, but behind `not in` nothing is. -/
theorem atOffset_comparator (source : List Char) (cursor : Nat) (path : FieldPath)
    (op : Comparator) (hoperand : Query.AwaitsOperand u)
    (hends : ∀ c ∈ u.getLast?, endsTokens c = true) (hgap : Separates gap)
    (hspelling : op.IsSpelling spelling) (hgap' : Separates gap')
    (hbefore : Text.takeBytes cursor source = u ++ path.text ++ gap ++ spelling ++ gap') :
    atOffset source cursor =
      if op = .notMemberOf then ⟨[], none, none⟩ else ⟨[], some .value, some path⟩ := by
  have herror : (TokenStream.ofText u).error = none := by
    rcases hoperand with ⟨r, hreads, -⟩
    exact hreads.1
  rcases exists_comparison_tokens herror hends path hgap hgap' hspelling with
    ⟨names, words, hread, hnames, hchain, hwords⟩
  have hagrees := TokenStream.agrees_of_mem_ofText (u ++ path.text ++ gap ++ spelling ++ gap')
  rw [hread] at hagrees
  -- nothing in front of the path can belong to it
  have hstops : ∀ token ∈ (TokenStream.ofText u).tokens.getLast?,
      (token.kind ≠ .name ∧ token.kind ≠ .dot) ∨
        ∃ first ∈ names.head?, ¬ token.Adjoins first := by
    intro token htoken
    refine .inl ?_
    rcases hoperand.kind_of_getLast? token htoken with hkind | hkind
    · constructor <;> intro hname <;> rw [hname] at hkind <;> cases hkind
    · simp [hkind]
  have hrun := pathRun_append hnames hchain hstops fun token htoken =>
    hagrees token (List.mem_append_left _ htoken)
  rcases hnames.exists_last with ⟨before, name, rfl, hname⟩
  have hreverse : ((TokenStream.ofText u).tokens ++ (before ++ [name])).reverse =
      name :: ((TokenStream.ofText u).tokens ++ before).reverse := by simp
  rw [hreverse] at hrun
  have hending : pathEnding (name :: ((TokenStream.ofText u).tokens ++ before).reverse) =
      some path := pathEnding_eq hname (hrun ▸ hnames)
  have hlast := exists_separator_append (u ++ path.text ++ gap ++ spelling) hgap'.ne_nil
    hgap'.isSeparator
  rw [atOffset, hbefore, ofText_of_separator (by rw [hread]) hlast, hread, List.reverse_append,
    hreverse, scopeAfter_comparator hwords hname, hending]
  split <;> rfl

/-- In a group, behind a path and a comparator with a tab and a line break around it. -/
theorem atOffset_comparator_inGroup :
    let source := "(a.b\t>=\n1)".toList
    let path : FieldPath := ⟨⟨"a", by decide⟩, [⟨"b", by decide⟩]⟩
    Query.AwaitsOperand "(".toList ∧ Comparator.greaterEqual.IsSpelling ">=".toList ∧
      Text.takeBytes 8 source =
        "(".toList ++ path.text ++ "\t".toList ++ ">=".toList ++ "\n".toList ∧
      atOffset source 8 = ⟨[], some .value, some path⟩ := by
  intro source path
  have hreads : Query.ReadsTo "(".toList ⟨[{}], {}, .operand⟩ :=
    ⟨by decide +kernel, 1, by decide +kernel⟩
  have hoperand : Query.AwaitsOperand "(".toList := ⟨_, hreads, rfl⟩
  have hends : ∀ c ∈ "(".toList.getLast?, endsTokens c = true := by
    rintro c ⟨⟩
    rfl
  have htab : Separates "\t".toList := .singleton rfl
  have hbreak : Separates "\n".toList := .singleton rfl
  have hspelling : Comparator.greaterEqual.IsSpelling ">=".toList := rfl
  have hbefore : Text.takeBytes 8 source =
      "(".toList ++ path.text ++ "\t".toList ++ ">=".toList ++ "\n".toList := by decide +kernel
  exact ⟨hoperand, hspelling, hbefore,
    atOffset_comparator source 8 path .greaterEqual hoperand hends htab hspelling hbreak hbefore⟩

/-- A comparison with `not in` that has no list yet. -/
def notInWithoutList : List Char :=
  "a not in ".toList

/-- Behind `not in` nothing is reported, though a list is all that can come next. -/
theorem atOffset_notInWithoutList :
    let path : FieldPath := .single ⟨"a", by decide⟩
    Query.AwaitsOperand [] ∧ Comparator.notMemberOf.IsSpelling "not in".toList ∧
      Text.takeBytes 9 notInWithoutList =
        [] ++ path.text ++ " ".toList ++ "not in".toList ++ " ".toList ∧
      Query.parse 0 (notInWithoutList ++ "(1)".toList) =
        .ok (.comparison path .notMemberOf (.list ⟨.int 1, []⟩)) ∧
      atOffset notInWithoutList 9 = ⟨[], none, none⟩ ∧
      atOffset notInWithoutList 9 ≠ ⟨[], some .value, some path⟩ := by
  intro path
  have hgap : Separates " ".toList := .singleton rfl
  have hspelling : Comparator.notMemberOf.IsSpelling "not in".toList := ⟨" ".toList, hgap, rfl⟩
  exact ⟨Query.awaitsOperand_nil, hspelling, by decide +kernel, by decide +kernel,
    by decide +kernel, by decide +kernel⟩

end Completion
end FieldFilter
