import FieldFilter.Interchange
import FieldFilter.Proofs.Lexing.Tiling
import FieldFilter.Proofs.RoundTrip

/-!
# Two rules for operands

Which operands a comparator takes is said by the constructors of filters, and again by what is
expected where an operand stands in a query.  Both say the same.

* `Comparator.awaiting` — what may come next behind a path and a comparator;
* `Reading.step_of_refused` — an operand that the comparator does not take is refused at its first
  token;
* `Query.parse_comparison` — the canonical text of a comparison against the rule of comparisons.
-/

namespace FieldFilter

open Text (byteLength)

variable {op : Comparator} {path : FieldPath} {right : Operand} {tokens : List Token}

/-! ## Operands that are refused -/

/-- What may come next behind a path and a comparator. -/
def Comparator.awaiting (op : Comparator) (path : FieldPath) : Awaiting :=
  if op.isMembership then .list path op else .value path op

/-- What an error names as expected where the operand of a comparator stands. -/
def Comparator.operandExpectation (op : Comparator) : Expectation :=
  if op.isMembership then .token .openParen else op.expectation

theorem Comparator.expectation_awaiting (nested : Bool) :
    (op.awaiting path).expectation nested = op.operandExpectation := by
  unfold awaiting operandExpectation
  split <;> rfl

namespace Reading

variable {limit leaked : Nat} {outer : List Level} {inner : Level} {token : Token}

theorem run_of_comparatorPieces (htokens : tokens.map Token.piece = op.pieces) :
    run limit leaked ⟨outer, inner, .path path⟩ tokens = .ok ⟨outer, inner, op.awaiting path⟩ := by
  cases hmembership : op.isMembership with
  | true =>
      rw [Comparator.awaiting, if_pos hmembership]
      exact run_of_membershipTokens (Comparator.membershipTokens_of_pieces hmembership htokens)
  | false =>
      rcases Comparator.exists_token_of_pieces hmembership htokens with ⟨token, rfl, hop⟩
      rw [Comparator.awaiting, if_neg (by simp [hmembership])]
      exact run_singleton_of_moves (.comparator hop)

/-- An operand that the comparator does not take is refused at its first token. -/
theorem step_of_refused (hrefused : op.accepts right = false)
    (hpieces : (token :: tokens).map Token.piece = right.pieces) :
    step limit leaked ⟨outer, inner, op.awaiting path⟩ token =
      .error (.unexpected op.operandExpectation token) := by
  have hreject : reject ⟨outer, inner, op.awaiting path⟩ token =
      .error (.unexpected op.operandExpectation token) := by
    rw [reject, expectation, Comparator.expectation_awaiting]
  rw [← hreject]
  cases right with
  | list values =>
      -- where a literal is expected, the parenthesis of a list is none
      have hpiece : token.piece = (.openParen, .text "(") := (List.cons.inj hpieces).1
      have hmembership : op.isMembership = false := hrefused
      have hvalue : token.value = .text "(" := congrArg Prod.snd hpiece
      simp [step, Comparator.awaiting, hmembership, Token.literal?, hvalue, TokenValue.literal?]
  | single value =>
      rcases Literal.token_of_piece (List.cons.inj hpieces).1 with ⟨hkind, hliteral⟩
      cases hmembership : op.isMembership with
      | true =>
          -- where a list is expected, a literal is no parenthesis
          have hopen : token.kind ≠ .openParen := by
            rw [hkind]
            intro hopen
            have hliteralKind := value.isLiteral_tokenKind
            rw [hopen] at hliteralKind
            cases hliteralKind
          simp [step, Comparator.awaiting, hmembership, hopen]
      | false =>
          -- what is expected of a literal is what the comparator takes
          have hadmits : op.expectation.admits value = false := by
            rw [← accepts_eq_admits hmembership, hrefused]
          simp [step, Comparator.awaiting, hmembership, hliteral, hadmits]

end Reading

/-! ## The text of a comparison -/

/-- The tokens of a text that is cut, and where those behind the cut stand. -/
theorem Lexes.exists_ofText_append {front text : List Char} {pieces pieces' : List Piece}
    (hfront : Lexes front pieces text) (htext : Lexes text pieces' []) :
    ∃ tokens tokens', TokenStream.ofText (front ++ text) = ⟨tokens ++ tokens', none⟩ ∧
      tokens.map Token.piece = pieces ∧ tokens'.map Token.piece = pieces' ∧
      ∀ token ∈ tokens', byteLength front ≤ token.span.start ∧
        token.span.start < token.span.stop ∧ token.span.stop ≤ byteLength (front ++ text) := by
  rcases hfront {} with ⟨tokens, hpieces, hread⟩
  rcases htext (Place.afterText {} front) with ⟨tokens', hpieces', hread'⟩
  have hbehind : TokenStream.read (Place.afterText {} front) text = ⟨tokens', none⟩ := by
    simpa [TokenStream.prepend] using hread'
  refine ⟨tokens, tokens', ?_, hpieces, hpieces', ?_⟩
  · rw [TokenStream.ofText, hread, hbehind, TokenStream.prepend]
  · intro token htoken
    refine TokenStream.span_of_mem_read ?_
    rwa [hbehind]

/-- The text of a comparison up to its operand. -/
def Comparator.front (op : Comparator) (path : FieldPath) : List Char :=
  path.text ++ ' ' :: (op.symbol.toList ++ [' '])

theorem Comparator.lexes_front (op : Comparator) (path : FieldPath) (text : List Char) :
    Lexes (op.front path) (path.pieces ++ (op.pieces ++ [])) text := by
  have hpath : EndsWord (' ' :: (op.symbol.toList ++ [' ']) ++ text) :=
    (IsBoundary.cons_space _).endsWord
  have hop : Lexes op.symbol.toList op.pieces ([' '] ++ text) := Lexes.comparator op (.cons_space _)
  exact (Lexes.path path hpath).append (hop.append Lexes.nil.space).space

namespace Query

open Reading

/-- The text of a comparison with an operand that the comparator does not take is refused at a token
of the operand. -/
theorem parse_of_refused (limit : Nat) (path : FieldPath)
    (hreads : ∀ value ∈ right.literals, value.ReadsBack) (hrefused : op.accepts right = false) :
    ∃ token, parse limit (op.front path ++ right.text) =
        .error (.unexpected op.operandExpectation token) ∧
      byteLength (op.front path) ≤ token.span.start ∧ token.span.start < token.span.stop ∧
      token.span.stop ≤ byteLength (op.front path ++ right.text) := by
  rcases (op.lexes_front path right.text).exists_ofText_append (Lexes.operand hreads .nil) with
    ⟨front, operand, hstream, hfront, hoperand, hspans⟩
  rcases List.map_eq_append_iff.1 hfront with ⟨names, words, rfl, hnames, hwords⟩
  rw [List.append_nil] at hwords
  have hrun : run limit 0 {} (names ++ words) = .ok ⟨[], {}, op.awaiting path⟩ := by
    rw [run_append (run_of_pathTokens (FieldPath.pathTokens_of_pieces hnames))]
    exact run_of_comparatorPieces hwords
  cases operand with
  | nil => cases right <;> cases hoperand
  | cons token more =>
      refine ⟨token, ?_, hspans token (by simp)⟩
      rw [parse_eq_ofTokens hstream, ofTokens_eq, run_append hrun, run_cons,
        step_of_refused hrefused hoperand]
      rfl

/-- The text of a comparison is read exactly if the comparator takes the operand, which is exactly
if the rule of comparisons holds, and both give the same tree.  Otherwise a token of the operand is
refused. -/
theorem parse_comparison (limit : Nat) (path : FieldPath) (op : Comparator) (right : Operand)
    (hfinite : (Expr.comparison path op right).Finite)
    (hfloats : (Expr.comparison path op right).FloatsReadBack) :
    let front := path.text ++ ' ' :: (op.symbol.toList ++ [' '])
    let text := front ++ right.text
    ((∃ e, parse limit text = .ok e) ↔ op.accepts right = true) ∧
      (op.accepts right = true ↔
        ∃ e, Expr.checkOperand (.comparison path op right) = .ok e) ∧
      (∀ e, parse limit text = .ok e ↔
        Expr.checkOperand (.comparison path op right) = .ok e) ∧
      (op.accepts right = false →
        Expr.checkOperand (.comparison path op right) = .error (Expr.refusalMessage op right) ∧
        ∃ token, parse limit text = .error (.unexpected op.operandExpectation token) ∧
          byteLength front ≤ token.span.start ∧ token.span.start < token.span.stop ∧
          token.span.stop ≤ byteLength text) := by
  intro front text
  have hreads := (Expr.comparison path op right).readsBack hfinite hfloats
  cases haccepts : op.accepts right with
  | true =>
      have hcheck := Expr.checkOperand_of_accepts path haccepts
      have hparse : parse limit text = .ok (.comparison path op right) := by
        have hwell : (Expr.comparison path op right).WellTyped := haccepts
        rcases ofText_text hwell hreads with ⟨tokens, hstream, -, hread⟩
        have htext : text = (Expr.comparison path op right).text := by
          simp [text, front, Expr.text_comparison]
        rw [htext, parse_eq_ofTokens hstream]
        exact hread limit (Nat.zero_le limit)
      simp [hcheck, hparse]
  | false =>
      have hcheck := Expr.checkOperand_of_refused path haccepts
      rcases parse_of_refused limit path hreads haccepts with ⟨token, hparse, hspan⟩
      have hparse : parse limit text = .error (.unexpected op.operandExpectation token) := hparse
      refine ⟨?_, ?_, ?_, fun _ => ⟨hcheck, token, hparse, hspan⟩⟩
      · simp [hparse]
      · simp [hcheck]
      · simp [hcheck, hparse]

/-- A list of a float and a boolean. -/
def mixedList : Operand :=
  .list ⟨.float 1.5, [.bool true]⟩

/-- The list is read behind `in`, and refused behind `<`. -/
theorem parse_comparison_mixedList :
    let price : FieldPath := ⟨⟨"price", by decide⟩, []⟩
    parse 0 "price in (1.5, True)".toList = .ok (.comparison price .memberOf mixedList) ∧
      Expr.checkOperand (.comparison price .less mixedList) =
        .error "operator '<' does not take a list operand" ∧
      ∃ token, parse 0 "price < (1.5, True)".toList = .error (.unexpected .orderedLiteral token) ∧
        8 ≤ token.span.start ∧ token.span.start < token.span.stop ∧ token.span.stop ≤ 19 := by
  intro price
  have hfinite : ∀ op : Comparator, (Expr.comparison price op mixedList).Finite := by
    intro op
    show ∀ value ∈ mixedList.literals, value.isFinite = true
    decide
  have hfloats : ∀ op : Comparator, (Expr.comparison price op mixedList).FloatsReadBack := by
    intro op value hmem _
    have hvalue : value = 1.5 := by
      simpa [mixedList, Expr.literals, Operand.literals, LiteralList.items] using hmem
    exact hvalue ▸ floatReadsBack_oneAndHalf
  have hmember : price.text ++ ' ' :: ("in".toList ++ [' ']) ++ mixedList.text =
      "price in (1.5, True)".toList := by decide +kernel
  have hless : price.text ++ ' ' :: ("<".toList ++ [' ']) ++ mixedList.text =
      "price < (1.5, True)".toList := by decide +kernel
  have hfront : byteLength (price.text ++ ' ' :: ("<".toList ++ [' '])) = 8 := by decide +kernel
  have hlength : byteLength "price < (1.5, True)".toList = 19 := by decide +kernel
  rcases parse_comparison 0 price .memberOf mixedList (hfinite _) (hfloats _) with
    ⟨-, -, hread, -⟩
  rcases parse_comparison 0 price .less mixedList (hfinite _) (hfloats _) with
    ⟨-, -, -, hrefused⟩
  rcases hrefused rfl with ⟨hcheck, token, hparse, hspan⟩
  rw [Comparator.symbol, hmember] at hread
  rw [Comparator.symbol, hless] at hparse hspan
  rw [hfront, hlength] at hspan
  exact ⟨(hread _).2 rfl, hcheck, token, hparse, hspan⟩

end Query
end FieldFilter
