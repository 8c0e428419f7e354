import FieldFilter.Proofs.Reading.Sessions
import Mathlib.Data.List.Forall2

/-!
# Tokens whose values do not fit their kinds

Some moves of the machine look at the kind of a token and others at its value, and tokens that no
text has may say one thing by the one and another by the other.  Every token stands for one that
agrees with itself and moves the machine in the same way.

* `Token.ReadsAs` — the token that a token is taken for, `Reading.Moves.exists_readsAs` — it makes
  the same move;
* `Carries` — what a filter has in common with any tokens that it is read from;
* `Derives.carries` — what the tokens of a derivation stand for, other tokens carry;
* `Query.ofTokens_ne_refusedOperand`, `Query.ofTokens_carries_or_fails` — what comes out of
  arbitrary tokens.
-/

namespace FieldFilter

/-! ## What a token is taken for -/

namespace Token

variable {token token' : Token} {value : Literal}

/-- A token that carries its printable form. -/
def asWord (token : Token) : Token :=
  { token with value := .text token.valueText }

/-- A token of the kind of a literal. -/
def asLiteral (token : Token) (value : Literal) : Token :=
  { token with kind := value.tokenKind }

/-- `token.ReadsAs token'`: where only the kind of `token` is looked at, or only its value, it is
taken for `token'`, whose value fits its kind. -/
inductive ReadsAs (token : Token) : Token → Prop where
  | word (hkind : token.kind.isLiteral = false)
      (hname : token.kind = .name → isSegment token.valueText = true) : ReadsAs token token.asWord
  | literal {value : Literal} (hvalue : token.literal? = some value) :
      ReadsAs token (token.asLiteral value)

namespace ReadsAs

theorem agrees (h : token.ReadsAs token') : token'.agrees = true := by
  cases h with
  | word hkind hname =>
      by_cases hkindName : token.kind = .name
      · simpa [Token.agrees, asWord, TokenKind.fits, hkindName] using hname hkindName
      · simpa [Token.agrees, asWord, TokenKind.fits, hkindName] using hkind
  | literal hvalue =>
      simp [Token.agrees, asLiteral, TokenKind.fits, value_eq_of_literal? hvalue]

theorem kind_eq (h : token.ReadsAs token') (hkind : token'.kind.isLiteral = false) :
    token.kind = token'.kind := by
  cases h with
  | word => rfl
  | literal hvalue => simp [asLiteral] at hkind

theorem valueText_eq (h : token.ReadsAs token') : token.valueText = token'.valueText := by
  cases h <;> rfl

theorem literal?_eq (h : token.ReadsAs token') (hvalue : token'.literal? = some value) :
    token.literal? = some value := by
  cases h with
  | word => cases hvalue
  | literal => exact hvalue

end ReadsAs

end Token

/-! ## The same moves -/

namespace Reading

variable {limit leaked room : Nat} {r r' : Reading} {token : Token} {tokens : List Token}

/-- A token of a kind that is neither for names nor for literals is taken for a word. -/
theorem readsAs_asWord {kind : TokenKind} (hkind : token.kind = kind)
    (hmark : (kind.isLiteral || kind == .name) = false) : token.ReadsAs token.asWord := by
  subst hkind
  rw [Bool.or_eq_false_iff, beq_eq_false_iff_ne] at hmark
  exact .word hmark.1 fun hname => absurd hname hmark.2

theorem readsAs_of_name {segment : Segment} (hkind : token.kind = .name)
    (hword : token.valueText = segment.word) : token.ReadsAs token.asWord :=
  .word (by rw [hkind]; rfl) fun _ => hword ▸ segment.valid

/-- A token makes the move of a token that agrees with itself. -/
theorem Moves.exists_readsAs (h : Moves room r token r') :
    ∃ token', token.ReadsAs token' ∧ Moves room r token' r' := by
  -- the moves that look at a kind keep it, those that look at a value keep the value
  cases h with
  | openGroup hkind hroom => exact ⟨_, readsAs_asWord hkind rfl, .openGroup hkind hroom⟩
  | firstSegment hkind hword =>
      exact ⟨_, readsAs_of_name hkind hword, .firstSegment hkind hword⟩
  | dot hkind => exact ⟨_, readsAs_asWord hkind rfl, .dot hkind⟩
  | nextSegment hkind hword =>
      exact ⟨_, readsAs_of_name hkind hword, .nextSegment hkind hword⟩
  | comparator hop =>
      have hword : token.ReadsAs token.asWord := by
        cases hkind : token.kind with
        | equals | notEquals | greater | greaterEqual | less | lessEqual | contains
        | notContains => exact readsAs_asWord hkind rfl
        | _ => simp [hkind, TokenKind.comparator?] at hop
      exact ⟨_, hword, .comparator hop⟩
  | memberOf hkind => exact ⟨_, readsAs_asWord hkind rfl, .memberOf hkind⟩
  | negation hkind => exact ⟨_, readsAs_asWord hkind rfl, .negation hkind⟩
  | notMemberOf hkind => exact ⟨_, readsAs_asWord hkind rfl, .notMemberOf hkind⟩
  | value hvalue hadmits haccepts => exact ⟨_, .literal hvalue, .value hvalue hadmits haccepts⟩
  | openList hkind => exact ⟨_, readsAs_asWord hkind rfl, .openList hkind⟩
  | firstItem hvalue => exact ⟨_, .literal hvalue, .firstItem hvalue⟩
  | comma hkind => exact ⟨_, readsAs_asWord hkind rfl, .comma hkind⟩
  | nextItem hvalue => exact ⟨_, .literal hvalue, .nextItem hvalue⟩
  | closeList hkind haccepts =>
      exact ⟨_, readsAs_asWord hkind rfl, .closeList hkind haccepts⟩
  | connective hop =>
      have hword : token.ReadsAs token.asWord := by
        cases hkind : token.kind with
        | andWord | orWord => exact readsAs_asWord hkind rfl
        | _ => simp [hkind, TokenKind.connective?] at hop
      exact ⟨_, hword, .connective hop⟩
  | closeGroup hkind => exact ⟨_, readsAs_asWord hkind rfl, .closeGroup hkind⟩

/-- What is read from tokens is read from tokens that agree with themselves. -/
theorem exists_run_readsAs (h : run limit leaked r tokens = .ok r') :
    ∃ tokens', List.Forall₂ Token.ReadsAs tokens tokens' ∧
      run limit leaked r tokens' = .ok r' := by
  induction tokens generalizing r with
  | nil => exact ⟨[], .nil, h⟩
  | cons token tokens ih =>
      rcases exists_of_run_cons h with ⟨r₁, hmoves, hrun⟩
      rcases hmoves.exists_readsAs with ⟨token', htoken, hmoves'⟩
      rcases ih hrun with ⟨tokens', htokens, hrun'⟩
      exact ⟨token' :: tokens', .cons htoken htokens, by rw [run_cons_of_moves hmoves', hrun']⟩

theorem agrees_of_readsAs {tokens' : List Token} (h : List.Forall₂ Token.ReadsAs tokens tokens') :
    ∀ token ∈ tokens', token.agrees = true := by
  induction h with
  | nil => simp
  | cons htoken _ ih => exact List.forall_mem_cons.2 ⟨htoken.agrees, ih⟩

/-- Every state of the machine stands for tokens that agree with themselves. -/
theorem exists_read_of_run (h : run limit 0 {} tokens = .ok r) :
    ∃ tokens', List.Forall₂ Token.ReadsAs tokens tokens' ∧ Read limit tokens' r := by
  rcases exists_run_readsAs h with ⟨tokens', htokens, hrun⟩
  exact ⟨tokens', htokens, Read.nil.of_run hrun (agrees_of_readsAs htokens)⟩

end Reading

/-! ## What a filter has in common with its tokens -/

/-- Literals with commas between them, whatever the kinds of the tokens that carry them. -/
inductive CarriesItems : List Token → LiteralList → Prop where
  | single {token : Token} {value : Literal} (hvalue : token.literal? = some value) :
      CarriesItems [token] (.single value)
  | push {tokens : List Token} {items : LiteralList} {comma token : Token} {value : Literal}
      (hitems : CarriesItems tokens items) (hcomma : comma.kind = .comma)
      (hvalue : token.literal? = some value) :
      CarriesItems (tokens ++ [comma, token]) (items.push value)

/-- A path with a comparator and a literal that it takes, or with `in` or `not in` and a list. -/
inductive CarriesComparison : List Token → Expr → Prop where
  | single {path : List Token} {field : FieldPath} {comparator token : Token} {op : Comparator}
      {value : Literal} (hpath : PathTokens path field)
      (hop : comparator.kind.comparator? = some op) (hvalue : token.literal? = some value)
      (haccepts : op.accepts (.single value) = true) :
      CarriesComparison (path ++ [comparator, token]) (.comparison field op (.single value))
  | list {path words items : List Token} {field : FieldPath} {openParen closeParen : Token}
      {op : Comparator} {values : LiteralList} (hpath : PathTokens path field)
      (hwords : MembershipTokens words op) (hopen : openParen.kind = .openParen)
      (hitems : CarriesItems items values) (hclose : closeParen.kind = .closeParen) :
      CarriesComparison (path ++ words ++ [openParen] ++ items ++ [closeParen])
        (.comparison field op (.list values))

/-- The tokens of comparisons with connectives and parentheses of groups between them.  A literal
may be carried by a token of any kind. -/
inductive Carries : List Token → Expr → Prop where
  | comparison {tokens : List Token} {e : Expr} (h : CarriesComparison tokens e) : Carries tokens e
  | group {tokens : List Token} {openParen closeParen : Token} {e : Expr}
      (hopen : openParen.kind = .openParen) (h : Carries tokens e)
      (hclose : closeParen.kind = .closeParen) :
      Carries ([openParen] ++ tokens ++ [closeParen]) e
  | logical {lefts rights : List Token} {word : Token} {left right : Expr} {op : Connective}
      (hleft : Carries lefts left) (hop : word.kind.connective? = some op)
      (hright : Carries rights right) :
      Carries (lefts ++ [word] ++ rights) (.logical left op right)

theorem Carries.wellTyped {tokens : List Token} {e : Expr} (h : Carries tokens e) :
    e.WellTyped := by
  induction h with
  | comparison h =>
      cases h with
      | single _ _ _ haccepts => exact haccepts
      | list _ hwords _ _ _ => exact Reading.MembershipTokens.accepts hwords _
  | group _ _ _ ih => exact ih
  | logical _ _ _ ihl ihr => exact ⟨ihl, ihr⟩

section Transfer

variable {d : Nat} {layer : Layer} {token' : Token} {tokens tokens' front back : List Token}
  {e : Expr} {path : FieldPath} {items : LiteralList} {op : Comparator}

/-- Tokens that are taken for two runs of tokens are two runs of tokens. -/
theorem exists_of_readsAs_append (h : List.Forall₂ Token.ReadsAs tokens (front ++ back)) :
    ∃ fronts backs, tokens = fronts ++ backs ∧ List.Forall₂ Token.ReadsAs fronts front ∧
      List.Forall₂ Token.ReadsAs backs back :=
  ⟨tokens.take front.length, tokens.drop front.length, (List.take_append_drop _ _).symm,
    List.forall₂_take_append _ _ _ h, List.forall₂_drop_append _ _ _ h⟩

theorem exists_of_readsAs_singleton (h : List.Forall₂ Token.ReadsAs tokens [token']) :
    ∃ token, tokens = [token] ∧ token.ReadsAs token' := by
  rcases List.forall₂_cons_right_iff.1 h with ⟨token, rest, htoken, hrest, rfl⟩
  rw [List.forall₂_nil_right_iff] at hrest
  exact ⟨token, by rw [hrest], htoken⟩

theorem exists_of_readsAs_pair {token'' : Token}
    (h : List.Forall₂ Token.ReadsAs tokens [token', token'']) :
    ∃ token₁ token₂, tokens = [token₁, token₂] ∧ token₁.ReadsAs token' ∧
      token₂.ReadsAs token'' := by
  rcases List.forall₂_cons_right_iff.1 h with ⟨token₁, rest, htoken₁, hrest, rfl⟩
  rcases exists_of_readsAs_singleton hrest with ⟨token₂, rfl, htoken₂⟩
  exact ⟨token₁, token₂, rfl, htoken₁, htoken₂⟩

theorem Token.ReadsAs.kind_of_eq {token : Token} {kind : TokenKind} (h : token.ReadsAs token')
    (hkind : token'.kind = kind) (hliteral : kind.isLiteral = false) : token.kind = kind :=
  (h.kind_eq (hkind ▸ hliteral)).trans hkind

theorem PathTokens.of_readsAs (h : PathTokens tokens' path)
    (hreads : List.Forall₂ Token.ReadsAs tokens tokens') : PathTokens tokens path := by
  induction h generalizing tokens with
  | single hkind hword =>
      rcases exists_of_readsAs_singleton hreads with ⟨name, rfl, hname⟩
      exact .single (hname.kind_of_eq hkind rfl) (hname.valueText_eq.trans hword)
  | push _ hdot hkind hword ih =>
      rcases exists_of_readsAs_append hreads with ⟨fronts, backs, rfl, hfronts, hbacks⟩
      rcases exists_of_readsAs_pair hbacks with ⟨dot, name, rfl, hreadsDot, hname⟩
      exact .push (ih hfronts) (hreadsDot.kind_of_eq hdot rfl) (hname.kind_of_eq hkind rfl)
        (hname.valueText_eq.trans hword)

theorem MembershipTokens.of_readsAs (h : MembershipTokens tokens' op)
    (hreads : List.Forall₂ Token.ReadsAs tokens tokens') : MembershipTokens tokens op := by
  cases h with
  | memberOf hword =>
      rcases exists_of_readsAs_singleton hreads with ⟨word, rfl, hreadsWord⟩
      exact .memberOf (hreadsWord.kind_of_eq hword rfl)
  | notMemberOf hnot hword =>
      rcases exists_of_readsAs_pair hreads with ⟨negation, word, rfl, hnegation, hreadsWord⟩
      exact .notMemberOf (hnegation.kind_of_eq hnot rfl) (hreadsWord.kind_of_eq hword rfl)

theorem ItemTokens.carries (h : ItemTokens tokens' items)
    (hreads : List.Forall₂ Token.ReadsAs tokens tokens') : CarriesItems tokens items := by
  induction h generalizing tokens with
  | single _ hvalue =>
      rcases exists_of_readsAs_singleton hreads with ⟨token, rfl, htoken⟩
      exact .single (htoken.literal?_eq hvalue)
  | push _ hcomma _ hvalue ih =>
      rcases exists_of_readsAs_append hreads with ⟨fronts, backs, rfl, hfronts, hbacks⟩
      rcases exists_of_readsAs_pair hbacks with ⟨comma, token, rfl, hreadsComma, htoken⟩
      exact .push (ih hfronts) (hreadsComma.kind_of_eq hcomma rfl) (htoken.literal?_eq hvalue)

theorem ComparisonTokens.carries (h : ComparisonTokens tokens' e)
    (hreads : List.Forall₂ Token.ReadsAs tokens tokens') : CarriesComparison tokens e := by
  cases h with
  | @single _ _ comparator' token' _ value hpath hop hkind hvalue =>
      rcases exists_of_readsAs_append hreads with ⟨path, backs, rfl, hreadsPath, hbacks⟩
      rcases exists_of_readsAs_pair hbacks with ⟨comparator, token, rfl, hcomparator, htoken⟩
      -- the kind that the comparator asks for is that of the value, so it takes the value
      have hkind' : token'.kind = value.tokenKind := Token.kind_eq_of_agrees htoken.agrees hvalue
      have hliteral : comparator'.kind.isLiteral = false := by
        cases hkind : comparator'.kind <;> simp_all [TokenKind.comparator?, TokenKind.isLiteral]
      refine .single (hpath.of_readsAs hreadsPath) ?_ (htoken.literal?_eq hvalue) ?_
      · rw [hcomparator.kind_eq hliteral, hop]
      · exact Comparator.accepts_single_iff.2 (hkind' ▸ hkind)
  | list hpath hwords hopen hitems hclose =>
      rcases exists_of_readsAs_append hreads with ⟨upToItems, closing, rfl, hupToItems, hclosing⟩
      rcases exists_of_readsAs_append hupToItems with ⟨upToOpen, items, rfl, hupToOpen, hreadsItems⟩
      rcases exists_of_readsAs_append hupToOpen with ⟨upToWords, opening, rfl, hupToWords, hopening⟩
      rcases exists_of_readsAs_append hupToWords with ⟨path, words, rfl, hreadsPath, hreadsWords⟩
      rcases exists_of_readsAs_singleton hclosing with ⟨closeParen, rfl, hcloseParen⟩
      rcases exists_of_readsAs_singleton hopening with ⟨openParen, rfl, hopenParen⟩
      exact .list (hpath.of_readsAs hreadsPath) (hwords.of_readsAs hreadsWords)
        (hopenParen.kind_of_eq hopen rfl) (hitems.carries hreadsItems)
        (hcloseParen.kind_of_eq hclose rfl)

/-- What the grammar derives from tokens is carried by those that are taken for them. -/
theorem Derives.carries (h : Derives d layer tokens' e)
    (hreads : List.Forall₂ Token.ReadsAs tokens tokens') : Carries tokens e := by
  induction h generalizing tokens with
  | comparison h => exact .comparison (h.carries hreads)
  | group hopen _ hclose ih =>
      rcases exists_of_readsAs_append hreads with ⟨fronts, closing, rfl, hfronts, hclosing⟩
      rcases exists_of_readsAs_append hfronts with ⟨opening, inside, rfl, hopening, hinside⟩
      rcases exists_of_readsAs_singleton hclosing with ⟨closeParen, rfl, hcloseParen⟩
      rcases exists_of_readsAs_singleton hopening with ⟨openParen, rfl, hopenParen⟩
      exact .group (hopenParen.kind_of_eq hopen rfl) (ih hinside)
        (hcloseParen.kind_of_eq hclose rfl)
  | ofPrimary _ ih | ofConjunction _ ih => exact ih hreads
  | and _ hword _ ihl ihr | or _ hword _ ihl ihr =>
      rcases exists_of_readsAs_append hreads with ⟨fronts, rights, rfl, hfronts, hrights⟩
      rcases exists_of_readsAs_append hfronts with ⟨lefts, joining, rfl, hlefts, hjoining⟩
      rcases exists_of_readsAs_singleton hjoining with ⟨word, rfl, hreadsWord⟩
      have hkind := hreadsWord.kind_of_eq hword rfl
      exact .logical (ihl hlefts) (by rw [hkind]; rfl) (ihr hrights)

end Transfer

/-! ## What comes out of arbitrary tokens -/

namespace Query

open Reading

variable {limit : Nat} {tokens : List Token} {e : Expr}

/-- A filter is carried by the tokens that it was read from, whatever their values. -/
theorem carries_of_ofTokens (h : ofTokens limit tokens = .ok e) : Carries tokens e := by
  rcases ofTokens_eq_ok_iff.1 h with ⟨r, hrun, hfinish⟩
  rcases exists_read_of_run hrun with ⟨tokens', hreads, hread⟩
  exact (hread.derives_of_finish hfinish).carries hreads

/-- What is wrong when no filter comes out: the tokens are no query, or one that the machine takes
for a segment may not stand in a path. -/
theorem failure_of_ofTokens {failure : Failure} (h : ofTokens limit tokens = .error failure) :
    (∃ error, failure = .grammatical error) ∨
      ∃ before token after r, tokens = before ++ token :: after ∧
        run limit 0 {} before = .ok r ∧ TakesBadName r token ∧
        failure = .broken (.badSegment token.valueText) := by
  rw [ofTokens_eq] at h
  cases hrun : run limit 0 {} tokens with
  | ok r =>
      rw [hrun] at h
      exact .inl ⟨_, Session.failure_of_finish h⟩
  | error failure' =>
      have hfailure : failure' = failure := by simpa [hrun, Except.bind] using h
      subst hfailure
      rcases exists_rejected hrun with ⟨before, token, after, r, htokens, hbefore, hstep⟩
      -- what is known of a refusal needs tokens that agree with themselves in front of it
      rcases exists_read_of_run hbefore with ⟨before', -, hread⟩
      rcases hread.failure_of_step hstep with ⟨expected, rfl⟩ | ⟨hname, rfl⟩
      · exact .inl ⟨_, rfl⟩
      · exact .inr ⟨before, token, after, r, htokens, hbefore, hname, rfl⟩

/-- No comparison is ever built with an operand that its comparator refuses. -/
theorem ofTokens_ne_refusedOperand (limit : Nat) (tokens : List Token) (op : Comparator)
    (right : Operand) : ofTokens limit tokens ≠ .error (.broken (.refusedOperand op right)) := by
  intro h
  rcases failure_of_ofTokens h with ⟨error, heq⟩ | ⟨_, token, _, _, -, -, -, heq⟩
  · cases heq
  · cases heq

/-- Tokens of which neither kinds nor values are to be trusted give a filter that keeps the rules
of the tree and is carried by all of them, or an error that names a token or the end.  The one rule
of the constructors that they can break is that of the names, and only by a name that is taken for a
segment: no comparator refuses the operand of its comparison. -/
theorem ofTokens_carries_or_fails (limit : Nat) (tokens : List Token) :
    (∀ op right, ofTokens limit tokens ≠ .error (.broken (.refusedOperand op right))) ∧
    ((∃ e, ofTokens limit tokens = .ok e ∧ e.WellTyped ∧ Carries tokens e ∧
        ∀ path ∈ e.paths, path.words ≠ [] ∧
          ∀ word ∈ path.words, isIdentifier word = true ∧ isReserved word = false) ∨
      (∃ error, ofTokens limit tokens = .error (.grammatical error)) ∨
      ∃ before token after r, tokens = before ++ token :: after ∧
        run limit 0 {} before = .ok r ∧
        (r.awaiting = .operand ∨ ∃ path, r.awaiting = .segment path) ∧
        token.kind = .name ∧
        ¬ (isIdentifier token.valueText = true ∧ isReserved token.valueText = false) ∧
        ofTokens limit tokens = .error (.broken (.badSegment token.valueText))) := by
  refine ⟨ofTokens_ne_refusedOperand limit tokens, ?_⟩
  cases h : ofTokens limit tokens with
  | ok e =>
      have hcarries := carries_of_ofTokens h
      refine .inl ⟨e, rfl, hcarries.wellTyped, hcarries, fun path _ => ⟨nofun, ?_⟩⟩
      intro word hword
      simpa [isSegment] using FieldPath.isSegment_of_mem_words hword
  | error failure =>
      right
      rcases failure_of_ofTokens h with ⟨error, rfl⟩ | ⟨before, token, after, r, htokens, hrun,
        hname, rfl⟩
      · exact .inl ⟨error, rfl⟩
      · refine .inr ⟨before, token, after, r, htokens, hrun, hname.awaits, hname.kind_eq, ?_, rfl⟩
        simpa [isSegment] using hname.word_eq

/-- A comma that carries a literal is an operand. -/
example :
    ofTokens 0 [freshName, freshMark .equals, .fresh .comma (.literal (.int 1))] =
      .ok (.comparison (.single freshSegment) .equal (.single (.int 1))) := by
  rfl

/-- A name that carries a number is no segment. -/
example :
    ofTokens 0 [.fresh .name (.literal (.int 5)), freshMark .equals] =
      .error (.broken (.badSegment "5")) := by
  decide +kernel

end Query
end FieldFilter
