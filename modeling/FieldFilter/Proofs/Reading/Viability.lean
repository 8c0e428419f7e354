import FieldFilter.Proofs.Reading.Completeness
import Mathlib.Order.Bounds.Defs
import Mathlib.Data.Set.Basic

/-!
# Errors are found at the earliest token

* `Reading.Read.completable` — more tokens can make a query of all that has been read so far;
* `Reading.Read.failure_of_step`, `Reading.Read.unexpected_of_step` — the only reason to refuse a
  token is that it cannot stand where it does, or that it is a name that no path may have;
* `Reading.viable_iff_exists_run` — the machine goes on exactly as long as a query is possible;
* `Query.ofTokens_reports_earliest` — what is read, what ends too early, and which token is named.
-/

namespace FieldFilter
namespace Reading

variable {limit leaked room : Nat} {r r' : Reading} {tokens : List Token} {token : Token}

/-! ## Every state can be completed -/

/-- More tokens lead from a state to the end of a query. -/
def Completable (limit leaked : Nat) (r : Reading) : Prop :=
  ∃ more, (∀ token ∈ more, token.agrees = true) ∧
    ∃ r' e, run limit leaked r more = .ok r' ∧ r'.finish = .ok e

theorem Completable.of_moves (hmoves : Moves (limit - leaked) r token r')
    (hagrees : token.agrees = true) (h : Completable limit leaked r') :
    Completable limit leaked r := by
  rcases h with ⟨more, hmore, r₁, e, hrun, hfinish⟩
  refine ⟨token :: more, ?_, r₁, e, ?_, hfinish⟩
  · simpa [hagrees] using hmore
  · rw [run_cons_of_moves hmoves, hrun]

/-- The mark of a kind. -/
def freshMark (kind : TokenKind) : Token :=
  .fresh kind (.text kind.describe)

/-- A literal that every comparator takes. -/
def freshLiteral : Token :=
  .fresh .string (.literal (.string ""))

def freshSegment : Segment :=
  ⟨"x", by decide⟩

def freshName : Token :=
  .fresh .name (.text freshSegment.word)

variable {outer : List Level} {inner : Level} {path : FieldPath} {op : Comparator}

/-- After an operand the open groups can be closed, one after the other. -/
theorem completable_connective (outer : List Level) (inner : Level) (operand : Expr) :
    Completable limit leaked ⟨outer, inner, .connective operand⟩ := by
  induction outer generalizing inner operand with
  | nil => exact ⟨[], by simp, _, _, rfl, rfl⟩
  | cons level outer ih =>
      have hkind : (freshMark .closeParen).kind = .closeParen := rfl
      exact .of_moves (.closeGroup hkind) rfl (ih level (inner.close operand))

/-- Every comparator with a single literal takes strings. -/
theorem accepts_string {word : TokenKind} (hop : word.comparator? = some op) (s : String) :
    op.accepts (.single (.string s)) = true := by
  cases word <;> cases hop <;> rfl

theorem completable_value {word : TokenKind} (hop : word.comparator? = some op) :
    Completable limit leaked ⟨outer, inner, .value path op⟩ := by
  have haccepts := accepts_string hop ""
  have hvalue : freshLiteral.literal? = some (.string "") := rfl
  exact .of_moves (.value hvalue (admits_of_accepts haccepts) haccepts) rfl
    (completable_connective _ _ _)

theorem completable_path : Completable limit leaked ⟨outer, inner, .path path⟩ := by
  have hop : (freshMark .equals).kind.comparator? = some .equal := rfl
  exact .of_moves (.comparator hop) rfl (completable_value hop)

theorem completable_separator {items : LiteralList} (haccepts : op.accepts (.list items) = true) :
    Completable limit leaked ⟨outer, inner, .separator path op items⟩ := by
  have hkind : (freshMark .closeParen).kind = .closeParen := rfl
  exact .of_moves (.closeList hkind haccepts) rfl (completable_connective _ _ _)

theorem completable_firstItem (hop : op.isMembership = true) :
    Completable limit leaked ⟨outer, inner, .firstItem path op⟩ := by
  have hvalue : freshLiteral.literal? = some (.string "") := rfl
  exact .of_moves (.firstItem hvalue) rfl (completable_separator hop)

theorem completable_list (hop : op.isMembership = true) :
    Completable limit leaked ⟨outer, inner, .list path op⟩ := by
  have hkind : (freshMark .openParen).kind = .openParen := rfl
  exact .of_moves (.openList hkind) rfl (completable_firstItem hop)

theorem MembershipTokens.isMembership (h : MembershipTokens tokens op) :
    op.isMembership = true := by
  cases h <;> rfl

/-- More tokens can make a query of all that has been read. -/
theorem Read.completable (hread : Read room tokens r) : Completable limit leaked r := by
  rcases r with ⟨outer, inner, awaiting⟩
  rcases hread.exists_split with ⟨before, waiting, pending, -, -, -, hpending⟩
  have hname : freshName.valueText = freshSegment.word := rfl
  cases hpending with
  | operand => exact .of_moves (.firstSegment rfl hname) rfl completable_path
  | path hpath => exact completable_path
  | segment hpath hdot => exact .of_moves (.nextSegment rfl hname) rfl completable_path
  | inWord hpath hword =>
      have hkind : (freshMark .inWord).kind = .inWord := rfl
      exact .of_moves (.notMemberOf hkind) rfl (completable_list rfl)
  | value hpath hop => exact completable_value hop
  | list hpath hwords => exact completable_list (MembershipTokens.isMembership hwords)
  | firstItem hpath hwords hopen =>
      exact completable_firstItem (MembershipTokens.isMembership hwords)
  | separator hpath hwords hopen hitems =>
      exact completable_separator (MembershipTokens.accepts hwords _)
  | nextItem hpath hwords hopen hitems hcomma =>
      have hvalue : freshLiteral.literal? = some (.string "") := rfl
      exact .of_moves (.nextItem hvalue) rfl
        (completable_separator (MembershipTokens.accepts hwords _))
  | connective he => exact completable_connective _ _ _

/-! ## What is refused -/

theorem accepts_of_admits {word : TokenKind} (hop : word.comparator? = some op) {value : Literal}
    (h : op.expectation.admits value = true) : op.accepts (.single value) = true := by
  have hmembership : op.isMembership = false := by cases word <;> cases hop <;> rfl
  rw [accepts_eq_admits hmembership, h]

theorem segmentOf_of_isSegment (h : isSegment token.valueText = true) :
    segmentOf token = .ok ⟨token.valueText, h⟩ :=
  segmentOf_eq_ok_iff.2 rfl

theorem segmentOf_of_not_isSegment (h : isSegment token.valueText = false) :
    segmentOf token = .error (.broken (.badSegment token.valueText)) := by
  simp [segmentOf, Segment.ofWord?, h]

/-- The machine takes a name for a segment, and its text may not stand in a path. -/
structure TakesBadName (r : Reading) (token : Token) : Prop where
  awaits : r.awaiting = .operand ∨ ∃ path, r.awaiting = .segment path
  kind_eq : token.kind = .name
  word_eq : isSegment token.valueText = false

/-- A token is refused because it cannot stand where it does, whatever its value; the one rule of
the constructors that it can break is that of the names. -/
theorem Read.failure_of_step {failure : Failure} (hread : Read room tokens r)
    (h : r.step limit leaked token = .error failure) :
    (∃ expected, failure = .unexpected expected token) ∨
      TakesBadName r token ∧ failure = .broken (.badSegment token.valueText) := by
  rcases r with ⟨outer, inner, awaiting⟩
  rcases hread.exists_split with ⟨before, waiting, pending, -, -, -, hpending⟩
  -- what is pending makes the operand of every comparison one that its comparator takes
  cases hpending with
  | operand =>
      cases hkind : token.kind with
      | openParen =>
          left
          by_cases hroom : leaked + outer.length < limit
          · simp [step, hkind, depth, hroom] at h
          · exact ⟨.nesting limit, by simpa [step, hkind, depth, hroom] using h.symm⟩
      | name =>
          right
          cases hsegment : isSegment token.valueText with
          | true =>
              simp [step, hkind, segmentOf_of_isSegment hsegment, bind, Except.bind, pure,
                Except.pure] at h
          | false =>
              refine ⟨⟨.inl rfl, hkind, hsegment⟩, ?_⟩
              simpa [step, hkind, segmentOf_of_not_isSegment hsegment, bind, Except.bind]
                using h.symm
      | _ => exact .inl ⟨_, by simpa [step, hkind, reject] using h.symm⟩
  | path hpath =>
      cases hkind : token.kind with
      | dot | inWord | notWord => simp [step, hkind] at h
      | equals | notEquals | greater | greaterEqual | less | lessEqual | contains | notContains =>
          simp [step, hkind, TokenKind.comparator?] at h
      | _ => exact .inl ⟨_, by simpa [step, hkind, TokenKind.comparator?, reject] using h.symm⟩
  | segment hpath hdot =>
      by_cases hkind : token.kind = .name
      · right
        cases hsegment : isSegment token.valueText with
        | true =>
            simp [step, hkind, segmentOf_of_isSegment hsegment, bind, Except.bind, pure,
              Except.pure] at h
        | false =>
            refine ⟨⟨.inr ⟨_, rfl⟩, hkind, hsegment⟩, ?_⟩
            simpa [step, hkind, segmentOf_of_not_isSegment hsegment, bind, Except.bind]
              using h.symm
      · exact .inl ⟨_, by simpa [step, hkind, reject] using h.symm⟩
  | inWord hpath hword =>
      by_cases hkind : token.kind = .inWord
      · simp [step, hkind] at h
      · exact .inl ⟨_, by simpa [step, hkind, reject] using h.symm⟩
  | @value _ _ _ op hpath hop =>
      cases hvalue : token.literal? with
      | none => exact .inl ⟨_, by simpa [step, hvalue, reject] using h.symm⟩
      | some value =>
          by_cases hadmits : op.expectation.admits value = true
          · have haccepts := accepts_of_admits hop hadmits
            simp [step, hvalue, hadmits, compared, Expr.compare, haccepts] at h
          · exact .inl ⟨_, by simpa [step, hvalue, hadmits, reject] using h.symm⟩
  | list hpath hwords =>
      by_cases hkind : token.kind = .openParen
      · simp [step, hkind] at h
      · exact .inl ⟨_, by simpa [step, hkind, reject] using h.symm⟩
  | firstItem hpath hwords hopen =>
      cases hvalue : token.literal? with
      | none => exact .inl ⟨_, by simpa [step, hvalue, reject] using h.symm⟩
      | some value => simp [step, hvalue] at h
  | separator hpath hwords hopen hitems =>
      cases hkind : token.kind with
      | comma => simp [step, hkind] at h
      | closeParen =>
          have haccepts := MembershipTokens.accepts hwords
          simp [step, hkind, compared, Expr.compare, haccepts] at h
      | _ => exact .inl ⟨_, by simpa [step, hkind, reject] using h.symm⟩
  | nextItem hpath hwords hopen hitems hcomma =>
      cases hvalue : token.literal? with
      | none => exact .inl ⟨_, by simpa [step, hvalue, reject] using h.symm⟩
      | some value => simp [step, hvalue] at h
  | connective he =>
      left
      cases hop : token.kind.connective? with
      | some op => simp [step, joined, hop] at h
      | none =>
          by_cases hkind : token.kind = .closeParen
          · cases outer with
            | nil =>
                exact ⟨_, by
                  simpa [step, joined, hkind, TokenKind.connective?, reject] using h.symm⟩
            | cons level outer => simp [step, joined, hkind, TokenKind.connective?] at h
          · exact ⟨_, by simpa [step, joined, hop, hkind, reject] using h.symm⟩

/-- A token whose value agrees with its kind is refused only because it cannot stand where it
does: no rule of the constructors is ever broken. -/
theorem Read.unexpected_of_step {failure : Failure} (hread : Read room tokens r)
    (hagrees : token.agrees = true) (h : r.step limit leaked token = .error failure) :
    ∃ expected, failure = .unexpected expected token := by
  rcases hread.failure_of_step h with hexpected | ⟨hname, -⟩
  · exact hexpected
  · have hsegment := Token.isSegment_of_agrees hagrees hname.kind_eq
    simp [hname.word_eq] at hsegment

/-- A run that fails does so at one token, which the state before it refuses. -/
theorem exists_rejected {failure : Failure} (h : run limit leaked r tokens = .error failure) :
    ∃ before token after r', tokens = before ++ token :: after ∧
      run limit leaked r before = .ok r' ∧ r'.step limit leaked token = .error failure := by
  induction tokens generalizing r with
  | nil => simp at h
  | cons token tokens ih =>
      rw [run_cons] at h
      cases hstep : r.step limit leaked token with
      | error failure' =>
          have hfailure : failure' = failure := by simpa [hstep, Except.bind] using h
          exact ⟨[], token, tokens, r, rfl, rfl, hfailure ▸ hstep⟩
      | ok r₁ =>
          rw [hstep] at h
          rcases ih h with ⟨before, token', after, r', rfl, hrun, hrejected⟩
          refine ⟨token :: before, token', after, r', rfl, ?_, hrejected⟩
          rw [run_cons, hstep]
          exact hrun

/-! ## The machine goes on as long as a query is possible -/

theorem viable_iff_exists_run (hagrees : ∀ token ∈ tokens, token.agrees = true) :
    Viable limit tokens ↔ ∃ r, run limit 0 {} tokens = .ok r := by
  constructor
  · rintro ⟨more, hall, e, he⟩
    rcases exists_finish_of_derives he hall with ⟨r, hrun, -⟩
    exact exists_run_of_append hrun
  · rintro ⟨r, hrun⟩
    have hread : Read (limit - 0) ([] ++ tokens) r := Read.nil.of_run hrun hagrees
    rcases hread.completable with ⟨more, hmore, r', e, hrun', hfinish⟩
    have hall : ∀ token ∈ tokens ++ more, token.agrees = true := by
      simpa [or_imp, forall_and] using ⟨hagrees, hmore⟩
    refine ⟨more, hall, e, derives_of_ofTokens hall (ofTokens_eq_ok_iff.2 ⟨r', ?_, hfinish⟩)⟩
    rw [run_append hrun, hrun']

theorem inLanguage_iff_exists_ofTokens (hagrees : ∀ token ∈ tokens, token.agrees = true) :
    InLanguage limit tokens ↔ ∃ e, Query.ofTokens limit tokens = .ok e := by
  constructor
  · rintro ⟨-, e, he⟩
    exact ⟨e, ofTokens_of_derives he hagrees⟩
  · rintro ⟨e, he⟩
    exact ⟨hagrees, e, derives_of_ofTokens hagrees he⟩

/-- The first token that no query has after what precedes it. -/
theorem isLeast_not_viable {before after : List Token} (hbefore : Viable limit before)
    (htoken : ¬ Viable limit (before ++ [token])) :
    IsLeast {i | ¬ Viable limit ((before ++ token :: after).take (i + 1))} before.length := by
  constructor
  · rw [Set.mem_ofPred_eq, List.take_length_add_append]
    exact htoken
  · intro j hj
    by_contra hlt
    -- a part of what precedes the token is as viable as all of it
    have hprefix : (before ++ token :: after).take (j + 1) = before.take (j + 1) :=
      List.take_append_of_le_length (by omega)
    rw [Set.mem_ofPred_eq, hprefix] at hj
    have hsplit : Viable limit (before.take (j + 1) ++ before.drop (j + 1)) := by
      rwa [List.take_append_drop]
    exact hj hsplit.of_append

/-! ## Outcomes -/

/-- What reading a token sequence can come to: a filter, an end that comes too early, or a token
that no query has after what precedes it. -/
inductive Outcome (limit : Nat) (tokens : List Token) : Prop where
  | accepted (e : Expr) (hread : Query.ofTokens limit tokens = .ok e)
      (hin : InLanguage limit tokens)
  | ended (expected : Expectation)
      (hread : Query.ofTokens limit tokens = .error (.grammatical (.unexpectedEnd expected)))
      (hin : ¬ InLanguage limit tokens) (hviable : Viable limit tokens)
  | refused (before : List Token) (token : Token) (after : List Token) (expected : Expectation)
      (htokens : tokens = before ++ token :: after) (hbefore : Viable limit before)
      (hviable : ¬ Viable limit (before ++ [token]))
      (hread : ∀ more, Query.ofTokens limit (before ++ token :: more) =
        .error (.unexpected expected token))

theorem outcome (limit : Nat) (hagrees : ∀ token ∈ tokens, token.agrees = true) :
    Outcome limit tokens := by
  cases hrun : run limit 0 {} tokens with
  | ok r =>
      have hread : Query.ofTokens limit tokens = r.finish := by
        rw [ofTokens_eq, hrun, Except.bind]
      cases hfinish : r.finish with
      | ok e =>
          have hok : Query.ofTokens limit tokens = .ok e := hread.trans hfinish
          exact .accepted e hok ((inLanguage_iff_exists_ofTokens hagrees).2 ⟨e, hok⟩)
      | error failure =>
          have hin : ¬ InLanguage limit tokens := by
            rw [inLanguage_iff_exists_ofTokens hagrees, hread, hfinish]
            simp
          have hend : r.finish = .error (.grammatical (.unexpectedEnd r.expectation)) := by
            unfold finish at hfinish ⊢
            split at hfinish
            · cases hfinish
            · rfl
          exact .ended _ (hread.trans hend) hin ((viable_iff_exists_run hagrees).2 ⟨r, hrun⟩)
  | error failure =>
      rcases exists_rejected hrun with ⟨before, token, after, r, rfl, hbefore, hrejected⟩
      have hagreesBefore : ∀ t ∈ before, t.agrees = true := fun t ht => hagrees t (by simp [ht])
      have hagreesToken : token.agrees = true := hagrees token (by simp)
      have hreadBefore : Read (limit - 0) ([] ++ before) r :=
        Read.nil.of_run hbefore hagreesBefore
      rcases hreadBefore.unexpected_of_step hagreesToken hrejected with ⟨expected, rfl⟩
      have hfails : ∀ more, run limit 0 {} (before ++ token :: more) =
          .error (.unexpected expected token) := by
        intro more
        rw [run_append hbefore, run_cons, hrejected, Except.bind]
      have hagreesUpTo : ∀ t ∈ before ++ [token], t.agrees = true := by
        simpa [or_imp, forall_and] using ⟨hagreesBefore, hagreesToken⟩
      refine .refused before token after expected rfl
        ((viable_iff_exists_run hagreesBefore).2 ⟨r, hbefore⟩) ?_ ?_
      · rw [viable_iff_exists_run hagreesUpTo, hfails []]
        simp
      · intro more
        rw [ofTokens_eq, hfails more, Except.bind]

end Reading

/-! ## The earliest error -/

namespace Query

open Reading

/-- Reading gives a filter for the queries, an end that comes too early for what more tokens can
make a query, and otherwise names the first token that no query has after what precedes it,
whatever comes after that token. -/
theorem ofTokens_reports_earliest (limit : Nat) (tokens : List Token)
    (hagrees : ∀ token ∈ tokens, token.agrees = true) :
    ((∃ e, ofTokens limit tokens = .ok e) ↔ InLanguage limit tokens) ∧
    ((∃ failure, ofTokens limit tokens = .error failure ∧ failure.isEnd = true ∧
        failure.position? = none ∧ failure.span? = none) ↔
      ¬ InLanguage limit tokens ∧ ∃ more, more ≠ [] ∧ InLanguage limit (tokens ++ more)) ∧
    (¬ InLanguage limit tokens → (¬ ∃ more, more ≠ [] ∧ InLanguage limit (tokens ++ more)) →
      ∃ i, ∃ hi : i < tokens.length, IsLeast {i | ¬ Viable limit (tokens.take (i + 1))} i ∧
        (∃ expected, ofTokens limit tokens = .error (.grammatical
          (.unexpectedToken tokens[i].valueText expected tokens[i].position tokens[i].span))) ∧
        ∀ more, ofTokens limit (tokens.take (i + 1) ++ more) = ofTokens limit tokens) := by
  refine ⟨(inLanguage_iff_exists_ofTokens hagrees).symm, ?_, ?_⟩
  · constructor
    · rintro ⟨failure, hfailure, hend, -, -⟩
      cases outcome limit hagrees with
      | accepted e hread hin => simp [hread] at hfailure
      | ended expected hread hin hviable => exact ⟨hin, hviable.exists_more hin⟩
      | refused before token after expected htokens hbefore hviable hread =>
          have hunexpected : Except.error (.unexpected expected token) = .error failure :=
            (hread after).symm.trans (htokens ▸ hfailure)
          cases hunexpected
          simp [Failure.isEnd, Failure.unexpected, SyntaxError.unexpected] at hend
    · rintro ⟨hin, more, -, hmore⟩
      cases outcome limit hagrees with
      | accepted e hread hin' => exact absurd hin' hin
      | ended expected hread hin' hviable => exact ⟨_, hread, rfl, rfl, rfl⟩
      | refused before token after expected htokens hbefore hviable hread =>
          refine absurd ⟨after ++ more, ?_⟩ hviable
          simpa [htokens] using hmore
  · intro hin hno
    cases outcome limit hagrees with
    | accepted e hread hin' => exact absurd hin' hin
    | ended expected hread hin' hviable => exact absurd (hviable.exists_more hin) hno
    | refused before token after expected htokens hbefore hviable hread =>
        subst htokens
        have hi : before.length < (before ++ token :: after).length := by simp
        have htoken : (before ++ token :: after)[before.length] = token := by simp
        refine ⟨before.length, hi, isLeast_not_viable hbefore hviable, ⟨expected, ?_⟩, ?_⟩
        · rw [htoken]
          exact hread after
        · intro more
          rw [List.take_length_add_append, List.append_assoc]
          exact (hread more).trans (hread after).symm

/-- A comparison with a parenthesis that nothing opened. -/
def strayTokens : List Token :=
  groupedTokens.take 3 ++ [.fresh .closeParen (.text ")")]

/-- The parenthesis is the first token that no query has there. -/
theorem isLeast_strayTokens :
    (∀ token ∈ strayTokens, token.agrees = true) ∧ ¬ InLanguage 1 strayTokens ∧
      IsLeast {i | ¬ Viable 1 (strayTokens.take (i + 1))} 3 := by
  have hagrees : ∀ token ∈ strayTokens, token.agrees = true := by decide
  have hread : ofTokens 1 strayTokens =
      .error (.grammatical (.unexpectedToken ")" .connectiveOrEnd {} (.point 0))) := rfl
  rcases ofTokens_reports_earliest 1 strayTokens hagrees with ⟨hok, hend, hrefused⟩
  have hin : ¬ InLanguage 1 strayTokens := by
    intro hin
    rcases hok.2 hin with ⟨e, he⟩
    cases hread.symm.trans he
  have hmore : ¬ ∃ more, more ≠ [] ∧ InLanguage 1 (strayTokens ++ more) := by
    intro hmore
    rcases hend.2 ⟨hin, hmore⟩ with ⟨failure, hfailure, hisEnd, -, -⟩
    cases hread.symm.trans hfailure
    cases hisEnd
  rcases hrefused hin hmore with ⟨i, hi, hleast, ⟨expected, herror⟩, -⟩
  have hvalue : ")" = strayTokens[i].valueText := by
    have hsame := hread.symm.trans herror
    injection hsame with hsame
    injection hsame with hsame
    injection hsame
  have hlast : ∀ j, ∀ hj : j < strayTokens.length, ")" = strayTokens[j].valueText → j = 3 := by
    decide +kernel
  exact ⟨hagrees, hin, hlast i hi hvalue ▸ hleast⟩

end Query
end FieldFilter
