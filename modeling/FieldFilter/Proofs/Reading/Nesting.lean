import FieldFilter.Proofs.Reading.Refusals
import FieldFilter.Proofs.Reading.Viability

/-!
# How deep groups nest

* `Parentheses` — the groups that are open after some tokens, told apart from the parentheses of
  lists;
* `groupsOpen`, `groupNesting`, `OpensGroup` — the groups open after tokens, the greatest number of
  them at once, and the parentheses that open one;
* `Reading.parentheses_of_run` — the machine counts the groups that are open;
* `Reading.run_under_caps` — up to a parenthesis that finds the lower one reached, the runs under two
  caps are the same;
* `Query.ofTokens_of_nesting_le`, `Query.ofTokens_of_lt_nesting` — a query under another cap.
-/

namespace FieldFilter

/-! ## Groups and lists -/

/-- Where a token stands with respect to the lists of a query. -/
inductive ListPart where
  | outside
  /-- right after the word `in` -/
  | opening
  | inside
  deriving DecidableEq, Repr

/-- The parentheses that are open after some tokens: how many groups, and whether a list. -/
structure Parentheses where
  groups : Nat := 0
  list : ListPart := .outside
  deriving DecidableEq, Repr

namespace Parentheses

/-- The parentheses that are open after one more token. -/
def after (p : Parentheses) (token : Token) : Parentheses :=
  match p.list, token.kind with
  -- the parenthesis right after `in` opens a list, and the next one to close ends it
  | .opening, .openParen => { p with list := .inside }
  | .inside, .closeParen => { p with list := .outside }
  | .inside, _ => p
  | _, .inWord => { p with list := .opening }
  -- every other parenthesis is that of a group
  | _, .openParen => ⟨p.groups + 1, .outside⟩
  | _, .closeParen => ⟨p.groups - 1, .outside⟩
  | _, _ => { p with list := .outside }

/-- The greatest number of groups that are open at once, from some parentheses on. -/
def deepest (p : Parentheses) : List Token → Nat
  | [] => p.groups
  | token :: tokens => max p.groups ((p.after token).deepest tokens)

theorem groups_le_deepest (p : Parentheses) (tokens : List Token) :
    p.groups ≤ p.deepest tokens := by
  cases tokens with
  | nil => exact Nat.le_refl _
  | cons token tokens => exact Nat.le_max_left _ _

end Parentheses

/-- How many groups are open after tokens. -/
def groupsOpen (tokens : List Token) : Nat :=
  (tokens.foldl Parentheses.after {}).groups

/-- The greatest number of groups that tokens have open at once. -/
def groupNesting (tokens : List Token) : Nat :=
  ({} : Parentheses).deepest tokens

/-- The token at an index opens a group. -/
def OpensGroup (tokens : List Token) (i : Nat) : Prop :=
  groupsOpen (tokens.take i) < groupsOpen (tokens.take (i + 1))

/-- From some parentheses on, `deepest` is the greatest number of groups open after a part of the
tokens. -/
theorem Parentheses.isGreatest_deepest (p : Parentheses) (tokens : List Token) :
    IsGreatest {n | ∃ i, ((tokens.take i).foldl after p).groups = n} (p.deepest tokens) := by
  induction tokens generalizing p with
  | nil =>
      refine ⟨⟨0, rfl⟩, ?_⟩
      rintro n ⟨i, rfl⟩
      simp [deepest]
  | cons token tokens ih =>
      rcases ih (p.after token) with ⟨⟨i, hi⟩, hbound⟩
      constructor
      · rcases Nat.le_total p.groups ((p.after token).deepest tokens) with hle | hle
        · refine ⟨i + 1, ?_⟩
          rw [deepest, Nat.max_eq_right hle, List.take_succ_cons, List.foldl_cons, hi]
        · refine ⟨0, ?_⟩
          rw [deepest, Nat.max_eq_left hle, List.take_zero, List.foldl_nil]
      · rintro n ⟨j, rfl⟩
        cases j with
        | zero => exact Nat.le_max_left _ _
        | succ j => exact Nat.le_trans (hbound ⟨j, rfl⟩) (Nat.le_max_right _ _)

theorem isGreatest_groupNesting (tokens : List Token) :
    IsGreatest {n | ∃ i, groupsOpen (tokens.take i) = n} (groupNesting tokens) :=
  Parentheses.isGreatest_deepest {} tokens

namespace Reading

variable {limit leaked room room' : Nat} {r r' : Reading} {token : Token} {tokens : List Token}

/-! ## The machine counts groups -/

/-- Where a state stands with respect to the lists of a query. -/
def listPart (r : Reading) : ListPart :=
  match r.awaiting with
  | .list _ _ => .opening
  | .firstItem _ _ | .nextItem _ _ _ | .separator _ _ _ => .inside
  | _ => .outside

/-- The parentheses that a state has open. -/
def parentheses (r : Reading) : Parentheses :=
  ⟨r.depth, r.listPart⟩

theorem after_of_literal {p : Parentheses} (hagrees : token.agrees = true) {value : Literal}
    (hvalue : token.literal? = some value) (hlist : p.list ≠ .opening) : p.after token = p := by
  have hkind := Token.kind_eq_of_agrees hagrees hvalue
  rcases p with ⟨groups, list⟩
  cases list with
  | opening => exact absurd rfl hlist
  | _ =>
      rcases value with _ | _ | _ | (_ | _) | _ <;>
        simp [Parentheses.after, hkind, Literal.tokenKind]

theorem parentheses_of_moves (h : Moves room r token r') (hagrees : token.agrees = true) :
    r.parentheses.after token = r'.parentheses := by
  cases h with
  | value hvalue _ _ => exact after_of_literal hagrees hvalue (by simp [parentheses, listPart])
  | firstItem hvalue => exact after_of_literal hagrees hvalue (by simp [parentheses, listPart])
  | nextItem hvalue => exact after_of_literal hagrees hvalue (by simp [parentheses, listPart])
  | comparator hop =>
      cases hkind : token.kind <;>
        simp_all [TokenKind.comparator?, parentheses, listPart, depth, Parentheses.after]
  | connective hop =>
      cases hkind : token.kind <;>
        simp_all [TokenKind.connective?, parentheses, listPart, depth, Parentheses.after]
  | _ => simp_all [parentheses, listPart, depth, Parentheses.after]

theorem parentheses_of_run (h : run limit leaked r tokens = .ok r')
    (hagrees : ∀ token ∈ tokens, token.agrees = true) :
    tokens.foldl Parentheses.after r.parentheses = r'.parentheses := by
  induction tokens generalizing r with
  | nil =>
      cases h
      rfl
  | cons token tokens ih =>
      rcases exists_of_run_cons h with ⟨r₁, hmoves, hrun⟩
      rw [List.foldl_cons, parentheses_of_moves hmoves (hagrees token (by simp))]
      exact ih hrun fun t ht => hagrees t (by simp [ht])

theorem groupsOpen_eq_depth (h : run limit leaked {} tokens = .ok r)
    (hagrees : ∀ token ∈ tokens, token.agrees = true) : groupsOpen tokens = r.depth :=
  congrArg Parentheses.groups (parentheses_of_run h hagrees)

/-! ## Other caps -/

theorem Moves.mono (h : Moves room r token r') (hle : room ≤ room') : Moves room' r token r' := by
  cases h with
  | openGroup hkind hroom => exact .openGroup hkind (Nat.lt_of_lt_of_le hroom hle)
  | _ => constructor <;> assumption

theorem Moves.depth_le (h : Moves room r token r') (hle : r.depth ≤ room) : r'.depth ≤ room := by
  cases h with
  | openGroup hkind hroom => exact hroom
  | closeGroup hkind => exact Nat.le_of_succ_le hle
  | _ => exact hle

/-- A move needs room for the groups that it leaves open. -/
theorem Moves.of_depth_le (h : Moves room r token r') (hle : r'.depth ≤ room') :
    Moves room' r token r' := by
  cases h with
  | openGroup hkind hroom => exact .openGroup hkind hle
  | _ => constructor <;> assumption

theorem run_mono {limit' : Nat} (h : run limit 0 r tokens = .ok r') (hle : limit ≤ limit') :
    run limit' 0 r tokens = .ok r' := by
  induction tokens generalizing r with
  | nil => exact h
  | cons token tokens ih =>
      rcases exists_of_run_cons h with ⟨r₁, hmoves, hrun⟩
      have hmoves' : Moves (limit' - 0) r token r₁ := hmoves.mono (by omega)
      rw [run_cons_of_moves hmoves']
      exact ih hrun

theorem depth_le_of_run (h : run limit leaked r tokens = .ok r') (hle : r.depth ≤ limit - leaked) :
    r'.depth ≤ limit - leaked := by
  induction tokens generalizing r with
  | nil =>
      cases h
      exact hle
  | cons token tokens ih =>
      rcases exists_of_run_cons h with ⟨r₁, hmoves, hrun⟩
      exact ih hrun (hmoves.depth_le hle)

theorem deepest_le_of_run (h : run limit 0 r tokens = .ok r')
    (hagrees : ∀ token ∈ tokens, token.agrees = true) (hle : r.depth ≤ limit) :
    r.parentheses.deepest tokens ≤ limit := by
  induction tokens generalizing r with
  | nil => exact hle
  | cons token tokens ih =>
      rcases exists_of_run_cons h with ⟨r₁, hmoves, hrun⟩
      rw [Parentheses.deepest, parentheses_of_moves hmoves (hagrees token (by simp))]
      have htail := ih hrun (fun t ht => hagrees t (by simp [ht])) (hmoves.depth_le hle)
      exact Nat.max_le.2 ⟨hle, htail⟩

/-- A part of what a run reads has no more groups open than the cap allows. -/
theorem groupsOpen_take_le_of_run (h : run limit 0 {} tokens = .ok r)
    (hagrees : ∀ token ∈ tokens, token.agrees = true) (n : Nat) :
    groupsOpen (tokens.take n) ≤ limit := by
  rw [← List.take_append_drop n tokens] at h
  rcases exists_run_of_append h with ⟨r₁, hrun⟩
  rw [groupsOpen_eq_depth hrun fun t ht => hagrees t (List.mem_of_mem_take ht)]
  exact depth_le_of_run hrun (Nat.zero_le limit)

/-- A run needs no higher cap than the groups that it has open at once. -/
theorem run_of_deepest_le {limit' : Nat} (h : run limit 0 r tokens = .ok r')
    (hagrees : ∀ token ∈ tokens, token.agrees = true)
    (hle : r.parentheses.deepest tokens ≤ limit') : run limit' 0 r tokens = .ok r' := by
  induction tokens generalizing r with
  | nil => exact h
  | cons token tokens ih =>
      rcases exists_of_run_cons h with ⟨r₁, hmoves, hrun⟩
      rw [Parentheses.deepest, parentheses_of_moves hmoves (hagrees token (by simp))] at hle
      have htail : r₁.parentheses.deepest tokens ≤ limit' := Nat.le_trans (Nat.le_max_right _ _) hle
      have hdepth : r₁.depth ≤ limit' :=
        Nat.le_trans (r₁.parentheses.groups_le_deepest tokens) htail
      have hmoves' : Moves (limit' - 0) r token r₁ := hmoves.of_depth_le hdepth
      rw [run_cons_of_moves hmoves']
      exact ih hrun (fun t ht => hagrees t (by simp [ht])) htail

/-- Up to a parenthesis that finds the lower cap reached, the runs under two caps are the same. -/
theorem run_under_caps {limit' : Nat} (hle : limit ≤ limit') (hdepth : r.depth ≤ limit)
    (tokens : List Token) :
    (run limit 0 r tokens = run limit' 0 r tokens ∧
        ∀ failure, run limit 0 r tokens = .error failure → ¬ failure.NamesCap limit) ∨
      ∃ before token after r', tokens = before ++ token :: after ∧
        run limit 0 r before = .ok r' ∧ AtCap limit r' token := by
  induction tokens generalizing r with
  | nil => exact .inl ⟨rfl, by simp⟩
  | cons token tokens ih =>
      -- the runs part where the lower cap is reached, and stay together up to there
      by_cases hcap : AtCap limit r token
      · exact .inr ⟨[], token, tokens, r, rfl, rfl, hcap⟩
      · rcases step_under_caps hle hdepth hcap with ⟨hstep, hnames⟩
        cases hnext : r.step limit 0 token with
        | error failure =>
            have hfails : run limit 0 r (token :: tokens) = .error failure := by
              rw [run_cons, hnext, Except.bind]
            refine .inl ⟨?_, ?_⟩
            · rw [hfails, run_cons, ← hstep, hnext, Except.bind]
            · rw [hfails]
              rintro _ ⟨⟩
              exact hnames failure hnext
        | ok r₁ =>
            have hdepth₁ : r₁.depth ≤ limit := (moves_of_step hnext).depth_le hdepth
            rcases ih hdepth₁ with ⟨hrun, hnames'⟩ | ⟨before, token', after, r', rfl, hrun, hcap'⟩
            · refine .inl ⟨?_, ?_⟩
              · rw [run_cons, run_cons, ← hstep, hnext]
                exact hrun
              · intro failure hfailure
                rw [run_cons, hnext] at hfailure
                exact hnames' failure hfailure
            · refine .inr ⟨token :: before, token', after, r', rfl, ?_, hcap'⟩
              rw [run_cons, hnext]
              exact hrun

theorem AtCap.run_eq {before : List Token} (hcap : AtCap limit r token)
    (hrun : run limit 0 {} before = .ok r) (after : List Token) :
    run limit 0 {} (before ++ token :: after) = .error (.unexpected (.nesting limit) token) := by
  rw [run_append hrun, run_cons, hcap.step_eq, Except.bind]

/-- A cap of one more lets the parenthesis open a group. -/
theorem AtCap.exists_run {before : List Token} (hcap : AtCap limit r token)
    (hrun : run limit 0 {} before = .ok r) :
    ∃ r', run (limit + 1) 0 {} (before ++ [token]) = .ok r' ∧ r'.depth = limit + 1 := by
  rcases hcap.exists_moves (Nat.lt_succ_self limit) with ⟨r', hmoves, hdepth⟩
  refine ⟨r', ?_, hdepth⟩
  rw [run_append (run_mono hrun (Nat.le_succ limit))]
  exact run_singleton_of_moves hmoves

theorem AtCap.groupsOpen_eq {before : List Token} (hcap : AtCap limit r token)
    (hrun : run limit 0 {} before = .ok r) (hbefore : ∀ t ∈ before, t.agrees = true)
    (htoken : token.agrees = true) : groupsOpen (before ++ [token]) = limit + 1 := by
  have hagrees : ∀ t ∈ before ++ [token], t.agrees = true := by
    simpa [or_imp, forall_and] using ⟨hbefore, htoken⟩
  rcases hcap.exists_run hrun with ⟨r', hrun', hdepth⟩
  rw [groupsOpen_eq_depth hrun' hagrees, hdepth]

/-- A run with more groups open at once than a lower cap allows has a parenthesis that finds that
cap reached. -/
theorem exists_atCap_of_lt_deepest {limit' : Nat} (h : run limit 0 {} tokens = .ok r)
    (hagrees : ∀ token ∈ tokens, token.agrees = true) (hlt : limit' < groupNesting tokens) :
    ∃ before token after r', tokens = before ++ token :: after ∧
      run limit' 0 {} before = .ok r' ∧ AtCap limit' r' token := by
  have hlimit : limit' ≤ limit :=
    Nat.le_trans (Nat.le_of_lt hlt) (deepest_le_of_run h hagrees (Nat.zero_le limit))
  rcases run_under_caps (r := {}) hlimit (Nat.zero_le limit') tokens with ⟨hsame, -⟩ | hcap
  · have hle : groupNesting tokens ≤ limit' :=
      deepest_le_of_run (hsame.trans h) hagrees (Nat.zero_le limit')
    omega
  · exact hcap

end Reading

namespace Query

open Reading

variable {limit limit' : Nat} {tokens : List Token} {e : Expr}

/-! ## Queries under other caps -/

theorem groupNesting_le_of_ofTokens (h : ofTokens limit tokens = .ok e)
    (hagrees : ∀ token ∈ tokens, token.agrees = true) : groupNesting tokens ≤ limit := by
  rcases ofTokens_eq_ok_iff.1 h with ⟨r, hrun, -⟩
  exact deepest_le_of_run hrun hagrees (Nat.zero_le limit)

/-- A cap that allows the groups that a query has open at once changes nothing. -/
theorem ofTokens_of_nesting_le (h : ofTokens limit tokens = .ok e)
    (hagrees : ∀ token ∈ tokens, token.agrees = true) (hle : groupNesting tokens ≤ limit') :
    ofTokens limit' tokens = .ok e := by
  rcases ofTokens_eq_ok_iff.1 h with ⟨r, hrun, hfinish⟩
  exact ofTokens_eq_ok_iff.2 ⟨r, run_of_deepest_le hrun hagrees hle, hfinish⟩

/-- A lower cap refuses the first parenthesis that would open a group beyond it. -/
theorem ofTokens_of_lt_nesting (h : ofTokens limit tokens = .ok e)
    (hagrees : ∀ token ∈ tokens, token.agrees = true) (hlt : limit' < groupNesting tokens) :
    ∃ i, ∃ hi : i < tokens.length, tokens[i].kind = .openParen ∧
      IsLeast {i | OpensGroup tokens i ∧ groupsOpen (tokens.take i) = limit'} i ∧
      ofTokens limit' tokens = .error (.unexpected (.nesting limit') tokens[i]) := by
  rcases ofTokens_eq_ok_iff.1 h with ⟨r, hrun, -⟩
  rcases exists_atCap_of_lt_deepest hrun hagrees hlt with
    ⟨before, token, after, r', rfl, hbefore, hcap⟩
  have hagreesBefore : ∀ t ∈ before, t.agrees = true := fun t ht => hagrees t (by simp [ht])
  have hagreesToken : token.agrees = true := hagrees token (by simp)
  have htake : (before ++ token :: after).take before.length = before := by simp
  have htake' : (before ++ token :: after).take (before.length + 1) = before ++ [token] := by
    rw [List.take_length_add_append]
    rfl
  have hopen : groupsOpen before = limit' :=
    (groupsOpen_eq_depth hbefore hagreesBefore).trans hcap.depth
  have hopens : groupsOpen (before ++ [token]) = limit' + 1 :=
    hcap.groupsOpen_eq hbefore hagreesBefore hagreesToken
  refine ⟨before.length, by simp, by simpa using hcap.kind, ⟨⟨?_, ?_⟩, ?_⟩, ?_⟩
  · rw [OpensGroup, htake, htake', hopen, hopens]
    exact Nat.lt_succ_self limit'
  · rw [htake, hopen]
  · rintro j ⟨hj, hjopen⟩
    by_contra hlt'
    -- all that is read before the parenthesis stays below the cap
    have hprefix : (before ++ token :: after).take (j + 1) = before.take (j + 1) :=
      List.take_append_of_le_length (by omega)
    have hle : groupsOpen (before.take (j + 1)) ≤ limit' :=
      groupsOpen_take_le_of_run hbefore hagreesBefore (j + 1)
    rw [OpensGroup, hprefix, hjopen] at hj
    omega
  · rw [ofTokens_eq, hcap.run_eq hbefore]
    simp [Except.bind]

end Query
end FieldFilter
