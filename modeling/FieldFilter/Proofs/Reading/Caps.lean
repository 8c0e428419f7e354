import FieldFilter.Proofs.Reading.Balance
import FieldFilter.Proofs.Reading.Laziness

/-!
# What a cap on nested groups changes

Two readings of a text under two caps differ only where a group is opened that the lower one
refuses.

* `PassesCap` — a parenthesis behind which one group more is open than a cap allows;
* `groupsOpen_list`, `groupsOpen_group` — lists and closed groups do not count;
* `Query.parse_under_caps` — what the lower cap changes about a text.
-/

namespace FieldFilter

variable {limit limit' i : Nat} {token : Token} {tokens : List Token} {source : List Char}

/-- Behind the parenthesis at an index one group more is open than a cap allows, and a higher cap
would let the tokens up to there become a query. -/
structure PassesCap (limit : Nat) (tokens : List Token) (i : Nat) : Prop where
  opens : ∃ token, tokens[i]? = some token ∧ token.kind = .openParen
  viable : ∃ cap, Viable cap (tokens.take (i + 1))
  groups : groupsOpen (tokens.take (i + 1)) = limit + 1

namespace Reading

variable {r : Reading}

/-! ## Parentheses that pass a cap -/

/-- The first parenthesis that passes a cap is the one that finds it reached. -/
theorem AtCap.isLeast_passesCap {before after : List Token}
    (hrun : run limit 0 {} before = .ok r) (hcap : AtCap limit r token)
    (hagrees : ∀ t ∈ before ++ token :: after, t.agrees = true) :
    IsLeast {i | PassesCap limit (before ++ token :: after) i} before.length := by
  have hagreesBefore : ∀ t ∈ before, t.agrees = true := fun t ht => hagrees t (by simp [ht])
  have hagreesToken : token.agrees = true := hagrees token (by simp)
  constructor
  · have htake : (before ++ token :: after).take (before.length + 1) = before ++ [token] := by
      rw [List.take_length_add_append]
      rfl
    have hagreesTaken : ∀ t ∈ before ++ [token], t.agrees = true := by
      simpa [or_imp, forall_and] using ⟨hagreesBefore, hagreesToken⟩
    rcases hcap.exists_run hrun with ⟨r', hrun', -⟩
    refine ⟨⟨token, by simp, hcap.kind⟩, ⟨limit + 1, ?_⟩, ?_⟩
    · rw [htake]
      exact (viable_iff_exists_run hagreesTaken).2 ⟨r', hrun'⟩
    · rw [htake]
      exact hcap.groupsOpen_eq hrun hagreesBefore hagreesToken
  · intro j hj
    by_contra hlt
    -- all that is read before the parenthesis stays below the cap
    have htaken : (before ++ token :: after).take (j + 1) = before.take (j + 1) :=
      List.take_append_of_le_length (by omega)
    have hle : groupsOpen (before.take (j + 1)) ≤ limit :=
      groupsOpen_take_le_of_run hrun hagreesBefore (j + 1)
    have hgroups := hj.groups
    rw [htaken] at hgroups
    omega

/-- A parenthesis that passes a cap stands behind one that finds it reached, or is that one. -/
theorem exists_atCap_of_passesCap (h : PassesCap limit tokens i)
    (hagrees : ∀ t ∈ tokens, t.agrees = true) :
    ∃ before token after r, tokens = before ++ token :: after ∧
      run limit 0 {} before = .ok r ∧ AtCap limit r token := by
  have hagreesTaken : ∀ t ∈ tokens.take (i + 1), t.agrees = true :=
    fun t ht => hagrees t (List.mem_of_mem_take ht)
  rcases h.viable with ⟨cap, hviable⟩
  rcases (viable_iff_exists_run hagreesTaken).1 hviable with ⟨r, hrun⟩
  have hdepth : r.depth = limit + 1 := by
    rw [← groupsOpen_eq_depth hrun hagreesTaken]
    exact h.groups
  have hle : limit ≤ cap := by
    have hbound : r.depth ≤ cap := depth_le_of_run hrun (Nat.zero_le cap)
    omega
  rcases run_under_caps (r := {}) hle (Nat.zero_le limit) (tokens.take (i + 1)) with
    ⟨hsame, -⟩ | ⟨before, token, after, r', htake, hrun', hcap⟩
  · -- under the cap itself no run has so many groups open
    rw [hrun] at hsame
    have hbound : r.depth ≤ limit := depth_le_of_run hsame (Nat.zero_le limit)
    omega
  · refine ⟨before, token, after ++ tokens.drop (i + 1), r', ?_, hrun', hcap⟩
    rw [← List.cons_append, ← List.append_assoc, ← htake, List.take_append_drop]

end Reading

/-! ## Parentheses that do not count -/

namespace Parentheses

variable {words inside : List Token} {openParen closeParen : Token} {op : Comparator}

/-- The words `in` and `not in` with a parenthesis behind them lead into a list. -/
theorem after_membershipTokens (hwords : MembershipTokens words op)
    (hopen : openParen.kind = .openParen) (p : Parentheses) :
    (words ++ [openParen]).foldl after p = ⟨p.groups, .inside⟩ := by
  rcases p with ⟨groups, list⟩
  cases hwords with
  | memberOf hword => cases list <;> simp [after, hword, hopen]
  | notMemberOf hnot hword => cases list <;> simp [after, hnot, hword, hopen]

/-- A list goes on until a parenthesis closes. -/
theorem after_inside (hinside : ∀ token ∈ inside, token.kind ≠ .closeParen) (groups : Nat) :
    inside.foldl after ⟨groups, .inside⟩ = ⟨groups, .inside⟩ := by
  induction inside with
  | nil => rfl
  | cons token inside ih =>
      have hkind : token.kind ≠ .closeParen := hinside token (by simp)
      have hafter : after ⟨groups, .inside⟩ token = ⟨groups, .inside⟩ := by
        unfold after
        split <;> simp_all
      rw [List.foldl_cons, hafter]
      exact ih fun t ht => hinside t (by simp [ht])

/-- What opens a group leads out of lists. -/
theorem after_of_lt {p : Parentheses} (h : p.groups < (p.after token).groups) :
    p.after token = ⟨p.groups + 1, .outside⟩ := by
  unfold after at h ⊢
  split at h
  case h_5 => rfl
  -- nothing else makes the number of groups greater
  all_goals
    exact absurd h (by simp)

end Parentheses

/-- The parentheses of a list do not count, whether it is closed or not. -/
theorem groupsOpen_list {before words inside : List Token} {openParen : Token} {op : Comparator}
    (hwords : MembershipTokens words op) (hopen : openParen.kind = .openParen)
    (hinside : ∀ token ∈ inside, token.kind ≠ .closeParen) :
    groupsOpen (before ++ (words ++ [openParen]) ++ inside) = groupsOpen before ∧
      ∀ closeParen, closeParen.kind = .closeParen →
        groupsOpen (before ++ (words ++ [openParen]) ++ inside ++ [closeParen]) =
          groupsOpen before := by
  have hlist : (before ++ (words ++ [openParen]) ++ inside).foldl Parentheses.after {} =
      ⟨groupsOpen before, .inside⟩ := by
    rw [List.foldl_append, List.foldl_append, Parentheses.after_membershipTokens hwords hopen,
      Parentheses.after_inside hinside, groupsOpen]
  constructor
  · rw [groupsOpen, hlist]
  · intro closeParen hclose
    rw [groupsOpen, List.foldl_append, hlist, List.foldl_cons, List.foldl_nil, Parentheses.after]
    simp [hclose]

/-- A group does not count once it is closed. -/
theorem groupsOpen_group {before inside : List Token} {openParen closeParen : Token} {d : Nat}
    {e : Expr} (hopens : groupsOpen before < groupsOpen (before ++ [openParen]))
    (hderives : Derives d .disjunction inside e)
    (hagrees : ∀ token ∈ inside, token.agrees = true) (hclose : closeParen.kind = .closeParen) :
    groupsOpen (before ++ [openParen] ++ inside ++ [closeParen]) = groupsOpen before := by
  have hopened : (before ++ [openParen]).foldl Parentheses.after {} =
      ⟨groupsOpen before + 1, .outside⟩ := by
    rw [groupsOpen, groupsOpen, List.foldl_append] at hopens
    rw [List.foldl_append]
    exact Parentheses.after_of_lt hopens
  rw [groupsOpen, List.foldl_append, List.foldl_append, hopened,
    (hderives.balanced hagrees).returns, List.foldl_cons, List.foldl_nil, Parentheses.after]
  simp [hclose]

/-! ## Texts under two caps -/

namespace Query

open Reading

theorem parse_namesCap {failure : Failure} (h : parse limit source = .error failure)
    (hnames : failure.NamesCap limit) :
    run limit 0 {} (TokenStream.ofText source).tokens = .error failure := by
  rw [parse_eq_run] at h
  cases hrun : run limit 0 {} (TokenStream.ofText source).tokens with
  | error failure' => simpa [hrun, Except.bind] using h
  | ok r =>
      rcases hnames with ⟨value, position, span, rfl⟩
      rw [hrun] at h
      cases herror : (TokenStream.ofText source).error with
      | some error => simp [herror, Except.bind] at h
      | none =>
          rcases finish_cases r with ⟨e, hfinish⟩ | ⟨expected, hfinish⟩ <;>
            simp [herror, Except.bind, hfinish] at h

/-- A text has a parenthesis that passes the lower of two caps, of which the first one is refused,
or it comes to the same under both. -/
theorem parse_cases (hle : limit ≤ limit') (source : List Char) :
    ((∀ i, ¬ PassesCap limit (TokenStream.ofText source).tokens i) ∧
        parse limit source = parse limit' source ∧
        ∀ failure, parse limit source = .error failure → ¬ failure.NamesCap limit) ∨
      ∃ i token, (TokenStream.ofText source).tokens[i]? = some token ∧
        IsLeast {i | PassesCap limit (TokenStream.ofText source).tokens i} i ∧
        parse limit source = .error (.unexpected (.nesting limit) token) := by
  have hagrees := TokenStream.agrees_of_mem_ofText source
  by_cases hcap : ∃ before token after r, (TokenStream.ofText source).tokens =
      before ++ token :: after ∧ run limit 0 {} before = .ok r ∧ AtCap limit r token
  · rcases hcap with ⟨before, token, after, r, htokens, hrun, hcap⟩
    rw [htokens] at hagrees ⊢
    refine .inr ⟨before.length, token, by simp, hcap.isLeast_passesCap hrun hagrees, ?_⟩
    rw [parse_eq_run, htokens, hcap.run_eq hrun, Except.bind]
  · -- without such a parenthesis both caps make the same run, and the rest of reading knows of none
    rcases run_under_caps (r := {}) hle (Nat.zero_le limit) (TokenStream.ofText source).tokens with
      ⟨hsame, hnames⟩ | hcap'
    · refine .inl ⟨?_, ?_, ?_⟩
      · intro i hi
        exact hcap (exists_atCap_of_passesCap hi hagrees)
      · rw [parse_eq_run, parse_eq_run, hsame]
      · intro failure hfailure hcapped
        exact hnames failure (parse_namesCap hfailure hcapped) hcapped
    · exact absurd hcap' hcap

/-- The lower of two caps changes nothing about a text but for the parentheses that pass it: the
first of them is refused.  Lists and closed groups do not count. -/
theorem parse_under_caps (hle : limit ≤ limit') (source : List Char) :
    ((∃ failure, parse limit source = .error failure ∧ failure.NamesCap limit) ↔
        ∃ i, PassesCap limit (TokenStream.ofText source).tokens i) ∧
      (∀ failure, parse limit source = .error failure → failure.NamesCap limit →
        ∃ i token, (TokenStream.ofText source).tokens[i]? = some token ∧
          IsLeast {i | PassesCap limit (TokenStream.ofText source).tokens i} i ∧
          failure = .unexpected (.nesting limit) token) ∧
      ((∀ failure, parse limit source = .error failure → ¬ failure.NamesCap limit) →
        parse limit source = parse limit' source) ∧
      (∀ e, parse limit source = .ok e → parse limit' source = .ok e) ∧
      (∀ before words inside openParen op, MembershipTokens words op →
        openParen.kind = .openParen → (∀ token ∈ inside, token.kind ≠ .closeParen) →
        groupsOpen (before ++ (words ++ [openParen]) ++ inside) = groupsOpen before ∧
          ∀ closeParen, closeParen.kind = .closeParen →
            groupsOpen (before ++ (words ++ [openParen]) ++ inside ++ [closeParen]) =
              groupsOpen before) ∧
      (∀ before inside openParen closeParen d e,
        groupsOpen before < groupsOpen (before ++ [openParen]) →
        Derives d .disjunction inside e → (∀ token ∈ inside, token.agrees = true) →
        closeParen.kind = .closeParen →
        groupsOpen (before ++ [openParen] ++ inside ++ [closeParen]) = groupsOpen before) := by
  rcases parse_cases hle source with ⟨hnone, hsame, hnames⟩ | ⟨i, token, htoken, hleast, hrefused⟩
  · refine ⟨?_, ?_, fun _ => hsame, ?_, fun _ _ _ _ _ => groupsOpen_list,
      fun _ _ _ _ _ _ => groupsOpen_group⟩
    · refine iff_of_false ?_ (not_exists.2 hnone)
      rintro ⟨failure, hfailure, hcapped⟩
      exact hnames failure hfailure hcapped
    · intro failure hfailure hcapped
      exact absurd hcapped (hnames failure hfailure)
    · intro e he
      exact hsame ▸ he
  · refine ⟨?_, ?_, ?_, ?_, fun _ _ _ _ _ => groupsOpen_list,
      fun _ _ _ _ _ _ => groupsOpen_group⟩
    · exact iff_of_true ⟨_, hrefused, _, _, _, rfl⟩ ⟨i, hleast.1⟩
    · intro failure hfailure hcapped
      exact ⟨i, token, htoken, hleast, Except.error.inj (hfailure.symm.trans hrefused)⟩
    · intro hnames
      exact absurd ⟨_, _, _, rfl⟩ (hnames _ hrefused)
    · intro e he
      rw [he] at hrefused
      cases hrefused

/-- A list, a closed group, a group in a group, and a fault. -/
def siblingsText : List Char :=
  "a in (1, 2) and (b = 1) and ((c = 2)) @".toList

/-- The parenthesis of the group in a group. -/
def siblingsParen : Token :=
  ⟨.openParen, .text "(", ⟨29, 30⟩, ⟨1, 30⟩⟩

/-- One cap refuses that parenthesis, higher ones get to the fault. -/
theorem isLeast_siblingsText :
    IsLeast {i | PassesCap 1 (TokenStream.ofText siblingsText).tokens i} 15 ∧
      (¬ ∃ i, PassesCap 2 (TokenStream.ofText siblingsText).tokens i) ∧
      parse 2 siblingsText = parse 3 siblingsText := by
  have hrefused : parse 1 siblingsText = .error (.unexpected (.nesting 1) siblingsParen) := by
    decide +kernel
  have hfault : parse 2 siblingsText =
      .error (.lexical ⟨.unexpectedCharacter, "@", ⟨1, 39⟩, ⟨38, 39⟩⟩) := by decide +kernel
  have honly : ∀ j < (TokenStream.ofText siblingsText).tokens.length, ∀ token,
      (TokenStream.ofText siblingsText).tokens[j]? = some token →
      token.span = siblingsParen.span → j = 15 := by decide +kernel
  have hnames : ∀ failure, parse 2 siblingsText = .error failure → ¬ failure.NamesCap 2 := by
    rw [hfault]
    rintro _ ⟨⟩ ⟨value, position, span, hcapped⟩
    cases hcapped
  refine ⟨?_, ?_, ?_⟩
  · rcases parse_under_caps (by decide : 1 ≤ 2) siblingsText with ⟨-, hfirst, -⟩
    rcases hfirst _ hrefused ⟨_, _, _, rfl⟩ with ⟨i, token, htoken, hleast, hfailure⟩
    have hspan : siblingsParen.span = token.span := by
      injection hfailure with herror
      injection herror
    have hi : i = 15 := honly i (List.getElem?_eq_some_iff.1 htoken).1 token htoken hspan.symm
    exact hi ▸ hleast
  · rcases parse_under_caps (by decide : 2 ≤ 3) siblingsText with ⟨hcapped, -⟩
    intro hpasses
    rcases hcapped.2 hpasses with ⟨failure, hfailure, hnamed⟩
    exact hnames failure hfailure hnamed
  · rcases parse_under_caps (by decide : 2 ≤ 3) siblingsText with ⟨-, -, hsame, -⟩
    exact hsame hnames

end Query
end FieldFilter
