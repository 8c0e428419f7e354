import FieldFilter.Proofs.Reading.Leaks

/-!
# Counting open groups

The groups that are open can also be counted: up for a parenthesis that opens one, which only the
cap forbids, and down for one that closes one, for which there must be one.

* `Session.countAfter?` — the count after one more token;
* `Session.count_reads` — over the tokens that a query reads the count never fails, and ends at what
  the next query starts from;
* `Session.count_after` — over several queries it never exceeds the cap;
* `Session.not_broken_after` — no query breaks a rule of the constructors.
-/

namespace FieldFilter
namespace Session

open Reading

variable {session left : Session} {limit leaked count count' : Nat} {r r' : Reading}
  {token : Token} {tokens : List Token} {outcome : Except Failure Expr}

/-! ## The count -/

/-- The number of open groups after a token, counted on from the number before it. -/
def countAfter? (limit count : Nat) (read : Reading × Token) : Option Nat :=
  if opensGroup read.1 read.2 then if count < limit then some (count + 1) else none
  else if closesGroup read.1 read.2 then
    match count with
    | 0 => none
    | count + 1 => some count
  else some count

/-- The count goes with the groups that are open in the machine. -/
theorem countAfter?_of_moves (h : Moves (limit - leaked) r token r') :
    countAfter? limit (leaked + r.depth) (r, token) = some (leaked + r'.depth) := by
  cases h with
  | @openGroup outer inner token hkind hroom =>
      have hlt : leaked + outer.length < limit := Nat.add_comm _ leaked ▸ Nat.add_lt_of_lt_sub hroom
      simp [countAfter?, opensGroup, hkind, depth, hlt, Nat.add_assoc]
  | closeGroup hkind =>
      simp [countAfter?, opensGroup, closesGroup, hkind, depth, ← Nat.add_assoc]
  | firstSegment hkind hword => simp [countAfter?, opensGroup, closesGroup, hkind, depth]
  | @connective _ _ _ _ op hop =>
      have hkind : token.kind ≠ .closeParen := by
        intro hkind
        rw [hkind] at hop
        cases hop
      simp [countAfter?, opensGroup, closesGroup, hkind, depth]
  | _ => simp [countAfter?, opensGroup, closesGroup, depth]

theorem foldlM_readsFrom (h : run limit leaked r tokens = .ok r') :
    (readsFrom limit leaked r tokens).foldlM (countAfter? limit) (leaked + r.depth) =
      some (leaked + r'.depth) := by
  induction tokens generalizing r with
  | nil =>
      cases h
      rfl
  | cons token tokens ih =>
      rcases exists_of_run_cons h with ⟨r₁, hmoves, hrun⟩
      simp only [readsFrom, step_of_moves hmoves, List.foldlM_cons, countAfter?_of_moves hmoves,
        Option.bind_eq_bind, Option.bind_some]
      exact ih hrun

/-- Over the tokens that a query reads the count never fails, and the next query starts from it. -/
theorem count_reads (session : Session) :
    session.reads.foldlM (countAfter? session.limit) session.leaked =
      some session.next.2.leaked := by
  have hends := ends_next session
  generalize session.next.1 = outcome at hends
  generalize session.next.2 = left at hends
  cases hends with
  | refused htokens hrun hstep =>
      rw [reads_of_refused htokens hrun hstep]
      exact foldlM_readsFrom hrun
  | exhausted hrun => exact foldlM_readsFrom hrun

/-! ## The count stays below the cap -/

theorem countAfter?_le {read : Reading × Token} (h : countAfter? limit count read = some count')
    (hle : count ≤ limit) : count' ≤ limit := by
  unfold countAfter? at h
  split_ifs at h with hopens hroom hcloses
  · cases h
    exact hroom
  · split at h
    · cases h
    · cases h
      omega
  · cases h
    exact hle

/-- A count that does not fail has not failed or exceeded the cap before. -/
theorem exists_count_of_prefix {front reads : List (Reading × Token)} (hfront : front <+: reads)
    (h : reads.foldlM (countAfter? limit) count = some count') (hle : count ≤ limit) :
    ∃ between ≤ limit, front.foldlM (countAfter? limit) count = some between := by
  induction front generalizing reads count with
  | nil => exact ⟨count, hle, rfl⟩
  | cons read front ih =>
      rcases hfront with ⟨back, rfl⟩
      rw [List.cons_append, List.foldlM_cons, Option.bind_eq_bind, Option.bind_eq_some_iff] at h
      rcases h with ⟨next, hnext, hrest⟩
      rcases ih (List.prefix_append front back) hrest (countAfter?_le hnext hle) with
        ⟨between, hbetween, hcount⟩
      refine ⟨between, hbetween, ?_⟩
      rw [List.foldlM_cons, hnext]
      exact hcount

theorem limit_after (n : Nat) (session : Session) : (session.after n).limit = session.limit := by
  rw [(after_eq n session).2]
  rfl

theorem next_after_eq (n : Nat) (session : Session) :
    (session.after n).next.2 = session.after (n + 1) := by
  induction n generalizing session with
  | zero => rfl
  | succ n ih => exact ih session.next.2

/-- Over the queries of a session, one after the other, the count never fails and never exceeds the
cap. -/
theorem count_after (hle : session.leaked ≤ session.limit) (n : Nat) :
    ((session.after n).reads.foldlM (countAfter? session.limit) (session.after n).leaked =
        some (session.after (n + 1)).leaked) ∧
      ∀ front, front <+: (session.after n).reads →
        ∃ count ≤ session.limit,
          front.foldlM (countAfter? session.limit) (session.after n).leaked = some count := by
  have hcount := count_reads (session.after n)
  rw [limit_after, next_after_eq] at hcount
  have hstart : (session.after n).leaked ≤ session.limit :=
    limit_after n session ▸ leaked_after_le n hle
  exact ⟨hcount, fun front hfront => exists_count_of_prefix hfront hcount hstart⟩

/-! ## No rule is broken -/

/-- A query of tokens whose values agree with their kinds breaks no rule of the constructors. -/
theorem not_broken_after (hagrees : ∀ token ∈ session.tokens, token.agrees = true) (n : Nat)
    (breach : Breach) : (session.after n).next.1 ≠ .error (.broken breach) := by
  rcases exists_refusals hagrees with ⟨refusals, last, -, hlast, houtcomes⟩
  rw [houtcomes, List.getD_eq_getElem?_getD]
  intro hbroken
  cases houtcome : (refusals.map refusal ++ [last])[n]? with
  | none =>
      -- a query behind the last one only finds the end of the text
      rw [houtcome] at hbroken
      cases hbroken
  | some outcome =>
      rw [houtcome] at hbroken
      have hmem := List.mem_of_getElem? houtcome
      rw [show outcome = _ from hbroken, List.mem_append, List.mem_map, List.mem_singleton] at hmem
      rcases hmem with ⟨refused, -, hrefused⟩ | rfl
      · cases hrefused
      · cases hlast

end Session
end FieldFilter
