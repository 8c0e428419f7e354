import FieldFilter.Proofs.Lexing.Agreement
import FieldFilter.Proofs.Lexing.Spans
import FieldFilter.Proofs.Reading.Viability

/-!
# One query after the other

* `Session.after` — the session that is left after so many queries;
* `Session.Ends`, `Session.ends_next` — the ways in which a query of a session ends;
* `Session.Settled` — the outcomes that leave nothing to read;
* `Session.exists_refusals` — tokens are refused one after the other until an outcome settles the
  session, and nothing but the end of the input is found from then on.
-/

namespace FieldFilter
namespace Session

open Reading

/-- The session that is left after so many queries. -/
def after : Nat → Session → Session
  | 0, session => session
  | n + 1, session => after n session.next.2

variable {session : Session} {tokens : List Token} {error : Option LexError} {limit leaked : Nat}
  {r r' : Reading}

/-- The outcomes of several queries are those of the sessions that are left after each other. -/
theorem outcomes_eq_map_range (n : Nat) (session : Session) :
    outcomes n session = (List.range n).map fun i => (session.after i).next.1 := by
  induction n generalizing session with
  | zero => rfl
  | succ n ih =>
      rw [outcomes, ih, List.range_succ_eq_map, List.map_cons, List.map_map]
      rfl

/-! ## How a query ends -/

/-- The outcome where the tokens end: a fault of the text goes before what has been read. -/
def close (error : Option LexError) (r : Reading) : Except Failure Expr :=
  match error with
  | some error => .error (.lexical error)
  | none => r.finish

/-- How a query of a session ends, with its outcome and the session that is left: at a token that
may not come next, or where the tokens end. -/
inductive Ends (session : Session) : Except Failure Expr → Session → Prop where
  | refused {before after : List Token} {token : Token} {r : Reading} {failure : Failure}
      (htokens : session.tokens = before ++ token :: after)
      (hrun : run session.limit session.leaked {} before = .ok r)
      (hstep : r.step session.limit session.leaked token = .error failure) :
      Ends session (.error failure)
        { session with tokens := after, leaked := session.leaked + r.depth }
  | exhausted {r : Reading} (hrun : run session.limit session.leaked {} session.tokens = .ok r) :
      Ends session (close session.error r)
        { tokens := [], limit := session.limit, leaked := session.leaked + r.depth }

theorem readFrom_append (h : run limit leaked r tokens = .ok r') (more : List Token) :
    readFrom limit leaked error r (tokens ++ more) = readFrom limit leaked error r' more := by
  induction tokens generalizing r with
  | nil =>
      cases h
      rfl
  | cons token tokens ih =>
      rcases exists_of_run_cons h with ⟨r₁, hmoves, hrun⟩
      rw [List.cons_append, readFrom, step_of_moves hmoves]
      exact ih hrun

theorem ends_next (session : Session) : Ends session session.next.1 session.next.2 := by
  cases hrun : run session.limit session.leaked {} session.tokens with
  | ok r =>
      have hnext : session.next = readFrom session.limit session.leaked session.error r [] := by
        rw [← readFrom_append hrun, List.append_nil, next]
      rw [hnext]
      exact .exhausted hrun
  | error failure =>
      rcases exists_rejected hrun with ⟨before, token, after, r, htokens, hbefore, hstep⟩
      have hnext : session.next =
          readFrom session.limit session.leaked session.error r (token :: after) := by
        rw [next, htokens, readFrom_append hbefore]
      rw [hnext, readFrom, hstep]
      exact .refused htokens hbefore hstep

/-! ## The outcomes of a session -/

/-- The outcomes that leave nothing to read. -/
inductive Settled : Except Failure Expr → Prop where
  | accepted (e : Expr) : Settled (.ok e)
  | lexical (error : LexError) : Settled (.error (.lexical error))
  | ended (expected : Expectation) : Settled (.error (.grammatical (.unexpectedEnd expected)))

theorem failure_of_finish {failure : Failure} (h : r.finish = .error failure) :
    failure = .grammatical (.unexpectedEnd r.expectation) := by
  unfold finish at h
  split at h <;> cases h
  rfl

theorem settled_close (error : Option LexError) (r : Reading) : Settled (close error r) := by
  cases error with
  | some error => exact .lexical error
  | none =>
      rw [close]
      cases hfinish : r.finish with
      | ok e => exact .accepted e
      | error failure => exact failure_of_finish hfinish ▸ .ended r.expectation

/-- The outcome for a token that may not come next. -/
def refusal (refused : Expectation × Token) : Except Failure Expr :=
  .error (.unexpected refused.1 refused.2)

/-- The outcome where there is nothing to read. -/
def nothingLeft : Except Failure Expr :=
  .error (.grammatical (.unexpectedEnd .operand))

theorem next_of_nothingLeft (htokens : session.tokens = []) (herror : session.error = none)
    (n : Nat) : (session.after n).next.1 = nothingLeft := by
  induction n generalizing session with
  | zero => rw [after, next, htokens, herror, readFrom, nothingLeft, finish]; rfl
  | succ n ih =>
      have hnext : session.next.2 = session := by
        rw [next, htokens, herror]
        rcases session with ⟨tokens, error, limit, leaked⟩
        cases htokens
        cases herror
        rfl
      rw [after, hnext]
      exact ih htokens herror

/-- Tokens are refused one after the other until an outcome settles the session. -/
theorem exists_refusals (hagrees : ∀ token ∈ session.tokens, token.agrees = true) :
    ∃ (refusals : List (Expectation × Token)) (last : Except Failure Expr),
      (refusals.map Prod.snd).Sublist session.tokens ∧ Settled last ∧
        ∀ n, (session.after n).next.1 = (refusals.map refusal ++ [last]).getD n nothingLeft := by
  -- every query takes at least one token, unless there is none
  induction hlength : session.tokens.length using Nat.strong_induction_on generalizing session with
  | _ length ih =>
      have hends := ends_next session
      generalize hnext : session.next = next at hends
      rcases next with ⟨outcome, left⟩
      cases hends with
      | @refused before after token r failure htokens hrun hstep =>
          rw [htokens] at hagrees hlength
          have hread : Read (session.limit - session.leaked) ([] ++ before) r :=
            Read.nil.of_run hrun fun t ht => hagrees t (by simp [ht])
          rcases hread.unexpected_of_step (hagrees token (by simp)) hstep with ⟨expected, rfl⟩
          have hshorter : after.length < length := by
            simp only [List.length_append, List.length_cons] at hlength
            omega
          have hleft : ∀ t ∈ after, t.agrees = true := fun t ht => hagrees t (by simp [ht])
          rcases @ih after.length hshorter
              { session with tokens := after, leaked := session.leaked + r.depth } hleft rfl with
            ⟨refusals, last, hsub, hlast, houtcomes⟩
          refine ⟨(expected, token) :: refusals, last, ?_, hlast, ?_⟩
          · rw [htokens]
            exact (hsub.cons_cons token).trans (List.sublist_append_right _ _)
          · intro n
            cases n with
            | zero => rw [Session.after, hnext]; rfl
            | succ n => rw [Session.after, hnext]; exact houtcomes n
      | @exhausted r hrun =>
          -- there are neither tokens nor a fault left to find
          refine ⟨[], close session.error r, List.nil_sublist _, settled_close _ _, ?_⟩
          intro n
          cases n with
          | zero => rw [Session.after, hnext]; rfl
          | succ n =>
              rw [Session.after, hnext]
              exact next_of_nothingLeft rfl rfl n

theorem eq_length_of_ok {refusals : List (Expectation × Token)} {last : Except Failure Expr}
    {n : Nat} {e : Expr} (h : (refusals.map refusal ++ [last]).getD n nothingLeft = .ok e) :
    n = refusals.length := by
  induction refusals generalizing n with
  | nil =>
      cases n with
      | zero => rfl
      | succ n => cases h
  | cons refused refusals ih =>
      cases n with
      | zero => cases h
      | succ n => rw [ih h, List.length_cons]

/-- The outcomes of the queries of a text: tokens of the text that are refused, each behind the one
before it, then a filter, a fault of the text or an end that comes too early, and from then on
nothing but the end of the input.  No more than one query succeeds. -/
theorem outcomes_ofText (limit : Nat) (source : List Char) :
    ∃ (refusals : List (Expectation × Token)) (last : Except Failure Expr),
      (refusals.map Prod.snd).Sublist (TokenStream.ofText source).tokens ∧
      refusals.length ≤ (TokenStream.ofText source).tokens.length ∧
      (refusals.Pairwise fun a b => a.2.span.Precedes b.2.span) ∧
      (∀ refused ∈ refusals, refused.2.span.start < refused.2.span.stop) ∧
      Settled last ∧
      (∀ n, ((ofStream limit (TokenStream.ofText source)).after n).next.1 =
        (refusals.map refusal ++ [last]).getD n nothingLeft) ∧
      ∀ i j e e', ((ofStream limit (TokenStream.ofText source)).after i).next.1 = .ok e →
        ((ofStream limit (TokenStream.ofText source)).after j).next.1 = .ok e' → i = j := by
  have hagrees := TokenStream.agrees_of_mem_ofText source
  have hordered := TokenStream.ordered_ofText source
  rcases @exists_refusals (ofStream limit (TokenStream.ofText source)) hagrees with
    ⟨refusals, last, hsub, hlast, houtcomes⟩
  refine ⟨refusals, last, hsub, ?_, ?_, ?_, hlast, houtcomes, ?_⟩
  · simpa [ofStream] using hsub.length_le
  · have hrefused : (refusals.map Prod.snd).Pairwise fun a b => a.span.Precedes b.span :=
      hordered.pairwise.sublist hsub
    simpa only [List.pairwise_map] using hrefused
  · intro refused hmem
    exact (hordered.covers _ (hsub.subset (List.mem_map_of_mem hmem))).2
  · intro i j e e' hi hj
    rw [houtcomes] at hi hj
    rw [eq_length_of_ok hi, eq_length_of_ok hj]

end Session
end FieldFilter
