import FieldFilter.Proofs.Lexing.Tiling
import FieldFilter.Proofs.Reading.Leaks

/-!
# Where failures point

* `Failure.Concerns` — a failure concerns an item of a text, or no place at all;
* `Session.Ends.concerns`, `Session.concerns_after` — so does every failure of a session;
* `TokenStream.positions_ofText` — the positions of tokens, faults and failures are those that are
  counted from the start of the text.
-/

namespace FieldFilter

open Text (isBoundary takeBytes)
open TokenStream (Item)

/-! ## Failures and items -/

/-- A failure has the position and the span of one of the items, or neither. -/
inductive Failure.Concerns (failure : Failure) (items : List Item) : Prop where
  | item (item : Item) (hitem : item ∈ items) (hposition : failure.position? = some item.position)
      (hspan : failure.span? = some item.span)
  | nowhere (hposition : failure.position? = none) (hspan : failure.span? = none)

theorem Failure.Concerns.mono {failure : Failure} {items items' : List Item}
    (h : failure.Concerns items) (hsub : items ⊆ items') : failure.Concerns items' := by
  cases h with
  | item item hitem hposition hspan => exact .item item (hsub hitem) hposition hspan
  | nowhere hposition hspan => exact .nowhere hposition hspan

/-! ## Failures of sessions -/

namespace Session

open Reading

/-- The items that a session has not yet read. -/
def items (session : Session) : List Item :=
  TokenStream.items ⟨session.tokens, session.error⟩

variable {session left : Session} {failure : Failure}

/-- A query fails at a token that is still there, at the fault behind the tokens, or at the end. -/
theorem Ends.concerns (h : Ends session (.error failure) left) :
    failure.Concerns session.items := by
  generalize houtcome : (Except.error failure : Except Failure Expr) = outcome at h
  cases h with
  | @refused before after token r failure' htokens hrun hstep =>
      cases houtcome
      have htoken : token ∈ session.tokens := by simp [htokens]
      have hitem : .ok token ∈ session.items := TokenStream.mem_items_of_mem_tokens htoken
      rcases failure_of_step hstep with rfl | ⟨breach, rfl⟩ | ⟨-, -, rfl⟩
      · exact .item _ hitem rfl rfl
      · exact .nowhere rfl rfl
      · exact .item _ hitem rfl rfl
  | @exhausted r hrun =>
      -- the tokens ran out: at a fault, or at the end of the text, which has no place
      cases herror : session.error with
      | some error =>
          rw [herror] at houtcome
          cases houtcome
          exact .item _ (TokenStream.mem_items_of_mem_error herror) rfl rfl
      | none =>
          rw [herror] at houtcome
          rw [failure_of_finish houtcome.symm]
          exact .nowhere rfl rfl

/-- What queries leave of a session is items that were there before. -/
theorem items_after_subset (n : Nat) (session : Session) :
    (session.after n).items ⊆ session.items := by
  have hafter := (after_eq n session).2
  intro item hitem
  rw [hafter] at hitem
  simp only [items, TokenStream.items, ofStream, leftBy, List.mem_append, List.mem_map,
    Option.mem_toList] at hitem ⊢
  rcases hitem with ⟨token, htoken, rfl⟩ | ⟨error, herror, rfl⟩
  · exact .inl ⟨token, List.mem_of_mem_drop htoken, rfl⟩
  · split_ifs at herror
    exact .inr ⟨error, herror, rfl⟩

/-- Every failure of the queries of a session concerns an item that was there at its start. -/
theorem concerns_after {n : Nat} (h : (session.after n).next.1 = .error failure) :
    failure.Concerns session.items := by
  have hends := ends_next (session.after n)
  rw [h] at hends
  exact hends.concerns.mono (items_after_subset n session)

end Session

/-! ## Positions counted from the start -/

namespace TokenStream

theorem position_of_mem_items {source : List Char} {item : Item}
    (hitem : item ∈ (ofText source).items) :
    isBoundary item.span.start source = true ∧
      item.position = Position.behind (takeBytes item.span.start source) := by
  rcases (tiles_read [] source).covers hitem with ⟨start, text, behind, hsplit, -, hcovers⟩
  rw [List.nil_append] at hsplit
  rw [hcovers.span_eq, hcovers.position_eq, hsplit, Text.takeBytes_byteLength_append]
  exact ⟨Text.isBoundary_byteLength (List.prefix_append _ _), rfl⟩

/-- Every token and every fault of a text, and every failure of its queries that has a span, has the
position that is counted from the start of the text to the start of its span: one more than the line
feeds, and one more than the characters behind the last of them.  Who asks for the items one after
the other keeps that count up to the start of the last one, and positions are in order. -/
theorem positions_ofText (limit : Nat) (source : List Char) :
    (∀ item ∈ (ofText source).items,
      isBoundary item.span.start source = true ∧
        item.position = Position.behind (takeBytes item.span.start source)) ∧
      (∀ n failure,
        ((Session.ofStream limit (ofText source)).after n).next.1 = .error failure →
          (∀ span ∈ failure.span?, isBoundary span.start source = true) ∧
            failure.position? =
              failure.span?.map fun span => Position.behind (takeBytes span.start source)) ∧
      (∀ n, ∃ s,
        Scanner.run? source n {} =
            some ((List.range n).map fun i => (ofText source).items[i]?, s) ∧
          s.lines = (((ofText source).items.take n).getLast?.map fun item =>
            LineCount.behind (takeBytes item.span.start source)).getD {}) ∧
      (ofText source).tokens.Pairwise fun a b => a.position.order b.position = .lt := by
  refine ⟨fun item hitem => position_of_mem_items hitem, ?_, ?_, ?_⟩
  · intro n failure hfailure
    have hconcerns : failure.Concerns (ofText source).items := Session.concerns_after hfailure
    cases hconcerns with
    | item item hitem hposition hspan =>
        rcases position_of_mem_items hitem with ⟨hboundary, hcounted⟩
        rw [hposition, hspan, hcounted]
        refine ⟨?_, rfl⟩
        rintro span ⟨⟩
        exact hboundary
    | nowhere hposition hspan =>
        rw [hposition, hspan]
        exact ⟨by simp, rfl⟩
  · intro n
    rcases (Scanner.stands_start source).run n with ⟨s, hrun, -, hlines⟩
    exact ⟨s, hrun, hlines⟩
  · have hitems := (tiles_read [] source).pairwise_position
    have htokens : ((ofText source).tokens.map .ok : List Item).Pairwise
        fun a b => a.position.order b.position = .lt :=
      hitems.sublist (List.sublist_append_left _ _)
    exact List.pairwise_map.1 htokens

end TokenStream
end FieldFilter
