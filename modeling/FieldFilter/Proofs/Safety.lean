import FieldFilter.Proofs.Completion.Indices
import FieldFilter.Proofs.Reading.Depth
import FieldFilter.Proofs.Reading.Locations
import FieldFilter.Proofs.Reading.OnDemand

/-!
# No text trips a check

What reads a text cuts slices out of it, counts lines and open groups, builds names and comparisons
that have rules to keep, and looks at tokens by their indices.  All of this can fail, and none of it
does.

* `LineCount.Fits` — numbers that are no larger than the text;
* `Query.no_check_fails` — whatever the text, the cap and the cursor, no check fails.
-/

namespace FieldFilter

open Text (byteLength slice? takeBytes)

/-! ## Numbers no larger than the text -/

/-- There are no more lines than bytes in a text but for the first line, and lines are counted up to
a place in the text behind the start of the last one. -/
structure LineCount.Fits (source : List Char) (count : LineCount) : Prop where
  line : count.line ≤ byteLength source + 1
  lineStart : count.lineStart ≤ count.scanned
  scanned : count.scanned ≤ byteLength source

variable {source before : List Char}

theorem count_le_byteLength (h : before <+: source) (c : Char) :
    before.count c ≤ byteLength source :=
  calc
    before.count c ≤ before.length := List.count_le_length
    _ ≤ byteLength before := Text.length_le_byteLength before
    _ ≤ byteLength source := Text.byteLength_le_of_prefix h

theorem LineCount.fits_behind (h : before <+: source) : (behind before).Fits source where
  line := by
    have hcount := count_le_byteLength h '\n'
    simp only [behind]
    omega
  lineStart := by
    have hsplit := congrArg byteLength (Text.wholeLines_append_lastLine before)
    rw [Text.byteLength_append] at hsplit
    simp only [behind]
    omega
  scanned := Text.byteLength_le_of_prefix h

theorem Position.behind_le (h : before <+: source) :
    (behind before).line ≤ byteLength source + 1 ∧
      (behind before).column ≤ byteLength source + 1 := by
  have hcount := count_le_byteLength h '\n'
  have hsplit := congrArg List.length (Text.wholeLines_append_lastLine before)
  have hlength := Text.length_le_byteLength before
  have hle := Text.byteLength_le_of_prefix h
  rw [List.length_append] at hsplit
  simp only [behind]
  omega

/-! ## No check fails -/

namespace Query

open Session (countAfter?)

/-- Whatever the text, the cap and the cursor:

* asking for tokens one after the other finds all slices, and the numbers that are kept and reported
  are no larger than the text but for the first line and column;
* the spelling of every token is a slice of the text;
* however many queries are read one after the other, none breaks a rule of the constructors, and the
  count of open groups never exceeds the cap and is never counted down from nothing;
* recursive descent comes to an end on a budget that only depends on the cap;
* completion finds all slices and indices. -/
theorem no_check_fails (source : List Char) (limit cursor : Nat) :
    (∀ n, ∃ s,
      Scanner.run? source n {} =
          some ((List.range n).map fun i => (TokenStream.ofText source).items[i]?, s) ∧
        s.lines.Fits source) ∧
      (∀ item ∈ (TokenStream.ofText source).items,
        item.span.stop ≤ byteLength source ∧ item.position.line ≤ byteLength source + 1 ∧
          item.position.column ≤ byteLength source + 1) ∧
      (∀ token ∈ (TokenStream.ofText source).tokens,
        slice? token.span.start token.span.stop source = some (token.spelling source)) ∧
      (∀ n,
        let session := (Session.ofStream limit (TokenStream.ofText source)).after n
        (∀ breach, session.next.1 ≠ .error (.broken breach)) ∧
          session.reads.foldlM (countAfter? limit) session.leaked = some session.next.2.leaked ∧
          ∀ front, front <+: session.reads →
            ∃ count ≤ limit, front.foldlM (countAfter? limit) session.leaked = some count) ∧
      descend limit (3 * (limit + 1)) source = some (parse limit source) ∧
      Completion.atOffset? source cursor = some (Completion.atOffset source cursor) := by
  refine ⟨?_, ?_, ?_, ?_, descend_eq_parse (Nat.le_refl _) source,
    Completion.atOffset?_eq source cursor⟩
  · intro n
    rcases (Scanner.stands_start source).run n with ⟨s, hrun, -, hlines⟩
    refine ⟨s, hrun, ?_⟩
    rw [hlines]
    cases ((TokenStream.ofText source).items.take n).getLast? with
    | none => exact LineCount.fits_behind List.nil_prefix
    | some item => exact LineCount.fits_behind (Text.takeBytes_prefix _ source)
  · intro item hitem
    rcases TokenStream.covered_of_mem_items hitem with ⟨-, text, hslice, -⟩
    rcases Text.slice?_eq_some_iff.1 hslice with ⟨before, behind, hsplit, -, hstop⟩
    refine ⟨?_, ?_⟩
    · rw [← hstop, hsplit, ← List.append_assoc]
      exact Text.byteLength_le_of_prefix (List.prefix_append _ _)
    · rw [(TokenStream.position_of_mem_items hitem).2]
      exact Position.behind_le (Text.takeBytes_prefix _ source)
  · intro token htoken
    rcases TokenStream.covered_of_mem_items (TokenStream.mem_items_of_mem_tokens htoken) with
      ⟨-, text, hslice, -⟩
    exact hslice.trans (congrArg some (Span.slice_eq_of_slice? hslice).symm)
  · intro n
    have hcount := @Session.count_after (Session.ofStream limit (TokenStream.ofText source))
      (Nat.zero_le limit) n
    refine ⟨?_, ?_, hcount.2⟩
    · exact Session.not_broken_after (TokenStream.agrees_of_mem_ofText source) n
    · rw [Session.next_after_eq]
      exact hcount.1

end Query
end FieldFilter
