import FieldFilter.Proofs.Lexing.TokenStarts

/-!
# Slices of a text

* `Text.isBoundary` — the offsets between two characters of a text;
* `Text.slice?` — the text between two offsets, which there is only if both are such offsets;
* `Text.slice?_eq_some_iff` — what a slice is.
-/

namespace FieldFilter

namespace Text

/-- Whether an offset stands between two characters of a text, or at one of its ends. -/
def isBoundary (n : Nat) (cs : List Char) : Bool :=
  byteLength (takeBytes n cs) == n

/-- The text between two offsets.  There is none when an offset stands inside a character or behind
the text, nor when the second one stands before the first. -/
def slice? (start stop : Nat) (cs : List Char) : Option (List Char) :=
  if start ≤ stop ∧ isBoundary start cs ∧ isBoundary stop cs then
    some (takeBytes (stop - start) (dropBytes start cs))
  else none

variable {before text behind cs : List Char} {n start stop : Nat}

theorem isBoundary_iff :
    isBoundary n cs = true ↔ ∃ before, before <+: cs ∧ byteLength before = n := by
  rw [isBoundary, beq_iff_eq]
  constructor
  · intro h
    exact ⟨takeBytes n cs, takeBytes_prefix n cs, h⟩
  · rintro ⟨before, ⟨behind, rfl⟩, rfl⟩
    rw [takeBytes_byteLength_append]

theorem isBoundary_byteLength (h : before <+: cs) : isBoundary (byteLength before) cs = true :=
  isBoundary_iff.2 ⟨before, h, rfl⟩

theorem slice?_split (before text behind : List Char) :
    slice? (byteLength before) (byteLength (before ++ text)) (before ++ (text ++ behind)) =
      some text := by
  have hstart : before <+: before ++ (text ++ behind) := List.prefix_append _ _
  have hstop : before ++ text <+: before ++ (text ++ behind) := ⟨behind, List.append_assoc _ _ _⟩
  have hle : byteLength before ≤ byteLength (before ++ text) := by simp
  rw [slice?, if_pos ⟨hle, isBoundary_byteLength hstart, isBoundary_byteLength hstop⟩,
    dropBytes_byteLength_append, byteLength_append, Nat.add_sub_cancel_left,
    takeBytes_byteLength_append]

/-- A slice is a part of the text that takes the bytes from the first offset to the second. -/
theorem slice?_eq_some_iff :
    slice? start stop cs = some text ↔
      ∃ before behind, cs = before ++ (text ++ behind) ∧ byteLength before = start ∧
        byteLength (before ++ text) = stop := by
  constructor
  · intro h
    unfold slice? at h
    split_ifs at h with hbounds
    rcases hbounds with ⟨hle, hstart, hstop⟩
    rcases isBoundary_iff.1 hstart with ⟨before, ⟨rest, rfl⟩, rfl⟩
    rcases isBoundary_iff.1 hstop with ⟨whole, hwhole, rfl⟩
    rw [dropBytes_byteLength_append] at h
    -- the text up to the second offset goes on behind the text up to the first
    obtain ⟨part, rfl⟩ : before <+: whole := by
      have hbefore := List.prefix_append before rest
      rcases List.prefix_or_prefix_of_prefix hwhole hbefore with hle' | hle'
      · have heq := eq_of_prefix_of_byteLength_eq hwhole hbefore ?_
        · rw [heq]
        · rcases hle' with ⟨more, rfl⟩
          rw [byteLength_append] at hle ⊢
          omega
      · exact hle'
    rcases (List.prefix_append_right_inj before).1 hwhole with ⟨behind, rfl⟩
    rw [byteLength_append, Nat.add_sub_cancel_left, takeBytes_byteLength_append] at h
    cases h
    exact ⟨before, behind, rfl, rfl, rfl⟩
  · rintro ⟨before, behind, rfl, rfl, rfl⟩
    exact slice?_split before text behind

/-- The slice from between two characters on is the rest of the text. -/
theorem slice?_rest (before behind : List Char) :
    slice? (byteLength before) (byteLength (before ++ behind)) (before ++ behind) =
      some behind := by
  have h := slice?_split before behind []
  rwa [List.append_nil] at h

theorem slice?_zero (before behind : List Char) :
    slice? 0 (byteLength before) (before ++ behind) = some before :=
  slice?_split [] before behind

end Text

/-- The slice of a span is the text that it covers. -/
theorem Span.slice_eq_of_slice? {s : Span} {source text : List Char}
    (h : Text.slice? s.start s.stop source = some text) : s.slice source = text := by
  unfold Text.slice? at h
  split_ifs at h
  exact Option.some.inj h

end FieldFilter
