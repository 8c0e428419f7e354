import FieldFilter.Proofs.Lexing.Slices

/-!
# Positions and lines

* `Position.behind` — the position behind a text, counted from its start;
* `Place.position_start` — a place that is moved over a text has that position;
* `LineCount.positionAt?` — the position of an offset, counted on from an earlier one;
* `LineCount.positionAt?_behind` — counting on comes to what counting from the start comes to.
-/

namespace FieldFilter

open Text (byteLength slice? byteLength_append)

/-! ## Lines of a text -/

namespace Text

/-- What stands behind the last line feed of a text. -/
def lastLine (cs : List Char) : List Char :=
  (cs.reverse.takeWhile (· ≠ '\n')).reverse

/-- A text up to its last line feed. -/
def wholeLines (cs : List Char) : List Char :=
  (cs.reverse.dropWhile (· ≠ '\n')).reverse

variable {before more : List Char}

theorem wholeLines_append_lastLine (cs : List Char) : wholeLines cs ++ lastLine cs = cs := by
  rw [wholeLines, lastLine, ← List.reverse_append, List.takeWhile_append_dropWhile,
    List.reverse_reverse]

/-- A text without line feeds goes on on the last line. -/
theorem lastLine_append_of_not_mem (h : '\n' ∉ more) :
    lastLine (before ++ more) = lastLine before ++ more := by
  have hall : ∀ c ∈ more.reverse, decide (c ≠ '\n') = true := by
    intro c hc
    have hne : c ≠ '\n' := fun heq => h (heq ▸ List.mem_reverse.1 hc)
    simpa using hne
  rw [lastLine, List.reverse_append, List.takeWhile_append_of_pos hall, List.reverse_append,
    List.reverse_reverse, lastLine]

/-- Behind a line feed it does not matter what stands before it. -/
theorem lastLine_append_of_mem (h : '\n' ∈ more) : lastLine (before ++ more) = lastLine more := by
  have hstops : ¬ (more.reverse.takeWhile (· ≠ '\n')).length = more.reverse.length := by
    intro hlength
    have hwhole := (List.takeWhile_sublist (· ≠ '\n')).eq_of_length hlength
    have hne := List.mem_takeWhile_imp (hwhole.symm ▸ List.mem_reverse.2 h)
    simp at hne
  rw [lastLine, List.reverse_append, List.takeWhile_append, if_neg hstops, lastLine]

theorem wholeLines_append (before more : List Char) :
    wholeLines (before ++ more) =
      if '\n' ∈ more then before ++ wholeLines more else wholeLines before := by
  have hsplit := wholeLines_append_lastLine (before ++ more)
  split_ifs with h
  · rw [lastLine_append_of_mem h] at hsplit
    refine List.append_cancel_right (hsplit.trans ?_)
    rw [List.append_assoc, wholeLines_append_lastLine]
  · rw [lastLine_append_of_not_mem h, ← List.append_assoc] at hsplit
    refine List.append_cancel_right (List.append_cancel_right (hsplit.trans ?_))
    rw [wholeLines_append_lastLine]

end Text

open Text (lastLine wholeLines)

/-! ## Positions counted from the start -/

/-- The position behind a text: one more than its line feeds, and one more than the characters
behind the last of them. -/
def Position.behind (before : List Char) : Position :=
  ⟨1 + before.count '\n', 1 + (lastLine before).length⟩

theorem Position.after_behind (before : List Char) (c : Char) :
    (behind before).after c = behind (before ++ [c]) := by
  by_cases h : c = '\n'
  · subst h
    simp [after, behind, lastLine, Nat.add_assoc]
  · have hnot : '\n' ∉ [c] := by simpa using Ne.symm h
    simp [after, behind, h, Text.lastLine_append_of_not_mem hnot, Nat.add_assoc]

/-- A place that is moved over a text has the position that is counted from the start. -/
theorem Place.position_start (before : List Char) :
    (Place.afterText {} before).position = Position.behind before := by
  induction before using List.reverseRecOn with
  | nil => rfl
  | append_singleton before c ih =>
      rw [Place.afterText_append, Place.afterText_cons, Place.afterText_nil, Place.after, ih,
        Position.after_behind]

/-- Positions are in order along a text. -/
theorem Position.order_behind {more : List Char} (before : List Char) (hmore : more ≠ []) :
    (behind before).order (behind (before ++ more)) = .lt := by
  by_cases h : '\n' ∈ more
  · have hline : (behind before).line < (behind (before ++ more)).line := by
      have hpos := List.count_pos_iff.2 h
      simp only [behind, List.count_append]
      omega
    rw [order, Nat.compare_eq_lt.2 hline, Ordering.lt_then]
  · have hline : (behind before).line = (behind (before ++ more)).line := by
      simp [behind, List.count_append, List.count_eq_zero.2 h]
    have hcolumn : (behind before).column < (behind (before ++ more)).column := by
      have hpos := List.length_pos_iff.2 hmore
      simp only [behind, Text.lastLine_append_of_not_mem h, List.length_append]
      omega
    rw [order, hline, Nat.compare_eq_eq.2 rfl, Nat.compare_eq_lt.2 hcolumn, Ordering.eq_then]

/-! ## Positions counted on -/

/-- How far lines have been counted: the line that was reached, the offset at which it starts, and
the offset up to which line feeds are counted. -/
structure LineCount where
  line : Nat := 1
  lineStart : Nat := 0
  scanned : Nat := 0
  deriving DecidableEq, Repr

namespace LineCount

/-- The count at an offset, over the text between it and the offset that was reached. -/
def across (count : LineCount) (skipped : List Char) (offset : Nat) : LineCount :=
  -- without a line feed the line stays the same
  if '\n' ∈ skipped then
    { line := count.line + skipped.count '\n'
      lineStart := count.scanned + byteLength (wholeLines skipped)
      scanned := offset }
  else { count with scanned := offset }

/-- The position of an offset that is not behind the one that was reached, and the count there. -/
def positionAt? (source : List Char) (count : LineCount) (offset : Nat) :
    Option (Position × LineCount) := do
  let skipped ← slice? count.scanned offset source
  let count := count.across skipped offset
  let line ← slice? count.lineStart offset source
  return (⟨count.line, line.length + 1⟩, count)

/-- The count behind a text, from its start. -/
def behind (before : List Char) : LineCount where
  line := 1 + before.count '\n'
  lineStart := byteLength (wholeLines before)
  scanned := byteLength before

theorem across_behind (before skipped : List Char) :
    (behind before).across skipped (byteLength (before ++ skipped)) =
      behind (before ++ skipped) := by
  by_cases h : '\n' ∈ skipped
  · simp [across, behind, h, Text.wholeLines_append, Nat.add_assoc]
  · simp [across, behind, h, Text.wholeLines_append, List.count_eq_zero.2 h]

/-- Counting on comes to what counting from the start comes to. -/
theorem positionAt?_behind (before skipped rest : List Char) :
    positionAt? (before ++ (skipped ++ rest)) (behind before) (byteLength (before ++ skipped)) =
      some (Position.behind (before ++ skipped), behind (before ++ skipped)) := by
  have hskipped : slice? (behind before).scanned (byteLength (before ++ skipped))
      (before ++ (skipped ++ rest)) = some skipped := Text.slice?_split before skipped rest
  -- the line that is reached may start before the text that is skipped
  have hline : slice? (behind (before ++ skipped)).lineStart (byteLength (before ++ skipped))
      (before ++ (skipped ++ rest)) = some (lastLine (before ++ skipped)) := by
    have hsplit := Text.wholeLines_append_lastLine (before ++ skipped)
    have h := Text.slice?_split (wholeLines (before ++ skipped)) (lastLine (before ++ skipped)) rest
    rwa [← List.append_assoc, hsplit, List.append_assoc] at h
  simp only [positionAt?, hskipped, Option.bind_eq_bind, Option.bind_some, across_behind, hline]
  rw [Nat.add_comm]
  rfl

end LineCount

end FieldFilter
