import FieldFilter.Text.Bytes

/-!
# Places in a query

* `Span` — a range of byte offsets, and `Span.slice`, the text it covers;
* `Position` — a line and a column as people count them;
* `Place` — how far a text has been read, as an offset and as a position.
-/

namespace FieldFilter

/-! ## Spans -/

/-- The byte offsets from `start` up to, not including, `stop`. -/
structure Span where
  start : Nat
  stop : Nat
  deriving DecidableEq, Repr

namespace Span

/-- The empty span at an offset. -/
def point (offset : Nat) : Span :=
  ⟨offset, offset⟩

/-- How many bytes a span covers; a span that ends before it starts has no length. -/
def length? (s : Span) : Option Nat :=
  if s.start ≤ s.stop then some (s.stop - s.start) else none

/-- A span that covers nothing. -/
def isEmpty (s : Span) : Bool :=
  s.start == s.stop

/-- The part of a text that a span covers. -/
def slice (s : Span) (source : List Char) : List Char :=
  Text.takeBytes (s.stop - s.start) (Text.dropBytes s.start source)

end Span

/-! ## Positions -/

/-- A line and a column, both counted from one.  Columns count characters, so that a mark set under
a query lines up with what it points at. -/
structure Position where
  line : Nat := 1
  column : Nat := 1
  deriving DecidableEq, Repr

namespace Position

/-- The position as messages give it. -/
def text (p : Position) : List Char :=
  "line ".toList ++ Nat.toDigits 10 p.line ++ ", column ".toList ++ Nat.toDigits 10 p.column

/-- Positions are ordered by line, then by column. -/
def order (p q : Position) : Ordering :=
  (compare p.line q.line).then (compare p.column q.column)

/-- The position after a character: a line feed starts a new line. -/
def after (p : Position) (c : Char) : Position :=
  if c = '\n' then ⟨p.line + 1, 1⟩ else ⟨p.line, p.column + 1⟩

end Position

/-! ## Places -/

/-- How far a text has been read. -/
structure Place where
  offset : Nat := 0
  position : Position := {}
  deriving DecidableEq, Repr

namespace Place

/-- The place after one more character. -/
def after (p : Place) (c : Char) : Place :=
  ⟨p.offset + c.utf8Size, p.position.after c⟩

/-- The place after more text. -/
def afterText (p : Place) (cs : List Char) : Place :=
  cs.foldl after p

@[simp] theorem afterText_nil (p : Place) : p.afterText [] = p := rfl

@[simp] theorem afterText_cons (p : Place) (c : Char) (cs : List Char) :
    p.afterText (c :: cs) = (p.after c).afterText cs := rfl

@[simp] theorem afterText_append (p : Place) (cs ds : List Char) :
    p.afterText (cs ++ ds) = (p.afterText cs).afterText ds := by
  simp [afterText]

theorem offset_afterText (p : Place) (cs : List Char) :
    (p.afterText cs).offset = p.offset + Text.byteLength cs := by
  induction cs generalizing p with
  | nil => simp
  | cons c cs ih => simp [ih, after, Nat.add_assoc]

end Place

end FieldFilter
