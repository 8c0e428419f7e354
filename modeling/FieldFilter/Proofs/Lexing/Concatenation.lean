import FieldFilter.Proofs.Lexing.Cuts
import FieldFilter.Proofs.Lexing.Positions

/-!
# Texts one behind the other

A text behind another one has the tokens and the fault that it has on its own, further on.

* `Position.moved`, `Span.moved`, `Token.moved`, `LexError.moved` — where the parts of a text stand
  when the text stands behind another one;
* `TokenStream.read_behind` — reading behind another text moves what is read, and nothing else;
* `TokenStream.ofText_append_separators` — two texts with separators between them.
-/

namespace FieldFilter

open Text (byteLength lastLine)

/-! ## Places behind another text -/

/-- A position of a text that stands behind another one: its lines are counted on, and its first
line is the one on which the other text ends. -/
def Position.moved (before : List Char) (p : Position) : Position where
  line := before.count '\n' + p.line
  column := if p.line = 1 then (lastLine before).length + p.column else p.column

/-- The bytes of a text that stands behind another one. -/
def Span.moved (before : List Char) (s : Span) : Span :=
  ⟨byteLength before + s.start, byteLength before + s.stop⟩

/-- A token of a text that stands behind another one. -/
def Token.moved (before : List Char) (token : Token) : Token :=
  { token with span := token.span.moved before, position := token.position.moved before }

/-- A fault of a text that stands behind another one. -/
def LexError.moved (before : List Char) (error : LexError) : LexError :=
  { error with span := error.span.moved before, position := error.position.moved before }

/-- What is read of a text that stands behind another one. -/
def TokenStream.moved (before : List Char) (stream : TokenStream) : TokenStream :=
  ⟨stream.tokens.map (Token.moved before), stream.error.map (LexError.moved before)⟩

/-- Positions that are counted from the start of a text are moved to those that are counted from
the start of both. -/
theorem Position.moved_behind (before front : List Char) :
    (behind front).moved before = behind (before ++ front) := by
  -- with a line break in front, the line on which the first text ends is over
  by_cases h : '\n' ∈ front
  · have hline : (behind front).line ≠ 1 := by
      have hpos := List.count_pos_iff.2 h
      simp only [behind]
      omega
    rw [moved, if_neg hline]
    simp only [behind, Text.lastLine_append_of_mem h, List.count_append, mk.injEq, and_true]
    omega
  · have hfront : lastLine front = front := @Text.lastLine_append_of_not_mem [] front h
    have hline : (behind front).line = 1 := by simp [behind, List.count_eq_zero.2 h]
    rw [moved, if_pos hline]
    simp only [behind, Text.lastLine_append_of_not_mem h, hfront, List.count_append,
      List.length_append, mk.injEq]
    omega

namespace TokenStream

variable {source separators : List Char} {tokens : List Token}

theorem moved_tokenAt (before front : List Char) (piece : Piece) (text : List Char) :
    (tokenAt (Place.afterText {} front) piece text).moved before =
      tokenAt (Place.afterText {} (before ++ front)) piece text := by
  simp only [tokenAt, Token.moved, Span.moved, ← Place.afterText_append, Place.offset_start,
    Place.position_start, Position.moved_behind, Text.byteLength_append, Nat.add_assoc]

theorem moved_faultAt (before front : List Char) (fault : LexFault) (text : List Char) :
    (faultAt (Place.afterText {} front) fault text).moved before =
      faultAt (Place.afterText {} (before ++ front)) fault text := by
  simp only [faultAt, LexError.moved, Span.moved, ← Place.afterText_append, Place.offset_start,
    Place.position_start, Position.moved_behind, Text.byteLength_append, Nat.add_assoc]

/-- Reading behind another text moves what is read, and nothing else. -/
theorem read_behind (before front cs : List Char) :
    read (Place.afterText {} (before ++ front)) cs =
      (read (Place.afterText {} front) cs).moved before := by
  -- what stands behind the first token is read at a place of the same form, so the induction is on
  -- the text and over all that may stand in front of it
  have hstep := readStep_read (Place.afterText {} front) cs
  generalize read (Place.afterText {} front) cs = stream at hstep ⊢
  cases hstep with
  | blank hall =>
      rw [read_of_dropWhile_eq_nil (List.dropWhile_eq_nil_iff.2 hall)]
      rfl
  | @fault separators text behind c fault hseparators hsep houtcome htext =>
      rw [read_separators hseparators, read_fault hsep houtcome htext, ← Place.afterText_append,
        ← Place.afterText_append, List.append_assoc, ← moved_faultAt]
      rfl
  | @token separators text behind c piece hseparators hsep houtcome htext =>
      have hbehind := read_behind before (front ++ separators ++ c :: text) behind
      rw [read_separators hseparators, read_token hsep houtcome htext, ← Place.afterText_append,
        ← Place.afterText_append, ← Place.afterText_append, ← Place.afterText_append,
        List.append_assoc before, List.append_assoc before, ← moved_tokenAt, hbehind]
      rfl
termination_by cs.length
decreasing_by
  simp
  omega

/-- Behind a text without faults and separators, another text is read as on its own: the tokens of
the first one stay as they are, and those of the second one and its fault are moved. -/
theorem ofText_append_separators (htokens : (ofText source).toExcept = .ok tokens)
    (hne : separators ≠ []) (hall : ∀ c ∈ separators, isSeparator c = true) (text : List Char) :
    ofText (source ++ separators ++ text) =
      ⟨tokens ++ (ofText text).tokens.map (Token.moved (source ++ separators)),
        (ofText text).error.map (LexError.moved (source ++ separators))⟩ := by
  have hstream : ofText source = ⟨tokens, none⟩ := toExcept_eq_ok_iff.1 htokens
  have herror : (ofText source).error = none := congrArg error hstream
  obtain rfl : (ofText source).tokens = tokens := congrArg TokenStream.tokens hstream
  -- separators are blanks, and no token goes on with a blank
  have hapart : StartsApart (separators ++ text) := by
    refine .of_isBlank ?_
    intro c hc
    rw [List.head?_append_of_ne_nil _ hne] at hc
    exact Text.isBlank_of_isSeparator (hall c (List.mem_of_mem_head? hc))
  have hbehind := read_behind (source ++ separators) [] text
  calc
    ofText (source ++ separators ++ text)
        = (read (Place.afterText {} source) (separators ++ text)).prepend (ofText source).tokens := by
          rw [List.append_assoc]
          exact read_append herror hapart
    _ = (read (Place.afterText {} (source ++ separators)) text).prepend (ofText source).tokens := by
          rw [read_separators hall, Place.afterText_append]
    _ = ((ofText text).moved (source ++ separators)).prepend (ofText source).tokens := by
          rw [List.append_nil] at hbehind
          rw [hbehind]
          rfl

/-- A text that ends in a mark which `=` goes on with. -/
def openEndedText : List Char :=
  "tag = 'é' and\nprice >".toList

/-- What is read of it. -/
def openEndedTokens : List Token :=
  [⟨.name, .text "tag", ⟨0, 3⟩, ⟨1, 1⟩⟩, ⟨.equals, .text "=", ⟨4, 5⟩, ⟨1, 5⟩⟩,
    ⟨.string, .literal (.string "é"), ⟨6, 10⟩, ⟨1, 7⟩⟩, ⟨.andWord, .text "and", ⟨11, 14⟩, ⟨1, 11⟩⟩,
    ⟨.name, .text "price", ⟨15, 20⟩, ⟨2, 1⟩⟩, ⟨.greater, .text ">", ⟨21, 22⟩, ⟨2, 7⟩⟩]

/-- The two marks stay two, and only the first line of the second text is moved to the right. -/
theorem ofText_openEndedText :
    ofText (openEndedText ++ ['\r', '\n', '\t'] ++ "= 2\n@".toList) =
      ⟨openEndedTokens ++
          [⟨.equals, .text "=", ⟨25, 26⟩, ⟨3, 2⟩⟩, ⟨.int, .literal (.int 2), ⟨27, 28⟩, ⟨3, 4⟩⟩],
        some ⟨.unexpectedCharacter, "@", ⟨4, 1⟩, ⟨29, 30⟩⟩⟩ := by
  have htokens : (ofText openEndedText).toExcept = .ok openEndedTokens := by decide +kernel
  have htext : ofText "= 2\n@".toList =
      ⟨[⟨.equals, .text "=", ⟨0, 1⟩, ⟨1, 1⟩⟩, ⟨.int, .literal (.int 2), ⟨2, 3⟩, ⟨1, 3⟩⟩],
        some ⟨.unexpectedCharacter, "@", ⟨2, 1⟩, ⟨4, 5⟩⟩⟩ := by decide +kernel
  have hall : ∀ c ∈ ['\r', '\n', '\t'], isSeparator c = true := by simp [isSeparator]
  have hread := ofText_append_separators htokens (List.cons_ne_nil _ _) hall "= 2\n@".toList
  rw [hread, htext]
  decide +kernel

end TokenStream
end FieldFilter
