import FieldFilter.Proofs.Lexing.Cuts
import FieldFilter.Proofs.Lexing.Positions

/-!
# A scanner that keeps its place

The tokens of a text can also be asked for one after the other.  What is cut out of the text for
them are slices, which there are only between two characters of the text, and positions are counted
on from one token to the next.

* `TokenStream.Item`, `TokenStream.items` — the tokens and the fault of a text as one list;
* `Scanner`, `Scanner.next?` — the state between two items, and the next item;
* `Scanner.Stands` — a scanner at a place in the text and the items that are still to come there;
* `Scanner.Stands.next`, `Scanner.Stands.run` — a scanner gives the items of the text and nothing
  behind them, and no slice that it takes is missing.
-/

namespace FieldFilter

open Text (byteLength slice? takeBytes)

/-! ## Items -/

namespace TokenStream

/-- A token, or the fault behind the tokens. -/
abbrev Item : Type :=
  Except LexError Token

/-- The range that an item covers. -/
def Item.span : Item → Span
  | .ok token => token.span
  | .error error => error.span

/-- The position of the first character that an item covers. -/
def Item.position : Item → Position
  | .ok token => token.position
  | .error error => error.position

/-- The tokens of a stream in order, and its fault behind them. -/
def items (stream : TokenStream) : List Item :=
  stream.tokens.map .ok ++ stream.error.toList.map .error

end TokenStream

open TokenStream (Item isSeparator)

/-! ## The scanner -/

/-- What a scanner keeps between two items: the offset behind what it has read, how far lines are
counted, and whether it has met a fault. -/
structure Scanner where
  offset : Nat := 0
  lines : LineCount := {}
  failed : Bool := false
  deriving DecidableEq, Repr

namespace Scanner

/-- What a text with the given outcome stands for.  A string literal is decoded from what stands
between its quotation marks. -/
def decoded? (text : List Char) : Except LexFault Piece → Option (Except LexFault Piece)
  | .ok (.string, _) | .error .invalidEscape => do
    let body ← slice? 1 (byteLength text - 1) text
    match StringLiteral.decode body with
    | some value => return .ok (.string, .literal (.string (String.ofList value)))
    | none => return .error .invalidEscape
  | outcome => some outcome

/-- The item that a lexeme at an offset of the source makes, and the scanner behind it. -/
def itemAt? (source : List Char) (lines : LineCount) (start : Nat) (lexeme : Lexeme) :
    Option (Item × Scanner) := do
  let span : Span := ⟨start, start + byteLength lexeme.text⟩
  let text ← slice? span.start span.stop source
  let outcome ← decoded? text lexeme.outcome
  let (position, lines) ← lines.positionAt? source span.start
  match outcome with
  | .error fault =>
    return (.error ⟨fault, String.ofList text, position, span⟩, ⟨span.stop, lines, true⟩)
  | .ok (kind, value) =>
    return (.ok ⟨kind, value, span, position⟩, ⟨span.stop, lines, false⟩)

/-- The next item of a source, and the scanner behind it.  There is no item at the end of the source
and behind a fault, and no result at all when a slice is missing. -/
def next? (source : List Char) (s : Scanner) : Option (Option Item × Scanner) :=
  if s.failed then some (none, s)
  else do
    let ahead ← slice? s.offset (byteLength source) source
    let start := s.offset + byteLength (ahead.takeWhile isSeparator)
    match ← slice? start (byteLength source) source with
    | [] => return (none, { s with offset := start })
    | c :: rest => do
      let (item, s) ← itemAt? source s.lines start (Lexeme.start c rest)
      return (some item, s)

/-- The answers to so many questions for the next item, and the scanner behind them. -/
def run? (source : List Char) : Nat → Scanner → Option (List (Option Item) × Scanner)
  | 0, s => some ([], s)
  | n + 1, s => do
    let (item, s) ← next? source s
    let (items, s) ← run? source n s
    return (item :: items, s)

variable {source : List Char} {s : Scanner} {items : List Item}

/-! ## One item -/

/-- Only the literals of strings are decoded. -/
theorem decoded?_of_ne {text : List Char} {outcome : Except LexFault Piece}
    (hstring : ∀ value, outcome ≠ .ok (.string, value))
    (hescape : outcome ≠ .error .invalidEscape) : decoded? text outcome = some outcome := by
  unfold decoded?
  split
  · exact absurd rfl (hstring _)
  · exact absurd rfl hescape
  · rfl

/-- What stands between the quotation marks of a whole literal is its body. -/
theorem slice?_body {quote : Char} (hquote : StringLiteral.IsQuote quote) (body : List Char) :
    slice? 1 (byteLength (quote :: (body ++ [quote])) - 1) (quote :: (body ++ [quote])) =
      some body := by
  have hone : byteLength [quote] = 1 := by rcases hquote with rfl | rfl <;> rfl
  have hstop : byteLength (quote :: (body ++ [quote])) - 1 = byteLength ([quote] ++ body) := by
    simp only [Text.byteLength_cons, Text.byteLength_append, Text.byteLength_nil] at hone ⊢
    omega
  rw [hstop, ← hone]
  exact Text.slice?_split [quote] body [quote]

/-- Decoding a lexeme again changes nothing. -/
theorem decoded?_start (c : Char) (cs : List Char) :
    decoded? (Lexeme.start c cs).text (Lexeme.start c cs).outcome =
      some (Lexeme.start c cs).outcome := by
  by_cases hquote : StringLiteral.IsQuote c
  · rw [Lexeme.start_quote hquote, Lexeme.quoted]
    cases hbody : StringLiteral.body? c cs with
    | none => rfl
    | some body =>
        have hslice := slice?_body hquote body
        cases hdecode : StringLiteral.decode body <;>
          simp only [hdecode, decoded?, hslice, Option.bind_eq_bind, Option.bind_some] <;> rfl
  · -- what is decoded starts with a quotation mark
    refine decoded?_of_ne ?_ ?_
    · intro value houtcome
      exact hquote (Lexeme.isQuote_of_outcome houtcome)
    · intro houtcome
      have hfaulty := Lexeme.faulty_of_outcome houtcome
      generalize (Lexeme.start c cs).text = text at hfaulty
      cases hfaulty with
      | illegal hquote' _ _ => exact hquote hquote'

/-- A scanner at a place in the source from which the given items are still to come. -/
inductive Stands (source : List Char) : Scanner → List Item → Prop where
  | reading {before counted rest : List Char} (hsource : source = before ++ rest)
      (hcounted : counted <+: before) :
      Stands source ⟨byteLength before, .behind counted, false⟩
        (TokenStream.read (Place.afterText {} before) rest).items
  | failed (offset : Nat) (lines : LineCount) : Stands source ⟨offset, lines, true⟩ []

theorem stands_start (source : List Char) :
    Stands source {} (TokenStream.ofText source).items :=
  @Stands.reading source [] [] source rfl (List.prefix_refl [])

/-- Lines are counted up to the start of an item. -/
def linesAt (source : List Char) (item : Item) : LineCount :=
  .behind (takeBytes item.span.start source)

/-- Behind the separators at the end of a source there is no item. -/
theorem next?_blank {before separators : List Char} {lines : LineCount}
    (hseparators : ∀ d ∈ separators, isSeparator d = true) :
    next? (before ++ separators) ⟨byteLength before, lines, false⟩ =
      some (none, ⟨byteLength (before ++ separators), lines, false⟩) := by
  have hahead := Text.slice?_rest before separators
  have hbehind := Text.slice?_rest (before ++ separators) []
  rw [List.append_nil] at hbehind
  have htake : separators.takeWhile isSeparator = separators :=
    List.takeWhile_eq_self_iff.2 hseparators
  simp only [next?, Bool.false_eq_true, if_false, hahead, Option.bind_eq_bind, Option.bind_some,
    htake, ← Text.byteLength_append, hbehind]
  rfl

/-- Behind separators the lexeme makes the item. -/
theorem next?_lexeme {before separators rest : List Char} {c : Char} {lines : LineCount}
    (hseparators : ∀ d ∈ separators, isSeparator d = true) (hsep : isSeparator c = false) :
    next? (before ++ (separators ++ c :: rest)) ⟨byteLength before, lines, false⟩ =
      (itemAt? (before ++ (separators ++ c :: rest)) lines (byteLength (before ++ separators))
        (Lexeme.start c rest)).map fun (item, s) => (some item, s) := by
  have hahead := Text.slice?_rest before (separators ++ c :: rest)
  have hbehind := Text.slice?_rest (before ++ separators) (c :: rest)
  rw [List.append_assoc] at hbehind
  have htake : (separators ++ c :: rest).takeWhile isSeparator = separators :=
    takeWhile_append_of_head hseparators (by simpa using hsep)
  simp only [next?, Bool.false_eq_true, if_false, hahead, Option.bind_eq_bind, Option.bind_some,
    htake, ← Text.byteLength_append, hbehind]
  exact Option.map_eq_bind.symm

/-- The item of a lexeme stands where reading the text finds it. -/
theorem itemAt?_start {before counted text behind : List Char} {c : Char}
    (hcounted : counted <+: before)
    (htext : (Lexeme.start c (text ++ behind)).text = c :: text) :
    itemAt? (before ++ c :: (text ++ behind)) (.behind counted) (byteLength before)
        (Lexeme.start c (text ++ behind)) =
      match (Lexeme.start c (text ++ behind)).outcome with
      | .error fault =>
        some (.error (TokenStream.faultAt (Place.afterText {} before) fault (c :: text)),
          ⟨byteLength (before ++ c :: text), .behind before, true⟩)
      | .ok piece =>
        some (.ok (TokenStream.tokenAt (Place.afterText {} before) piece (c :: text)),
          ⟨byteLength (before ++ c :: text), .behind before, false⟩) := by
  have hslice := Text.slice?_split before (c :: text) behind
  have hposition : LineCount.positionAt? (before ++ (c :: text ++ behind)) (.behind counted)
      (byteLength before) = some (Position.behind before, .behind before) := by
    rcases hcounted with ⟨skipped, rfl⟩
    rw [List.append_assoc]
    exact LineCount.positionAt?_behind counted skipped (c :: text ++ behind)
  have hdecoded := decoded?_start c (text ++ behind)
  rw [htext] at hdecoded
  rw [List.cons_append] at hslice hposition
  simp only [itemAt?, htext, ← Text.byteLength_append, hslice, Option.bind_eq_bind,
    Option.bind_some, hdecoded, hposition]
  cases (Lexeme.start c (text ++ behind)).outcome with
  | error fault =>
      simp only [TokenStream.faultAt, Place.offset_start, Place.offset_behind, Place.position_start]
      rfl
  | ok piece =>
      simp only [TokenStream.tokenAt, Place.offset_start, Place.offset_behind, Place.position_start]
      rfl

theorem linesAt_of_start {source before rest : List Char} {item : Item}
    (hsource : source = before ++ rest) (hstart : item.span.start = byteLength before) :
    linesAt source item = .behind before := by
  rw [linesAt, hstart, hsource, Text.takeBytes_byteLength_append]

/-- A scanner gives the first of the items that are still to come, or nothing when there is none. -/
theorem Stands.next (h : Stands source s items) :
    ∃ s', next? source s = some (items.head?, s') ∧ Stands source s' items.tail ∧
      s'.lines = (items.head?.map (linesAt source)).getD s.lines := by
  cases h with
  | failed offset lines => exact ⟨_, rfl, .failed offset lines, rfl⟩
  | @reading before counted rest hsource hcounted =>
      subst hsource
      have hstep := TokenStream.readStep_read (Place.afterText {} before) rest
      generalize TokenStream.read (Place.afterText {} before) rest = stream at hstep ⊢
      cases hstep with
      | blank hall =>
          refine ⟨_, next?_blank hall, ?_, rfl⟩
          have hend : Stands (before ++ rest) ⟨byteLength (before ++ rest), .behind counted, false⟩
              (TokenStream.read (Place.afterText {} (before ++ rest)) []).items :=
            .reading (List.append_nil _).symm (hcounted.trans (List.prefix_append before rest))
          rwa [TokenStream.read_nil] at hend
      | @fault separators text behind c fault hseparators hsep houtcome htext =>
          have hitem := itemAt?_start (hcounted.trans (List.prefix_append before separators)) htext
          rw [houtcome, List.append_assoc, Place.afterText_append] at hitem
          have hnext := @next?_lexeme before separators (text ++ behind) c (.behind counted)
            hseparators hsep
          rw [hitem] at hnext
          refine ⟨_, hnext, .failed _ _, ?_⟩
          refine (linesAt_of_start (List.append_assoc before separators _).symm ?_).symm
          exact Place.offset_behind before separators
      | @token separators text behind c piece hseparators hsep houtcome htext =>
          have hitem := itemAt?_start (hcounted.trans (List.prefix_append before separators)) htext
          rw [houtcome, List.append_assoc, Place.afterText_append] at hitem
          have hnext := @next?_lexeme before separators (text ++ behind) c (.behind counted)
            hseparators hsep
          rw [hitem] at hnext
          refine ⟨_, hnext, ?_, ?_⟩
          -- lines are counted up to the start of the token, and reading goes on behind it
          · rw [← Place.afterText_append, ← Place.afterText_append, List.append_assoc]
            refine .reading ?_ ?_
            · simp
            · rw [← List.append_assoc]
              exact List.prefix_append _ _
          · refine (linesAt_of_start (List.append_assoc before separators _).symm ?_).symm
            exact Place.offset_behind before separators

/-! ## Items one after the other -/

/-- A scanner that is asked again and again gives the items that are still to come, and nothing
behind them. -/
theorem Stands.run (h : Stands source s items) (n : Nat) :
    ∃ s', run? source n s = some ((List.range n).map fun i => items[i]?, s') ∧
      Stands source s' (items.drop n) ∧
      s'.lines = ((items.take n).getLast?.map (linesAt source)).getD s.lines := by
  induction n generalizing s items with
  | zero => exact ⟨s, rfl, h, rfl⟩
  | succ n ih =>
      rcases h.next with ⟨s₁, hnext, hstands, hlines⟩
      rcases ih hstands with ⟨s₂, hrun, hstands', hlines'⟩
      refine ⟨s₂, ?_, ?_, ?_⟩
      · simp only [run?, hnext, hrun, Option.bind_eq_bind, Option.bind_some,
          List.range_succ_eq_map, List.map_cons, List.map_map]
        cases items <;> rfl
      · rwa [List.drop_tail] at hstands'
      · rw [hlines', hlines]
        cases items with
        | nil => simp
        | cons item items =>
            cases htake : items.take n with
            | nil => simp [htake]
            | cons next rest => simp [htake, List.getLast?_cons]

end Scanner
end FieldFilter
