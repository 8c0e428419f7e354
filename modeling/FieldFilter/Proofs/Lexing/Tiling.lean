import FieldFilter.Proofs.Lexing.Agreement
import FieldFilter.Proofs.Lexing.LegalBodies
import FieldFilter.Proofs.Lexing.Scanner
import FieldFilter.Proofs.Lexing.Spans

/-!
# Tokens tile their text

Every character of a text up to its first fault stands in exactly one token or separates tokens.

* `TokenValue.SpelledBy` — what the spelling of a token tells of its value;
* `Tiles` — a text cut into separators and the texts of the items, one behind the other;
* `tiles_read` — reading a text cuts it so;
* `Tiles.pairwise`, `Tiles.gap_before`, `Tiles.gap_behind` — what this means for the spans;
* `Tiles.pairwise_position` — what it means for the positions;
* `TokenStream.tiles_ofText` — the tokens of a whole text.
-/

namespace FieldFilter

open StringLiteral (isLineEnd IsQuote Scanned)
open Text (byteLength slice?)
open TokenStream (Item isSeparator)

/-! ## Spellings -/

/-- The spelling of a token stays on its line, and a token that carries a text carries its
spelling. -/
structure TokenValue.SpelledBy (value : TokenValue) (text : List Char) : Prop where
  line : ∀ c ∈ text, isLineEnd c = false
  text_eq : ∀ spelling, value = .text spelling → spelling = String.ofList text

theorem StringLiteral.isLineEnd_eq_false_of_isBlank {c : Char} (h : Text.isBlank c = false) :
    isLineEnd c = false := by
  refine isLineEnd_eq_false_iff.2 ⟨?_, ?_⟩ <;>
  · rintro rfl
    cases h

theorem StringLiteral.Scanned.isLineEnd_eq_false {quote : Char} {body : List Char}
    (h : Scanned quote body) : ∀ c ∈ body, isLineEnd c = false := by
  induction h with
  | nil => simp
  | plain _ _ hend _ ih => exact List.forall_mem_cons.2 ⟨hend, ih⟩
  | escaped hend _ ih => exact List.forall_mem_cons.2 ⟨rfl, List.forall_mem_cons.2 ⟨hend, ih⟩⟩

namespace Lexeme

variable {c : Char} {cs : List Char} {kind : TokenKind} {value : TokenValue}

theorem isLineEnd_eq_false_of_continuesToken (h : continuesToken c = true) :
    isLineEnd c = false :=
  StringLiteral.isLineEnd_eq_false_of_isBlank (isBlank_eq_false_of_continuesToken h)

theorem isLineEnd_eq_false_of_isIdentifierPart (h : isIdentifierPart c = true) :
    isLineEnd c = false :=
  isLineEnd_eq_false_of_continuesToken (by simp [continuesToken, h])

theorem spelledBy_word (hstart : isIdentifierStart c = true)
    (h : (word c cs).outcome = .ok (kind, value)) : value.SpelledBy (word c cs).text where
  line := by
    refine List.forall_mem_cons.2 ⟨?_, ?_⟩
    · exact isLineEnd_eq_false_of_isIdentifierPart (isIdentifierPart_of_isIdentifierStart hstart)
    · exact fun d hd => isLineEnd_eq_false_of_isIdentifierPart (List.mem_takeWhile_imp hd)
  text_eq := by
    rintro spelling rfl
    simp only [word, wordValue, Except.ok.injEq, Prod.mk.injEq] at h
    rcases h with ⟨-, hvalue⟩
    split at hvalue <;> cases hvalue
    rfl

theorem spelledBy_quoted (hquote : IsQuote c) (h : (quoted c cs).outcome = .ok (kind, value)) :
    value.SpelledBy (quoted c cs).text := by
  cases hbody : StringLiteral.body? c cs with
  | none => simp [quoted, hbody] at h
  | some body =>
      have hscanned := ((StringLiteral.body?_eq_some_iff hquote).1 hbody).1
      cases hdecode : StringLiteral.decode body with
      | none => simp [quoted, hbody, hdecode] at h
      | some decoded =>
          simp only [quoted, hbody, hdecode, Except.ok.injEq, Prod.mk.injEq] at h ⊢
          rcases h with ⟨-, rfl⟩
          refine ⟨?_, fun spelling hspelling => by cases hspelling⟩
          have hmark := hquote.isLineEnd_eq_false
          simpa [hmark, or_imp, forall_and] using hscanned.isLineEnd_eq_false

theorem spelledBy_symbol {text : List Char} (h : symbol? cs = some (kind, text)) :
    (TokenValue.text (String.ofList text)).SpelledBy text where
  line := by
    unfold symbol? at h
    split at h <;> cases h <;> simp [StringLiteral.isLineEnd]
  text_eq := by
    rintro spelling ⟨⟩
    rfl

theorem spelledBy_number {n : Numeral} (hn : n.WellFormed)
    (h : (number n).outcome = .ok (kind, value)) : value.SpelledBy n.text where
  line := fun d hd => isLineEnd_eq_false_of_continuesToken (hn.continuesToken d hd)
  text_eq := by
    rintro spelling rfl
    rcases spells_of_number h with ⟨literal, -, hvalue, -⟩
    cases hvalue

theorem spelledBy_start (h : (start c cs).outcome = .ok (kind, value)) :
    value.SpelledBy (start c cs).text := by
  unfold start at h ⊢
  split_ifs at h ⊢ with hstart hquote
  · exact spelledBy_word hstart h
  · exact spelledBy_quoted (StringLiteral.isQuote_iff.2 hquote) h
  · cases hsymbol : symbol? (c :: cs) with
    | some found =>
        simp only [hsymbol, Except.ok.injEq, Prod.mk.injEq] at h ⊢
        rcases h with ⟨-, rfl⟩
        exact spelledBy_symbol hsymbol
    | none =>
        cases hread : Numeral.read? (c :: cs) with
        | some n =>
            simp only [hsymbol, hread] at h ⊢
            exact spelledBy_number (Numeral.wellFormed_of_read? hread).1 h
        | none => simp [hsymbol, hread] at h

end Lexeme

/-! ## Tiles -/

/-- What an item tells of the text that it covers. -/
def TokenStream.Item.SpelledBy : Item → List Char → Prop
  | .ok token, text => token.value.SpelledBy text
  | .error error, text => error.text = String.ofList text

/-- An item covers the text behind another text, and has the position that is counted there. -/
structure Covers (before : List Char) (item : Item) (text : List Char) : Prop where
  ne_nil : text ≠ []
  span_eq : item.span = ⟨byteLength before, byteLength (before ++ text)⟩
  position_eq : item.position = Position.behind before
  spelled : item.SpelledBy text

theorem Covers.start_lt_stop {before text : List Char} {item : Item}
    (h : Covers before item text) : item.span.start < item.span.stop := by
  rw [h.span_eq, Text.byteLength_append]
  refine Nat.lt_add_of_pos_right (Nat.pos_of_ne_zero ?_)
  exact fun hzero => h.ne_nil (Text.eq_nil_of_byteLength_eq_zero hzero)

/-- The text behind `before` is cut into the texts of the items, with nothing but separators before
and between them.  Separators are all that is left behind the last token, but behind a fault the
text goes on as it likes. -/
inductive Tiles : List Char → List Char → List Item → Prop where
  | gap {before gap : List Char} (hgap : ∀ c ∈ gap, isSeparator c = true) : Tiles before gap []
  | fault {before gap text behind : List Char} {error : LexError}
      (hgap : ∀ c ∈ gap, isSeparator c = true)
      (hcovers : Covers (before ++ gap) (.error error) text) :
      Tiles before (gap ++ (text ++ behind)) [.error error]
  | token {before gap text behind : List Char} {token : Token} {items : List Item}
      (hgap : ∀ c ∈ gap, isSeparator c = true) (hcovers : Covers (before ++ gap) (.ok token) text)
      (hbehind : Tiles (before ++ gap ++ text) behind items) :
      Tiles before (gap ++ (text ++ behind)) (.ok token :: items)

/-- Reading a text cuts it into tiles. -/
theorem tiles_read (before cs : List Char) :
    Tiles before cs (TokenStream.read (Place.afterText {} before) cs).items := by
  have hstep := TokenStream.readStep_read (Place.afterText {} before) cs
  generalize hstream : TokenStream.read (Place.afterText {} before) cs = stream at hstep ⊢
  cases hstep with
  | blank hall => exact .gap hall
  | @fault separators text behind c fault hseparators _ houtcome htext =>
      refine @Tiles.fault before separators (c :: text) behind _ hseparators ⟨by simp, ?_, ?_, rfl⟩
      · simp only [TokenStream.Item.span, TokenStream.faultAt, ← Place.afterText_append,
          Place.offset_start]
      · simp only [TokenStream.Item.position, TokenStream.faultAt, ← Place.afterText_append,
          Place.position_start]
  | @token separators text behind c piece hseparators _ houtcome htext =>
      -- what stands behind the token is read from a place of its own
      have hbehind := tiles_read (before ++ separators ++ c :: text) behind
      rw [Place.afterText_append, Place.afterText_append] at hbehind
      refine @Tiles.token before separators (c :: text) behind _ _ hseparators
        ⟨by simp, ?_, ?_, ?_⟩ hbehind
      · simp only [TokenStream.Item.span, TokenStream.tokenAt, ← Place.afterText_append,
          Place.offset_start]
      · simp only [TokenStream.Item.position, TokenStream.tokenAt, ← Place.afterText_append,
          Place.position_start]
      · have hspelled := Lexeme.spelledBy_start houtcome
        rwa [htext] at hspelled
termination_by cs.length
decreasing_by
  simp
  omega

namespace Tiles

variable {before rest : List Char} {items front back : List Item} {item : Item}

/-- Every item covers some text that stands behind what is read already. -/
theorem covers (h : Tiles before rest items) (hitem : item ∈ items) :
    ∃ start text behind, before ++ rest = start ++ (text ++ behind) ∧ before <+: start ∧
      Covers start item text := by
  induction h with
  | gap _ => cases hitem
  | @fault before gap text behind error _ hcovers =>
      obtain rfl := List.mem_singleton.1 hitem
      exact ⟨before ++ gap, text, behind, by simp, List.prefix_append _ _, hcovers⟩
  | @token before gap text behind token items _ hcovers _ ih =>
      rcases List.mem_cons.1 hitem with rfl | hitem
      · exact ⟨before ++ gap, text, behind, by simp, List.prefix_append _ _, hcovers⟩
      · rcases ih hitem with ⟨start, text', behind', hsplit, hstarts, hcovers'⟩
        refine ⟨start, text', behind', ?_, ?_, hcovers'⟩
        · rw [← hsplit]
          simp
        · rw [List.append_assoc] at hstarts
          exact (List.prefix_append _ _).trans hstarts

/-- The items stand one behind the other. -/
theorem pairwise (h : Tiles before rest items) :
    items.Pairwise fun a b => a.span.Precedes b.span := by
  induction h with
  | gap _ => exact .nil
  | fault _ _ => exact List.pairwise_singleton _ _
  | @token before gap text behind token items _ hcovers hbehind ih =>
      refine List.pairwise_cons.2 ⟨?_, ih⟩
      intro next hnext
      rcases hbehind.covers hnext with ⟨start, text', behind', -, ⟨more, rfl⟩, hcovers'⟩
      rw [Span.Precedes, hcovers.span_eq, hcovers'.span_eq]
      simp

/-- The positions of the items are in order. -/
theorem pairwise_position (h : Tiles before rest items) :
    items.Pairwise fun a b => a.position.order b.position = .lt := by
  induction h with
  | gap _ => exact .nil
  | fault _ _ => exact List.pairwise_singleton _ _
  | @token before gap text behind token items _ hcovers hbehind ih =>
      refine List.pairwise_cons.2 ⟨?_, ih⟩
      intro next hnext
      rcases hbehind.covers hnext with ⟨start, text', behind', -, ⟨more, rfl⟩, hcovers'⟩
      rw [hcovers.position_eq, hcovers'.position_eq, List.append_assoc (before ++ gap)]
      exact Position.order_behind _ fun hnil => hcovers.ne_nil (List.append_eq_nil_iff.1 hnil).1

/-- Where the last of some items stops. -/
def lastStop (offset : Nat) (items : List Item) : Nat :=
  (items.getLast?.map fun item => item.span.stop).getD offset

theorem lastStop_cons (offset : Nat) (item : Item) (items : List Item) :
    lastStop offset (item :: items) = lastStop item.span.stop items := by
  simp only [lastStop, List.getLast?_cons]
  cases items.getLast? <;> rfl

/-- Nothing but separators stands before an item, back to the item before it. -/
theorem gap_before (h : Tiles before rest (front ++ item :: back)) :
    ∃ gap, slice? (lastStop (byteLength before) front) item.span.start (before ++ rest) = some gap ∧
      ∀ c ∈ gap, isSeparator c = true := by
  induction front generalizing before rest with
  | nil =>
      cases h with
      | @fault _ gap text behind _ hgap hcovers =>
          refine ⟨gap, ?_, hgap⟩
          rw [hcovers.span_eq]
          exact Text.slice?_split before gap (text ++ behind)
      | @token _ gap text behind _ _ hgap hcovers _ =>
          refine ⟨gap, ?_, hgap⟩
          rw [hcovers.span_eq]
          exact Text.slice?_split before gap (text ++ behind)
  | cons first front ih =>
      generalize hitems : first :: front ++ item :: back = items at h
      cases h with
      | gap _ => cases hitems
      | fault _ _ => simp at hitems
      | @token _ gap text behind _ _ _ hcovers hbehind =>
          -- a gap in what stands behind the first token is one in the whole text
          obtain ⟨rfl, rfl⟩ := List.cons.inj hitems
          have hgap := ih hbehind
          rwa [lastStop_cons, hcovers.span_eq, ← List.append_assoc, ← List.append_assoc]

/-- Nothing but separators stands behind the last item of a text without a fault. -/
theorem gap_behind (h : Tiles before rest items) (hitems : ∀ item ∈ items, item.isOk = true) :
    ∃ gap, slice? (lastStop (byteLength before) items) (byteLength (before ++ rest))
        (before ++ rest) = some gap ∧ ∀ c ∈ gap, isSeparator c = true := by
  induction h with
  | @gap before gap hgap => exact ⟨gap, Text.slice?_rest before gap, hgap⟩
  | fault _ _ =>
      have hok := hitems _ (List.mem_singleton.2 rfl)
      cases hok
  | @token before gap text behind token items _ hcovers _ ih =>
      have hgap := ih fun item hitem => hitems item (List.mem_cons_of_mem _ hitem)
      rwa [lastStop_cons, hcovers.span_eq, ← List.append_assoc, ← List.append_assoc]

end Tiles

namespace TokenStream

/-- Every item of a stream without a fault is a token. -/
theorem isOk_of_mem_items {stream : TokenStream} {item : Item} (herror : stream.error = none)
    (hitem : item ∈ stream.items) : item.isOk = true := by
  simp only [items, herror, Option.toList_none, List.map_nil, List.append_nil,
    List.mem_map] at hitem
  rcases hitem with ⟨token, -, rfl⟩
  rfl

/-- The text that an item covers is the slice of its span. -/
theorem covered_of_mem_items {source : List Char} {item : Item}
    (hitem : item ∈ (ofText source).items) :
    item.span.start < item.span.stop ∧
      ∃ text, slice? item.span.start item.span.stop source = some text ∧ item.SpelledBy text := by
  rcases (tiles_read [] source).covers hitem with ⟨start, text, behind, hsplit, -, hcovers⟩
  refine ⟨hcovers.start_lt_stop, text, ?_, hcovers.spelled⟩
  rw [List.nil_append] at hsplit
  rw [hcovers.span_eq, hsplit]
  exact Text.slice?_split start text behind

theorem mem_items_of_mem_tokens {stream : TokenStream} {token : Token}
    (h : token ∈ stream.tokens) : .ok token ∈ stream.items := by
  simp [items, h]

theorem mem_items_of_mem_error {stream : TokenStream} {error : LexError}
    (h : error ∈ stream.error) : .error error ∈ stream.items := by
  simp [items, Option.mem_def.1 h]

/-- The tokens of what stands behind a text lie behind it. -/
theorem span_of_mem_read {front text : List Char} {token : Token}
    (h : token ∈ (read (Place.afterText {} front) text).tokens) :
    byteLength front ≤ token.span.start ∧ token.span.start < token.span.stop ∧
      token.span.stop ≤ byteLength (front ++ text) := by
  rcases (tiles_read front text).covers (mem_items_of_mem_tokens h) with
    ⟨start, spelling, behind, hsplit, hstarts, hcovers⟩
  have hspan : token.span = ⟨byteLength start, byteLength (start ++ spelling)⟩ := hcovers.span_eq
  refine ⟨?_, hcovers.start_lt_stop, ?_⟩
  · rw [hspan]
    exact Text.byteLength_le_of_prefix hstarts
  · rw [hspan, hsplit, ← List.append_assoc]
    exact Text.byteLength_le_of_prefix (List.prefix_append _ _)

/-- The items of a text tile it.  Each token covers some text on one line, which is the text that it
carries if it carries one; the tokens stand one behind the other; between them, before the first one
and before a fault there are only separators, and so behind the last one if there is no fault.  Who
asks for the items one after the other gets these and no more. -/
theorem tiles_ofText (source : List Char) :
    Tiles [] source (ofText source).items ∧
      (∀ token ∈ (ofText source).tokens,
        token.span.start < token.span.stop ∧
          slice? token.span.start token.span.stop source = some (token.spelling source) ∧
          (∀ c ∈ token.spelling source, c ≠ '\r' ∧ c ≠ '\n') ∧
          ∀ text, token.value = .text text → text = String.ofList (token.spelling source)) ∧
      (∀ error ∈ (ofText source).error,
        error.span.start < error.span.stop ∧
          slice? error.span.start error.span.stop source = some error.text.toList) ∧
      (ofText source).items.Pairwise (fun a b => a.span.Precedes b.span) ∧
      (∀ front item back, (ofText source).items = front ++ item :: back →
        ∃ gap, slice? (Tiles.lastStop 0 front) item.span.start source = some gap ∧
          ∀ c ∈ gap, isSeparator c = true) ∧
      ((ofText source).error = none →
        ∃ gap, slice? (Tiles.lastStop 0 (ofText source).items) (byteLength source) source =
            some gap ∧ ∀ c ∈ gap, isSeparator c = true) ∧
      ∀ n, ∃ s, Scanner.run? source n {} =
        some ((List.range n).map fun i => (ofText source).items[i]?, s) := by
  have htiles : Tiles [] source (ofText source).items := tiles_read [] source
  refine ⟨htiles, ?_, ?_, htiles.pairwise, ?_, ?_, ?_⟩
  · intro token htoken
    rcases covered_of_mem_items (mem_items_of_mem_tokens htoken) with
      ⟨hnonempty, text, hslice, hspelled⟩
    have hspelling : token.spelling source = text := Span.slice_eq_of_slice? hslice
    rw [hspelling]
    refine ⟨hnonempty, hslice, ?_, hspelled.text_eq⟩
    exact fun c hc => StringLiteral.isLineEnd_eq_false_iff.1 (hspelled.line c hc)
  · intro error herror
    rcases covered_of_mem_items (mem_items_of_mem_error herror) with
      ⟨hnonempty, text, hslice, hspelled⟩
    refine ⟨hnonempty, ?_⟩
    rw [show error.text = String.ofList text from hspelled, String.toList_ofList]
    exact hslice
  · intro front item back hitems
    exact @Tiles.gap_before [] source front back item (hitems ▸ htiles)
  · intro herror
    exact htiles.gap_behind fun item hitem => isOk_of_mem_items herror hitem
  · intro n
    rcases (Scanner.stands_start source).run n with ⟨s, hrun, -, -⟩
    exact ⟨s, hrun⟩

end TokenStream
end FieldFilter
