import FieldFilter.Token.Lexeme

/-!
# The tokens of a text

* `LexError` — a fault with its text and place;
* `TokenStream` — the tokens of a text up to its end or its first fault;
* `TokenStream.ofText` — the tokens of a whole text.
-/

namespace FieldFilter

/-! ## Faults in place -/

/-- A fault with the text it concerns and the place of that text. -/
structure LexError where
  fault : LexFault
  text : String
  position : Position
  span : Span
  deriving DecidableEq, Repr

/-- The full wording of a fault, with the text quoted and its position. -/
def LexError.message (e : LexError) : List Char :=
  e.fault.message.toList ++ [' '] ++ Text.shown e.text.toList ++ " at ".toList ++ e.position.text

/-! ## Streams -/

/-- The tokens of a text in order, and the fault that ended them if one did. -/
structure TokenStream where
  tokens : List Token
  error : Option LexError
  deriving DecidableEq, Repr

namespace TokenStream

/-- The characters that separate tokens. -/
def isSeparator (c : Char) : Bool :=
  c == ' ' || c == '\t' || c == '\r' || c == '\n' || c == '\x0c'

/-- A stream with one more token in front. -/
def cons (token : Token) (stream : TokenStream) : TokenStream :=
  { stream with tokens := token :: stream.tokens }

/-- The tokens from a place on.  Separators are skipped; the first fault ends the stream. -/
def read (place : Place) (cs : List Char) : TokenStream :=
  let place := place.afterText (cs.takeWhile isSeparator)
  match _h : cs.dropWhile isSeparator with
  | [] => ⟨[], none⟩
  | c :: rest =>
    let lexeme := Lexeme.start c rest
    let next := place.afterText lexeme.text
    let span : Span := ⟨place.offset, next.offset⟩
    match lexeme.outcome with
    -- nothing is read behind a fault
    | .error fault => ⟨[], some ⟨fault, String.ofList lexeme.text, place.position, span⟩⟩
    | .ok (kind, value) =>
      cons ⟨kind, value, span, place.position⟩
        (read next ((c :: rest).drop lexeme.text.length))
termination_by cs.length
decreasing_by
  have hrest : cs.dropWhile isSeparator = c :: rest := by assumption
  have hdrop : (c :: rest).length ≤ cs.length := hrest ▸ (List.dropWhile_sublist _).length_le
  have hpos : 0 < (Lexeme.start c rest).text.length :=
    List.length_pos_iff.2 (Lexeme.text_ne_nil c rest)
  simp only [List.length_drop]
  simp only [List.length_cons] at hdrop ⊢
  omega

/-- The tokens of a whole text. -/
def ofText (source : List Char) : TokenStream :=
  read {} source

/-- All tokens of a text, or the fault that stands in the way. -/
def toExcept (stream : TokenStream) : Except LexError (List Token) :=
  match stream.error with
  | some error => .error error
  | none => .ok stream.tokens

theorem toExcept_eq_ok_iff {stream : TokenStream} {tokens : List Token} :
    stream.toExcept = .ok tokens ↔ stream = ⟨tokens, none⟩ := by
  rcases stream with ⟨tokens', _ | error⟩ <;> simp [toExcept]

end TokenStream

end FieldFilter
