import FieldFilter.Token.Stream

/-!
# Texts that read as given tokens

* `Piece`, `Token.piece` — a token without its place;
* `TokenStream.read_separator`, `TokenStream.read_lexeme` — how reading goes on;
* `Lexes` — a text reads as pieces in front of what follows, whatever the place;
* `Lexes.append` — two such texts one after the other;
* `LexesAs` — a text reads as one token, which is all of it;
* `Lexes.word`, `Lexes.mark` — words and marks;
* `EndsWord`, `EndsLiteral`, `IsBoundary` — the texts that what stands in front of them cannot run
  into.
-/

namespace FieldFilter

/-- A kind with a value: a token wherever it stands. -/
abbrev Piece : Type :=
  TokenKind × TokenValue

/-- The kind and the value of a token. -/
def Token.piece (token : Token) : Piece :=
  (token.kind, token.value)

namespace TokenStream

/-! ## How reading goes on -/

/-- A stream with more tokens in front. -/
def prepend (tokens : List Token) (stream : TokenStream) : TokenStream :=
  { stream with tokens := tokens ++ stream.tokens }

variable {place : Place} {c : Char} {cs : List Char}

/-- What is read from the lexeme at the start of a text on. -/
def readLexeme (place : Place) (c : Char) (cs : List Char) : TokenStream :=
  let lexeme := Lexeme.start c cs
  let next := place.afterText lexeme.text
  match lexeme.outcome with
  | .error fault =>
    ⟨[], some ⟨fault, String.ofList lexeme.text, place.position, ⟨place.offset, next.offset⟩⟩⟩
  | .ok (kind, value) =>
    cons ⟨kind, value, ⟨place.offset, next.offset⟩, place.position⟩
      (read next ((c :: cs).drop lexeme.text.length))

theorem read_of_dropWhile_eq_nil (h : cs.dropWhile isSeparator = []) :
    read place cs = ⟨[], none⟩ := by
  rw [read]
  split
  · rfl
  · rename_i heq
    rw [h] at heq
    cases heq

theorem read_of_dropWhile_eq_cons {ds : List Char} (h : ds.dropWhile isSeparator = c :: cs) :
    read place ds = readLexeme (place.afterText (ds.takeWhile isSeparator)) c cs := by
  rw [read]
  split
  · rename_i heq
    rw [h] at heq
    cases heq
  · rename_i heq
    rw [h] at heq
    cases heq
    rfl

@[simp] theorem read_nil : read place [] = ⟨[], none⟩ :=
  read_of_dropWhile_eq_nil rfl

theorem read_separator (h : isSeparator c = true) :
    read place (c :: cs) = read (place.after c) cs := by
  have hdrop : (c :: cs).dropWhile isSeparator = cs.dropWhile isSeparator := by simp [h]
  cases hrest : cs.dropWhile isSeparator with
  | nil => rw [read_of_dropWhile_eq_nil (hdrop.trans hrest), read_of_dropWhile_eq_nil hrest]
  | cons d ds =>
      rw [read_of_dropWhile_eq_cons (hdrop.trans hrest), read_of_dropWhile_eq_cons hrest]
      simp [h]

theorem read_lexeme (h : isSeparator c = false) :
    read place (c :: cs) = readLexeme place c cs := by
  have hdrop : (c :: cs).dropWhile isSeparator = c :: cs := by simp [h]
  rw [read_of_dropWhile_eq_cons hdrop]
  simp [h]

end TokenStream

/-! ## Reading as pieces -/

/-- In front of `rest`, the text reads as the given pieces, and reading goes on with `rest`. -/
def Lexes (text : List Char) (pieces : List Piece) (rest : List Char) : Prop :=
  ∀ place, ∃ tokens : List Token, tokens.map Token.piece = pieces ∧
    TokenStream.read place (text ++ rest) =
      (TokenStream.read (place.afterText text) rest).prepend tokens

namespace Lexes

variable {text text' rest : List Char} {pieces pieces' : List Piece}

theorem nil : Lexes [] [] rest :=
  fun _ => ⟨[], rfl, rfl⟩

theorem append (h : Lexes text pieces (text' ++ rest)) (h' : Lexes text' pieces' rest) :
    Lexes (text ++ text') (pieces ++ pieces') rest := by
  intro place
  rcases h place with ⟨tokens, hpieces, hread⟩
  rcases h' (place.afterText text) with ⟨tokens', hpieces', hread'⟩
  refine ⟨tokens ++ tokens', by simp [hpieces, hpieces'], ?_⟩
  calc
    TokenStream.read place (text ++ text' ++ rest)
        = TokenStream.read place (text ++ (text' ++ rest)) := by rw [List.append_assoc]
    _ = (TokenStream.read (place.afterText text) (text' ++ rest)).prepend tokens := hread
    _ = ((TokenStream.read ((place.afterText text).afterText text') rest).prepend
          tokens').prepend tokens := by rw [hread']
    _ = (TokenStream.read (place.afterText (text ++ text')) rest).prepend (tokens ++ tokens') := by
        simp [Place.afterText_append, TokenStream.prepend]

/-- A space before a text separates and is no part of a token. -/
theorem space (h : Lexes text pieces rest) : Lexes (' ' :: text) pieces rest := by
  intro place
  rcases h (place.after ' ') with ⟨tokens, hpieces, hread⟩
  refine ⟨tokens, hpieces, ?_⟩
  rw [List.cons_append, TokenStream.read_separator rfl, hread, Place.afterText_cons]

theorem ofText (h : Lexes text pieces []) :
    (TokenStream.ofText text).error = none ∧
      (TokenStream.ofText text).tokens.map Token.piece = pieces := by
  rcases h {} with ⟨tokens, hpieces, hread⟩
  rw [List.append_nil] at hread
  rw [TokenStream.ofText, hread]
  simpa [TokenStream.prepend] using hpieces

end Lexes

/-! ## Reading as one token -/

/-- In front of `rest`, the text is the lexeme at its start and spells the given piece. -/
def LexesAs (text : List Char) (piece : Piece) (rest : List Char) : Prop :=
  ∃ c cs, text = c :: cs ∧ TokenStream.isSeparator c = false ∧
    Lexeme.start c (cs ++ rest) = ⟨c :: cs, .ok piece⟩

namespace LexesAs

variable {text rest : List Char} {piece : Piece}

/-- The token is all of the text, and reading goes on behind it. -/
theorem read_eq (h : LexesAs text piece rest) (place : Place) :
    TokenStream.read place (text ++ rest) =
      TokenStream.cons
        ⟨piece.1, piece.2, ⟨place.offset, (place.afterText text).offset⟩, place.position⟩
        (TokenStream.read (place.afterText text) rest) := by
  rcases h with ⟨c, cs, rfl, hsep, hstart⟩
  have hdrop : (c :: (cs ++ rest)).drop (c :: cs).length = rest := by
    rw [← List.cons_append, List.drop_left]
  rw [List.cons_append, TokenStream.read_lexeme hsep, TokenStream.readLexeme, hstart]
  simp only [hdrop]

theorem lexes (h : LexesAs text piece rest) : Lexes text [piece] rest :=
  fun place => ⟨[_], rfl, h.read_eq place⟩

end LexesAs

/-! ## Words -/

/-- A text that no word before it can run into. -/
def EndsWord (rest : List Char) : Prop :=
  ∀ c ∈ rest.head?, isIdentifierPart c = false

/-- A text that neither a word nor a number before it can run into. -/
def EndsLiteral (rest : List Char) : Prop :=
  ∀ c ∈ rest.head?, isIdentifierPart c = false ∧ c ≠ '.'

theorem EndsLiteral.endsWord {rest : List Char} (h : EndsLiteral rest) : EndsWord rest :=
  fun c hc => (h c hc).1

/-- A text that no token but a string before it can run into. -/
def IsBoundary (rest : List Char) : Prop :=
  ∀ c ∈ rest.head?, c = ' ' ∨ c = ',' ∨ c = ')'

theorem IsBoundary.endsLiteral {rest : List Char} (h : IsBoundary rest) : EndsLiteral rest := by
  intro c hc
  rcases h c hc with rfl | rfl | rfl <;> decide

theorem IsBoundary.endsWord {rest : List Char} (h : IsBoundary rest) : EndsWord rest :=
  h.endsLiteral.endsWord

theorem TokenKind.ofWord_eq_name {w : String} (h : isReserved w = false) : ofWord w = .name := by
  simp only [isReserved, reservedWords, List.contains_eq_mem, decide_eq_false_iff_not,
    List.mem_cons, not_or] at h
  rcases h with ⟨hand, hor, hnot, hin, htrue, hfalse, hnone, -⟩
  simp [ofWord, hand, hor, hnot, hin, htrue, hfalse, hnone]

/-- What holds of a character but of no separator tells it from the separators. -/
theorem TokenStream.isSeparator_eq_false {p : Char → Bool} {c : Char}
    (hp : [' ', '\t', '\r', '\n', '\x0c'].all (fun d => !p d) = true) (h : p c = true) :
    isSeparator c = false := by
  cases hsep : isSeparator c with
  | false => rfl
  | true =>
      have hmem : c ∈ [' ', '\t', '\r', '\n', '\x0c'] := by
        simpa [isSeparator, or_assoc] using hsep
      have hnot : (!p c) = true := List.all_eq_true.1 hp c hmem
      rw [h] at hnot
      cases hnot

theorem takeWhile_append_of_head {p : Char → Bool} {cs rest : List Char}
    (hall : ∀ c ∈ cs, p c = true) (hrest : ∀ c ∈ rest.head?, p c = false) :
    (cs ++ rest).takeWhile p = cs := by
  rw [List.takeWhile_append_of_pos hall]
  cases rest with
  | nil => simp
  | cons c rest => simp [hrest c rfl]

namespace LexesAs

variable {rest : List Char}

theorem word {w : String} (hword : isIdentifier w = true) (hrest : EndsWord rest) :
    LexesAs w.toList (TokenKind.ofWord w, Lexeme.wordValue (TokenKind.ofWord w) w) rest := by
  cases hlist : w.toList with
  | nil => simp [isIdentifier, hlist] at hword
  | cons c cs =>
      have hchars : isIdentifierStart c = true ∧ ∀ d ∈ cs, isIdentifierPart d = true := by
        simpa [isIdentifier, hlist] using hword
      have hw : w = String.ofList (c :: cs) := by rw [← hlist, String.ofList_toList]
      refine ⟨c, cs, rfl, TokenStream.isSeparator_eq_false (by rfl) hchars.1, ?_⟩
      rw [Lexeme.start, if_pos hchars.1, Lexeme.word]
      simp only [takeWhile_append_of_head hchars.2 hrest, hw]

end LexesAs

namespace Lexes

variable {rest : List Char}

theorem word {w : String} (hword : isIdentifier w = true) (hrest : EndsWord rest) :
    Lexes w.toList [(TokenKind.ofWord w, Lexeme.wordValue (TokenKind.ofWord w) w)] rest :=
  (LexesAs.word hword hrest).lexes

theorem segment (segment : Segment) (hrest : EndsWord rest) :
    Lexes segment.word.toList [(.name, .text segment.word)] rest := by
  rcases segment with ⟨w, hvalid⟩
  simp only [isSegment, Bool.and_eq_true, Bool.not_eq_true'] at hvalid
  rcases hvalid with ⟨hword, hreserved⟩
  simpa [TokenKind.ofWord_eq_name hreserved, Lexeme.wordValue] using word hword hrest

/-! ## Marks -/

/-- A mark that starts no longer mark reads as one piece. -/
theorem mark {c : Char} {cs : List Char} {kind : TokenKind}
    (hsep : TokenStream.isSeparator c = false) (hstart : isIdentifierStart c = false)
    (hquote : (c = '"' || c = '\'') = false)
    (hsymbol : Lexeme.symbol? (c :: (cs ++ rest)) = some (kind, c :: cs)) :
    Lexes (c :: cs) [(kind, .text (String.ofList (c :: cs)))] rest := by
  refine LexesAs.lexes ⟨c, cs, rfl, hsep, ?_⟩
  rw [Lexeme.start, if_neg (by simp [hstart]), if_neg (by simp [hquote])]
  simp [hsymbol]

theorem dot : Lexes ['.'] [(.dot, .text ".")] rest :=
  mark rfl rfl rfl rfl

theorem comma : Lexes [','] [(.comma, .text ",")] rest :=
  mark rfl rfl rfl rfl

theorem openParen : Lexes ['('] [(.openParen, .text "(")] rest :=
  mark rfl rfl rfl rfl

theorem closeParen : Lexes [')'] [(.closeParen, .text ")")] rest :=
  mark rfl rfl rfl rfl

end Lexes
end FieldFilter
