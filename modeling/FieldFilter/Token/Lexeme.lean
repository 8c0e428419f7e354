import FieldFilter.Token
import FieldFilter.Decimal.Numeral

/-!
# Lexemes

What stands at the start of a text is a token's spelling or a piece of text that starts no token.
Of several tokens that could start there the longest is taken.

* `LexFault` — the ways in which a text starts no token;
* `Lexeme` — a piece of text with the token it spells, or with its fault;
* `Lexeme.start` — the lexeme at the start of a text.
-/

namespace FieldFilter

/-- The ways in which a text starts no token. -/
inductive LexFault where
  | unexpectedCharacter
  | unterminatedString
  | invalidEscape
  | numberOutOfRange
  deriving DecidableEq, Repr

/-- The wording of a fault. -/
def LexFault.message : LexFault → String
  | .unexpectedCharacter => "unexpected character"
  | .unterminatedString => "unterminated string literal"
  | .invalidEscape => "invalid escape sequence in string literal"
  | .numberOutOfRange => "number literal out of range"

/-- A piece of text with the kind and value of the token it spells, or with its fault. -/
structure Lexeme where
  text : List Char
  outcome : Except LexFault (TokenKind × TokenValue)

namespace Lexeme

/-! ## Words -/

/-- The value of a word. -/
def wordValue (kind : TokenKind) (word : String) : TokenValue :=
  match kind with
  | .trueWord => .literal (.bool true)
  | .falseWord => .literal (.bool false)
  | .noneWord => .literal .none
  | _ => .text word

/-- A word: as many identifier characters as there are. -/
def word (c : Char) (cs : List Char) : Lexeme :=
  let text := c :: cs.takeWhile isIdentifierPart
  let spelling := String.ofList text
  let kind := TokenKind.ofWord spelling
  ⟨text, .ok (kind, wordValue kind spelling)⟩

/-! ## Numbers -/

/-- The literal of a numeral with its kind: an integer must fit 64 bits with a sign, a float must
be finite. -/
def numberLiteral? (n : Numeral) : Option (TokenKind × Literal) :=
  if n.isWhole then (Literal.ofInt? n.toInt).map (TokenKind.int, ·)
  else (Literal.ofFloat? n.toFloat).map (TokenKind.float, ·)

/-- A number. -/
def number (n : Numeral) : Lexeme where
  text := n.text
  outcome :=
    match numberLiteral? n with
    | some (kind, literal) => .ok (kind, .literal literal)
    | none => .error .numberOutOfRange

/-! ## Strings -/

/-- A string literal with the given opening quote. -/
def quoted (quote : Char) (cs : List Char) : Lexeme :=
  match StringLiteral.body? quote cs with
  -- what never closes is reported up to the end of its line
  | none =>
    ⟨quote :: cs.takeWhile fun c => !StringLiteral.isLineEnd c, .error .unterminatedString⟩
  | some body =>
    let text := quote :: (body ++ [quote])
    match StringLiteral.decode body with
    -- an illegal escape spoils the whole literal
    | none => ⟨text, .error .invalidEscape⟩
    | some value => ⟨text, .ok (.string, .literal (.string (String.ofList value)))⟩

/-! ## Operators and punctuation -/

/-- The operator or punctuation mark at the start of a text; two characters go before one. -/
def symbol? : List Char → Option (TokenKind × List Char)
  | '!' :: '=' :: _ => some (.notEquals, ['!', '='])
  | '!' :: '~' :: _ => some (.notContains, ['!', '~'])
  | '>' :: '=' :: _ => some (.greaterEqual, ['>', '='])
  | '<' :: '=' :: _ => some (.lessEqual, ['<', '='])
  | '=' :: _ => some (.equals, ['='])
  | '>' :: _ => some (.greater, ['>'])
  | '<' :: _ => some (.less, ['<'])
  | '~' :: _ => some (.contains, ['~'])
  | '.' :: _ => some (.dot, ['.'])
  | ',' :: _ => some (.comma, [','])
  | '(' :: _ => some (.openParen, ['('])
  | ')' :: _ => some (.closeParen, [')'])
  | _ => none

/-! ## What stands at the start -/

/-- The lexeme at the start of a text, given its first character and the rest. -/
def start (c : Char) (cs : List Char) : Lexeme :=
  -- the first character tells words, strings, symbols and numbers apart
  if isIdentifierStart c then word c cs
  else if c = '"' || c = '\'' then quoted c cs
  else
    match symbol? (c :: cs) with
    | some (kind, text) => ⟨text, .ok (kind, .text (String.ofList text))⟩
    | none =>
      match Numeral.read? (c :: cs) with
      | some n => number n
      | none => ⟨[c], .error .unexpectedCharacter⟩

/-! ## No lexeme is empty -/

theorem text_ne_nil_of_symbol? {cs : List Char} {kind : TokenKind} {text : List Char}
    (h : symbol? cs = some (kind, text)) : text ≠ [] := by
  unfold symbol? at h
  split at h <;> simp_all <;> rintro rfl <;> simp_all

theorem text_ne_nil_of_readUnsigned? {negative : Bool} {cs : List Char} {n : Numeral}
    (h : Numeral.readUnsigned? negative cs = some n) : n.text ≠ [] := by
  cases hwhole : (Numeral.wholePart cs).isEmpty with
  | true => simp [Numeral.readUnsigned?, hwhole] at h
  | false =>
      simp only [Numeral.readUnsigned?, hwhole, Bool.false_eq_true, if_false,
        Option.some.injEq] at h
      subst h
      intro hnil
      simp only [Numeral.text, List.append_eq_nil_iff] at hnil
      simp [hnil.1.1.2] at hwhole

theorem text_ne_nil_of_read? {cs : List Char} {n : Numeral} (h : Numeral.read? cs = some n) :
    n.text ≠ [] := by
  unfold Numeral.read? at h
  split at h <;> exact text_ne_nil_of_readUnsigned? h

theorem text_ne_nil (c : Char) (cs : List Char) : (start c cs).text ≠ [] := by
  unfold start
  split
  · simp [word]
  · split
    · unfold quoted
      split
      · simp
      · split <;> simp
    · split
      · rename_i h
        exact text_ne_nil_of_symbol? h
      · split
        · rename_i h
          exact text_ne_nil_of_read? h
        · simp

end Lexeme

end FieldFilter
