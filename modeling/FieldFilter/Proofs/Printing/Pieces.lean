import FieldFilter.Proofs.Grammar
import FieldFilter.Proofs.Lexing.NumeralPatterns
import FieldFilter.Proofs.Lexing.StringLiterals

/-!
# The tokens of the canonical text

* `Literal.piece`, `FieldPath.pieces`, `Comparator.pieces`, `Expr.pieces` — the tokens that the
  canonical spellings consist of;
* `Literal.FloatReadsBack` — a float whose canonical spelling reads back as it;
* `Lexes.literal`, `Lexes.path`, `Lexes.operand`, `Lexes.comparator` — the parts of a comparison
  read as their tokens;
* `Lexes.expr` — and so does the canonical text of a filter.
-/

namespace FieldFilter

/-! ## Pieces -/

def Segment.piece (segment : Segment) : Piece :=
  (.name, .text segment.word)

/-- Names with dots between them. -/
def FieldPath.pieces (path : FieldPath) : List Piece :=
  path.first.piece :: path.rest.flatMap fun segment => [(.dot, .text "."), segment.piece]

def Literal.piece (value : Literal) : Piece :=
  (value.tokenKind, .literal value)

/-- Literals with commas between them, in parentheses. -/
def LiteralList.pieces (list : LiteralList) : List Piece :=
  [(.openParen, .text "(")] ++
    (list.first.piece :: list.rest.flatMap fun value => [(.comma, .text ","), value.piece]) ++
    [(.closeParen, .text ")")]

def Operand.pieces : Operand → List Piece
  | .single value => [value.piece]
  | .list values => values.pieces

/-- A comparator is one token, but for the two words `not in`. -/
def Comparator.pieces : Comparator → List Piece
  | .equal => [(.equals, .text "=")]
  | .notEqual => [(.notEquals, .text "!=")]
  | .greater => [(.greater, .text ">")]
  | .greaterEqual => [(.greaterEqual, .text ">=")]
  | .less => [(.less, .text "<")]
  | .lessEqual => [(.lessEqual, .text "<=")]
  | .memberOf => [(.inWord, .text "in")]
  | .notMemberOf => [(.notWord, .text "not"), (.inWord, .text "in")]
  | .contains => [(.contains, .text "~")]
  | .notContains => [(.notContains, .text "!~")]

def Connective.piece : Connective → Piece
  | .and => (.andWord, .text "and")
  | .or => (.orWord, .text "or")

namespace Expr

/-- Tokens, in parentheses if they need a group. -/
def groupedPieces (needed : Bool) (pieces : List Piece) : List Piece :=
  if needed then [(.openParen, .text "(")] ++ pieces ++ [(.closeParen, .text ")")] else pieces

/-- The tokens of the canonical text. -/
def pieces : Expr → List Piece
  | .comparison path op right => path.pieces ++ op.pieces ++ right.pieces
  | .logical left op right =>
    groupedPieces (left.groupsLeft op) left.pieces ++ [op.piece] ++
      groupedPieces (right.groupsRight op) right.pieces

end Expr

/-! ## Floats that read back -/

/-- The canonical spelling of a float is the numeral of a float, and its value is the float. -/
def Literal.FloatReadsBack (value : Float) : Prop :=
  ∃ n, Numeral.read? (floatNotation.render value) = some n ∧
    n.text = floatNotation.render value ∧ n.isWhole = false ∧ n.toFloat = value

/-- The canonical spelling of every float of the tree that is finite reads back. -/
def Expr.FloatsReadBack (e : Expr) : Prop :=
  ∀ value : Float, .float value ∈ e.literals → value.isFinite = true → Literal.FloatReadsBack value

/-- A literal whose spelling reads back: any but a float must be. -/
def Literal.ReadsBack : Literal → Prop
  | .float value => value.isFinite = true ∧ FloatReadsBack value
  | _ => True

theorem Expr.readsBack {e : Expr} (hfinite : e.Finite) (hfloats : e.FloatsReadBack) :
    ∀ value ∈ e.literals, value.ReadsBack := by
  intro value hmem
  cases value with
  | float value =>
      have hvalue : value.isFinite = true := hfinite _ hmem
      exact ⟨hvalue, hfloats value hmem hvalue⟩
  | _ => trivial

/-! ## The parts of a comparison -/

theorem IsBoundary.nil : IsBoundary [] := by
  simp [IsBoundary]

theorem IsBoundary.cons_space (rest : List Char) : IsBoundary (' ' :: rest) := by
  simp [IsBoundary]

theorem IsBoundary.cons_comma (rest : List Char) : IsBoundary (',' :: rest) := by
  simp [IsBoundary]

theorem IsBoundary.cons_closeParen (rest : List Char) : IsBoundary (')' :: rest) := by
  simp [IsBoundary]

theorem Literal.ofInt?_toInt (value : Int64) : ofInt? value.toInt = some (.int value) := by
  rw [ofInt?, if_pos ⟨value.minValue_le_toInt, value.toInt_le⟩, Int64.ofInt_toInt]

theorem FieldPath.joinDots_cons (w : List Char) (ws : List (List Char)) :
    joinDots (w :: ws) = w ++ ws.flatMap ('.' :: ·) := by
  induction ws generalizing w with
  | nil => simp [joinDots]
  | cons w' ws ih => simp [joinDots, ih]

theorem joinCommas_cons (text : List Char) (texts : List (List Char)) :
    joinCommas (text :: texts) = text ++ texts.flatMap (", ".toList ++ ·) := by
  induction texts generalizing text with
  | nil => simp [joinCommas]
  | cons text' texts ih => simp [joinCommas, ih]

/-- A literal that has a spelling reads as one token in front of what it cannot run into; a string
does in front of anything. -/
theorem LexesAs.literal {value : Literal} {rest : List Char} (hvalue : value.ReadsBack)
    (hrest : value.isString = true ∨ EndsLiteral rest) : LexesAs value.text value.piece rest := by
  have hends : value.isString = false → EndsLiteral rest := fun hstring => by
    simpa [hstring] using hrest
  cases value with
  | int value =>
      have hliteral : Lexeme.numberLiteral?
          ⟨value.toInt < 0, Nat.toDigits 10 value.toInt.natAbs, [], none⟩ =
            some (.int, .int value) := by
        simp [Lexeme.numberLiteral?, Numeral.isWhole, Numeral.toInt_intNumeral,
          Literal.ofInt?_toInt]
      exact number (Numeral.read?_intText _) (Numeral.text_intNumeral _) hliteral (hends rfl)
  | float value =>
      rcases hvalue with ⟨hfinite, n, hread, htext, hwhole, hfloat⟩
      have hliteral : Lexeme.numberLiteral? n = some (.float, .float value) := by
        simp [Lexeme.numberLiteral?, hwhole, hfloat, Literal.ofFloat?, hfinite]
      exact number hread htext hliteral (hends rfl)
  | string value => exact string value rest
  | bool value => cases value <;> exact word (by decide) (hends rfl).endsWord
  | none => exact word (by decide) (hends rfl).endsWord

namespace Lexes

variable {rest : List Char}

theorem literal {value : Literal} (hvalue : value.ReadsBack)
    (hrest : value.isString = true ∨ EndsLiteral rest) : Lexes value.text [value.piece] rest :=
  (LexesAs.literal hvalue hrest).lexes

theorem path (path : FieldPath) (hrest : EndsWord rest) :
    Lexes path.text path.pieces rest := by
  rcases path with ⟨first, segments⟩
  have htext : FieldPath.text ⟨first, segments⟩ =
      first.word.toList ++ segments.flatMap fun segment => '.' :: segment.word.toList := by
    simp [FieldPath.text, FieldPath.words, FieldPath.segments, FieldPath.joinDots_cons,
      List.flatMap_map, Function.comp_def]
  -- behind a word stands a dot or what follows the path
  have hends : ∀ segments : List Segment,
      EndsWord ((segments.flatMap fun segment => '.' :: segment.word.toList) ++ rest) := by
    intro segments
    cases segments with
    | nil => simpa using hrest
    | cons segment segments =>
        rintro c ⟨⟩
        rfl
  have htail : ∀ segments : List Segment,
      Lexes (segments.flatMap fun segment => '.' :: segment.word.toList)
        (segments.flatMap fun segment => [(.dot, .text "."), segment.piece]) rest := by
    intro segments
    induction segments with
    | nil => exact nil
    | cons segment segments ih =>
        simp only [List.flatMap_cons]
        exact (append dot (Lexes.segment segment (hends segments))).append ih
  rw [htext]
  exact append (Lexes.segment first (hends segments)) (htail segments)

theorem list {values : LiteralList} (hvalues : ∀ value ∈ values.items, value.ReadsBack) :
    Lexes values.text values.pieces rest := by
  rcases values with ⟨first, values⟩
  have htext : LiteralList.text ⟨first, values⟩ =
      ['('] ++ (first.text ++ values.flatMap fun value => ',' :: ' ' :: value.text) ++ [')'] := by
    simp [LiteralList.text, LiteralList.items, joinCommas_cons, List.flatMap_map]
  -- behind a literal stands a comma or the closing parenthesis
  have hboundary : ∀ values : List Literal,
      EndsLiteral ((values.flatMap fun value => ',' :: ' ' :: value.text) ++ ([')'] ++ rest)) := by
    intro values
    cases values with
    | nil => exact (IsBoundary.cons_closeParen rest).endsLiteral
    | cons value values => exact (IsBoundary.cons_comma _).endsLiteral
  have htail : ∀ values : List Literal, (∀ value ∈ values, value.ReadsBack) →
      Lexes (values.flatMap fun value => ',' :: ' ' :: value.text)
        (values.flatMap fun value => [(.comma, .text ","), value.piece]) ([')'] ++ rest) := by
    intro values hvalues
    induction values with
    | nil => exact nil
    | cons value values ih =>
        have hvalue : Lexes value.text [value.piece]
            ((values.flatMap fun value => ',' :: ' ' :: value.text) ++ ([')'] ++ rest)) :=
          literal (hvalues value (by simp)) (.inr (hboundary values))
        simp only [List.flatMap_cons]
        exact (append comma hvalue.space).append (ih fun v hv => hvalues v (by simp [hv]))
  have hfirst : Lexes first.text [first.piece]
      ((values.flatMap fun value => ',' :: ' ' :: value.text) ++ ([')'] ++ rest)) :=
    literal (hvalues first (by simp [LiteralList.items])) (.inr (hboundary values))
  have hitems := hfirst.append
    (htail values fun v hv => hvalues v (by simp [LiteralList.items, hv]))
  rw [htext]
  exact (append openParen hitems).append closeParen

theorem operand {right : Operand} (hright : ∀ value ∈ right.literals, value.ReadsBack)
    (hrest : IsBoundary rest) : Lexes right.text right.pieces rest := by
  cases right with
  | single value =>
      exact literal (hright value (by simp [Operand.literals])) (.inr hrest.endsLiteral)
  | list values => exact list hright

theorem comparator (op : Comparator) (hrest : IsBoundary rest) :
    Lexes op.symbol.toList op.pieces rest := by
  cases op with
  | memberOf => exact word (by decide) hrest.endsWord
  | notMemberOf =>
      have hin : Lexes "in".toList [(.inWord, .text "in")] rest := word (by decide) hrest.endsWord
      have hnot : Lexes "not".toList [(.notWord, .text "not")] (' ' :: ("in".toList ++ rest)) :=
        word (by decide) (IsBoundary.cons_space _).endsWord
      exact hnot.append hin.space
  | greater | less =>
      -- these marks start longer ones
      cases rest with
      | nil => exact mark rfl rfl rfl rfl
      | cons c rest => rcases hrest c rfl with rfl | rfl | rfl <;> exact mark rfl rfl rfl rfl
  | _ => exact mark rfl rfl rfl rfl

theorem connective (op : Connective) (hrest : IsBoundary rest) :
    Lexes op.symbol.toList [op.piece] rest := by
  cases op <;> exact word (by decide) hrest.endsWord

/-! ## Filters -/

/-- A text reads in parentheses if it reads in front of every boundary. -/
theorem grouped {text : List Char} {pieces : List Piece} (needed : Bool)
    (h : ∀ rest, IsBoundary rest → Lexes text pieces rest) (hrest : IsBoundary rest) :
    Lexes (Expr.grouped needed text) (Expr.groupedPieces needed pieces) rest := by
  cases needed with
  | false => exact h rest hrest
  | true =>
      have hinside : Lexes text pieces ([')'] ++ rest) := h _ (.cons_closeParen rest)
      exact (append openParen hinside).append closeParen

theorem expr {e : Expr} (he : ∀ value ∈ e.literals, value.ReadsBack) (hrest : IsBoundary rest) :
    Lexes e.text e.pieces rest := by
  induction e generalizing rest with
  | comparison path op right =>
      have hright : Lexes right.text right.pieces rest := operand he hrest
      have hop : Lexes op.symbol.toList op.pieces (' ' :: (right.text ++ rest)) :=
        comparator op (.cons_space _)
      have hpath : EndsWord (' ' :: (op.symbol.toList ++ ' ' :: right.text) ++ rest) :=
        (IsBoundary.cons_space _).endsWord
      rw [Expr.text_comparison, Expr.pieces, List.append_assoc]
      exact (Lexes.path path hpath).append (hop.append hright.space).space
  | logical left op right ihl ihr =>
      have hleft : ∀ rest, IsBoundary rest → Lexes left.text left.pieces rest := fun _ =>
        ihl fun value hvalue => he value (by simp [Expr.literals, hvalue])
      have hright : ∀ rest, IsBoundary rest → Lexes right.text right.pieces rest := fun _ =>
        ihr fun value hvalue => he value (by simp [Expr.literals, hvalue])
      have hword : Lexes op.symbol.toList [op.piece]
          (' ' :: (Expr.grouped (right.groupsRight op) right.text ++ rest)) :=
        connective op (.cons_space _)
      rw [Expr.text_logical, Expr.pieces, List.append_assoc]
      exact (grouped _ hleft (.cons_space _)).append
        (hword.append (grouped _ hright hrest).space).space

end Lexes
end FieldFilter
