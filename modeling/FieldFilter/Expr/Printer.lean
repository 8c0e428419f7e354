import FieldFilter.Expr
import FieldFilter.StringLiteral
import FieldFilter.Decimal.Integer
import FieldFilter.Decimal.Notation

/-!
# The canonical text of a filter

* `Literal.text`, `LiteralList.text`, `Operand.text`, `Expr.text` — the canonical spellings;
* `Literal.floatNotation` — how queries write floats.

Parentheses stand only where precedence and association to the left would read another tree.
-/

namespace FieldFilter

/-! ## Operands -/

namespace Literal

/-- Queries write floats with a point or an exponent, so that they read back as floats:
positionally from 0.0001 up to, not including, 10 to the power 16. -/
def floatNotation : Decimal.Notation where
  plainFrom := -4
  plainBelow := 16
  signedExponent := false
  tie := .up
  nan := "NaN".toList
  infinity := "inf".toList
  signedInfinity := true

/-- A literal as a query spells it. -/
def text : Literal → List Char
  | .int value => Decimal.intText value.toInt
  | .float value => floatNotation.render value
  | .string value => StringLiteral.encode value.toList
  | .bool true => "True".toList
  | .bool false => "False".toList
  | .none => "None".toList

end Literal

/-- Texts with a comma and a space between them. -/
def joinCommas : List (List Char) → List Char
  | [] => []
  | [text] => text
  | text :: texts => text ++ ", ".toList ++ joinCommas texts

/-- A list as a query spells it. -/
def LiteralList.text (list : LiteralList) : List Char :=
  ['('] ++ joinCommas (list.items.map Literal.text) ++ [')']

/-- An operand as a query spells it. -/
def Operand.text : Operand → List Char
  | .single value => value.text
  | .list values => values.text

/-! ## Expressions -/

namespace Expr

/-- Whether the left child of a connective needs a group of its own. -/
def groupsLeft (child : Expr) (parent : Connective) : Bool :=
  match child with
  | .comparison .. => false
  | .logical _ op _ => op.precedence < parent.precedence

/-- Whether the right child of a connective needs a group of its own. -/
def groupsRight (child : Expr) (parent : Connective) : Bool :=
  match child with
  | .comparison .. => false
  | .logical _ op _ => op.precedence ≤ parent.precedence

/-- The canonical text of a filter in front of more text. -/
def write : Expr → List Char → List Char
  | .comparison path op right, rest =>
    path.text ++ ' ' :: (op.symbol.toList ++ ' ' :: (right.text ++ rest))
  -- from the right end to the left, so that every part is written once
  | .logical left op right, rest =>
    let rest :=
      if right.groupsRight op then '(' :: right.write (')' :: rest) else right.write rest
    let rest := ' ' :: (op.symbol.toList ++ ' ' :: rest)
    if left.groupsLeft op then '(' :: left.write (')' :: rest) else left.write rest

/-- The canonical text of a filter. -/
def text (e : Expr) : List Char :=
  e.write []

/-- A text, in parentheses if it needs a group. -/
def grouped (needed : Bool) (text : List Char) : List Char :=
  if needed then '(' :: (text ++ [')']) else text

theorem write_append (e : Expr) (cs ds : List Char) :
    e.write (cs ++ ds) = e.write cs ++ ds := by
  induction e generalizing cs with
  | comparison path op right => simp [write]
  | logical left op right ihl ihr =>
      cases hl : left.groupsLeft op <;> cases hr : right.groupsRight op <;>
        simp only [write, hl, hr, Bool.false_eq_true, if_true, if_false, ← List.cons_append,
          ← List.append_assoc, ihl, ihr]

theorem write_eq (e : Expr) (rest : List Char) : e.write rest = e.text ++ rest :=
  e.write_append [] rest

theorem text_comparison (path : FieldPath) (op : Comparator) (right : Operand) :
    (comparison path op right).text =
      path.text ++ ' ' :: (op.symbol.toList ++ ' ' :: right.text) := by
  simp [text, write]

theorem text_logical (left : Expr) (op : Connective) (right : Expr) :
    (logical left op right).text =
      grouped (left.groupsLeft op) left.text ++
        ' ' :: (op.symbol.toList ++ ' ' :: grouped (right.groupsRight op) right.text) := by
  rw [text]
  cases hl : left.groupsLeft op <;> cases hr : right.groupsRight op <;>
    simp [write, hl, hr, grouped, write_eq]

end Expr

end FieldFilter
