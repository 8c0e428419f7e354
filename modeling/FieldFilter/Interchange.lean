import FieldFilter.Expr.Printer
import FieldFilter.Completion
import FieldFilter.Json
import FieldFilter.Json.Reading

/-!
# Filters as JSON documents

* `Expr.toJson`, `Operand.toJson`, `Literal.toJson`, … — the documents of filters and their parts;
* `Expr.fromJson`, `Operand.fromJson`, `Literal.fromJson`, … — readers of such documents, which
  accept only what keeps the rules of the data.
-/

namespace FieldFilter

open Json (Reader)
open Json.Reader (Case listOf record variant checked document maxNesting)

/-! ## Writing -/

/-- A path is the array of its words. -/
def FieldPath.toJson (path : FieldPath) : Json :=
  .array (path.words.map fun word => .string word.toList)

/-- A literal names its type; a missing value is a name alone. -/
def Literal.toJson : Literal → Json
  | .int value => .object [("int", .int value.toInt)]
  | .float value => .object [("float", .float value)]
  | .string value => .object [("string", .string value.toList)]
  | .bool value => .object [("bool", .bool value)]
  | .none => .string "none".toList

/-- A list is the array of its literals. -/
def LiteralList.toJson (list : LiteralList) : Json :=
  .array (list.items.map Literal.toJson)

/-- An operand tells a single literal from a list. -/
def Operand.toJson : Operand → Json
  | .single value => .object [("const", value.toJson)]
  | .list values => .object [("list", values.toJson)]

/-- The name of a comparator in documents. -/
def Comparator.key : Comparator → String
  | .equal => "eq"
  | .notEqual => "ne"
  | .greater => "gt"
  | .greaterEqual => "ge"
  | .less => "lt"
  | .lessEqual => "le"
  | .memberOf => "in"
  | .notMemberOf => "not_in"
  | .contains => "contains"
  | .notContains => "not_contains"

/-- The name of a connective in documents. -/
def Connective.key : Connective → String
  | .and => "and"
  | .or => "or"

/-- A filter as a document. -/
def Expr.toJson : Expr → Json
  | .comparison path op right =>
    .object [("comparison", .object [("left", path.toJson),
      ("operator", .string op.key.toList), ("right", right.toJson)])]
  | .logical left op right =>
    .object [("logical", .object [("left", left.toJson),
      ("operator", .string op.key.toList), ("right", right.toJson)])]

/-- A span as a document. -/
def Span.toJson (span : Span) : Json :=
  .object [("start", .int span.start), ("end", .int span.stop)]

/-- A position as a document. -/
def Position.toJson (position : Position) : Json :=
  .object [("line", .int position.line), ("column", .int position.column)]

/-- A completion as a document. -/
def Completion.toJson (completion : Completion) : Json :=
  .object [("prefix", .string completion.typed),
    ("scope", (completion.scope.map fun scope => Json.string scope.name.toList).getD .null),
    ("path", (completion.path.map FieldPath.toJson).getD .null)]

/-! ## Reading words and operands -/

/-- Reads a path: an array of words that may stand in one. -/
def FieldPath.fromJson (room : Nat) : Reader FieldPath :=
  checked (listOf room Reader.string) fun words =>
    (ofWords (words.map String.ofList)).mapError FieldPathError.message

/-- The documents of literals. -/
def Literal.cases : List (String × Case Literal) :=
  [("int", .carrying fun cs => do
      let (value, rest) ← Reader.integer cs
      return (.int value, rest)),
    ("float", .carrying fun cs => do
      let (value, rest) ← Reader.float cs
      return (.float value, rest)),
    ("string", .carrying fun cs => do
      let (value, rest) ← Reader.string cs
      return (.string (String.ofList value), rest)),
    ("bool", .carrying fun cs => do
      let (value, rest) ← Reader.boolean cs
      return (.bool value, rest)),
    ("none", .plain .none)]

/-- The rule that floats of documents are finite. -/
def Literal.finiteMessage : String :=
  "float literal must be finite"

/-- A literal that keeps the rules of documents. -/
def Literal.checkFinite (value : Literal) : Except String Literal :=
  if value.isFinite then .ok value else .error finiteMessage

/-- Reads a literal. -/
def Literal.fromJson (room : Nat) : Reader Literal :=
  checked (variant room cases) checkFinite

/-- Reads a list of at least one literal. -/
def LiteralList.fromJson (room : Nat) : Reader LiteralList :=
  checked (listOf room (Literal.fromJson (room - 1))) fun items =>
    match ofItems? items with
    | some list => .ok list
    | none => .error emptyMessage

/-- Reads an operand. -/
def Operand.fromJson (room : Nat) : Reader Operand :=
  variant room
    [("const", .carrying fun cs => do
        let (value, rest) ← Literal.fromJson (room - 1) cs
        return (.single value, rest)),
      ("list", .carrying fun cs => do
        let (values, rest) ← LiteralList.fromJson (room - 1) cs
        return (.list values, rest))]

/-- Reads a comparator. -/
def Comparator.fromJson (room : Nat) : Reader Comparator :=
  variant room
    (([.equal, .notEqual, .greater, .greaterEqual, .less, .lessEqual, .memberOf, .notMemberOf,
      .contains, .notContains] : List Comparator).map fun op => (op.key, .plain op))

/-- Reads a connective. -/
def Connective.fromJson (room : Nat) : Reader Connective :=
  variant room (([.and, .or] : List Connective).map fun op => (op.key, .plain op))

/-! ## Reading filters -/

/-- A record with a left side, an operator and a right side that is being read. -/
structure Draft (α β γ : Type) where
  left : Option α := none
  operator : Option β := none
  right : Option γ := none

namespace Draft

/-- The fields of such a record. -/
def fields {α β γ : Type} (left : Reader α) (operator : Reader β) (right : Reader γ) :
    List (Json.Reader.Field (Draft α β γ)) :=
  [⟨"left", fun draft => draft.left.isSome, fun draft cs => do
      let (value, rest) ← left cs
      return ({ draft with left := some value }, rest)⟩,
    ⟨"operator", fun draft => draft.operator.isSome, fun draft cs => do
      let (value, rest) ← operator cs
      return ({ draft with operator := some value }, rest)⟩,
    ⟨"right", fun draft => draft.right.isSome, fun draft cs => do
      let (value, rest) ← right cs
      return ({ draft with right := some value }, rest)⟩]

/-- The record once all three fields are there. -/
def finish {α β γ δ : Type} (make : α → β → γ → δ) (draft : Draft α β γ) : Option δ := do
  return make (← draft.left) (← draft.operator) (← draft.right)

end Draft

namespace Expr

/-- The rule of comparisons, checked once the document of a filter is complete: the comparator takes
the operand. -/
def checkOperand : Expr → Except String Expr
  | .comparison path op right =>
    (Expr.compare path op right).mapError fun _ => refusalMessage op right
  | e => .ok e

theorem checkOperand_of_accepts {op : Comparator} {right : Operand} (path : FieldPath)
    (h : op.accepts right = true) :
    checkOperand (.comparison path op right) = .ok (.comparison path op right) := by
  rw [checkOperand, compare, if_pos h]
  rfl

theorem checkOperand_of_refused {op : Comparator} {right : Operand} (path : FieldPath)
    (h : op.accepts right = false) :
    checkOperand (.comparison path op right) = .error (refusalMessage op right) := by
  rw [checkOperand, compare, if_neg (by simp [h])]
  rfl

/-- Reads a filter whose children are read by `child`. -/
def readNode (room : Nat) (child : Reader Expr) : Reader Expr :=
  checked
    (variant room
      [("comparison", .carrying (record (room - 1)
          (Draft.fields (FieldPath.fromJson (room - 2)) (Comparator.fromJson (room - 2))
            (Operand.fromJson (room - 2)))
          {} (Draft.finish .comparison))),
        ("logical", .carrying (record (room - 1)
          (Draft.fields child (Connective.fromJson (room - 2)) child)
          {} (Draft.finish .logical)))])
    checkOperand

/-- Reads a filter.  A filter opens two brackets around its children, so with less room than that no
child is reached. -/
def fromJson : Nat → Reader Expr
  | 0 => readNode 0 fun _ => .error .malformed
  | 1 => readNode 1 fun _ => .error .malformed
  | room + 2 => readNode (room + 2) (fromJson room)

end Expr

/-! ## Reading places -/

/-- A pair of numbers that is being read. -/
structure PairDraft where
  first : Option Nat := none
  second : Option Nat := none

/-- Reads a record of two numbers. -/
def PairDraft.read {α : Type} (room : Nat) (first second : String) (make : Nat → Nat → α) :
    Reader α :=
  record room
    [⟨first, fun draft => draft.first.isSome, fun draft cs => do
        let (value, rest) ← Reader.natural cs
        return ({ draft with first := some value }, rest)⟩,
      ⟨second, fun draft => draft.second.isSome, fun draft cs => do
        let (value, rest) ← Reader.natural cs
        return ({ draft with second := some value }, rest)⟩]
    {} fun (draft : PairDraft) => do return make (← draft.first) (← draft.second)

/-- Reads a span. -/
def Span.fromJson (room : Nat) : Reader Span :=
  PairDraft.read room "start" "end" Span.mk

/-- Reads a position. -/
def Position.fromJson (room : Nat) : Reader Position :=
  PairDraft.read room "line" "column" Position.mk

/-- The filter that a whole document holds. -/
def Expr.ofDocument (cs : List Char) : Except Json.ReadError Expr :=
  document (Expr.fromJson maxNesting) cs

end FieldFilter
