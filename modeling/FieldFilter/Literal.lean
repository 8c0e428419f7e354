/-!
# Literals

* `Literal` — a typed constant of a query;
* `LiteralList` — a list of at least one literal.
-/

namespace FieldFilter

/-- A typed constant.  Integers are 64 bit words with a sign. -/
inductive Literal where
  | int (value : Int64)
  | float (value : Float)
  | string (value : String)
  | bool (value : Bool)
  | none
  deriving DecidableEq, Repr

namespace Literal

/-- The name of a literal's type. -/
def kindName : Literal → String
  | .int _ => "int"
  | .float _ => "float"
  | .string _ => "string"
  | .bool _ => "bool"
  | .none => "none"

/-- The literals that can be put in order: integers, floats and strings. -/
def isOrdered : Literal → Bool
  | .int _ | .float _ | .string _ => true
  | .bool _ | .none => false

/-- A string literal. -/
def isString : Literal → Bool
  | .string _ => true
  | _ => false

/-- A literal that has a spelling in queries: every one but the floats that are not finite. -/
def isFinite : Literal → Bool
  | .float value => value.isFinite
  | _ => true

/-- Two literals with the same type and value, floats compared as numbers: zero equals negative
zero and what is not a number equals nothing. -/
def same : Literal → Literal → Bool
  | .int a, .int b => a == b
  | .float a, .float b => a == b
  | .string a, .string b => a == b
  | .bool a, .bool b => a == b
  | .none, .none => true
  | _, _ => false

/-- An integer as a literal, if it fits 64 bits with a sign. -/
def ofInt? (value : Int) : Option Literal :=
  if Int64.minValue.toInt ≤ value ∧ value ≤ Int64.maxValue.toInt then
    some (.int (Int64.ofInt value))
  else Option.none

/-- A float as a literal, if it is finite. -/
def ofFloat? (value : Float) : Option Literal :=
  if value.isFinite then some (.float value) else Option.none

end Literal

/-! ## Lists -/

/-- A list of at least one literal. -/
structure LiteralList where
  first : Literal
  rest : List Literal
  deriving DecidableEq, Repr

namespace LiteralList

/-- The list of one literal. -/
def single (item : Literal) : LiteralList :=
  ⟨item, []⟩

/-- A list with one more literal at its end. -/
def push (list : LiteralList) (item : Literal) : LiteralList :=
  { list with rest := list.rest ++ [item] }

/-- The literals of a list, in order. -/
def items (list : LiteralList) : List Literal :=
  list.first :: list.rest

/-- The last literal of a list. -/
def last (list : LiteralList) : Literal :=
  list.rest.getLastD list.first

/-- The list of given literals, if there is one. -/
def ofItems? : List Literal → Option LiteralList
  | [] => none
  | first :: rest => some ⟨first, rest⟩

/-- The wording of the refusal of an empty list. -/
def emptyMessage : String :=
  "literal list must not be empty"

@[simp] theorem items_single (item : Literal) : (single item).items = [item] := rfl

@[simp] theorem items_push (list : LiteralList) (item : Literal) :
    (list.push item).items = list.items ++ [item] := by
  simp [items, push]

end LiteralList

end FieldFilter
