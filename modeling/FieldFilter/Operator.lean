import FieldFilter.Literal

/-!
# Operators and operands

* `Comparator` — how a field is compared, `Operand` — what it is compared with;
* `Comparator.accepts` — which operands a comparator takes;
* `Connective` — how two filters are joined, and how tightly.
-/

namespace FieldFilter

/-! ## Operands -/

/-- The right side of a comparison. -/
inductive Operand where
  | single (value : Literal)
  | list (values : LiteralList)
  deriving DecidableEq, Repr

namespace Operand

/-- The literals of an operand, in order. -/
def literals : Operand → List Literal
  | .single value => [value]
  | .list values => values.items

/-- The name of an operand's type. -/
def kindName : Operand → String
  | .single value => value.kindName
  | .list _ => "list"

/-- Two operands of one shape whose literals agree as values. -/
def same : Operand → Operand → Bool
  | .single a, .single b => a.same b
  | .list as, .list bs =>
    as.items.length == bs.items.length && (as.items.zip bs.items).all fun (a, b) => a.same b
  | _, _ => false

end Operand

/-! ## Comparators -/

/-- How a field is compared. -/
inductive Comparator where
  | equal
  | notEqual
  | greater
  | greaterEqual
  | less
  | lessEqual
  | memberOf
  | notMemberOf
  | contains
  | notContains
  deriving DecidableEq, Repr

namespace Comparator

/-- A comparator as a query spells it. -/
def symbol : Comparator → String
  | .equal => "="
  | .notEqual => "!="
  | .greater => ">"
  | .greaterEqual => ">="
  | .less => "<"
  | .lessEqual => "<="
  | .memberOf => "in"
  | .notMemberOf => "not in"
  | .contains => "~"
  | .notContains => "!~"

/-- The comparators that take every literal. -/
def isEquality : Comparator → Bool
  | .equal | .notEqual => true
  | _ => false

/-- The comparators that need an order. -/
def isOrdering : Comparator → Bool
  | .greater | .greaterEqual | .less | .lessEqual => true
  | _ => false

/-- The comparators that look a value up in a list. -/
def isMembership : Comparator → Bool
  | .memberOf | .notMemberOf => true
  | _ => false

/-- The comparators that look for a part of a string. -/
def isContainment : Comparator → Bool
  | .contains | .notContains => true
  | _ => false

/-- Whether a comparator takes a single literal. -/
def acceptsLiteral (op : Comparator) (value : Literal) : Bool :=
  if op.isOrdering then value.isOrdered
  else if op.isContainment then value.isString
  else op.isEquality

/-- Whether a comparator takes an operand. -/
def accepts (op : Comparator) : Operand → Bool
  | .single value => op.acceptsLiteral value
  | .list _ => op.isMembership

end Comparator

/-! ## Connectives -/

/-- How two filters are joined. -/
inductive Connective where
  | and
  | or
  deriving DecidableEq, Repr

namespace Connective

/-- A connective as a query spells it. -/
def symbol : Connective → String
  | .and => "and"
  | .or => "or"

/-- How tightly a connective binds; the greater number binds tighter. -/
def precedence : Connective → Nat
  | .or => 1
  | .and => 2

end Connective

end FieldFilter
