import FieldFilter.FieldPath
import FieldFilter.Operator

/-!
# Filter expressions

* `Expr` — a tree of comparisons joined by connectives;
* `Expr.depth`, `Expr.paths` — its height and the paths it mentions;
* `Expr.WellTyped`, `Expr.Finite` — every comparator takes its operand, every float has a spelling;
* `Breach` — a rule of the constructors that a caller broke.
-/

namespace FieldFilter

/-- A filter: comparisons at the leaves, connectives above them.  Groups leave no trace. -/
inductive Expr where
  | comparison (path : FieldPath) (op : Comparator) (right : Operand)
  | logical (left : Expr) (op : Connective) (right : Expr)
  deriving DecidableEq, Repr

/-! ## Broken rules -/

/-- A rule of the constructors that a caller broke. -/
inductive Breach where
  /-- a path was built from a word that may not stand in one -/
  | badSegment (word : String)
  /-- a comparison was built with an operand that its comparator does not take -/
  | refusedOperand (op : Comparator) (right : Operand)
  /-- a literal was built from a float that is not finite -/
  | notFinite (value : Float)
  /-- the length was asked of a span that ends before it starts -/
  | reversedSpan
  deriving DecidableEq, Repr

namespace Expr

/-! ## Constructors -/

/-- A comparison whose comparator takes the operand; anything else breaks a rule. -/
def compare (path : FieldPath) (op : Comparator) (right : Operand) : Except Breach Expr :=
  if op.accepts right then .ok (.comparison path op right)
  else .error (.refusedOperand op right)

/-- The wording of the refusal of an operand that comes from outside. -/
def refusalMessage (op : Comparator) (right : Operand) : String :=
  "operator '" ++ op.symbol ++ "' does not take a " ++ right.kindName ++ " operand"

/-! ## Measures -/

/-- A leaf of the tree. -/
def isComparison : Expr → Bool
  | .comparison .. => true
  | .logical .. => false

/-- The height of the tree; a single comparison has height one. -/
def depth : Expr → Nat
  | .comparison .. => 1
  | .logical left _ right => 1 + max left.depth right.depth

/-- The paths that the comparisons mention, from left to right. -/
def paths : Expr → List FieldPath
  | .comparison path _ _ => [path]
  | .logical left _ right => left.paths ++ right.paths

/-- The literals that the comparisons mention, from left to right. -/
def literals : Expr → List Literal
  | .comparison _ _ right => right.literals
  | .logical left _ right => left.literals ++ right.literals

/-- Two trees of one shape whose literals agree as values. -/
def same : Expr → Expr → Bool
  | .comparison p op r, .comparison p' op' r' => p == p' && op == op' && r.same r'
  | .logical l op r, .logical l' op' r' => l.same l' && op == op' && r.same r'
  | _, _ => false

/-! ## Rules of the tree -/

/-- Every comparator takes its operand. -/
def WellTyped : Expr → Prop
  | .comparison _ op right => op.accepts right = true
  | .logical left _ right => left.WellTyped ∧ right.WellTyped

/-- Every float of the tree is finite, so every literal has a spelling. -/
def Finite (e : Expr) : Prop :=
  ∀ value ∈ e.literals, value.isFinite = true

end Expr

end FieldFilter
