import FieldFilter.Expr.Printer

/-!
# The wording of broken rules

* `Operand.shown` — an operand with its type, as messages show it;
* `Breach.message` — what is reported when a caller breaks a rule of the constructors.
-/

namespace FieldFilter

/-- A literal with its type, as messages show it. -/
def Literal.shown : Literal → List Char
  | .int value => "Int(".toList ++ Decimal.intText value.toInt ++ [')']
  | .float value => "Float(".toList ++ Literal.floatNotation.render value ++ [')']
  | .string value => "String(".toList ++ Text.shown value.toList ++ [')']
  | .bool true => "Bool(true)".toList
  | .bool false => "Bool(false)".toList
  | .none => "None".toList

/-- An operand with its type, as messages show it. -/
def Operand.shown : Operand → List Char
  | .single value => "Const(".toList ++ value.shown ++ [')']
  | .list values =>
    "List(ConstList \x7b items: [".toList ++ joinCommas (values.items.map Literal.shown) ++
      "] \x7d)".toList

/-- The name of a comparator as messages show it. -/
def Comparator.shown : Comparator → String
  | .equal => "Eq"
  | .notEqual => "Ne"
  | .greater => "Gt"
  | .greaterEqual => "Ge"
  | .less => "Lt"
  | .lessEqual => "Le"
  | .memberOf => "In"
  | .notMemberOf => "NotIn"
  | .contains => "Contains"
  | .notContains => "NotContains"

/-- What is reported when a caller breaks a rule of the constructors. -/
def Breach.message : Breach → List Char
  | .badSegment word => "bad name segment ".toList ++ Text.shown word.toList
  | .refusedOperand op right => op.shown.toList ++ " cannot take ".toList ++ right.shown
  | .notFinite value => "non-finite float literal ".toList ++ Literal.floatNotation.render value
  | .reversedSpan => "attempt to subtract with overflow".toList

end FieldFilter
