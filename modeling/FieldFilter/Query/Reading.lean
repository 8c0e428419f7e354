import FieldFilter.Query.Failure

/-!
# Reading a query token by token

A query is read by a machine that takes one token at a time.  It knows the groups that are open,
the operands in each that still wait for their right side, and what may come next.

* `Level` — the waiting operands of one group;
* `Awaiting` — what may come next;
* `Reading` — a state of the machine, `Reading.step` — what one token does to it;
* `Reading.finish` — the filter that has been read when the tokens end.

`and` binds tighter than `or`, and both associate to the left: an operand is joined to what waits
in its group as soon as it is complete.
-/

namespace FieldFilter

/-! ## Open groups -/

/-- The operands of one group that still wait for their right side: the left side of an `or`, and
the left side of an `and`. -/
structure Level where
  disjunct : Option Expr := none
  conjunct : Option Expr := none
  deriving DecidableEq, Repr

namespace Level

/-- An operand joined to the left side of an `and`, if one waits. -/
def conjoin (level : Level) (operand : Expr) : Expr :=
  match level.conjunct with
  | none => operand
  | some left => .logical left .and operand

/-- An operand joined to everything that waits. -/
def close (level : Level) (operand : Expr) : Expr :=
  match level.disjunct with
  | none => level.conjoin operand
  | some left => .logical left .or (level.conjoin operand)

/-- What waits after an operand and a connective. -/
def extend (level : Level) (operand : Expr) : Connective → Level
  | .and => { level with conjunct := some (level.conjoin operand) }
  | .or => { disjunct := some (level.close operand) }

end Level

/-! ## What may come next -/

/-- What may come next. -/
inductive Awaiting where
  /-- a group or a comparison -/
  | operand
  /-- more of a path, or its comparator -/
  | path (path : FieldPath)
  /-- the segment after a dot -/
  | segment (path : FieldPath)
  /-- the second word of `not in` -/
  | inWord (path : FieldPath)
  /-- a single literal -/
  | value (path : FieldPath) (op : Comparator)
  /-- the parenthesis that opens a list -/
  | list (path : FieldPath) (op : Comparator)
  /-- the first literal of a list -/
  | firstItem (path : FieldPath) (op : Comparator)
  /-- one more literal of a list -/
  | nextItem (path : FieldPath) (op : Comparator) (items : LiteralList)
  /-- a comma, or the end of a list -/
  | separator (path : FieldPath) (op : Comparator) (items : LiteralList)
  /-- a connective, the end of a group, or the end of the query -/
  | connective (operand : Expr)
  deriving DecidableEq, Repr

/-- What a comparator expects when a single literal follows it. -/
def Comparator.expectation (op : Comparator) : Expectation :=
  match op with
  | .greater | .greaterEqual | .less | .lessEqual => .orderedLiteral
  | .contains | .notContains => .stringLiteral
  | _ => .literal

/-- Whether a literal meets an expectation of literals. -/
def Expectation.admits : Expectation → Literal → Bool
  | .orderedLiteral, value => value.isOrdered
  | .stringLiteral, value => value.isString
  | _, _ => true

/-- What an error names as expected, inside or outside a group. -/
def Awaiting.expectation (nested : Bool) : Awaiting → Expectation
  | .operand => .operand
  | .path _ => .comparator
  | .segment _ => .token .name
  | .inWord _ => .token .inWord
  | .value _ op => op.expectation
  | .list _ _ => .token .openParen
  | .firstItem _ _ => .literal
  | .nextItem _ _ _ => .literal
  | .separator _ _ _ => .listSeparator
  | .connective _ => if nested then .token .closeParen else .connectiveOrEnd

/-! ## States -/

/-- A state of the machine: the groups around the present one, innermost first, the present one,
and what may come next. -/
structure Reading where
  outer : List Level := []
  inner : Level := {}
  awaiting : Awaiting := .operand
  deriving DecidableEq, Repr

namespace Reading

/-- How many groups are open. -/
def depth (r : Reading) : Nat :=
  r.outer.length

/-- The same groups with something else awaited. -/
def await (r : Reading) (awaiting : Awaiting) : Reading :=
  { r with awaiting }

/-- What an error names as expected. -/
def expectation (r : Reading) : Expectation :=
  r.awaiting.expectation (!r.outer.isEmpty)

/-- The failure for a token that may not come next. -/
def reject (r : Reading) (token : Token) : Except Failure Reading :=
  .error (.unexpected r.expectation token)

/-- The state after a whole comparison. -/
def compared (r : Reading) (path : FieldPath) (op : Comparator) (right : Operand) :
    Except Failure Reading :=
  match Expr.compare path op right with
  | .ok operand => .ok (r.await (.connective operand))
  | .error breach => .error (.broken breach)

/-- The segment that a name token stands for. -/
def segmentOf (token : Token) : Except Failure Segment :=
  match Segment.ofWord? token.valueText with
  | some segment => .ok segment
  | none => .error (.broken (.badSegment token.valueText))

/-- The state after a connective or a closing parenthesis that follows an operand. -/
def joined (r : Reading) (operand : Expr) (token : Token) : Except Failure Reading :=
  match token.kind.connective?, token.kind, r.outer with
  -- what binds tighter, or as tight but further left, is joined before the connective is taken
  | some op, _, _ =>
    .ok { r with inner := r.inner.extend operand op, awaiting := .operand }
  -- a whole group is an operand of the group around it
  | none, .closeParen, level :: outer =>
    .ok { outer, inner := level, awaiting := .connective (r.inner.close operand) }
  | none, _, _ => r.reject token

/-- The state after one more token.  `limit` groups may be open at once, `leaked` of which were
left open by earlier queries that failed. -/
def step (limit leaked : Nat) (r : Reading) (token : Token) : Except Failure Reading :=
  match r.awaiting with
  | .operand =>
    match token.kind with
    -- a group starts with nothing waiting in it
    | .openParen =>
      if leaked + r.depth < limit then .ok { outer := r.inner :: r.outer }
      else .error (.unexpected (.nesting limit) token)
    | .name => do
      let segment ← segmentOf token
      return r.await (.path (.single segment))
    | _ => r.reject token
  | .path path =>
    match token.kind with
    -- `in` and `not in` take a list, every other comparator a single literal
    | .dot => .ok (r.await (.segment path))
    | .inWord => .ok (r.await (.list path .memberOf))
    | .notWord => .ok (r.await (.inWord path))
    | kind =>
      match kind.comparator? with
      | some op => .ok (r.await (.value path op))
      | none => r.reject token
  | .segment path =>
    if token.kind = .name then do
      let segment ← segmentOf token
      return r.await (.path (path.push segment))
    else
      r.reject token
  | .inWord path =>
    if token.kind = .inWord then .ok (r.await (.list path .notMemberOf)) else r.reject token
  | .value path op =>
    match token.literal? with
    | some value =>
      if op.expectation.admits value then r.compared path op (.single value) else r.reject token
    | none => r.reject token
  | .list path op =>
    if token.kind = .openParen then .ok (r.await (.firstItem path op)) else r.reject token
  | .firstItem path op =>
    match token.literal? with
    | some value => .ok (r.await (.separator path op (.single value)))
    | none => r.reject token
  | .nextItem path op items =>
    match token.literal? with
    | some value => .ok (r.await (.separator path op (items.push value)))
    | none => r.reject token
  | .separator path op items =>
    match token.kind with
    -- a comma is always followed by one more literal
    | .comma => .ok (r.await (.nextItem path op items))
    | .closeParen => r.compared path op (.list items)
    | _ => r.reject token
  | .connective operand => r.joined operand token

/-- What has been read when the tokens end. -/
def finish (r : Reading) : Except Failure Expr :=
  match r.awaiting, r.outer with
  | .connective operand, [] => .ok (r.inner.close operand)
  | _, _ => .error (.grammatical (.unexpectedEnd r.expectation))

end Reading

end FieldFilter
