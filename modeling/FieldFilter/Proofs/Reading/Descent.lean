import FieldFilter.Query

/-!
# Reading by recursive descent

A query can also be read by functions that call each other as its parts are nested.  They take
tokens on demand, through a buffer for one token that has been looked at but not taken.

* `Supply` — tokens one at a time, `TokenStream.pull` — the tokens of a text;
* `Descent`, `Descent.Action` — the state of the reader, and what it does to the state;
* `Descent.fill`, `Descent.peek`, `Descent.advance`, `Descent.consume` — looking at and taking tokens;
* `Descent.expression`, `Descent.query` — filters by precedence, and whole queries;
* `Query.descend` — the filter that a text stands for, read on demand.

Nested calls draw on a budget, and loops on a number of steps; without either there is no result.
-/

namespace FieldFilter

/-! ## Tokens on demand -/

/-- Where tokens come from: the next one and what is left, nothing at the end, or a fault. -/
abbrev Supply (σ : Type) : Type :=
  σ → Except LexError (Option (Token × σ))

/-- The next token of a text from a place on.  Nothing behind it is looked at. -/
def TokenStream.pull : Supply (Place × List Char)
  | (place, cs) =>
    let place := place.afterText (cs.takeWhile isSeparator)
    match cs.dropWhile isSeparator with
    | [] => .ok none
    | c :: rest =>
      let lexeme := Lexeme.start c rest
      let next := place.afterText lexeme.text
      let span : Span := ⟨place.offset, next.offset⟩
      match lexeme.outcome with
      | .error fault => .error ⟨fault, String.ofList lexeme.text, place.position, span⟩
      | .ok (kind, value) =>
        .ok (some (⟨kind, value, span, place.position⟩, next, (c :: rest).drop lexeme.text.length))

/-! ## The state of the reader -/

/-- What is left of the supply, the token that has been looked at but not taken, and how many
groups are open. -/
structure Descent (σ : Type) where
  supply : σ
  buffer : Option Token := none
  depth : Nat := 0

namespace Descent

/-- Something the reader does to its state; there is no result when a budget is used up. -/
abbrev Action (σ α : Type) : Type :=
  StateT (Descent σ) (ExceptT Failure Option) α

variable {σ α : Type}

/-- A budget is used up. -/
def exhausted : Action σ α :=
  fun _ => ExceptT.mk none

/-- A result that does not depend on the state. -/
def ofExcept (result : Except Failure α) : Action σ α :=
  fun s => ExceptT.mk (some (result.map (·, s)))

/-- The token cannot stand where it does. -/
def reject (expected : Expectation) (token : Token) : Action σ α :=
  ofExcept (.error (.unexpected expected token))

variable (next : Supply σ)

/-- Makes sure that the next token is in the buffer, if there is one. -/
def fill : Action σ Unit := do
  let s ← get
  if s.buffer.isNone then
    match next s.supply with
    | .error error => throw (.lexical error)
    | .ok none => return ()
    | .ok (some (token, supply)) => set { s with supply, buffer := some token }

/-- The kind of the next token, which is not taken. -/
def peek : Action σ (Option TokenKind) := do
  fill next
  let s ← get
  return s.buffer.map Token.kind

/-- Takes the next token; at the end there is none. -/
def advance (expected : Expectation) : Action σ Token := do
  fill next
  let s ← get
  match s.buffer with
  | none => throw (.grammatical (.unexpectedEnd expected))
  | some token =>
    set { s with buffer := none }
    return token

/-- Takes the next token, which has to be of a kind. -/
def consume (kind : TokenKind) : Action σ Token := do
  let token ← advance next (.token kind)
  if token.kind = kind then return token else reject (.token kind) token

/-! ## Comparisons -/

/-- The segments that follow a path. -/
def segments : Nat → FieldPath → Action σ FieldPath
  | 0, _ => exhausted
  | steps + 1, path => do
    if (← peek next) = some .dot then
      let _ ← advance next (.token .dot)
      let token ← consume next .name
      let segment ← ofExcept (Reading.segmentOf token)
      segments steps (path.push segment)
    else
      return path

/-- A path. -/
def path (steps : Nat) : Action σ FieldPath := do
  let token ← consume next .name
  let segment ← ofExcept (Reading.segmentOf token)
  segments next steps (.single segment)

/-- A literal that meets an expectation. -/
def literal (expected : Expectation) : Action σ Literal := do
  let token ← advance next expected
  match token.literal? with
  | some value => if expected.admits value then return value else reject expected token
  | none => reject expected token

/-- The rest of a list after some of its literals. -/
def items : Nat → LiteralList → Action σ LiteralList
  | 0, _ => exhausted
  | steps + 1, values => do
    let token ← advance next .listSeparator
    match token.kind with
    | .comma => do
      let value ← literal next .literal
      items steps (values.push value)
    | .closeParen => return values
    | _ => reject .listSeparator token

/-- A list of literals in parentheses. -/
def list (steps : Nat) : Action σ LiteralList := do
  let _ ← consume next .openParen
  let first ← literal next .literal
  items next steps (.single first)

/-- The comparison of a path with an operand. -/
def compared (path : FieldPath) (op : Comparator) (right : Operand) : Action σ Expr :=
  ofExcept ((Expr.compare path op right).mapError Failure.broken)

/-- The comparison of a path with the literal that comes next. -/
def single (path : FieldPath) (op : Comparator) : Action σ Expr := do
  let value ← literal next op.expectation
  compared path op (.single value)

/-- The comparison of a path with the list that comes next. -/
def membership (steps : Nat) (path : FieldPath) (op : Comparator) : Action σ Expr := do
  let values ← list next steps
  compared path op (.list values)

/-- A comparison. -/
def comparison (steps : Nat) : Action σ Expr := do
  let path ← path next steps
  let token ← advance next .comparator
  match token.kind with
  | .inWord => membership next steps path .memberOf
  | .notWord => do
    let _ ← consume next .inWord
    membership next steps path .notMemberOf
  | kind =>
    match kind.comparator? with
    | some op => single next path op
    | none => reject .comparator token

/-! ## Filters -/

variable (limit : Nat)

/-- The rest of a group that a token has opened, given how nested filters are read. -/
def group (nested : Nat → Action σ Expr) (token : Token) : Action σ Expr := do
  let s ← get
  if s.depth < limit then
    set { s with depth := s.depth + 1 }
    let inner ← nested 0
    let _ ← consume next .closeParen
    modify fun s => { s with depth := s.depth - 1 }
    return inner
  else
    reject (.nesting limit) token

/-- A group or a comparison. -/
def primary (nested : Nat → Action σ Expr) (steps : Nat) : Action σ Expr := do
  match ← peek next with
  | some .openParen => do
    let token ← advance next .operand
    group next limit nested token
  | some .name => comparison next steps
  | _ => do
    let token ← advance next .operand
    reject .operand token

/-- The connectives that follow a left operand and bind at least so tightly, with their right
operands. -/
def operators (nested : Nat → Action σ Expr) (least : Nat) : Nat → Expr → Action σ Expr
  | 0, _ => exhausted
  | steps + 1, left => do
    match (← peek next).bind TokenKind.connective? with
    | none => return left
    | some op =>
      if op.precedence < least then return left
      else
        let _ ← advance next .connectiveOrEnd
        let right ← nested (op.precedence + 1)
        operators nested least steps (.logical left op right)

/-- A filter whose connectives bind at least so tightly.  Each call inside another one leaves one
less for those inside it. -/
def expression (steps : Nat) : Nat → Nat → Action σ Expr
  | 0, _ => exhausted
  | budget + 1, least => do
    let left ← primary next limit (expression steps budget) steps
    operators next (expression steps budget) least steps left

/-- A filter with nothing behind it, given how it is read. -/
def whole (filter : Action σ Expr) : Action σ Expr := do
  let e ← filter
  fill next
  let s ← get
  match s.buffer with
  | none => return e
  | some token => reject .connectiveOrEnd token

/-- A whole query. -/
def query (steps budget : Nat) : Action σ Expr := do
  let e ← expression next limit steps budget 0
  fill next
  let s ← get
  match s.buffer with
  | none => return e
  | some token => reject .connectiveOrEnd token

end Descent

/-- The filter that a text stands for, read on demand with a budget of nested calls. -/
def Query.descend (limit budget : Nat) (source : List Char) : Option (Except Failure Expr) :=
  (Descent.query TokenStream.pull limit (source.length + 1) budget ⟨({}, source), none, 0⟩).run.map
    fun result => result.map Prod.fst

end FieldFilter
