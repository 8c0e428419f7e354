import FieldFilter.Query.Reading

/-!
# Queries

* `Session` — tokens from which queries are read one after the other, `Session.next` — the next;
* `Query.ofTokens`, `Query.parse` — the filter that tokens or a text stand for.
-/

namespace FieldFilter

/-! ## Sessions -/

/-- Tokens from which queries are read: those not yet taken, the fault that comes after them if one
does, the cap on nested parentheses, and how many parentheses earlier failures left open. -/
structure Session where
  tokens : List Token
  error : Option LexError := none
  limit : Nat
  leaked : Nat := 0
  deriving DecidableEq, Repr

namespace Session

/-- The session on the tokens of a stream. -/
def ofStream (limit : Nat) (stream : TokenStream) : Session :=
  { tokens := stream.tokens, error := stream.error, limit }

/-- One query read from a state on: its outcome, and the session that is left.  A token that cannot
stand where it does has been taken, and the groups open at a failure stay counted. -/
def readFrom (limit leaked : Nat) (error : Option LexError) :
    Reading → List Token → Except Failure Expr × Session
  | r, [] =>
    -- a fault of the text goes before an end that comes too early
    let outcome :=
      match error with
      | some error => .error (.lexical error)
      | none => r.finish
    (outcome, { tokens := [], limit, leaked := leaked + r.depth })
  | r, token :: tokens =>
    match r.step limit leaked token with
    | .error failure => (.error failure, { tokens, error, limit, leaked := leaked + r.depth })
    | .ok r => readFrom limit leaked error r tokens

/-- The next query of a session, which ends where its tokens end. -/
def next (session : Session) : Except Failure Expr × Session :=
  readFrom session.limit session.leaked session.error {} session.tokens

/-- The outcomes of so many queries in a row. -/
def outcomes : Nat → Session → List (Except Failure Expr)
  | 0, _ => []
  | n + 1, session => session.next.1 :: outcomes n session.next.2

end Session

/-! ## Single queries -/

namespace Query

/-- How deep parentheses may nest unless told otherwise. -/
def defaultLimit : Nat := 128

/-- The filter that tokens stand for. -/
def ofTokens (limit : Nat) (tokens : List Token) : Except Failure Expr :=
  (Session.next { tokens, limit }).1

/-- The filter that a text stands for. -/
def parse (limit : Nat) (source : List Char) : Except Failure Expr :=
  (Session.ofStream limit (TokenStream.ofText source)).next.1

end Query

end FieldFilter
