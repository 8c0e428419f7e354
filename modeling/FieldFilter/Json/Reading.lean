import FieldFilter.Json.Number
import FieldFilter.StringLiteral
import FieldFilter.Text.Bytes

/-!
# Reading JSON documents

A document is read as a stream into the type that is wanted, and the first failure ends the reading.

* `Json.ReadError` — a document that is no JSON, one that ends too early, or one that holds
  something else than what is wanted;
* `Json.Reader` — reads one value and leaves the rest;
* `Reader.string`, `Reader.integer`, `Reader.float`, `Reader.boolean`, `Reader.unit` — scalars;
* `Reader.listOf`, `Reader.record`, `Reader.variant` — lists, records and variants;
* `Reader.document` — the value of a whole document.

Readers of lists, records and variants are told how many brackets may still open.
-/

namespace FieldFilter
namespace Json

/-- Why a document does not hold what is wanted. -/
inductive ReadError where
  /-- the text is no JSON, or nests too deep -/
  | malformed
  /-- the text ends too early -/
  | truncated
  /-- the text holds something else; `reason` is the wording if a rule of the data was broken -/
  | unfit (reason : Option String)
  deriving DecidableEq, Repr

/-- Reads one value at the start of a text: gives the value and the rest of the text, or the first
failure. -/
abbrev Reader (α : Type) := List Char → Except ReadError (α × List Char)

namespace Reader

/-! ## Blanks and words -/

/-- The blanks of JSON. -/
def isSpace (c : Char) : Bool :=
  c == ' ' || c == '\n' || c == '\t' || c == '\r'

/-- A text without its leading blanks. -/
def skipSpace (cs : List Char) : List Char :=
  cs.dropWhile isSpace

/-- Something else than what is wanted, for no reason of the data. -/
def unfit : ReadError := .unfit none

/-- The rest of a text that starts with a given word. -/
def expectWord : List Char → List Char → Except ReadError (List Char)
  | [], cs => .ok cs
  | _ :: _, [] => .error .truncated
  | w :: ws, c :: cs => if w = c then expectWord ws cs else .error .malformed

/-! ## Strings -/

/-- The character that a short escape of JSON stands for. -/
def shortEscape? (c : Char) : Option Char :=
  if c = '\'' then none else StringLiteral.shortEscape? c

/-- The failure at four characters that should have been digits of a unit: a text with less than
four bytes left has ended too early. -/
def unitError (cs : List Char) : ReadError :=
  if Text.byteLength cs < 4 then .truncated else .malformed

/-- The characters of a string whose opening quotation mark has been read.  `high` is a unit that
opens a surrogate pair and must be followed at once by a unit that closes it. -/
def stringRest (high : Option Nat) : List Char → Except ReadError (List Char × List Char)
  | [] => .error .truncated
  | '\\' :: 'u' :: rest =>
    match rest with
    | a :: b :: c :: d :: rest =>
      match StringLiteral.unitOf? a b c d, high with
      | none, _ => .error .malformed
      -- the second half of a pair
      | some low, some high =>
        if StringLiteral.isLowUnit low then do
          let (cs, rest) ← stringRest none rest
          return (Char.ofNat (StringLiteral.pairValue high low) :: cs, rest)
        else .error .malformed
      | some value, none =>
        -- a unit that closes a pair has none to close
        if StringLiteral.isLowUnit value then .error .malformed
        else if StringLiteral.isHighUnit value then stringRest (some value) rest
        else do
          let (cs, rest) ← stringRest none rest
          return (Char.ofNat value :: cs, rest)
    | rest => .error (unitError rest)
  | '\\' :: [] => .error .truncated
  | '\\' :: e :: rest =>
    match shortEscape? e, high with
    | some c, none => do
      let (cs, rest) ← stringRest none rest
      return (c :: cs, rest)
    | _, _ => .error .malformed
  | c :: rest =>
    -- half a pair may not be left behind, not even at the end of the string
    if high.isSome then .error .malformed
    else if c = '"' then .ok ([], rest)
    else if c.toNat < 0x20 then .error .malformed
    else do
      let (cs, rest) ← stringRest none rest
      return (c :: cs, rest)

/-- What follows a string whose opening quotation mark has been read and whose value does not
matter; its units need not form pairs. -/
def skipStringRest : List Char → Except ReadError (List Char)
  | [] => .error .truncated
  | '\\' :: 'u' :: rest =>
    match rest with
    | a :: b :: c :: d :: rest =>
      if (StringLiteral.unitOf? a b c d).isSome then skipStringRest rest else .error .malformed
    | rest => .error (unitError rest)
  | '\\' :: [] => .error .truncated
  | '\\' :: e :: rest =>
    if (shortEscape? e).isSome then skipStringRest rest else .error .malformed
  | c :: rest =>
    if c = '"' then .ok rest
    else if c.toNat < 0x20 then .error .malformed
    else skipStringRest rest

/-! ## Numbers -/

/-- The digits at the start of a text, at least one.  `early` is the failure at the end of the
text. -/
def digits (early : ReadError) (cs : List Char) : Except ReadError (List Char × List Char) :=
  let ds := cs.takeWhile Char.isDigit
  if ds.isEmpty then .error (if cs.isEmpty then early else .malformed)
  else .ok (ds, cs.dropWhile Char.isDigit)

/-- The whole part of a number: digits without a superfluous zero. -/
def wholeDigits (early : ReadError) (cs : List Char) : Except ReadError (List Char × List Char) := do
  let (ds, rest) ← digits early cs
  if ds.head? = some '0' ∧ 1 < ds.length then .error .malformed else .ok (ds, rest)

/-- The exponent at the start of a text, if there is one: whether it is negative, and its digits. -/
def exponentPart (early : ReadError) (cs : List Char) :
    Except ReadError (Option (Bool × List Char) × List Char) :=
  match cs with
  | [] => .ok (none, cs)
  | mark :: rest =>
    if mark = 'e' ∨ mark = 'E' then do
      let (isNegative, rest) :=
        match rest with
        | '+' :: rest => (false, rest)
        | '-' :: rest => (true, rest)
        | rest => (false, rest)
      let (ds, rest) ← digits early rest
      return (some (isNegative, ds), rest)
    else .ok (none, cs)

/-- The fraction at the start of a text, if there is one. -/
def fractionPart (early : ReadError) (cs : List Char) :
    Except ReadError (Option (List Char) × List Char) :=
  match cs with
  | '.' :: rest => do
    let (ds, rest) ← digits early rest
    return (some ds, rest)
  | _ => .ok (none, cs)

/-- A number whose sign has been read. -/
def unsigned (isNegative : Bool) (cs : List Char) : Except ReadError (Number × List Char) := do
  let (whole, rest) ← wholeDigits .truncated cs
  let (fraction, rest) ← fractionPart .truncated rest
  let (exponent, rest) ← exponentPart .truncated rest
  let number :=
    match fraction, exponent with
    | none, none => Number.ofWhole isNegative whole
    | fraction, exponent =>
      let (exponentNegative, ds) := exponent.getD (false, [])
      Number.ofParts isNegative whole (fraction.getD []) ds exponentNegative
  match number with
  | some number => .ok (number, rest)
  | none => .error .malformed

/-- A number. -/
def number (cs : List Char) : Except ReadError (Number × List Char) :=
  match cs with
  | '-' :: rest => unsigned true rest
  | cs => unsigned false cs

/-- What follows a number whose value does not matter. -/
def skipNumber (cs : List Char) : Except ReadError (List Char) := do
  let cs := if cs.head? = some '-' then cs.tail else cs
  let (_, rest) ← wholeDigits .malformed cs
  let (_, rest) ← fractionPart .malformed rest
  let (_, rest) ← exponentPart .malformed rest
  return rest

/-! ## Values of another type -/

/-- The failure at a value of another type: a scalar is read to its end first. -/
def otherType (cs : List Char) : ReadError :=
  let after (rest : Except ReadError (List Char)) : ReadError :=
    match rest with
    | .ok _ => unfit
    | .error error => error
  match cs with
  | 'n' :: rest => after (expectWord "ull".toList rest)
  | 't' :: rest => after (expectWord "rue".toList rest)
  | 'f' :: rest => after (expectWord "alse".toList rest)
  | '"' :: rest => after ((stringRest none rest).map Prod.snd)
  | '[' :: _ => unfit
  | '\x7b' :: _ => unfit
  | c :: _ => if c = '-' ∨ c.isDigit then after ((number cs).map Prod.snd) else .malformed
  | [] => .truncated

/-! ## Scalars -/

/-- A string. -/
def string : Reader (List Char) := fun cs =>
  match skipSpace cs with
  | '"' :: rest => stringRest none rest
  | cs => .error (otherType cs)

/-- A number, made into a value by a rule that may refuse it. -/
def numberAs {α : Type} (rule : Number → Option α) : Reader α := fun cs =>
  match skipSpace cs with
  | c :: rest =>
    if c = '-' ∨ c.isDigit then do
      let (number, rest) ← number (c :: rest)
      match rule number with
      | some value => .ok (value, rest)
      | none => .error unfit
    else .error (otherType (c :: rest))
  | [] => .error .truncated

/-- An integer of 64 bits with a sign. -/
def integer : Reader Int64 :=
  numberAs fun
    | .natural value => if value < 0x8000000000000000 then some (Int64.ofNat value) else none
    | .negative value => some (Int64.ofInt value)
    | .float _ => none

/-- An integer of 64 bits without a sign. -/
def natural : Reader Nat :=
  numberAs fun
    | .natural value => some value
    | _ => none

/-- A number as a float. -/
def float : Reader Float :=
  numberAs fun
    | .natural value => some value.toUInt64.toFloat
    | .negative value => some (-value.natAbs.toUInt64.toFloat)
    | .float value => some value

/-- A truth value. -/
def boolean : Reader Bool := fun cs =>
  match skipSpace cs with
  | 't' :: rest => do return (true, ← expectWord "rue".toList rest)
  | 'f' :: rest => do return (false, ← expectWord "alse".toList rest)
  | cs => .error (otherType cs)

/-- The value `null`. -/
def unit : Reader Unit := fun cs =>
  match skipSpace cs with
  | 'n' :: rest => do return ((), ← expectWord "ull".toList rest)
  | cs => .error (otherType cs)

/-! ## Values that do not matter -/

/-- The colon after a key. -/
def colon (cs : List Char) : Except ReadError (List Char) :=
  match skipSpace cs with
  | ':' :: rest => .ok rest
  | [] => .error .truncated
  | _ => .error .malformed

/-- Where a key starts, after its quotation mark; a key is always a string. -/
def keyStart (cs : List Char) : Except ReadError (List Char) :=
  match skipSpace cs with
  | '"' :: rest => .ok rest
  | [] => .error .truncated
  | _ => .error .malformed

/-- A key and its colon, when neither matters. -/
def skipKey (cs : List Char) : Except ReadError (List Char) := do
  colon (← skipStringRest (← keyStart cs))

mutual

/-- What follows a value that does not matter.  `open?` lists the brackets around it, innermost
first, an object's as `true`; every step takes a character, so `steps` may be the length of the
text. -/
def skipValue (steps : Nat) (open? : List Bool) (cs : List Char) :
    Except ReadError (List Char) :=
  match steps, skipSpace cs with
  | _, [] => .error .truncated
  | 0, _ => .error .malformed
  | steps + 1, c :: rest =>
    if c = 'n' then do skipAfter steps open? (← expectWord "ull".toList rest)
    else if c = 't' then do skipAfter steps open? (← expectWord "rue".toList rest)
    else if c = 'f' then do skipAfter steps open? (← expectWord "alse".toList rest)
    else if c = '"' then do skipAfter steps open? (← skipStringRest rest)
    else if c = '-' ∨ c.isDigit then do skipAfter steps open? (← skipNumber (c :: rest))
    else if c = '[' then
      match skipSpace rest with
      | ']' :: rest => skipAfter steps open? rest
      | rest => skipValue steps (false :: open?) rest
    else if c = '\x7b' then
      match skipSpace rest with
      | '\x7d' :: rest => skipAfter steps open? rest
      | rest => do skipValue steps (true :: open?) (← skipKey rest)
    else .error .malformed
termination_by (steps, 1)

/-- What follows the brackets around a value that does not matter and has been read. -/
def skipAfter (steps : Nat) (open? : List Bool) (cs : List Char) :
    Except ReadError (List Char) :=
  match steps, open? with
  | _, [] => .ok cs
  | 0, _ => .error .malformed
  | steps + 1, isObject :: outer =>
    match skipSpace cs with
    | [] => .error .truncated
    | c :: rest =>
      if c = ',' then
        if isObject then do skipValue steps open? (← skipKey rest) else skipValue steps open? rest
      else if c = (if isObject then '\x7d' else ']') then skipAfter steps outer rest
      else .error .malformed
termination_by (steps, 0)

end

/-- What follows a value that does not matter. -/
def ignored (cs : List Char) : Except ReadError (List Char) :=
  skipValue (cs.length + 1) [] cs

/-! ## Lists -/

/-- Where the next item of a list starts, or the text after the list if there is none. -/
inductive NextItem where
  | item (cs : List Char)
  | close (rest : List Char)

/-- Looks for the next item of a list, whose first item needs no comma before it. -/
def nextItem (isFirst : Bool) (cs : List Char) : Except ReadError NextItem :=
  match skipSpace cs with
  | [] => .error .truncated
  | ']' :: rest => .ok (.close rest)
  | c :: rest =>
    if isFirst then .ok (.item (c :: rest))
    else if c = ',' then
      match skipSpace rest with
      | [] => .error .truncated
      -- no comma goes before the closing bracket
      | ']' :: _ => .error .malformed
      | cs => .ok (.item cs)
    else .error .malformed

/-- The items of a list whose opening bracket has been read.  Every item takes a character, so
`steps` may be the length of the text. -/
def listItems {α : Type} (item : Reader α) : Nat → Bool → Reader (List α)
  | 0, _, _ => .error .truncated
  | steps + 1, isFirst, cs => do
    match ← nextItem isFirst cs with
    | .close rest => return ([], rest)
    | .item cs =>
      let (value, rest) ← item cs
      let (values, rest) ← listItems item steps false rest
      return (value :: values, rest)

/-- A list.  `room` brackets may still open. -/
def listOf {α : Type} (room : Nat) (item : Reader α) : Reader (List α) := fun cs =>
  match skipSpace cs with
  | '[' :: rest => if room = 0 then .error .malformed else listItems item (rest.length + 1) true rest
  | [] => .error .truncated
  | cs => .error (otherType cs)

/-! ## Records -/

/-- A field of a record that is being read: its key, whether a draft of the record already has it,
and how its value is put into the draft. -/
structure Field (δ : Type) where
  key : String
  isSet : δ → Bool
  read : δ → Reader δ

/-- The fields of a record given as a list, in order. -/
def listedFields {δ : Type} : List (Field δ) → Bool → δ → Reader δ
  | [], _, draft, cs =>
    match skipSpace cs with
    | ']' :: rest => .ok (draft, rest)
    | [] => .error .truncated
    | _ => .error .malformed
  | field :: fields, isFirst, draft, cs => do
    match ← nextItem isFirst cs with
    | .close _ => .error unfit
    | .item cs =>
      let (draft, rest) ← field.read draft cs
      listedFields fields false draft rest

/-- Where the next key of an object starts, after its quotation mark, or the text after the object
if there is none. -/
def nextKey (isFirst : Bool) (cs : List Char) : Except ReadError NextItem :=
  match skipSpace cs with
  | [] => .error .truncated
  | '\x7d' :: rest => .ok (.close rest)
  | c :: rest =>
    if isFirst then do return .item (← keyStart (c :: rest))
    else if c = ',' then do return .item (← keyStart rest)
    else .error .malformed

/-- The fields of a record given as an object, in any order; a key may not come twice, and keys
that are no fields are passed over. -/
def keyedFields {δ : Type} (fields : List (Field δ)) : Nat → Bool → δ → Reader δ
  | 0, _, _, _ => .error .truncated
  | steps + 1, isFirst, draft, cs => do
    match ← nextKey isFirst cs with
    | .close rest => return (draft, rest)
    | .item cs =>
      let (key, rest) ← stringRest none cs
      match fields.find? fun field => field.key.toList = key with
      | some field =>
        -- a key that comes again is refused before its value is looked at
        if field.isSet draft then .error unfit
        else do
          let (draft, rest) ← field.read draft (← colon rest)
          keyedFields fields steps false draft rest
      | none => keyedFields fields steps false draft (← ignored (← colon rest))

/-- A record, as an object or as the list of its fields.  `room` brackets may still open, and
`finish` refuses a draft that lacks a field. -/
def record {δ α : Type} (room : Nat) (fields : List (Field δ)) (empty : δ)
    (finish : δ → Option α) : Reader α := fun cs =>
  let finished (result : Except ReadError (δ × List Char)) :
      Except ReadError (α × List Char) := do
    let (draft, rest) ← result
    match finish draft with
    | some value => .ok (value, rest)
    | none => .error unfit
  match skipSpace cs with
  | '[' :: rest =>
    if room = 0 then .error .malformed else finished (listedFields fields true empty rest)
  | '\x7b' :: rest =>
    if room = 0 then .error .malformed
    else finished (keyedFields fields (rest.length + 1) true empty rest)
  | [] => .error .truncated
  | cs => .error (otherType cs)

/-! ## Variants -/

/-- What follows the name of a variant: nothing, or a value. -/
inductive Case (α : Type) where
  | plain (value : α)
  | carrying (payload : Reader α)

/-- The case of a name. -/
def caseOf {α : Type} (cases : List (String × Case α)) (name : List Char) :
    Except ReadError (Case α) :=
  match cases.find? fun case => case.1.toList = name with
  | some case => .ok case.2
  | none => .error unfit

/-- The value of a case after its colon; a plain case carries `null`. -/
def Case.value {α : Type} : Case α → Reader α
  | .plain value, cs => do
    let ((), rest) ← unit cs
    return (value, rest)
  | .carrying payload, cs => payload cs

/-- A variant: the name of a plain case as a string, or an object with the name of a case as its
only key.  `room` brackets may still open. -/
def variant {α : Type} (room : Nat) (cases : List (String × Case α)) : Reader α := fun cs =>
  match skipSpace cs with
  | '\x7b' :: rest =>
    if room = 0 then .error .malformed
    else do
      let (name, rest) ← stringRest none (← keyStart rest)
      let case ← caseOf cases name
      let (value, rest) ← case.value (← colon rest)
      -- a second key is one too many
      match skipSpace rest with
      | '\x7d' :: rest => .ok (value, rest)
      | [] => .error .truncated
      | _ => .error .malformed
  | '"' :: rest => do
    let (name, rest) ← stringRest none rest
    match ← caseOf cases name with
    | .plain value => return (value, rest)
    | .carrying _ => .error unfit
  | [] => .error .truncated
  | _ => .error .malformed

/-! ## Whole documents -/

/-- A reader with a rule of the data that is checked when a value is complete. -/
def checked {α β : Type} (read : Reader α) (rule : α → Except String β) : Reader β := fun cs => do
  let (value, rest) ← read cs
  match rule value with
  | .ok value => .ok (value, rest)
  | .error reason => .error (.unfit (some reason))

/-- How many brackets may be open at once. -/
def maxNesting : Nat := 127

/-- The value of a whole document. -/
def document {α : Type} (read : Reader α) (cs : List Char) : Except ReadError α := do
  let (value, rest) ← read cs
  -- nothing but blanks may follow
  if (skipSpace rest).isEmpty then .ok value else .error .malformed

end Reader
end Json
end FieldFilter
