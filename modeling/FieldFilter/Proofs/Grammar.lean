import FieldFilter.Token

/-!
# The grammar of queries

A query is a disjunction of conjunctions of comparisons and groups.  Both connectives associate to
the left; a group leaves no trace in the tree.

* `Token.agrees` — the value of a token is of the sort that its kind promises;
* `PathTokens`, `ItemTokens`, `ComparisonTokens` — what the parts of a comparison consist of;
* `Layer`, `Derives` — the layers of the grammar and what each of them derives;
* `InLanguage`, `Viable` — whole queries, and the texts that can still become one.
-/

namespace FieldFilter

/-! ## Kinds and values -/

/-- The kind of the tokens that spell a literal. -/
def Literal.tokenKind : Literal → TokenKind
  | .int _ => .int
  | .float _ => .float
  | .string _ => .string
  | .bool true => .trueWord
  | .bool false => .falseWord
  | .none => .noneWord

/-- Whether a value is of the sort that a kind promises: a literal of the kind, a word that may
stand in a path for names, a spelling for every other kind. -/
def TokenKind.fits (kind : TokenKind) : TokenValue → Bool
  | .literal value => kind == value.tokenKind
  | .text spelling => if kind = .name then isSegment spelling else !kind.isLiteral

/-- The value of a token is of the sort that its kind promises. -/
def Token.agrees (token : Token) : Bool :=
  token.kind.fits token.value

/-- A token at no place in particular. -/
def Token.fresh (kind : TokenKind) (value : TokenValue) : Token :=
  ⟨kind, value, .point 0, {}⟩

@[simp] theorem Literal.isLiteral_tokenKind (value : Literal) :
    value.tokenKind.isLiteral = true := by
  rcases value with _ | _ | _ | (_ | _) | _ <;> rfl

namespace Token

variable {token : Token}

theorem value_eq_of_literal? {value : Literal} (h : token.literal? = some value) :
    token.value = .literal value := by
  unfold literal? TokenValue.literal? at h
  cases hval : token.value with
  | text spelling => simp [hval] at h
  | literal v => simpa [hval] using h

theorem kind_eq_of_agrees (h : token.agrees = true) {value : Literal}
    (hvalue : token.literal? = some value) : token.kind = value.tokenKind := by
  simpa [agrees, value_eq_of_literal? hvalue, TokenKind.fits] using h

theorem isSegment_of_agrees (h : token.agrees = true) (hkind : token.kind = .name) :
    isSegment token.valueText = true := by
  cases hval : token.value with
  | text spelling =>
      simpa [agrees, hkind, hval, TokenKind.fits, valueText, TokenValue.printable] using h
  | literal value =>
      have hname : TokenKind.name = value.tokenKind := by
        simpa [agrees, hkind, hval, TokenKind.fits] using h
      have hliteral := value.isLiteral_tokenKind
      rw [← hname] at hliteral
      cases hliteral

end Token

/-! ## Comparisons -/

/-- The kinds of the literals that may follow a comparator. -/
def Comparator.literalKinds : Comparator → List TokenKind
  | .equal | .notEqual => [.int, .float, .string, .trueWord, .falseWord, .noneWord]
  | .greater | .greaterEqual | .less | .lessEqual => [.int, .float, .string]
  | .contains | .notContains => [.string]
  | .memberOf | .notMemberOf => []

theorem Comparator.accepts_single_iff {op : Comparator} {value : Literal} :
    op.accepts (.single value) = true ↔ value.tokenKind ∈ op.literalKinds := by
  cases op <;> rcases value with _ | _ | _ | (_ | _) | _ <;>
    simp [accepts, acceptsLiteral, isOrdering, isContainment, isEquality, literalKinds,
      Literal.isOrdered, Literal.isString, Literal.tokenKind]

/-- Names with dots between them. -/
inductive PathTokens : List Token → FieldPath → Prop where
  | single {name : Token} {segment : Segment} (hkind : name.kind = .name)
      (hword : name.valueText = segment.word) : PathTokens [name] (.single segment)
  | push {tokens : List Token} {path : FieldPath} {dot name : Token} {segment : Segment}
      (hpath : PathTokens tokens path) (hdot : dot.kind = .dot) (hkind : name.kind = .name)
      (hword : name.valueText = segment.word) :
      PathTokens (tokens ++ [dot, name]) (path.push segment)

/-- Literals with commas between them. -/
inductive ItemTokens : List Token → LiteralList → Prop where
  | single {token : Token} {value : Literal} (hkind : token.kind.isLiteral = true)
      (hvalue : token.literal? = some value) : ItemTokens [token] (.single value)
  | push {tokens : List Token} {items : LiteralList} {comma token : Token} {value : Literal}
      (hitems : ItemTokens tokens items) (hcomma : comma.kind = .comma)
      (hkind : token.kind.isLiteral = true) (hvalue : token.literal? = some value) :
      ItemTokens (tokens ++ [comma, token]) (items.push value)

/-- The words `in` and `not in`. -/
inductive MembershipTokens : List Token → Comparator → Prop where
  | memberOf {word : Token} (hword : word.kind = .inWord) : MembershipTokens [word] .memberOf
  | notMemberOf {negation word : Token} (hnot : negation.kind = .notWord)
      (hword : word.kind = .inWord) : MembershipTokens [negation, word] .notMemberOf

/-- A path with a comparator and a literal of a kind that the comparator takes, or with `in` or
`not in` and a list. -/
inductive ComparisonTokens : List Token → Expr → Prop where
  | single {path : List Token} {field : FieldPath} {comparator token : Token} {op : Comparator}
      {value : Literal} (hpath : PathTokens path field)
      (hop : comparator.kind.comparator? = some op) (hkind : token.kind ∈ op.literalKinds)
      (hvalue : token.literal? = some value) :
      ComparisonTokens (path ++ [comparator, token]) (.comparison field op (.single value))
  | list {path words items : List Token} {field : FieldPath} {openParen closeParen : Token}
      {op : Comparator} {values : LiteralList} (hpath : PathTokens path field)
      (hwords : MembershipTokens words op) (hopen : openParen.kind = .openParen)
      (hitems : ItemTokens items values) (hclose : closeParen.kind = .closeParen) :
      ComparisonTokens (path ++ words ++ [openParen] ++ items ++ [closeParen])
        (.comparison field op (.list values))

/-! ## Filters -/

/-- The layers of the grammar, from the loosest to the tightest. -/
inductive Layer where
  | disjunction
  | conjunction
  | primary
  deriving DecidableEq, Repr

/-- `Derives d layer tokens e`: a layer derives the tokens with the tree `e`, and at most `d` groups
are open at once. -/
inductive Derives : Nat → Layer → List Token → Expr → Prop where
  | comparison {d : Nat} {tokens : List Token} {e : Expr} (h : ComparisonTokens tokens e) :
      Derives d .primary tokens e
  | group {d : Nat} {tokens : List Token} {openParen closeParen : Token} {e : Expr}
      (hopen : openParen.kind = .openParen) (h : Derives d .disjunction tokens e)
      (hclose : closeParen.kind = .closeParen) :
      Derives (d + 1) .primary ([openParen] ++ tokens ++ [closeParen]) e
  | ofPrimary {d : Nat} {tokens : List Token} {e : Expr} (h : Derives d .primary tokens e) :
      Derives d .conjunction tokens e
  | and {d : Nat} {lefts rights : List Token} {word : Token} {left right : Expr}
      (hleft : Derives d .conjunction lefts left) (hword : word.kind = .andWord)
      (hright : Derives d .primary rights right) :
      Derives d .conjunction (lefts ++ [word] ++ rights) (.logical left .and right)
  | ofConjunction {d : Nat} {tokens : List Token} {e : Expr} (h : Derives d .conjunction tokens e) :
      Derives d .disjunction tokens e
  | or {d : Nat} {lefts rights : List Token} {word : Token} {left right : Expr}
      (hleft : Derives d .disjunction lefts left) (hword : word.kind = .orWord)
      (hright : Derives d .conjunction rights right) :
      Derives d .disjunction (lefts ++ [word] ++ rights) (.logical left .or right)

theorem Derives.mono {d d' : Nat} {layer : Layer} {tokens : List Token} {e : Expr}
    (h : Derives d layer tokens e) (hle : d ≤ d') : Derives d' layer tokens e := by
  induction h generalizing d' with
  | comparison h => exact .comparison h
  | group hopen _ hclose ih =>
      rcases d' with _ | d'
      · omega
      · exact .group hopen (ih (by omega)) hclose
  | ofPrimary _ ih => exact .ofPrimary (ih hle)
  | and _ hword _ ihl ihr => exact .and (ihl hle) hword (ihr hle)
  | ofConjunction _ ih => exact .ofConjunction (ih hle)
  | or _ hword _ ihl ihr => exact .or (ihl hle) hword (ihr hle)

/-! ## The language -/

/-- The token sequences that are queries with at most `limit` groups open at once. -/
def InLanguage (limit : Nat) (tokens : List Token) : Prop :=
  (∀ token ∈ tokens, token.agrees = true) ∧ ∃ e, Derives limit .disjunction tokens e

/-- The token sequences that more tokens can make a query. -/
def Viable (limit : Nat) (tokens : List Token) : Prop :=
  ∃ more, InLanguage limit (tokens ++ more)

theorem Viable.of_append {limit : Nat} {tokens more : List Token}
    (h : Viable limit (tokens ++ more)) : Viable limit tokens := by
  rcases h with ⟨rest, hrest⟩
  exact ⟨more ++ rest, by rwa [← List.append_assoc]⟩

/-- What can still become a query becomes one by more tokens, unless it is one. -/
theorem Viable.exists_more {limit : Nat} {tokens : List Token} (h : Viable limit tokens)
    (hin : ¬ InLanguage limit tokens) : ∃ more, more ≠ [] ∧ InLanguage limit (tokens ++ more) := by
  rcases h with ⟨more, hmore⟩
  refine ⟨more, ?_, hmore⟩
  rintro rfl
  exact hin (by simpa using hmore)

end FieldFilter
