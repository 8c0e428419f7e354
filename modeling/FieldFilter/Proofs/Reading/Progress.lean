import FieldFilter.Proofs.Reading.Moves

/-!
# What has been read

A state of the reading machine stands for the tokens that led to it: those of the groups that are
open, those whose operands wait in the present group, and those since then.

* `Waits`, `Waiting` — the tokens of the operands that wait in one group;
* `Opened` — the tokens before the present group;
* `Pending` — the tokens since the last connective or parenthesis;
* `Read` — all of them together, which every move keeps (`Read.of_moves`, `Read.of_run`).
-/

namespace FieldFilter
namespace Reading

/-! ## Operands that wait -/

/-- The tokens of an operand that waits for the right side of a connective, if one waits. -/
inductive Waits (d : Nat) (layer : Layer) (word : TokenKind) : List Token → Option Expr → Prop where
  | none : Waits d layer word [] .none
  | some {tokens : List Token} {token : Token} {left : Expr} (h : Derives d layer tokens left)
      (hword : token.kind = word) : Waits d layer word (tokens ++ [token]) (.some left)

/-- The tokens of the operands that wait in a group: first the left side of an `or`, then the left
side of an `and`. -/
structure Waiting (d : Nat) (tokens : List Token) (level : Level) : Prop where
  exists_split : ∃ disjuncts conjuncts, tokens = disjuncts ++ conjuncts ∧
    Waits d .disjunction .orWord disjuncts level.disjunct ∧
    Waits d .conjunction .andWord conjuncts level.conjunct

variable {d : Nat} {tokens waiting : List Token} {level : Level} {e : Expr} {token : Token}

theorem Waiting.nil : Waiting d [] {} :=
  ⟨[], [], rfl, .none, .none⟩

/-- An operand joined to the left side of an `and` is a conjunction. -/
theorem Waits.derives_conjoin
    (hwait : Waits d .conjunction .andWord waiting level.conjunct)
    (he : Derives d .primary tokens e) :
    Derives d .conjunction (waiting ++ tokens) (level.conjoin e) := by
  unfold Level.conjoin
  cases hconjunct : level.conjunct with
  | none =>
      rw [hconjunct] at hwait
      cases hwait
      exact .ofPrimary he
  | some left =>
      rw [hconjunct] at hwait
      cases hwait with
      | some hleft hword => exact .and hleft hword he

/-- An operand joined to everything that waits is a disjunction. -/
theorem Waiting.derives_close (hwait : Waiting d waiting level) (he : Derives d .primary tokens e) :
    Derives d .disjunction (waiting ++ tokens) (level.close e) := by
  rcases hwait.exists_split with ⟨disjuncts, conjuncts, rfl, hdisjunct, hconjunct⟩
  have hconjoin : Derives d .conjunction (conjuncts ++ tokens) (level.conjoin e) :=
    hconjunct.derives_conjoin he
  unfold Level.close
  cases hleft : level.disjunct with
  | none =>
      rw [hleft] at hdisjunct
      cases hdisjunct
      exact .ofConjunction hconjoin
  | some left =>
      rw [hleft] at hdisjunct
      cases hdisjunct with
      | some hderives hword =>
          have hor := Derives.or hderives hword hconjoin
          rwa [← List.append_assoc] at hor

/-- What waits after an operand and a connective. -/
theorem Waiting.extend (hwait : Waiting d waiting level) (he : Derives d .primary tokens e)
    {op : Connective} (hop : token.kind.connective? = some op) :
    Waiting d (waiting ++ tokens ++ [token]) (level.extend e op) := by
  cases op with
  | and =>
      have hword : token.kind = .andWord := by
        cases hkind : token.kind <;> simp_all [TokenKind.connective?]
      rcases hwait.exists_split with ⟨disjuncts, conjuncts, rfl, hdisjunct, hconjunct⟩
      refine ⟨disjuncts, conjuncts ++ tokens ++ [token], by simp, hdisjunct, ?_⟩
      exact .some (hconjunct.derives_conjoin he) hword
  | or =>
      have hword : token.kind = .orWord := by
        cases hkind : token.kind <;> simp_all [TokenKind.connective?]
      exact ⟨waiting ++ tokens ++ [token], [], by simp, .some (hwait.derives_close he) hword, .none⟩

/-! ## Open groups -/

/-- The tokens up to the parenthesis that opened the present group, while at most `room` groups may
be open. -/
inductive Opened (room : Nat) : List Level → List Token → Prop where
  | nil : Opened room [] []
  | cons {outer : List Level} {level : Level} {tokens waiting : List Token} {token : Token}
      (houter : Opened room outer tokens) (hroom : outer.length < room)
      (hwait : Waiting (room - outer.length) waiting level) (hkind : token.kind = .openParen) :
      Opened room (level :: outer) (tokens ++ waiting ++ [token])

/-! ## The operand being read -/

/-- The tokens since the last connective or parenthesis. -/
inductive Pending (d : Nat) : List Token → Awaiting → Prop where
  | operand : Pending d [] .operand
  | path {tokens : List Token} {path : FieldPath} (hpath : PathTokens tokens path) :
      Pending d tokens (.path path)
  | segment {tokens : List Token} {path : FieldPath} {dot : Token} (hpath : PathTokens tokens path)
      (hdot : dot.kind = .dot) : Pending d (tokens ++ [dot]) (.segment path)
  | inWord {tokens : List Token} {path : FieldPath} {word : Token} (hpath : PathTokens tokens path)
      (hword : word.kind = .notWord) : Pending d (tokens ++ [word]) (.inWord path)
  | value {tokens : List Token} {path : FieldPath} {comparator : Token} {op : Comparator}
      (hpath : PathTokens tokens path) (hop : comparator.kind.comparator? = some op) :
      Pending d (tokens ++ [comparator]) (.value path op)
  | list {tokens words : List Token} {path : FieldPath} {op : Comparator}
      (hpath : PathTokens tokens path) (hwords : MembershipTokens words op) :
      Pending d (tokens ++ words) (.list path op)
  | firstItem {tokens words : List Token} {path : FieldPath} {op : Comparator} {openParen : Token}
      (hpath : PathTokens tokens path) (hwords : MembershipTokens words op)
      (hopen : openParen.kind = .openParen) :
      Pending d (tokens ++ words ++ [openParen]) (.firstItem path op)
  | separator {tokens words items : List Token} {path : FieldPath} {op : Comparator}
      {openParen : Token} {values : LiteralList} (hpath : PathTokens tokens path)
      (hwords : MembershipTokens words op) (hopen : openParen.kind = .openParen)
      (hitems : ItemTokens items values) :
      Pending d (tokens ++ words ++ [openParen] ++ items) (.separator path op values)
  | nextItem {tokens words items : List Token} {path : FieldPath} {op : Comparator}
      {openParen comma : Token} {values : LiteralList} (hpath : PathTokens tokens path)
      (hwords : MembershipTokens words op) (hopen : openParen.kind = .openParen)
      (hitems : ItemTokens items values) (hcomma : comma.kind = .comma) :
      Pending d (tokens ++ words ++ [openParen] ++ items ++ [comma]) (.nextItem path op values)
  | connective {tokens : List Token} {operand : Expr} (h : Derives d .primary tokens operand) :
      Pending d tokens (.connective operand)

/-! ## States -/

/-- A state stands for the tokens that were read. -/
structure Read (room : Nat) (tokens : List Token) (r : Reading) : Prop where
  exists_split : ∃ before waiting pending, tokens = before ++ waiting ++ pending ∧
    Opened room r.outer before ∧ Waiting (room - r.depth) waiting r.inner ∧
    Pending (room - r.depth) pending r.awaiting

variable {room limit leaked : Nat} {r r' : Reading}

theorem Read.nil : Read room [] {} :=
  ⟨[], [], [], rfl, .nil, .nil, .operand⟩

/-- Every move keeps the relation between a state and what was read. -/
theorem Read.of_moves (hread : Read room tokens r) (hmoves : Moves room r token r')
    (hagrees : token.agrees = true) : Read room (tokens ++ [token]) r' := by
  rcases hread.exists_split with ⟨before, waiting, pending, rfl, houter, hwait, hpending⟩
  -- only connectives and parentheses of groups change what waits and what is open; every other
  -- move adds its token to what is pending
  cases hmoves with
  | openGroup hkind hroom =>
      cases hpending
      refine ⟨before ++ waiting ++ [token], [], [], by simp, ?_, .nil, .operand⟩
      exact .cons houter hroom hwait hkind
  | firstSegment hkind hword =>
      cases hpending
      exact ⟨before, waiting, [token], by simp, houter, hwait, .path (.single hkind hword)⟩
  | dot hkind =>
      cases hpending with
      | path hpath =>
          exact ⟨before, waiting, pending ++ [token], by simp, houter, hwait, .segment hpath hkind⟩
  | nextSegment hkind hword =>
      cases hpending with
      | @segment path _ dot hpath hdot =>
          refine ⟨before, waiting, path ++ [dot, token], by simp, houter, hwait, ?_⟩
          exact .path (.push hpath hdot hkind hword)
  | comparator hop =>
      cases hpending with
      | path hpath =>
          exact ⟨before, waiting, pending ++ [token], by simp, houter, hwait, .value hpath hop⟩
  | memberOf hkind =>
      cases hpending with
      | path hpath =>
          refine ⟨before, waiting, pending ++ [token], by simp, houter, hwait, ?_⟩
          exact .list hpath (.memberOf hkind)
  | negation hkind =>
      cases hpending with
      | path hpath =>
          exact ⟨before, waiting, pending ++ [token], by simp, houter, hwait, .inWord hpath hkind⟩
  | notMemberOf hkind =>
      cases hpending with
      | @inWord path _ word hpath hword =>
          refine ⟨before, waiting, path ++ [word, token], by simp, houter, hwait, ?_⟩
          exact .list hpath (.notMemberOf hword hkind)
  | value hvalue hadmits haccepts =>
      cases hpending with
      | @value path _ comparator _ hpath hop =>
          refine ⟨before, waiting, path ++ [comparator, token], by simp, houter, hwait, ?_⟩
          have hkind : token.kind ∈ _ :=
            Token.kind_eq_of_agrees hagrees hvalue ▸ Comparator.accepts_single_iff.1 haccepts
          exact .connective (.comparison (.single hpath hop hkind hvalue))
  | openList hkind =>
      cases hpending with
      | @list path words _ _ hpath hwords =>
          refine ⟨before, waiting, path ++ words ++ [token], by simp, houter, hwait, ?_⟩
          exact .firstItem hpath hwords hkind
  | firstItem hvalue =>
      cases hpending with
      | @firstItem path words _ _ openParen hpath hwords hopen =>
          refine ⟨before, waiting, path ++ words ++ [openParen] ++ [token], by simp, houter,
            hwait, ?_⟩
          have hliteral : token.kind.isLiteral = true :=
            Token.kind_eq_of_agrees hagrees hvalue ▸ Literal.isLiteral_tokenKind _
          exact .separator hpath hwords hopen (.single hliteral hvalue)
  | comma hkind =>
      cases hpending with
      | @separator path words items _ _ openParen _ hpath hwords hopen hitems =>
          refine ⟨before, waiting, path ++ words ++ [openParen] ++ items ++ [token], by simp,
            houter, hwait, ?_⟩
          exact .nextItem hpath hwords hopen hitems hkind
  | nextItem hvalue =>
      cases hpending with
      | @nextItem path words items _ _ openParen comma _ hpath hwords hopen hitems hcomma =>
          refine ⟨before, waiting, path ++ words ++ [openParen] ++ (items ++ [comma, token]),
            by simp, houter, hwait, ?_⟩
          have hliteral : token.kind.isLiteral = true :=
            Token.kind_eq_of_agrees hagrees hvalue ▸ Literal.isLiteral_tokenKind _
          exact .separator hpath hwords hopen (.push hitems hcomma hliteral hvalue)
  | closeList hkind haccepts =>
      cases hpending with
      | @separator path words items _ _ openParen _ hpath hwords hopen hitems =>
          refine ⟨before, waiting, path ++ words ++ [openParen] ++ items ++ [token], by simp,
            houter, hwait, ?_⟩
          exact .connective (.comparison (.list hpath hwords hopen hitems hkind))
  | connective hop =>
      cases hpending with
      | connective he =>
          refine ⟨before, waiting ++ pending ++ [token], [], by simp, houter, ?_, .operand⟩
          exact hwait.extend he hop
  | @closeGroup outer _ _ _ _ hkind =>
      cases hpending with
      | connective he =>
          cases houter with
          | @cons _ _ tokens outerWaiting openParen houter hroom hwaitOuter hopen =>
              -- the group gives back the room that it took
              have hd : room - outer.length = (room - (outer.length + 1)) + 1 := by omega
              refine ⟨tokens, outerWaiting, [openParen] ++ (waiting ++ pending) ++ [token], by simp,
                houter, hwaitOuter, .connective ?_⟩
              rw [depth, hd]
              exact .group hopen (hwait.derives_close he) hkind

/-- A run keeps the relation between a state and what was read. -/
theorem Read.of_run {more : List Token} (hread : Read (limit - leaked) tokens r)
    (hrun : run limit leaked r more = .ok r') (hagrees : ∀ token ∈ more, token.agrees = true) :
    Read (limit - leaked) (tokens ++ more) r' := by
  induction more generalizing tokens r with
  | nil =>
      cases hrun
      simpa using hread
  | cons token more ih =>
      rcases exists_of_run_cons hrun with ⟨r₁, hmoves, hrun₁⟩
      have hread₁ : Read (limit - leaked) (tokens ++ [token]) r₁ :=
        hread.of_moves hmoves (hagrees token (by simp))
      have hmore := ih hread₁ hrun₁ fun t ht => hagrees t (by simp [ht])
      simpa using hmore

/-- What has been read where a query may end is a query. -/
theorem Read.derives_of_finish (hread : Read room tokens r) (hfinish : r.finish = .ok e) :
    Derives room .disjunction tokens e := by
  rcases r with ⟨outer, inner, awaiting⟩
  rcases hread.exists_split with ⟨before, waiting, pending, rfl, houter, hwait, hpending⟩
  cases awaiting with
  | connective operand =>
      cases outer with
      | nil =>
          cases houter
          cases hpending with
          | connective he =>
              have hclose : inner.close operand = e := by simpa [finish] using hfinish
              exact hclose ▸ hwait.derives_close he
      | cons level outer => simp [finish] at hfinish
  | _ => simp [finish] at hfinish

/-- Tokens that are read as a query are derived with its tree. -/
theorem derives_of_ofTokens (hagrees : ∀ token ∈ tokens, token.agrees = true)
    (h : Query.ofTokens limit tokens = .ok e) : Derives limit .disjunction tokens e := by
  rcases ofTokens_eq_ok_iff.1 h with ⟨r, hrun, hfinish⟩
  have hread : Read (limit - 0) ([] ++ tokens) r := Read.nil.of_run hrun hagrees
  exact hread.derives_of_finish hfinish

end Reading
end FieldFilter
