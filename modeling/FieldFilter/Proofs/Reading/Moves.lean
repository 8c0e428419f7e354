import FieldFilter.Proofs.Grammar
import FieldFilter.Query

/-!
# The moves of the reading machine

* `Reading.Moves` — what a token can do to a state, one constructor for each kind of move;
* `Reading.step_eq_ok_iff` — the machine makes exactly these moves;
* `Reading.run` — the state after several tokens, and how queries are read by it.
-/

namespace FieldFilter
namespace Reading

/-! ## Single moves -/

/-- `Moves room r token r'`: the token takes the state `r` to `r'` while at most `room` groups may
be open. -/
inductive Moves (room : Nat) : Reading → Token → Reading → Prop where
  | openGroup {outer : List Level} {inner : Level} {token : Token}
      (hkind : token.kind = .openParen) (hroom : outer.length < room) :
      Moves room ⟨outer, inner, .operand⟩ token ⟨inner :: outer, {}, .operand⟩
  | firstSegment {outer : List Level} {inner : Level} {token : Token} {segment : Segment}
      (hkind : token.kind = .name) (hword : token.valueText = segment.word) :
      Moves room ⟨outer, inner, .operand⟩ token ⟨outer, inner, .path (.single segment)⟩
  | dot {outer : List Level} {inner : Level} {token : Token} {path : FieldPath}
      (hkind : token.kind = .dot) :
      Moves room ⟨outer, inner, .path path⟩ token ⟨outer, inner, .segment path⟩
  | nextSegment {outer : List Level} {inner : Level} {token : Token} {path : FieldPath}
      {segment : Segment} (hkind : token.kind = .name) (hword : token.valueText = segment.word) :
      Moves room ⟨outer, inner, .segment path⟩ token ⟨outer, inner, .path (path.push segment)⟩
  | comparator {outer : List Level} {inner : Level} {token : Token} {path : FieldPath}
      {op : Comparator} (hop : token.kind.comparator? = some op) :
      Moves room ⟨outer, inner, .path path⟩ token ⟨outer, inner, .value path op⟩
  | memberOf {outer : List Level} {inner : Level} {token : Token} {path : FieldPath}
      (hkind : token.kind = .inWord) :
      Moves room ⟨outer, inner, .path path⟩ token ⟨outer, inner, .list path .memberOf⟩
  | negation {outer : List Level} {inner : Level} {token : Token} {path : FieldPath}
      (hkind : token.kind = .notWord) :
      Moves room ⟨outer, inner, .path path⟩ token ⟨outer, inner, .inWord path⟩
  | notMemberOf {outer : List Level} {inner : Level} {token : Token} {path : FieldPath}
      (hkind : token.kind = .inWord) :
      Moves room ⟨outer, inner, .inWord path⟩ token ⟨outer, inner, .list path .notMemberOf⟩
  | value {outer : List Level} {inner : Level} {token : Token} {path : FieldPath}
      {op : Comparator} {value : Literal} (hvalue : token.literal? = some value)
      (hadmits : op.expectation.admits value = true)
      (haccepts : op.accepts (.single value) = true) :
      Moves room ⟨outer, inner, .value path op⟩ token
        ⟨outer, inner, .connective (.comparison path op (.single value))⟩
  | openList {outer : List Level} {inner : Level} {token : Token} {path : FieldPath}
      {op : Comparator} (hkind : token.kind = .openParen) :
      Moves room ⟨outer, inner, .list path op⟩ token ⟨outer, inner, .firstItem path op⟩
  | firstItem {outer : List Level} {inner : Level} {token : Token} {path : FieldPath}
      {op : Comparator} {value : Literal} (hvalue : token.literal? = some value) :
      Moves room ⟨outer, inner, .firstItem path op⟩ token
        ⟨outer, inner, .separator path op (.single value)⟩
  | comma {outer : List Level} {inner : Level} {token : Token} {path : FieldPath}
      {op : Comparator} {items : LiteralList} (hkind : token.kind = .comma) :
      Moves room ⟨outer, inner, .separator path op items⟩ token
        ⟨outer, inner, .nextItem path op items⟩
  | nextItem {outer : List Level} {inner : Level} {token : Token} {path : FieldPath}
      {op : Comparator} {items : LiteralList} {value : Literal}
      (hvalue : token.literal? = some value) :
      Moves room ⟨outer, inner, .nextItem path op items⟩ token
        ⟨outer, inner, .separator path op (items.push value)⟩
  | closeList {outer : List Level} {inner : Level} {token : Token} {path : FieldPath}
      {op : Comparator} {items : LiteralList} (hkind : token.kind = .closeParen)
      (haccepts : op.accepts (.list items) = true) :
      Moves room ⟨outer, inner, .separator path op items⟩ token
        ⟨outer, inner, .connective (.comparison path op (.list items))⟩
  | connective {outer : List Level} {inner : Level} {token : Token} {operand : Expr}
      {op : Connective} (hop : token.kind.connective? = some op) :
      Moves room ⟨outer, inner, .connective operand⟩ token
        ⟨outer, inner.extend operand op, .operand⟩
  | closeGroup {outer : List Level} {level inner : Level} {token : Token} {operand : Expr}
      (hkind : token.kind = .closeParen) :
      Moves room ⟨level :: outer, inner, .connective operand⟩ token
        ⟨outer, level, .connective (inner.close operand)⟩

variable {limit leaked : Nat} {r r' : Reading} {token : Token}

/-! ## The machine makes exactly these moves -/

theorem segmentOf_eq_ok_iff {segment : Segment} :
    segmentOf token = .ok segment ↔ token.valueText = segment.word := by
  rcases segment with ⟨word, hword⟩
  by_cases hvalid : isSegment token.valueText = true
  · simp [segmentOf, Segment.ofWord?, hvalid]
  · have hne : token.valueText ≠ word := fun h => hvalid (h ▸ hword)
    simp [segmentOf, Segment.ofWord?, hvalid, hne]

theorem compared_eq_ok_iff {path : FieldPath} {op : Comparator} {right : Operand} :
    r.compared path op right = .ok r' ↔
      op.accepts right = true ∧ r' = r.await (.connective (.comparison path op right)) := by
  unfold compared Expr.compare
  by_cases h : op.accepts right = true
  · simp [h, eq_comm]
  · simp [h]

/-- A move of the table is a step of the machine. -/
theorem step_of_moves (h : Moves (limit - leaked) r token r') :
    r.step limit leaked token = .ok r' := by
  cases h with
  | openGroup hkind hroom =>
      have hopen : leaked + List.length _ < limit :=
        Nat.add_comm _ leaked ▸ Nat.add_lt_of_lt_sub hroom
      simp [step, hkind, depth, hopen]
  | firstSegment hkind hword =>
      simp [step, hkind, segmentOf_eq_ok_iff.2 hword, await, bind, Except.bind, pure, Except.pure]
  | dot hkind => simp [step, hkind, await]
  | nextSegment hkind hword =>
      simp [step, hkind, segmentOf_eq_ok_iff.2 hword, await, bind, Except.bind, pure, Except.pure]
  | comparator hop =>
      cases hkind : token.kind <;> simp_all [step, await, TokenKind.comparator?]
  | memberOf hkind => simp [step, hkind, await]
  | negation hkind => simp [step, hkind, await]
  | notMemberOf hkind => simp [step, hkind, await]
  | value hvalue hadmits haccepts =>
      simp [step, hvalue, hadmits, compared, Expr.compare, haccepts, await]
  | openList hkind => simp [step, hkind, await]
  | firstItem hvalue => simp [step, hvalue, await]
  | comma hkind => simp [step, hkind, await]
  | nextItem hvalue => simp [step, hvalue, await]
  | closeList hkind haccepts => simp [step, hkind, compared, Expr.compare, haccepts, await]
  | connective hop => simp [step, joined, hop]
  | closeGroup hkind => simp [step, joined, hkind, TokenKind.connective?]

/-- A step of the machine is a move of the table. -/
theorem moves_of_step (h : r.step limit leaked token = .ok r') :
    Moves (limit - leaked) r token r' := by
  rcases r with ⟨outer, inner, awaiting⟩
  -- one case for each thing that is awaited; the tokens that no move takes are errors of the step
  cases awaiting with
  | operand =>
      cases hkind : token.kind with
      | openParen =>
          by_cases hroom : leaked + outer.length < limit
          · have hr' : ⟨inner :: outer, {}, .operand⟩ = r' := by
              simpa [step, hkind, depth, hroom] using h
            exact hr' ▸ .openGroup hkind (by omega)
          · simp [step, hkind, depth, hroom] at h
      | name =>
          cases hsegment : segmentOf token with
          | error failure => simp [step, hkind, hsegment, bind, Except.bind] at h
          | ok segment =>
              have hr' : ⟨outer, inner, .path (.single segment)⟩ = r' := by
                simpa [step, hkind, hsegment, bind, Except.bind, pure, Except.pure, await] using h
              exact hr' ▸ .firstSegment hkind (segmentOf_eq_ok_iff.1 hsegment)
      | _ => simp [step, hkind, reject] at h
  | path path =>
      cases hkind : token.kind with
      | dot =>
          have hr' : ⟨outer, inner, .segment path⟩ = r' := by simpa [step, hkind, await] using h
          exact hr' ▸ .dot hkind
      | inWord =>
          have hr' : ⟨outer, inner, .list path .memberOf⟩ = r' := by
            simpa [step, hkind, await] using h
          exact hr' ▸ .memberOf hkind
      | notWord =>
          have hr' : ⟨outer, inner, .inWord path⟩ = r' := by simpa [step, hkind, await] using h
          exact hr' ▸ .negation hkind
      | equals | notEquals | greater | greaterEqual | less | lessEqual | contains | notContains =>
          simp only [step, hkind, TokenKind.comparator?, await, Except.ok.injEq] at h
          exact h ▸ .comparator (by simp only [hkind, TokenKind.comparator?])
      | _ => simp [step, hkind, TokenKind.comparator?, reject] at h
  | segment path =>
      by_cases hkind : token.kind = .name
      · cases hsegment : segmentOf token with
        | error failure => simp [step, hkind, hsegment, bind, Except.bind] at h
        | ok segment =>
            have hr' : ⟨outer, inner, .path (path.push segment)⟩ = r' := by
              simpa [step, hkind, hsegment, bind, Except.bind, pure, Except.pure, await] using h
            exact hr' ▸ .nextSegment hkind (segmentOf_eq_ok_iff.1 hsegment)
      · simp [step, hkind, reject] at h
  | inWord path =>
      by_cases hkind : token.kind = .inWord
      · have hr' : ⟨outer, inner, .list path .notMemberOf⟩ = r' := by
          simpa [step, hkind, await] using h
        exact hr' ▸ .notMemberOf hkind
      · simp [step, hkind, reject] at h
  | value path op =>
      cases hvalue : token.literal? with
      | none => simp [step, hvalue, reject] at h
      | some value =>
          by_cases hadmits : op.expectation.admits value = true
          · have hcompared : compared ⟨outer, inner, .value path op⟩ path op (.single value) =
                .ok r' := by simpa [step, hvalue, hadmits] using h
            rcases compared_eq_ok_iff.1 hcompared with ⟨haccepts, rfl⟩
            exact .value hvalue hadmits haccepts
          · simp [step, hvalue, hadmits, reject] at h
  | list path op =>
      by_cases hkind : token.kind = .openParen
      · have hr' : ⟨outer, inner, .firstItem path op⟩ = r' := by
          simpa [step, hkind, await] using h
        exact hr' ▸ .openList hkind
      · simp [step, hkind, reject] at h
  | firstItem path op =>
      cases hvalue : token.literal? with
      | none => simp [step, hvalue, reject] at h
      | some value =>
          have hr' : ⟨outer, inner, .separator path op (.single value)⟩ = r' := by
            simpa [step, hvalue, await] using h
          exact hr' ▸ .firstItem hvalue
  | nextItem path op items =>
      cases hvalue : token.literal? with
      | none => simp [step, hvalue, reject] at h
      | some value =>
          have hr' : ⟨outer, inner, .separator path op (items.push value)⟩ = r' := by
            simpa [step, hvalue, await] using h
          exact hr' ▸ .nextItem hvalue
  | separator path op items =>
      cases hkind : token.kind with
      | comma =>
          have hr' : ⟨outer, inner, .nextItem path op items⟩ = r' := by
            simpa [step, hkind, await] using h
          exact hr' ▸ .comma hkind
      | closeParen =>
          have hcompared : compared ⟨outer, inner, .separator path op items⟩ path op
              (.list items) = .ok r' := by simpa [step, hkind] using h
          rcases compared_eq_ok_iff.1 hcompared with ⟨haccepts, rfl⟩
          exact .closeList hkind haccepts
      | _ => simp [step, hkind, reject] at h
  | connective operand =>
      cases hop : token.kind.connective? with
      | some op =>
          have hr' : ⟨outer, inner.extend operand op, .operand⟩ = r' := by
            simpa [step, joined, hop] using h
          exact hr' ▸ .connective hop
      | none =>
          by_cases hkind : token.kind = .closeParen
          · cases outer with
            | nil => simp [step, joined, hkind, TokenKind.connective?, reject] at h
            | cons level outer =>
                have hr' : ⟨outer, level, .connective (inner.close operand)⟩ = r' := by
                  simpa [step, joined, hkind, TokenKind.connective?] using h
                exact hr' ▸ .closeGroup hkind
          · simp [step, joined, hop, hkind, reject] at h

/-- The steps of the machine are the moves of the table. -/
theorem step_eq_ok_iff :
    r.step limit leaked token = .ok r' ↔ Moves (limit - leaked) r token r' :=
  ⟨moves_of_step, step_of_moves⟩

/-! ## Runs -/

/-- The state after several tokens. -/
def run (limit leaked : Nat) (r : Reading) (tokens : List Token) : Except Failure Reading :=
  tokens.foldlM (step limit leaked) r

@[simp] theorem run_nil : run limit leaked r [] = .ok r := rfl

theorem run_cons (tokens : List Token) :
    run limit leaked r (token :: tokens) =
      (r.step limit leaked token).bind fun r => run limit leaked r tokens := rfl

theorem run_cons_of_moves (h : Moves (limit - leaked) r token r') (tokens : List Token) :
    run limit leaked r (token :: tokens) = run limit leaked r' tokens := by
  rw [run_cons, step_of_moves h, Except.bind]

theorem run_singleton_of_moves (h : Moves (limit - leaked) r token r') :
    run limit leaked r [token] = .ok r' :=
  run_cons_of_moves h []

/-- A run that succeeds starts with a move. -/
theorem exists_of_run_cons {tokens : List Token} {r₁ : Reading}
    (h : run limit leaked r (token :: tokens) = .ok r₁) :
    ∃ r', Moves (limit - leaked) r token r' ∧ run limit leaked r' tokens = .ok r₁ := by
  rw [run_cons] at h
  cases hstep : r.step limit leaked token with
  | error failure => simp [hstep, Except.bind] at h
  | ok r' => exact ⟨r', moves_of_step hstep, by simpa [hstep, Except.bind] using h⟩

theorem run_append {tokens : List Token} (h : run limit leaked r tokens = .ok r')
    (more : List Token) : run limit leaked r (tokens ++ more) = run limit leaked r' more := by
  have hbind : run limit leaked r (tokens ++ more) =
      (run limit leaked r tokens).bind fun r => run limit leaked r more :=
    List.foldlM_append
  rw [hbind, h, Except.bind]

theorem run_append_of_error {tokens : List Token} {failure : Failure}
    (h : run limit leaked r tokens = .error failure) (more : List Token) :
    run limit leaked r (tokens ++ more) = .error failure := by
  have hbind : run limit leaked r (tokens ++ more) =
      (run limit leaked r tokens).bind fun r => run limit leaked r more :=
    List.foldlM_append
  rw [hbind, h, Except.bind]

/-- The first part of a run that succeeds succeeds. -/
theorem exists_run_of_append {tokens more : List Token}
    (h : run limit leaked r (tokens ++ more) = .ok r') :
    ∃ r₁, run limit leaked r tokens = .ok r₁ := by
  cases hrun : run limit leaked r tokens with
  | ok r₁ => exact ⟨r₁, rfl⟩
  | error failure =>
      rw [run_append_of_error hrun] at h
      cases h

/-! ## Queries are runs -/

/-- A query is read by a run; a fault of the text goes before what the run comes to. -/
theorem readFrom_fst (error : Option LexError) (tokens : List Token) :
    (Session.readFrom limit leaked error r tokens).1 =
      (run limit leaked r tokens).bind fun r =>
        match error with
        | some error => .error (.lexical error)
        | none => r.finish := by
  induction tokens generalizing r with
  | nil => cases error <;> rfl
  | cons token tokens ih =>
      rw [run_cons, Session.readFrom]
      cases hstep : r.step limit leaked token with
      | error failure => rfl
      | ok r' => exact ih

theorem ofTokens_eq (limit : Nat) (tokens : List Token) :
    Query.ofTokens limit tokens = (run limit 0 {} tokens).bind finish :=
  readFrom_fst none tokens

/-- The tokens are a query when the run over them succeeds and ends where a query may end. -/
theorem ofTokens_eq_ok_iff {tokens : List Token} {e : Expr} :
    Query.ofTokens limit tokens = .ok e ↔
      ∃ r, run limit 0 {} tokens = .ok r ∧ r.finish = .ok e := by
  rw [ofTokens_eq]
  cases run limit 0 {} tokens with
  | error failure => simp [Except.bind]
  | ok r => simp [Except.bind]

end Reading
end FieldFilter
