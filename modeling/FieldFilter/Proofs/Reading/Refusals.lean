import FieldFilter.Proofs.Reading.Moves
import Mathlib.Tactic.SplitIfs

/-!
# Why a token is refused

* `Reading.failure_of_step` — the reasons for which a step fails;
* `Failure.NamesCap` — the failures that are due to the cap on nested groups;
* `Reading.AtCap` — a parenthesis that finds the cap reached;
* `Reading.step_under_caps` — every other token is taken or refused without regard to the cap.
-/

namespace FieldFilter

/-- A failure that names a cap as what was expected. -/
def Failure.NamesCap (limit : Nat) (failure : Failure) : Prop :=
  ∃ value position span,
    failure = .grammatical (.unexpectedToken value (.nesting limit) position span)

namespace Reading

variable {limit leaked limit' leaked' room : Nat} {r r' : Reading} {token : Token}
  {failure : Failure}

/-! ## Why a token is refused -/

/-- No state expects a cap. -/
theorem expectation_ne_nesting (limit : Nat) (r : Reading) : r.expectation ≠ .nesting limit := by
  rcases r with ⟨outer, inner, awaiting⟩
  cases awaiting with
  | value path op => cases op <;> nofun
  | connective operand => cases outer <;> nofun
  | _ => nofun

theorem segmentOf_bind_error {goOn : Segment → Reading}
    (h : (do let segment ← segmentOf token; return goOn segment) = .error failure) :
    ∃ breach, failure = .broken breach := by
  unfold segmentOf at h
  split at h <;> cases h
  exact ⟨_, rfl⟩

theorem compared_error {path : FieldPath} {op : Comparator} {right : Operand}
    (h : r.compared path op right = .error failure) : ∃ breach, failure = .broken breach := by
  unfold compared at h
  split at h <;> cases h
  exact ⟨_, rfl⟩

/-- A step fails because the token may not come next, because the cap is reached, or because a rule
of the constructors is broken. -/
theorem failure_of_step (h : r.step limit leaked token = .error failure) :
    failure = .unexpected r.expectation token ∨ (∃ breach, failure = .broken breach) ∨
      r.awaiting = .operand ∧ token.kind = .openParen ∧
        failure = .unexpected (.nesting limit) token := by
  rcases r with ⟨outer, inner, awaiting⟩
  cases awaiting with
  | operand =>
      cases hkind : token.kind with
      | openParen =>
          by_cases hroom : leaked + outer.length < limit
          · simp [step, hkind, depth, hroom] at h
          · exact .inr (.inr ⟨rfl, rfl, by simpa [step, hkind, depth, hroom] using h.symm⟩)
      | name =>
          simp only [step, hkind] at h
          exact .inr (.inl (segmentOf_bind_error h))
      | _ => exact .inl (by simpa [step, hkind, reject] using h.symm)
  | path path =>
      cases hkind : token.kind with
      | dot | inWord | notWord => simp [step, hkind] at h
      | equals | notEquals | greater | greaterEqual | less | lessEqual | contains | notContains =>
          simp [step, hkind, TokenKind.comparator?] at h
      | _ => exact .inl (by simpa [step, hkind, TokenKind.comparator?, reject] using h.symm)
  | segment path =>
      simp only [step] at h
      split_ifs at h
      · exact .inr (.inl (segmentOf_bind_error h))
      · exact .inl (by simpa [reject] using h.symm)
  | inWord path | list path op =>
      simp only [step] at h
      split_ifs at h
      exact .inl (by simpa [reject] using h.symm)
  | value path op =>
      simp only [step] at h
      split at h
      · split_ifs at h
        · exact .inr (.inl (compared_error h))
        · exact .inl (by simpa [reject] using h.symm)
      · exact .inl (by simpa [reject] using h.symm)
  | firstItem path op | nextItem path op items =>
      simp only [step] at h
      split at h
      · cases h
      · exact .inl (by simpa [reject] using h.symm)
  | separator path op items =>
      simp only [step] at h
      split at h
      · cases h
      · exact .inr (.inl (compared_error h))
      · exact .inl (by simpa [reject] using h.symm)
  | connective operand =>
      simp only [step, joined] at h
      split at h
      · cases h
      · cases h
      · exact .inl (by simpa [reject] using h.symm)

theorem step_eq_of_ne (h : r.awaiting ≠ .operand ∨ token.kind ≠ .openParen) :
    r.step limit leaked token = r.step limit' leaked' token := by
  rcases r with ⟨outer, inner, awaiting⟩
  cases awaiting with
  | operand =>
      have hkind : token.kind ≠ .openParen := h.resolve_left (by simp)
      simp only [step]
      split
      · exact absurd ‹_› hkind
      · rfl
      · rfl
  | _ => rfl

/-! ## Where a cap is reached -/

/-- A parenthesis that could open a group if the cap were not reached. -/
structure AtCap (limit : Nat) (r : Reading) (token : Token) : Prop where
  awaiting : r.awaiting = .operand
  kind : token.kind = .openParen
  depth : r.depth = limit

theorem AtCap.step_eq (h : AtCap limit r token) :
    r.step limit 0 token = .error (.unexpected (.nesting limit) token) := by
  simp [step, h.awaiting, h.kind, h.depth]

theorem AtCap.exists_moves (h : AtCap limit r token) (hroom : limit < room) :
    ∃ r', Moves room r token r' ∧ r'.depth = limit + 1 := by
  rcases r with ⟨outer, inner, awaiting⟩
  obtain rfl : awaiting = .operand := h.awaiting
  have hdepth : outer.length = limit := h.depth
  exact ⟨_, .openGroup h.kind (hdepth ▸ hroom), by simp [Reading.depth, hdepth]⟩

theorem not_namesCap_of_step_of_ne (hne : r.awaiting ≠ .operand ∨ token.kind ≠ .openParen)
    (h : r.step limit 0 token = .error failure) : ¬ failure.NamesCap limit := by
  rintro ⟨value, position, span, rfl⟩
  rcases failure_of_step h with hrefused | ⟨breach, hbroken⟩ | ⟨hawaiting, hkind, -⟩
  · injection hrefused with hrefused
    injection hrefused with _ hexpected
    exact expectation_ne_nesting limit r hexpected.symm
  · cases hbroken
  · exact hne.elim (fun hne => hne hawaiting) (fun hne => hne hkind)

/-- Every token but such a parenthesis is taken or refused without regard to the cap. -/
theorem step_under_caps (hle : limit ≤ limit') (hdepth : r.depth ≤ limit)
    (hcap : ¬ AtCap limit r token) :
    r.step limit 0 token = r.step limit' 0 token ∧
      ∀ failure, r.step limit 0 token = .error failure → ¬ failure.NamesCap limit := by
  by_cases hopen : r.awaiting = .operand ∧ token.kind = .openParen
  · -- a group may be opened under both caps
    rcases hopen with ⟨hawaiting, hkind⟩
    have hlt : r.depth < limit := by
      refine Nat.lt_of_le_of_ne hdepth ?_
      intro hreached
      exact hcap ⟨hawaiting, hkind, hreached⟩
    have hlt' : r.depth < limit' := Nat.lt_of_lt_of_le hlt hle
    simp [step, hawaiting, hkind, hlt, hlt']
  · have hne : r.awaiting ≠ .operand ∨ token.kind ≠ .openParen :=
      Decidable.not_and_iff_not_or_not.1 hopen
    exact ⟨step_eq_of_ne hne, fun failure h => not_namesCap_of_step_of_ne hne h⟩

end Reading
end FieldFilter
