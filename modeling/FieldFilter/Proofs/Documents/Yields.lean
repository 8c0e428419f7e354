import FieldFilter.Json.Reading

/-!
# What readers of documents give

* `Reader.Yields` — every value that a reader gives has a property;
* `Yields.listOf`, `Yields.record`, `Yields.variant`, `Yields.checked` — the property of lists,
  records, variants and checked values, from that of their parts;
* `Yields.document` — the property of the value of a whole document.
-/

namespace FieldFilter
namespace Json
namespace Reader

/-- Every value that a reader gives has the property. -/
def Yields {α : Type} (P : α → Prop) (read : Reader α) : Prop :=
  ∀ cs value rest, read cs = .ok (value, rest) → P value

/-- Every value that a case gives has the property. -/
def Case.Yields {α : Type} (P : α → Prop) : Case α → Prop
  | .plain value => P value
  | .carrying payload => Reader.Yields P payload

variable {α β δ : Type} {P : α → Prop} {Q : β → Prop}

/-! ## Steps of a reader -/

theorem exists_of_bind_eq_ok {ε : Type} {x : Except ε α} {f : α → Except ε β} {b : β}
    (h : x.bind f = .ok b) : ∃ a, x = .ok a ∧ f a = .ok b := by
  cases x with
  | error error => cases h
  | ok a => exact ⟨a, rfl, h⟩

theorem Yields.bind {read : Reader α} {f : α → β} (hread : read.Yields P)
    (hf : ∀ value, P value → Q (f value)) :
    Yields Q fun cs => do
      let (value, rest) ← read cs
      return (f value, rest) := by
  intro cs value rest h
  rcases exists_of_bind_eq_ok h with ⟨⟨a, rest'⟩, ha, hvalue⟩
  cases hvalue
  exact hf a (hread cs a rest ha)

theorem Yields.checked {read : Reader α} {rule : α → Except String β} (hread : read.Yields P)
    (hrule : ∀ a b, P a → rule a = .ok b → Q b) : (checked read rule).Yields Q := by
  intro cs value rest h
  rcases exists_of_bind_eq_ok h with ⟨⟨a, rest'⟩, ha, hvalue⟩
  dsimp only at hvalue
  cases hb : rule a with
  | error reason => simp [hb] at hvalue
  | ok b =>
      rw [hb] at hvalue
      cases hvalue
      exact hrule a value (hread cs a rest ha) hb

/-! ## Lists -/

theorem Yields.listItems {item : Reader α} (hitem : item.Yields P) (steps : Nat) (isFirst : Bool) :
    (listItems item steps isFirst).Yields fun values => ∀ value ∈ values, P value := by
  induction steps generalizing isFirst with
  | zero =>
      intro cs values rest h
      cases h
  | succ steps ih =>
      intro cs values rest h
      rcases exists_of_bind_eq_ok h with ⟨next, -, h⟩
      cases next with
      | close rest' =>
          cases h
          simp
      | item cs' =>
          rcases exists_of_bind_eq_ok h with ⟨⟨first, rest₁⟩, hfirst, h⟩
          rcases exists_of_bind_eq_ok h with ⟨⟨more, rest₂⟩, hmore, h⟩
          cases h
          intro value hmem
          rcases List.mem_cons.1 hmem with rfl | hmem
          · exact hitem _ _ _ hfirst
          · exact ih false _ _ _ hmore value hmem

theorem Yields.listOf {item : Reader α} (hitem : item.Yields P) (room : Nat) :
    (listOf room item).Yields fun values => ∀ value ∈ values, P value := by
  intro cs values rest h
  unfold Reader.listOf at h
  split at h
  · split at h
    · cases h
    · exact hitem.listItems _ _ _ _ _ h
  · cases h
  · cases h

/-! ## Records -/

section
variable {fields : List (Field δ)} {D : δ → Prop}

theorem Yields.listedFields (hfields : ∀ field ∈ fields, ∀ draft, D draft →
    (field.read draft).Yields D) (isFirst : Bool) {draft : δ} (hdraft : D draft) :
    (listedFields fields isFirst draft).Yields D := by
  induction fields generalizing isFirst draft with
  | nil =>
      intro cs value rest h
      unfold Reader.listedFields at h
      split at h <;> cases h
      exact hdraft
  | cons field fields ih =>
      intro cs value rest h
      rcases exists_of_bind_eq_ok h with ⟨next, -, h⟩
      cases next with
      | close rest' => cases h
      | item cs' =>
          rcases exists_of_bind_eq_ok h with ⟨⟨draft', rest₁⟩, hdraft', h⟩
          have hkept : D draft' := hfields field (by simp) draft hdraft _ _ _ hdraft'
          exact ih (fun f hf => hfields f (by simp [hf])) false hkept _ _ _ h

theorem Yields.keyedFields (hfields : ∀ field ∈ fields, ∀ draft, D draft →
    (field.read draft).Yields D) (steps : Nat) (isFirst : Bool) {draft : δ} (hdraft : D draft) :
    (keyedFields fields steps isFirst draft).Yields D := by
  induction steps generalizing isFirst draft with
  | zero =>
      intro cs value rest h
      cases h
  | succ steps ih =>
      intro cs value rest h
      rcases exists_of_bind_eq_ok h with ⟨next, -, h⟩
      cases next with
      | close rest' =>
          cases h
          exact hdraft
      | item cs' =>
          rcases exists_of_bind_eq_ok h with ⟨⟨key, rest₁⟩, -, h⟩
          dsimp only at h
          split at h
          · rename_i field hfield
            split at h
            · cases h
            · rcases exists_of_bind_eq_ok h with ⟨rest₂, -, h⟩
              rcases exists_of_bind_eq_ok h with ⟨⟨draft', rest₃⟩, hdraft', h⟩
              have hkept : D draft' :=
                hfields field (List.mem_of_find?_eq_some hfield) draft hdraft _ _ _ hdraft'
              exact ih false hkept _ _ _ h
          -- what a key that is no field carries leaves the draft alone
          · rcases exists_of_bind_eq_ok h with ⟨rest₂, -, h⟩
            rcases exists_of_bind_eq_ok h with ⟨rest₃, -, h⟩
            exact ih false hdraft _ _ _ h

/-- A whole record has the property when every draft that it is finished from has its own. -/
theorem of_finished {finish : δ → Option α} {result : Except ReadError (δ × List Char)}
    {value : α} {rest : List Char} (hresult : ∀ draft rest, result = .ok (draft, rest) → D draft)
    (hfinish : ∀ draft value, D draft → finish draft = some value → P value)
    (h : (do
      let (draft, rest) ← result
      match finish draft with
      | some value => Except.ok (value, rest)
      | none => .error unfit) = .ok (value, rest)) : P value := by
  rcases exists_of_bind_eq_ok h with ⟨⟨draft, rest'⟩, hdraft, h⟩
  dsimp only at h
  split at h
  · rename_i value' hvalue
    cases h
    exact hfinish draft value (hresult draft rest hdraft) hvalue
  · cases h

/-- A record keeps what its empty draft has and every field keeps. -/
theorem Yields.record {empty : δ} {finish : δ → Option α} (room : Nat)
    (hfields : ∀ field ∈ fields, ∀ draft, D draft → (field.read draft).Yields D)
    (hempty : D empty) (hfinish : ∀ draft value, D draft → finish draft = some value → P value) :
    (record room fields empty finish).Yields P := by
  intro cs value rest h
  unfold Reader.record at h
  split at h
  · split at h
    · cases h
    · exact of_finished (fun draft rest => Yields.listedFields hfields true hempty _ _ _) hfinish h
  · split at h
    · cases h
    · exact of_finished (fun draft rest => Yields.keyedFields hfields _ true hempty _ _ _) hfinish h
  · cases h
  · cases h

end

/-! ## Variants -/

theorem Yields.variant {cases : List (String × Case α)} (room : Nat)
    (hcases : ∀ case ∈ cases, case.2.Yields P) : (variant room cases).Yields P := by
  have hcaseOf : ∀ name case, caseOf cases name = .ok case → case.Yields P := by
    intro name case h
    unfold caseOf at h
    split at h
    · rename_i found hfound
      cases h
      exact hcases found (List.mem_of_find?_eq_some hfound)
    · cases h
  intro cs value rest h
  unfold Reader.variant at h
  split at h
  · split at h
    · cases h
    · rcases exists_of_bind_eq_ok h with ⟨rest₁, -, h⟩
      rcases exists_of_bind_eq_ok h with ⟨⟨name, rest₂⟩, -, h⟩
      rcases exists_of_bind_eq_ok h with ⟨case, hcase, h⟩
      rcases exists_of_bind_eq_ok h with ⟨rest₃, -, h⟩
      rcases exists_of_bind_eq_ok h with ⟨⟨value', rest₄⟩, hvalue, h⟩
      dsimp only at h
      split at h <;> cases h
      have hyields := hcaseOf _ _ hcase
      cases case with
      | plain plainValue =>
          rcases exists_of_bind_eq_ok hvalue with ⟨⟨_, rest₅⟩, -, hvalue⟩
          cases hvalue
          exact hyields
      | carrying payload => exact hyields _ _ _ hvalue
  · rcases exists_of_bind_eq_ok h with ⟨⟨name, rest₂⟩, -, h⟩
    rcases exists_of_bind_eq_ok h with ⟨case, hcase, h⟩
    have hyields := hcaseOf _ _ hcase
    cases case with
    | plain plainValue =>
        cases h
        exact hyields
    | carrying payload => cases h
  · cases h
  · cases h

/-! ## Whole documents -/

theorem Yields.document {read : Reader α} (hread : read.Yields P) {cs : List Char} {value : α}
    (h : document read cs = .ok value) : P value := by
  rcases exists_of_bind_eq_ok h with ⟨⟨value', rest⟩, hvalue, h⟩
  dsimp only at h
  split at h <;> cases h
  exact hread _ _ _ hvalue

end Reader
end Json
end FieldFilter
