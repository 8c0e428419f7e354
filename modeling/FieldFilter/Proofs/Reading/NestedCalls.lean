import FieldFilter.Proofs.Reading.OnDemand

/-!
# How deep recursive descent goes

Calls of a reader by recursive descent are nested in each other by the groups of a query and by the
right operands of its connectives.  Each group has room for three calls that are nested by
connectives, however many tokens there are.

* `Query.descendTokens` — the filter that tokens stand for, read with a budget of nested calls;
* `Descent.withinGroup`, `Descent.withinGroups` — a reader that may nest three calls in each group;
* `Descent.reads_withinGroups` — it reads all that is nested no deeper than its groups;
* `Query.descendTokens_eq_ofTokens` — both readers come to what the tokens stand for.
-/

namespace FieldFilter

/-! ## Tokens that are given -/

/-- Tokens that are given, one after the other. -/
def Supply.ofTokens : Supply (List Token)
  | [] => .ok none
  | token :: tokens => .ok (some (token, tokens))

theorem produces_ofTokens (tokens : List Token) :
    Produces Supply.ofTokens tokens ⟨tokens, none⟩ := by
  induction tokens with
  | nil => exact .done rfl
  | cons token tokens ih => exact .token rfl ih

/-- The reader of tokens, before it has looked at any. -/
def Descent.ofTokens (tokens : List Token) : Descent (List Token) :=
  ⟨tokens, none, 0⟩

theorem Descent.at_ofTokens (limit : Nat) (tokens : List Token) :
    At Supply.ofTokens limit (Query.ofTokens limit tokens) (.ofTokens tokens) {}
      ⟨tokens, none⟩ :=
  ⟨produces_ofTokens tokens, rfl, rfl⟩

/-- The filter that tokens stand for, read on demand with a budget of nested calls. -/
def Query.descendTokens (limit budget : Nat) (tokens : List Token) :
    Option (Except Failure Expr) :=
  (Descent.query Supply.ofTokens limit (tokens.length + 1) budget (.ofTokens tokens)).run.map
    fun result => result.map Prod.fst

/-! ## Three calls in each group -/

namespace Descent

variable {σ : Type} (next : Supply σ) (limit : Nat)

/-- A filter whose connectives bind at least so tightly, read with so many calls nested in each
other by connectives, given how the groups inside it are read. -/
def withinGroup (inside : Nat → Action σ Expr) (steps : Nat) : Nat → Nat → Action σ Expr
  | 0, _ => exhausted
  | calls + 1, least => do
    let left ← primary next limit inside steps
    operators next (withinGroup inside steps calls) least steps left

/-- A filter whose connectives bind at least so tightly, read in so many groups inside each other,
with three nested calls in each. -/
def withinGroups (steps : Nat) : Nat → Nat → Action σ Expr
  | 0, _ => exhausted
  | groups + 1, least => withinGroup next limit (withinGroups steps groups) steps 3 least

variable {next limit} {target : Except Failure Expr} {outer : List Level} {layer : Layer}

theorem reads_withinGroup {inside : Nat → Action σ Expr} {steps calls : Nat}
    (hinside : ∀ inner, outer.length < limit →
      ReadsIn next limit target steps inside .disjunction (inner :: outer))
    (hcalls : layer.calls 0 ≤ calls) :
    ReadsIn next limit target steps (withinGroup next limit inside steps calls) layer outer := by
  -- on the calls: behind a connective there is a tighter layer, in the same group
  induction calls generalizing layer with
  | zero => cases layer <;> simp [Layer.calls] at hcalls
  | succ calls ih =>
      refine reads_layer hinside ?_
      intro op hle
      have hlt := Layer.calls_behind_lt hle 0
      exact @ih (.behind op) (by omega)

/-- A reader of so many groups reads the groups that the cap leaves. -/
theorem reads_withinGroups {steps groups : Nat} (hgroups : limit + 1 ≤ outer.length + groups)
    (hdepth : outer.length ≤ limit) :
    ReadsIn next limit target steps (withinGroups next limit steps groups) .disjunction outer := by
  -- on the groups: one that is opened takes one from the cap and one from the reader
  induction groups generalizing outer with
  | zero => omega
  | succ groups ih =>
      refine reads_withinGroup ?_ (Nat.le_refl _)
      intro inner hroom
      refine ih ?_ ?_
      · simp only [List.length_cons]
        omega
      · exact hroom

end Descent

/-! ## Both are enough -/

/-- The filter that tokens stand for, read on demand with three nested calls in each group that the
cap allows, and three outside of all groups. -/
def Query.descendGroups (limit : Nat) (tokens : List Token) : Option (Except Failure Expr) :=
  (Descent.whole Supply.ofTokens
    (Descent.withinGroups Supply.ofTokens limit (tokens.length + 1) (limit + 1) 0)
    (.ofTokens tokens)).run.map fun result => result.map Prod.fst

/-- However many tokens there are, three nested calls for each group that may be open and three more
come to what the tokens stand for, and so does every larger budget.  It is even enough to nest three
calls in each group. -/
theorem Query.descendTokens_eq_ofTokens (limit : Nat) (tokens : List Token) :
    descendTokens limit (3 * (limit + 1)) tokens = some (ofTokens limit tokens) ∧
      (∀ more, descendTokens limit (3 * (limit + 1) + more) tokens =
        some (ofTokens limit tokens)) ∧
      descendGroups limit tokens = some (ofTokens limit tokens) := by
  have hstart := Descent.at_ofTokens limit tokens
  have hsteps : tokens.length ≤ tokens.length + 1 := Nat.le_succ _
  have hbudget : ∀ more, descendTokens limit (3 * (limit + 1) + more) tokens =
      some (ofTokens limit tokens) := fun more =>
    (Descent.query_follows (Nat.le_add_right _ more) hsteps hstart).run_eq
  have hreads : Descent.ReadsIn Supply.ofTokens limit (ofTokens limit tokens) (tokens.length + 1)
      (Descent.withinGroups Supply.ofTokens limit (tokens.length + 1) (limit + 1)) .disjunction [] :=
    Descent.reads_withinGroups (Nat.le_add_left _ _) (Nat.zero_le limit)
  exact ⟨hbudget 0, hbudget, (Descent.whole_follows hreads hsteps hstart).run_eq⟩

/-- Two nested calls are not enough for an `and` behind an `or`. -/
example :
    let tokens := (TokenStream.ofText "a = 1 or b = 2 and c = 3".toList).tokens
    Query.descendTokens 0 2 tokens = none ∧ (Query.descendTokens 0 3 tokens).isSome := by
  decide +kernel

end FieldFilter
