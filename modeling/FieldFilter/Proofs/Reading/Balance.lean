import FieldFilter.Proofs.Reading.Nesting

/-!
# What a layer derives leaves the groups around it alone

* `Reading.within`, `Reading.run_within` — a run is the same inside more groups;
* `Balanced` — tokens that close the groups they open and no others;
* `Derives.balanced` — what a layer derives is balanced;
* `Parentheses.opened`, `groupCount` — how many groups tokens open, and how balanced tokens add to
  that number.
-/

namespace FieldFilter
namespace Reading

variable {limit room : Nat} {r r' : Reading} {token : Token} {tokens : List Token}
  {outer : List Level}

/-! ## Runs inside more groups -/

/-- A state inside more groups. -/
def within (outer : List Level) (r : Reading) : Reading :=
  { r with outer := r.outer ++ outer }

theorem Moves.within (h : Moves room r token r') (outer : List Level) :
    Moves (room + outer.length) (r.within outer) token (r'.within outer) := by
  cases h with
  | @openGroup groups inner token hkind hroom =>
      have hmore : (groups ++ outer).length < room + outer.length := by
        rw [List.length_append]
        omega
      exact .openGroup hkind hmore
  | closeGroup hkind => exact .closeGroup hkind
  | _ => constructor <;> assumption

theorem run_within (h : run limit 0 r tokens = .ok r') (outer : List Level) :
    run (limit + outer.length) 0 (r.within outer) tokens = .ok (r'.within outer) := by
  induction tokens generalizing r with
  | nil =>
      cases h
      rfl
  | cons token tokens ih =>
      rcases exists_of_run_cons h with ⟨r₁, hmoves, hrun⟩
      have hmoves' : Moves (limit + outer.length - 0) (r.within outer) token (r₁.within outer) :=
        hmoves.within outer
      rw [run_cons_of_moves hmoves']
      exact ih hrun

/-- The parentheses that a run from the start opens and closes, inside more groups. -/
theorem foldl_after_of_run (h : run limit 0 {} tokens = .ok r)
    (hagrees : ∀ token ∈ tokens, token.agrees = true) (g : Nat) :
    tokens.foldl Parentheses.after ⟨g, .outside⟩ = ⟨r.depth + g, r.listPart⟩ := by
  -- the same run inside `g` empty groups, of which the machine counts the parentheses
  have hrun := run_within h (List.replicate g {})
  have hfold := parentheses_of_run hrun hagrees
  simpa [parentheses, within, depth, listPart] using hfold

end Reading

/-! ## Balanced tokens -/

/-- Outside of lists, the tokens close the groups that they open and no others. -/
structure Balanced (tokens : List Token) : Prop where
  stays : ∀ g front, front <+: tokens → g ≤ (front.foldl Parentheses.after ⟨g, .outside⟩).groups
  returns : ∀ g, tokens.foldl Parentheses.after ⟨g, .outside⟩ = ⟨g, .outside⟩

/-- What a layer derives is balanced. -/
theorem Derives.balanced {d : Nat} {layer : Layer} {tokens : List Token} {e : Expr}
    (h : Derives d layer tokens e) (hagrees : ∀ token ∈ tokens, token.agrees = true) :
    Balanced tokens := by
  have hready : layer.Ready {} := by
    cases layer with
    | primary => exact trivial
    | _ => exact rfl
  have hroom : ([] : List Level).length + d ≤ d - 0 := by simp
  rcases Reading.exists_run_of_derives h hagrees [] {} hready hroom with
    ⟨inner, operand, hrun, -⟩
  constructor
  · intro g front hfront
    rcases hfront with ⟨back, rfl⟩
    -- whatever part of the tokens has been read, the machine has at least no group open
    rcases Reading.exists_run_of_append hrun with ⟨r, hrun'⟩
    rw [Reading.foldl_after_of_run hrun' fun t ht => hagrees t (by simp [ht])]
    exact Nat.le_add_left g r.depth
  · intro g
    rw [Reading.foldl_after_of_run hrun hagrees]
    simp [Reading.depth, Reading.listPart]

/-! ## Counting groups -/

namespace Parentheses

/-- How many of the tokens open a group, from some parentheses on. -/
def opened (p : Parentheses) : List Token → Nat
  | [] => 0
  | token :: tokens =>
    (if p.groups < (p.after token).groups then 1 else 0) + (p.after token).opened tokens

variable {p q : Parentheses} {token : Token} {tokens : List Token}

theorem opened_append (p : Parentheses) (tokens more : List Token) :
    p.opened (tokens ++ more) = p.opened tokens + (tokens.foldl after p).opened more := by
  induction tokens generalizing p with
  | nil => simp [opened]
  | cons token tokens ih => simp [opened, ih, Nat.add_assoc]

/-- Which tokens open a group does not hang on how many are open. -/
theorem after_congr (token : Token) (h : p.list = q.list) :
    (p.after token).list = (q.after token).list ∧
      (p.groups < (p.after token).groups ↔ q.groups < (q.after token).groups) := by
  rcases p with ⟨g, list⟩
  rcases q with ⟨g', list'⟩
  cases h
  cases list <;> cases hkind : token.kind <;> simp [after, hkind] <;> omega

theorem opened_congr (h : p.list = q.list) (tokens : List Token) :
    p.opened tokens = q.opened tokens := by
  induction tokens generalizing p q with
  | nil => rfl
  | cons token tokens ih =>
      rcases after_congr token h with ⟨hlist, hopens⟩
      rw [opened, opened, ih hlist]
      simp only [hopens]

end Parentheses

/-- How many groups tokens open, beside each other or in each other. -/
def groupCount (tokens : List Token) : Nat :=
  ({} : Parentheses).opened tokens

end FieldFilter
