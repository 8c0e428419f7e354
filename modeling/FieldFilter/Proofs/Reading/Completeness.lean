import FieldFilter.Proofs.Reading.Progress

/-!
# Everything the grammar derives is read

* `Reading.ComparisonTokens.run_eq` and its parts — a comparison leaves the groups as they are;
* `Layer.Ready`, `Layer.Joined` — what may wait before a layer is read, and what waits after it;
* `Reading.exists_run_of_derives` — the tokens of a layer are read with the tree of the layer;
* `Query.ofTokens_eq_ok_iff_derives` — the machine reads what the grammar derives, and nothing else.
-/

namespace FieldFilter
namespace Reading

variable {limit leaked : Nat} {outer : List Level} {inner : Level} {tokens : List Token}

/-! ## Comparisons -/

theorem run_of_pathTokens {path : FieldPath} (h : PathTokens tokens path) :
    run limit leaked ⟨outer, inner, .operand⟩ tokens = .ok ⟨outer, inner, .path path⟩ := by
  induction h with
  | single hkind hword => exact run_singleton_of_moves (.firstSegment hkind hword)
  | push _ hdot hkind hword ih =>
      rw [run_append ih, run_cons_of_moves (.dot hdot)]
      exact run_singleton_of_moves (.nextSegment hkind hword)

theorem run_of_membershipTokens {path : FieldPath} {op : Comparator}
    (h : MembershipTokens tokens op) :
    run limit leaked ⟨outer, inner, .path path⟩ tokens = .ok ⟨outer, inner, .list path op⟩ := by
  cases h with
  | memberOf hword => exact run_singleton_of_moves (.memberOf hword)
  | notMemberOf hnot hword =>
      rw [run_cons_of_moves (.negation hnot)]
      exact run_singleton_of_moves (.notMemberOf hword)

theorem run_of_itemTokens {path : FieldPath} {op : Comparator} {items : LiteralList}
    (h : ItemTokens tokens items) :
    run limit leaked ⟨outer, inner, .firstItem path op⟩ tokens =
      .ok ⟨outer, inner, .separator path op items⟩ := by
  induction h with
  | single _ hvalue => exact run_singleton_of_moves (.firstItem hvalue)
  | push _ hcomma _ hvalue ih =>
      rw [run_append ih, run_cons_of_moves (.comma hcomma)]
      exact run_singleton_of_moves (.nextItem hvalue)

/-- A comparator of single literals takes those that are expected behind it. -/
theorem accepts_eq_admits {op : Comparator} (h : op.isMembership = false) (value : Literal) :
    op.accepts (.single value) = op.expectation.admits value := by
  cases op with
  | memberOf | notMemberOf => cases h
  | _ => rfl

theorem admits_of_accepts {op : Comparator} {value : Literal}
    (h : op.accepts (.single value) = true) : op.expectation.admits value = true := by
  have hmembership : op.isMembership = false := by
    cases op with
    | memberOf | notMemberOf => cases h
    | _ => rfl
  rw [← accepts_eq_admits hmembership, h]

theorem MembershipTokens.accepts {op : Comparator} (h : MembershipTokens tokens op)
    (values : LiteralList) : op.accepts (.list values) = true := by
  cases h <;> rfl

theorem run_of_comparisonTokens {e : Expr} (h : ComparisonTokens tokens e)
    (hagrees : ∀ token ∈ tokens, token.agrees = true) :
    run limit leaked ⟨outer, inner, .operand⟩ tokens = .ok ⟨outer, inner, .connective e⟩ := by
  cases h with
  | @single path _ comparator token _ _ hpath hop hkind hvalue =>
      have htoken : token.agrees = true := hagrees token (by simp)
      rw [Token.kind_eq_of_agrees htoken hvalue] at hkind
      have haccepts := Comparator.accepts_single_iff.2 hkind
      rw [run_append (run_of_pathTokens hpath), run_cons_of_moves (.comparator hop)]
      exact run_singleton_of_moves (.value hvalue (admits_of_accepts haccepts) haccepts)
  | list hpath hwords hopen hitems hclose =>
      rw [List.append_assoc, List.append_assoc, List.append_assoc,
        run_append (run_of_pathTokens hpath), run_append (run_of_membershipTokens hwords),
        run_append (run_singleton_of_moves (.openList hopen)),
        run_append (run_of_itemTokens hitems)]
      exact run_singleton_of_moves (.closeList hclose (MembershipTokens.accepts hwords _))

end Reading

/-! ## Layers -/

namespace Layer

/-- What may wait in a group when a layer starts: a conjunction starts after a whole disjunct, a
disjunction at the start of its group. -/
def Ready : Layer → Level → Prop
  | .primary, _ => True
  | .conjunction, level => level.conjunct = none
  | .disjunction, level => level = {}

/-- What waits after a layer, given what waited before it: the last operand, joined to all that
waits since the layer started, is the tree of the layer. -/
def Joined : Layer → Level → Level → Expr → Expr → Prop
  | .primary, before, after, operand, e => after = before ∧ operand = e
  | .conjunction, before, after, operand, e =>
    after.disjunct = before.disjunct ∧ after.conjoin operand = e
  | .disjunction, _, after, operand, e => after.close operand = e

end Layer

namespace Reading

variable {limit leaked d : Nat} {layer : Layer} {tokens : List Token} {e : Expr}

/-- The tokens of a layer are read, and no more groups than the derivation needs are opened. -/
theorem exists_run_of_derives (h : Derives d layer tokens e)
    (hagrees : ∀ token ∈ tokens, token.agrees = true) (outer : List Level) (inner : Level)
    (hready : layer.Ready inner) (hroom : outer.length + d ≤ limit - leaked) :
    ∃ inner' operand,
      run limit leaked ⟨outer, inner, .operand⟩ tokens =
        .ok ⟨outer, inner', .connective operand⟩ ∧
      layer.Joined inner inner' operand e := by
  -- the right operand of a connective is read while the left one waits, so what waits is general
  induction h generalizing outer inner with
  | comparison h => exact ⟨inner, _, run_of_comparisonTokens h hagrees, rfl, rfl⟩
  | @group d tokens openParen closeParen e hopen _ hclose ih =>
      have htokens : ∀ token ∈ tokens, token.agrees = true := fun t ht => hagrees t (by simp [ht])
      -- nothing waits yet inside the parentheses, and what waited outside is kept
      rcases ih htokens (inner :: outer) {} rfl (by simp only [List.length_cons]; omega)
        with ⟨inner', operand, hrun, hjoined⟩
      have hjoined : inner'.close operand = e := hjoined
      refine ⟨inner, e, ?_, rfl, rfl⟩
      rw [List.append_assoc, run_append (run_singleton_of_moves (.openGroup hopen (by omega))),
        run_append hrun, ← hjoined]
      exact run_singleton_of_moves (.closeGroup hclose)
  | ofPrimary _ ih =>
      rcases ih hagrees outer inner trivial hroom with ⟨inner', operand, hrun, rfl, rfl⟩
      have hnone : inner'.conjunct = none := hready
      exact ⟨inner', operand, hrun, rfl, by simp [Level.conjoin, hnone]⟩
  | @and d lefts rights word left right _ hword _ ihl ihr =>
      rcases ihl (fun t ht => hagrees t (by simp [ht])) outer inner hready hroom
        with ⟨inner₁, operand₁, hrun₁, hdisjunct, hleft⟩
      rcases ihr (fun t ht => hagrees t (by simp [ht])) outer (inner₁.extend operand₁ .and) trivial
        hroom with ⟨inner₂, operand₂, hrun₂, rfl, rfl⟩
      have hop : word.kind.connective? = some .and := by rw [hword]; rfl
      refine ⟨inner₁.extend operand₁ .and, operand₂, ?_, hdisjunct, ?_⟩
      · rw [List.append_assoc, run_append hrun₁,
          run_append (run_singleton_of_moves (.connective hop)), hrun₂]
      · simp [Level.extend, Level.conjoin, ← hleft]
  | ofConjunction _ ih =>
      have hempty : inner = {} := hready
      subst hempty
      rcases ih hagrees outer {} rfl hroom with ⟨inner', operand, hrun, hdisjunct, hconjoin⟩
      have hnone : inner'.disjunct = none := hdisjunct
      refine ⟨inner', operand, hrun, ?_⟩
      simp [Layer.Joined, Level.close, hnone, hconjoin]
  | @or d lefts rights word left right _ hword _ ihl ihr =>
      rcases ihl (fun t ht => hagrees t (by simp [ht])) outer inner hready hroom
        with ⟨inner₁, operand₁, hrun₁, hleft⟩
      have hleft : inner₁.close operand₁ = left := hleft
      rcases ihr (fun t ht => hagrees t (by simp [ht])) outer (inner₁.extend operand₁ .or) rfl hroom
        with ⟨inner₂, operand₂, hrun₂, hdisjunct, hconjoin⟩
      have hsome : inner₂.disjunct = some left := by
        rw [hdisjunct, ← hleft]
        rfl
      have hop : word.kind.connective? = some .or := by rw [hword]; rfl
      refine ⟨inner₂, operand₂, ?_, ?_⟩
      · rw [List.append_assoc, run_append hrun₁,
          run_append (run_singleton_of_moves (.connective hop)), hrun₂]
      · simp [Layer.Joined, Level.close, hsome, hconjoin]

/-- A query that the grammar derives is read to its end, where a query may end. -/
theorem exists_finish_of_derives (h : Derives limit .disjunction tokens e)
    (hagrees : ∀ token ∈ tokens, token.agrees = true) :
    ∃ r, run limit 0 {} tokens = .ok r ∧ r.finish = .ok e := by
  have hroom : ([] : List Level).length + limit ≤ limit - 0 := by simp
  rcases exists_run_of_derives h hagrees [] {} rfl hroom with ⟨inner, operand, hrun, hjoined⟩
  exact ⟨_, hrun, congrArg Except.ok hjoined⟩

/-- Tokens that the grammar derives are read with the tree of the derivation. -/
theorem ofTokens_of_derives (h : Derives limit .disjunction tokens e)
    (hagrees : ∀ token ∈ tokens, token.agrees = true) : Query.ofTokens limit tokens = .ok e :=
  ofTokens_eq_ok_iff.2 (exists_finish_of_derives h hagrees)

end Reading

/-! ## Reading is deriving -/

namespace Query

/-- The machine reads exactly what the grammar derives, with the tree of the derivation. -/
theorem ofTokens_eq_ok_iff_derives (limit : Nat) (tokens : List Token)
    (hagrees : ∀ token ∈ tokens, token.agrees = true) (e : Expr) :
    ofTokens limit tokens = .ok e ↔ Derives limit .disjunction tokens e :=
  ⟨Reading.derives_of_ofTokens hagrees, fun h => Reading.ofTokens_of_derives h hagrees⟩

/-- The filter of `price < 1.5 and (tag in ("a\n", None) or author.name ~ "x")`. -/
def groupedFilter : Expr :=
  .logical (.comparison ⟨⟨"price", by decide⟩, []⟩ .less (.single (.float 1.5))) .and
    (.logical (.comparison ⟨⟨"tag", by decide⟩, []⟩ .memberOf (.list ⟨.string "a\n", [.none]⟩)) .or
      (.comparison ⟨⟨"author", by decide⟩, [⟨"name", by decide⟩]⟩ .contains
        (.single (.string "x"))))

/-- Its tokens. -/
def groupedTokens : List Token :=
  [.fresh .name (.text "price"), .fresh .less (.text "<"), .fresh .float (.literal (.float 1.5)),
    .fresh .andWord (.text "and"), .fresh .openParen (.text "("), .fresh .name (.text "tag"),
    .fresh .inWord (.text "in"), .fresh .openParen (.text "("),
    .fresh .string (.literal (.string "a\n")), .fresh .comma (.text ","),
    .fresh .noneWord (.literal .none), .fresh .closeParen (.text ")"), .fresh .orWord (.text "or"),
    .fresh .name (.text "author"), .fresh .dot (.text "."), .fresh .name (.text "name"),
    .fresh .contains (.text "~"), .fresh .string (.literal (.string "x")),
    .fresh .closeParen (.text ")")]

/-- They need their one group: the list in it is none. -/
theorem derives_groupedTokens :
    (∀ token ∈ groupedTokens, token.agrees = true) ∧
      Derives 1 .disjunction groupedTokens groupedFilter ∧
      ¬ Derives 0 .disjunction groupedTokens groupedFilter := by
  have hagrees : ∀ token ∈ groupedTokens, token.agrees = true := by decide
  refine ⟨hagrees, (ofTokens_eq_ok_iff_derives 1 _ hagrees _).1 rfl, ?_⟩
  intro h
  have hread := (ofTokens_eq_ok_iff_derives 0 _ hagrees _).2 h
  cases hread

end Query
end FieldFilter
