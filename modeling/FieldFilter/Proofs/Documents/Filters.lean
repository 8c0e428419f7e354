import FieldFilter.Interchange
import FieldFilter.Proofs.Documents.Yields
import FieldFilter.Proofs.RoundTrip

/-!
# Filters that documents hold

* `Expr.Valid` — the rules of a filter at every depth;
* `Literal.yields_fromJson`, `Operand.yields_fromJson`, `Expr.yields_fromJson` — what the readers
  give keeps the rules, and the room for brackets bounds the depth of a filter;
* `Expr.valid_of_ofDocument` — so does the filter of a document, and its canonical text is a query.
-/

namespace FieldFilter

open Json (Reader)
open Json.Reader (Case Yields record maxNesting)

/-! ## Rules of filters -/

/-- At every depth the path has segments, all of them identifiers that are not reserved, the operand
has literals, all of them with a spelling, and the comparator takes the operand. -/
def Expr.Valid : Expr → Prop
  | .comparison path op right =>
    path.words ≠ [] ∧
      (∀ word ∈ path.words, isIdentifier word = true ∧ isReserved word = false) ∧
      right.literals ≠ [] ∧ (∀ value ∈ right.literals, value.isFinite = true) ∧
      op.accepts right = true
  | .logical left _ right => left.Valid ∧ right.Valid

theorem Expr.Valid.wellTyped {e : Expr} (h : e.Valid) : e.WellTyped := by
  induction e with
  | comparison path op right =>
      rcases h with ⟨-, -, -, -, haccepts⟩
      exact haccepts
  | logical left op right ihl ihr => exact ⟨ihl h.1, ihr h.2⟩

theorem Expr.Valid.finite {e : Expr} (h : e.Valid) : e.Finite := by
  induction e with
  | comparison path op right =>
      rcases h with ⟨-, -, -, hfinite, -⟩
      exact hfinite
  | logical left op right ihl ihr =>
      intro value hmem
      rcases List.mem_append.1 hmem with hmem | hmem
      · exact ihl h.1 value hmem
      · exact ihr h.2 value hmem

/-- A comparison keeps the rules when its operand does: paths are made of segments. -/
theorem Expr.valid_comparison {path : FieldPath} {op : Comparator} {right : Operand}
    (hfinite : ∀ value ∈ right.literals, value.isFinite = true)
    (haccepts : op.accepts right = true) : (Expr.comparison path op right).Valid := by
  refine ⟨List.cons_ne_nil _ _, ?_, ?_, hfinite, haccepts⟩
  · intro word hword
    have hsegment := FieldPath.isSegment_of_mem_words hword
    simpa [isSegment] using hsegment
  · cases right with
    | single value => exact List.cons_ne_nil _ _
    | list values => exact List.cons_ne_nil _ _

/-! ## Literals and operands -/

theorem Literal.yields_fromJson (room : Nat) :
    (Literal.fromJson room).Yields fun value => value.isFinite = true := by
  refine Yields.checked (P := fun _ => True) (fun _ _ _ _ => trivial) ?_
  intro value value' _ h
  unfold checkFinite at h
  split at h
  · rename_i hfinite
    cases h
    exact hfinite
  · cases h

theorem LiteralList.yields_fromJson (room : Nat) :
    (LiteralList.fromJson room).Yields fun list => ∀ value ∈ list.items, value.isFinite = true := by
  refine Yields.checked ((Literal.yields_fromJson (room - 1)).listOf room) ?_
  intro items list hitems h
  cases items with
  | nil => cases h
  | cons first rest =>
      cases h
      exact hitems

theorem Operand.yields_fromJson (room : Nat) :
    (Operand.fromJson room).Yields fun right => ∀ value ∈ right.literals, value.isFinite = true := by
  refine Yields.variant room ?_
  intro case hcase
  rcases List.mem_cons.1 hcase with rfl | hcase
  · refine (Literal.yields_fromJson (room - 1)).bind ?_
    intro value hvalue value' hmem
    rw [List.mem_singleton.1 hmem]
    exact hvalue
  · rw [List.mem_singleton.1 hcase]
    exact (LiteralList.yields_fromJson (room - 1)).bind fun values hvalues => hvalues

/-! ## Records with three fields -/

theorem Draft.yields_record {α β γ δ : Type} {A : α → Prop} {B : β → Prop} {C : γ → Prop}
    {P : δ → Prop} {left : Reader α} {operator : Reader β} {right : Reader γ} {make : α → β → γ → δ}
    (hleft : left.Yields A) (hoperator : operator.Yields B) (hright : right.Yields C)
    (hmake : ∀ a b c, A a → B b → C c → P (make a b c)) (room : Nat) :
    (record room (fields left operator right) {} (finish make)).Yields P := by
  -- whatever fields a draft has, they are what their readers gave
  refine Yields.record (D := fun draft => (∀ a, draft.left = some a → A a) ∧
    (∀ b, draft.operator = some b → B b) ∧ ∀ c, draft.right = some c → C c) room ?_ ?_ ?_
  · intro field hfield draft hdraft
    rcases hdraft with ⟨hl, ho, hr⟩
    rcases List.mem_cons.1 hfield with rfl | hfield
    · refine hleft.bind (f := fun value => { draft with left := some value }) ?_
      intro a ha
      exact ⟨fun a' heq => Option.some.inj heq ▸ ha, ho, hr⟩
    rcases List.mem_cons.1 hfield with rfl | hfield
    · refine hoperator.bind (f := fun value => { draft with operator := some value }) ?_
      intro b hb
      exact ⟨hl, fun b' heq => Option.some.inj heq ▸ hb, hr⟩
    · rw [List.mem_singleton.1 hfield]
      refine hright.bind (f := fun value => { draft with right := some value }) ?_
      intro c hc
      exact ⟨hl, ho, fun c' heq => Option.some.inj heq ▸ hc⟩
  · refine ⟨?_, ?_, ?_⟩
    all_goals
      intro _ h
      cases h
  · intro draft value hdraft h
    rcases hdraft with ⟨hl, ho, hr⟩
    simp only [finish, Option.bind_eq_bind, Option.bind_eq_some_iff] at h
    rcases h with ⟨a, ha, b, hb, c, hc, hvalue⟩
    cases hvalue
    exact hmake a b c (hl a ha) (ho b hb) (hr c hc)

/-! ## Filters -/

namespace Expr

/-- What a reader of filters with so much room gives: two brackets stand around the children of
every connective. -/
def FitsRoom (room : Nat) (e : Expr) : Prop :=
  e.Valid ∧ 2 * e.depth ≤ room + 2

theorem yields_readNode {room : Nat} {child : Reader Expr} {P : Expr → Prop}
    (hchild : child.Yields P)
    (hlogical : ∀ left op right, P left → P right → FitsRoom room (.logical left op right)) :
    (readNode room child).Yields (FitsRoom room) := by
  -- until the operand of a comparison is checked, its literals are all that is known
  refine Yields.checked (P := fun e =>
    match e with
    | .comparison _ _ right => ∀ value ∈ right.literals, value.isFinite = true
    | .logical .. => FitsRoom room e) ?_ ?_
  · refine Yields.variant room ?_
    intro case hcase
    rcases List.mem_cons.1 hcase with rfl | hcase
    · refine Draft.yields_record (A := fun _ => True) (B := fun _ => True) (fun _ _ _ _ => trivial)
        (fun _ _ _ _ => trivial) (Operand.yields_fromJson (room - 2)) ?_ (room - 1)
      exact fun path op right _ _ hright => hright
    · rw [List.mem_singleton.1 hcase]
      refine Draft.yields_record (B := fun _ => True) hchild (fun _ _ _ _ => trivial) hchild ?_
        (room - 1)
      exact fun left op right hleft _ hright => hlogical left op right hleft hright
  · intro e e' he h
    cases e with
    | comparison path op right =>
        cases haccepts : op.accepts right with
        | true =>
            rw [checkOperand_of_accepts path haccepts] at h
            cases h
            exact ⟨valid_comparison he haccepts, Nat.le_add_left 2 room⟩
        | false =>
            rw [checkOperand_of_refused path haccepts] at h
            cases h
    | logical left op right =>
        cases h
        exact he

/-- What the reader of filters gives keeps the rules at every depth, and its depth is bounded. -/
theorem yields_fromJson (room : Nat) : (fromJson room).Yields (FitsRoom room) := by
  induction room using fromJson.induct with
  -- without room no child is reached
  | case1 => exact yields_readNode (P := fun _ => False) (fun _ _ _ h => nomatch h) fun _ _ _ h =>
      h.elim
  | case2 => exact yields_readNode (P := fun _ => False) (fun _ _ _ h => nomatch h) fun _ _ _ h =>
      h.elim
  | case3 room ih =>
      refine yields_readNode ih ?_
      intro left op right hleft hright
      refine ⟨⟨hleft.1, hright.1⟩, ?_⟩
      have hl := hleft.2
      have hr := hright.2
      simp only [depth]
      omega

/-- A filter that a document holds keeps the rules at every depth, and its canonical text is a query
for it, however the document is spelled: the brackets that may be open bound the groups that the
text needs. -/
theorem valid_of_ofDocument (cs : List Char) (e : Expr) (h : ofDocument cs = .ok e) :
    e.Valid ∧ (e.FloatsReadBack → Query.parse Query.defaultLimit e.text = .ok e) := by
  rcases (yields_fromJson maxNesting).document h with ⟨hvalid, hdepth⟩
  refine ⟨hvalid, ?_⟩
  intro hfloats
  rcases Query.ofText_text hvalid.wellTyped (e.readsBack hvalid.finite hfloats) with
    ⟨tokens, hstream, -, hread⟩
  -- a level of the tree takes two brackets and at most one group
  have hgroups : e.groupDepth ≤ Query.defaultLimit := by
    have hlt := e.groupDepth_lt_depth
    simp only [maxNesting] at hdepth
    simp only [Query.defaultLimit]
    omega
  rw [Query.parse_eq_ofTokens hstream]
  exact hread _ hgroups

/-- A document that spells records as lists, fields in any order and plain cases as objects. -/
def groupedDocument : List Char :=
  "\x7b\"logical\":[\x7b\"comparison\":\x7b\"operator\":\"lt\",".toList ++
  "\"left\":[\"price\"],\"right\":\x7b\"const\":\x7b\"float\":15e-1\x7d\x7d\x7d\x7d,".toList ++
  "\x7b\"and\":null\x7d,\x7b\"logical\":\x7b\"operator\":\"or\",".toList ++
  "\"left\":\x7b\"comparison\":[[\"tag\"],\"in\",".toList ++
  "\x7b\"list\":[\x7b\"string\":\"a\\u000a\"\x7d,\x7b\"none\":null\x7d]\x7d]\x7d,".toList ++
  "\"right\":\x7b\"comparison\":[[\"author\",\"name\"],".toList ++
  "\"contains\",\x7b\"const\":\x7b\"string\":\"x\"\x7d\x7d]\x7d\x7d\x7d]\x7d".toList

theorem valid_groupedDocument :
    ofDocument groupedDocument = .ok Query.groupedFilter ∧ Query.groupedFilter.Valid ∧
      Query.groupedFilter.FloatsReadBack ∧
      Query.parse Query.defaultLimit Query.groupedFilter.text = .ok Query.groupedFilter := by
  have hdocument : ofDocument groupedDocument = .ok Query.groupedFilter := by decide +kernel
  have hfloats := Query.floatsReadBack_groupedFilter
  rcases valid_of_ofDocument groupedDocument _ hdocument with ⟨hvalid, hread⟩
  exact ⟨hdocument, hvalid, hfloats, hread hfloats⟩

end Expr
end FieldFilter
