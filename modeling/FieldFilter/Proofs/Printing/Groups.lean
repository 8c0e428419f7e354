import FieldFilter.Proofs.Printing.Pieces

/-!
# The groups of the canonical text

* `Layer.looseness`, `Expr.layer`, `Expr.needsGroup` — where a tree must stand in a group;
* `Expr.groupDepth` — how deep the groups of the canonical text nest;
* `Derives.groupDepth_le` — every derivation of a tree needs the groups of its canonical text;
* `Expr.derives_of_pieces` — the tokens of the canonical text derive the tree, with these groups.
-/

namespace FieldFilter

/-! ## Layers of trees -/

/-- How loosely a layer binds: whatever a tighter layer derives, a looser one does too. -/
def Layer.looseness : Layer → Nat
  | .primary => 0
  | .conjunction => 1
  | .disjunction => 2

/-- The layer of the trees that a connective builds, and of their left operands. -/
def Connective.layer : Connective → Layer
  | .and => .conjunction
  | .or => .disjunction

/-- The layer of the right operands of a connective. -/
def Connective.rightLayer : Connective → Layer
  | .and => .primary
  | .or => .conjunction

namespace Derives

variable {d : Nat} {layer layer' : Layer} {tokens lefts rights : List Token} {e left right : Expr}

theorem loosen (h : Derives d layer tokens e) (hle : layer.looseness ≤ layer'.looseness) :
    Derives d layer' tokens e := by
  cases layer with
  | primary =>
      cases layer' with
      | primary => exact h
      | conjunction => exact .ofPrimary h
      | disjunction => exact .ofConjunction (.ofPrimary h)
  | conjunction =>
      cases layer' with
      | primary => simp [Layer.looseness] at hle
      | conjunction => exact h
      | disjunction => exact .ofConjunction h
  | disjunction =>
      cases layer' with
      | disjunction => exact h
      | _ => simp [Layer.looseness] at hle

theorem logical {op : Connective} {word : Token} (hleft : Derives d op.layer lefts left)
    (hword : word.piece = op.piece) (hright : Derives d op.rightLayer rights right) :
    Derives d op.layer (lefts ++ [word] ++ rights) (.logical left op right) := by
  cases op with
  | and => exact .and hleft (congrArg Prod.fst hword) hright
  | or => exact .or hleft (congrArg Prod.fst hword) hright

end Derives

namespace Expr

/-- The tightest layer that derives a tree without a group around it. -/
def layer : Expr → Layer
  | .comparison .. => .primary
  | .logical _ op _ => op.layer

/-- Whether a tree needs a group where a layer is to be derived. -/
def needsGroup (e : Expr) (layer : Layer) : Bool :=
  layer.looseness < e.layer.looseness

theorem groupsLeft_eq_needsGroup (child : Expr) (op : Connective) :
    child.groupsLeft op = child.needsGroup op.layer := by
  cases child with
  | comparison path op' right => cases op <;> rfl
  | logical left op' right => cases op <;> cases op' <;> rfl

theorem groupsRight_eq_needsGroup (child : Expr) (op : Connective) :
    child.groupsRight op = child.needsGroup op.rightLayer := by
  cases child with
  | comparison path op' right => cases op <;> rfl
  | logical left op' right => cases op <;> cases op' <;> rfl

@[simp] theorem needsGroup_disjunction (e : Expr) : e.needsGroup .disjunction = false := by
  rcases e with _ | ⟨_, _ | _, _⟩ <;> rfl

theorem toNat_needsGroup_le {layer layer' : Layer} (e : Expr)
    (hle : layer.looseness ≤ layer'.looseness) :
    (e.needsGroup layer').toNat ≤ (e.needsGroup layer).toNat := by
  cases hlooser : e.needsGroup layer' with
  | false => exact Nat.zero_le _
  | true =>
      have htighter : e.needsGroup layer = true := by
        simp only [needsGroup, decide_eq_true_eq] at hlooser ⊢
        omega
      rw [htighter]

/-! ## The depth of groups -/

/-- How many groups of the canonical text stand in each other. -/
def groupDepth : Expr → Nat
  | .comparison .. => 0
  | .logical left op right =>
    max (left.groupDepth + (left.needsGroup op.layer).toNat)
      (right.groupDepth + (right.needsGroup op.rightLayer).toNat)

/-- At most every connective below the root makes a group. -/
theorem groupDepth_lt_depth (e : Expr) : e.groupDepth < e.depth := by
  induction e with
  | comparison path op right => exact Nat.zero_lt_one
  | logical left op right ihl ihr =>
      have hleft := (left.needsGroup op.layer).toNat_le
      have hright := (right.needsGroup op.rightLayer).toNat_le
      simp only [groupDepth, depth]
      omega

end Expr

/-- However a tree is spelled, it is spelled with as many groups in each other as its canonical
text has. -/
theorem Derives.groupDepth_le {d : Nat} {layer : Layer} {tokens : List Token} {e : Expr}
    (h : Derives d layer tokens e) : e.groupDepth + (e.needsGroup layer).toNat ≤ d := by
  induction h with
  | comparison h => cases h <;> exact Nat.zero_le _
  | @group d tokens openParen closeParen e _ _ _ ih =>
      have hone := (e.needsGroup .primary).toNat_le
      simp only [Expr.needsGroup_disjunction, Bool.toNat_false] at ih
      omega
  | @ofPrimary d tokens e _ ih =>
      have hle : (e.needsGroup .conjunction).toNat ≤ (e.needsGroup .primary).toNat :=
        e.toNat_needsGroup_le (by decide)
      omega
  | and _ _ _ ihl ihr => exact Nat.max_le.2 ⟨ihl, ihr⟩
  | @ofConjunction d tokens e _ ih =>
      rw [Expr.needsGroup_disjunction, Bool.toNat_false]
      omega
  | or _ _ _ ihl ihr => exact Nat.max_le.2 ⟨ihl, ihr⟩

/-! ## The canonical text derives its tree -/

section
variable {tokens before : List Token}

theorem Segment.token_of_piece {segment : Segment} {token : Token}
    (h : token.piece = segment.piece) :
    token.kind = .name ∧ token.valueText = segment.word := by
  have hvalue : token.value = .text segment.word := congrArg Prod.snd h
  exact ⟨congrArg Prod.fst h, by rw [Token.valueText, hvalue, TokenValue.printable]⟩

theorem Literal.token_of_piece {value : Literal} {token : Token}
    (h : token.piece = value.piece) :
    token.kind = value.tokenKind ∧ token.literal? = some value := by
  have hvalue : token.value = .literal value := congrArg Prod.snd h
  exact ⟨congrArg Prod.fst h, by rw [Token.literal?, hvalue, TokenValue.literal?]⟩

theorem PathTokens.extend {path : FieldPath} (h : PathTokens before path)
    {segments : List Segment}
    (htokens : tokens.map Token.piece =
      segments.flatMap fun segment => [(.dot, .text "."), segment.piece]) :
    PathTokens (before ++ tokens) { path with rest := path.rest ++ segments } := by
  induction segments generalizing before tokens path with
  | nil =>
      have hnil : tokens = [] := by simpa using htokens
      simpa [hnil] using h
  | cons segment segments ih =>
      rw [List.flatMap_cons] at htokens
      rcases List.map_eq_append_iff.1 htokens with ⟨front, tail, rfl, hfront, htail⟩
      rcases List.map_eq_cons_iff.1 hfront with ⟨dot, names, rfl, hdot, hnames⟩
      rcases List.map_eq_singleton_iff.1 hnames with ⟨name, rfl, hname⟩
      rcases Segment.token_of_piece hname with ⟨hkind, hword⟩
      have hlonger := ih (h.push (congrArg Prod.fst hdot) hkind hword) htail
      simpa [FieldPath.push] using hlonger

theorem FieldPath.pathTokens_of_pieces {path : FieldPath}
    (htokens : tokens.map Token.piece = path.pieces) : PathTokens tokens path := by
  rcases List.map_eq_cons_iff.1 htokens with ⟨name, names, rfl, hname, hnames⟩
  rcases Segment.token_of_piece hname with ⟨hkind, hword⟩
  exact (PathTokens.single hkind hword).extend hnames

theorem ItemTokens.extend {items : LiteralList} (h : ItemTokens before items)
    {values : List Literal}
    (htokens : tokens.map Token.piece =
      values.flatMap fun value => [(.comma, .text ","), value.piece]) :
    ItemTokens (before ++ tokens) { items with rest := items.rest ++ values } := by
  induction values generalizing before tokens items with
  | nil =>
      have hnil : tokens = [] := by simpa using htokens
      simpa [hnil] using h
  | cons value values ih =>
      rw [List.flatMap_cons] at htokens
      rcases List.map_eq_append_iff.1 htokens with ⟨front, tail, rfl, hfront, htail⟩
      rcases List.map_eq_cons_iff.1 hfront with ⟨comma, rest, rfl, hcomma, hrest⟩
      rcases List.map_eq_singleton_iff.1 hrest with ⟨token, rfl, htoken⟩
      rcases Literal.token_of_piece htoken with ⟨hkind, hvalue⟩
      have hliteral : token.kind.isLiteral = true := by rw [hkind, value.isLiteral_tokenKind]
      have hlonger := ih (h.push (congrArg Prod.fst hcomma) hliteral hvalue) htail
      simpa [LiteralList.push] using hlonger

theorem LiteralList.itemTokens_of_pieces {values : LiteralList}
    (htokens : tokens.map Token.piece = values.first.piece ::
      values.rest.flatMap fun value => [(.comma, .text ","), value.piece]) :
    ItemTokens tokens values := by
  rcases List.map_eq_cons_iff.1 htokens with ⟨token, rest, rfl, htoken, hrest⟩
  rcases Literal.token_of_piece htoken with ⟨hkind, hvalue⟩
  have hliteral : token.kind.isLiteral = true := by rw [hkind, Literal.isLiteral_tokenKind]
  exact (ItemTokens.single hliteral hvalue).extend hrest

theorem Comparator.exists_token_of_pieces {op : Comparator} (hop : op.isMembership = false)
    (htokens : tokens.map Token.piece = op.pieces) :
    ∃ token, tokens = [token] ∧ token.kind.comparator? = some op := by
  cases op with
  | memberOf => cases hop
  | notMemberOf => cases hop
  | _ =>
      rcases List.map_eq_singleton_iff.1 htokens with ⟨token, rfl, htoken⟩
      exact ⟨token, rfl, congrArg (fun piece => piece.1.comparator?) htoken⟩

theorem Comparator.membershipTokens_of_pieces {op : Comparator} (hop : op.isMembership = true)
    (htokens : tokens.map Token.piece = op.pieces) : MembershipTokens tokens op := by
  cases op with
  | memberOf =>
      rcases List.map_eq_singleton_iff.1 htokens with ⟨word, rfl, hword⟩
      exact .memberOf (congrArg Prod.fst hword)
  | notMemberOf =>
      rcases List.map_eq_cons_iff.1 htokens with ⟨negation, rest, rfl, hnot, hrest⟩
      rcases List.map_eq_singleton_iff.1 hrest with ⟨word, rfl, hword⟩
      exact .notMemberOf (congrArg Prod.fst hnot) (congrArg Prod.fst hword)
  | _ => cases hop

namespace Expr

theorem comparisonTokens_of_pieces {path : FieldPath} {op : Comparator} {right : Operand}
    (haccepts : op.accepts right = true)
    (htokens : tokens.map Token.piece = (comparison path op right).pieces) :
    ComparisonTokens tokens (.comparison path op right) := by
  rcases List.map_eq_append_iff.1 htokens with ⟨front, operand, rfl, hfront, hright⟩
  rcases List.map_eq_append_iff.1 hfront with ⟨names, words, rfl, hnames, hwords⟩
  have hpath := FieldPath.pathTokens_of_pieces hnames
  cases right with
  | single value =>
      rcases List.map_eq_singleton_iff.1 hright with ⟨token, rfl, htoken⟩
      rcases Literal.token_of_piece htoken with ⟨hkind, hvalue⟩
      have hmem : token.kind ∈ op.literalKinds := hkind ▸ Comparator.accepts_single_iff.1 haccepts
      have hop : op.isMembership = false := by
        cases op with
        | memberOf => cases hmem
        | notMemberOf => cases hmem
        | _ => rfl
      rcases Comparator.exists_token_of_pieces hop hwords with ⟨comparator, rfl, hcomparator⟩
      simpa using ComparisonTokens.single hpath hcomparator hmem hvalue
  | list values =>
      rcases List.map_eq_append_iff.1 hright with ⟨inside, after, rfl, hinside, hafter⟩
      rcases List.map_eq_append_iff.1 hinside with ⟨opening, items, rfl, hopening, hitems⟩
      rcases List.map_eq_singleton_iff.1 hopening with ⟨openParen, rfl, hopen⟩
      rcases List.map_eq_singleton_iff.1 hafter with ⟨closeParen, rfl, hclose⟩
      have hmembership := Comparator.membershipTokens_of_pieces haccepts hwords
      simpa using ComparisonTokens.list hpath hmembership (congrArg Prod.fst hopen)
        (LiteralList.itemTokens_of_pieces hitems) (congrArg Prod.fst hclose)

/-- A tree in parentheses, if it needs them for a layer, is derived by the layer. -/
theorem derives_of_groupedPieces {e : Expr} {d : Nat} {layer : Layer}
    (h : ∀ inside : List Token, inside.map Token.piece = e.pieces → Derives d e.layer inside e)
    (htokens : tokens.map Token.piece = groupedPieces (e.needsGroup layer) e.pieces) :
    Derives (d + (e.needsGroup layer).toNat) layer tokens e := by
  cases hneeds : e.needsGroup layer with
  | false =>
      rw [hneeds] at htokens
      have hle : e.layer.looseness ≤ layer.looseness := by simpa [needsGroup] using hneeds
      exact (h tokens htokens).loosen hle
  | true =>
      rw [hneeds] at htokens
      rcases List.map_eq_append_iff.1 htokens with ⟨front, after, rfl, hfront, hafter⟩
      rcases List.map_eq_append_iff.1 hfront with ⟨before, inside, rfl, hbefore, hinside⟩
      rcases List.map_eq_singleton_iff.1 hbefore with ⟨openParen, rfl, hopen⟩
      rcases List.map_eq_singleton_iff.1 hafter with ⟨closeParen, rfl, hclose⟩
      -- whatever its layer is, the tree may stand in a group
      have hloosest : Derives d .disjunction inside e :=
        (h inside hinside).loosen (by cases e.layer <;> decide)
      have hgroup := Derives.group (congrArg Prod.fst hopen) hloosest (congrArg Prod.fst hclose)
      exact hgroup.loosen (Nat.zero_le _)

/-- The tokens of the canonical text derive the tree, and need only the groups of the text. -/
theorem derives_of_pieces {e : Expr} (he : e.WellTyped)
    (htokens : tokens.map Token.piece = e.pieces) : Derives e.groupDepth e.layer tokens e := by
  induction e generalizing tokens with
  | comparison path op right => exact .comparison (comparisonTokens_of_pieces he htokens)
  | logical left op right ihl ihr =>
      rcases he with ⟨hleft, hright⟩
      rw [pieces, groupsLeft_eq_needsGroup, groupsRight_eq_needsGroup] at htokens
      rcases List.map_eq_append_iff.1 htokens with ⟨front, rights, rfl, hfront, hrights⟩
      rcases List.map_eq_append_iff.1 hfront with ⟨lefts, words, rfl, hlefts, hwords⟩
      rcases List.map_eq_singleton_iff.1 hwords with ⟨word, rfl, hword⟩
      have hderiveLeft := derives_of_groupedPieces (fun _ => ihl hleft) hlefts
      have hderiveRight := derives_of_groupedPieces (fun _ => ihr hright) hrights
      exact (hderiveLeft.mono (Nat.le_max_left _ _)).logical hword
        (hderiveRight.mono (Nat.le_max_right _ _))

theorem derives_disjunction_of_pieces {e : Expr} {d : Nat} (he : e.WellTyped)
    (htokens : tokens.map Token.piece = e.pieces) (hle : e.groupDepth ≤ d) :
    Derives d .disjunction tokens e :=
  ((derives_of_pieces he htokens).mono hle).loosen (by cases e.layer <;> decide)

end Expr
end

end FieldFilter
