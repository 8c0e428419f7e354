import FieldFilter.Proofs.Documents.Filters
import FieldFilter.Proofs.Documents.Restores

/-!
# Filters that documents give back

The document of a filter is read back as the filter, unless more brackets are open in it at once
than a reader allows.

* `Draft.restores_record` — records with three fields;
* `Literal.restores_fromJson`, `Operand.restores_fromJson`, … — the parts of a comparison;
* `Operand.nesting`, `Expr.nesting` — how many brackets are open at once in a document;
* `Expr.restores_fromJson` — a filter is read back exactly where that many may open;
* `Expr.LeftChain` — comparisons that are joined from the left, and how deep they nest;
* `Expr.ofDocument_toJson` — which filters are read back from their documents.
-/

namespace FieldFilter

open Json (Reader)
open Json.Reader (Case Decides Restores isBlank_lineBreak keyedFields maxNesting record
  skipSpace_append skipSpace_cons)
open Json.Reader.Restores (StartsItem caseOf_of_mem ends_fieldsBehind exists_gap fieldsBehind
  find?_key keyedFields_close keyedFields_of_nextKey nextKey_false nextKey_true of_write
  writeFields_cons)

/-! ## Records with three fields -/

/-- Every field of a record is found by its key. -/
theorem Draft.find?_fields {α β γ : Type} (left : Reader α) (operator : Reader β)
    (right : Reader γ) (i : Fin 3) :
    ((fields left operator right).find? fun field =>
        field.key.toList = ((fields left operator right).get i).key.toList) =
      some ((fields left operator right).get i) :=
  @find?_key _ Json.Reader.Field.key _ _ (by simp [fields])
    (List.get_mem (fields left operator right) i)

/-- A record is written as an object with its three fields in order, which takes a bracket. -/
theorem Draft.restores_record {α β γ δ : Type} {left : Reader α} {operator : Reader β}
    {right : Reader γ} {l o r : Json} {fitsLeft fitsOperator fitsRight : Prop} {a : α} {b : β}
    {c : γ} (hleft : Restores left l fitsLeft a) (hoperator : Restores operator o fitsOperator b)
    (hright : Restores right r fitsRight c) (make : α → β → γ → δ) (room : Nat) :
    Restores (record room (fields left operator right) {} (finish make))
      (.object [("left", l), ("operator", o), ("right", r)])
      (0 < room ∧ fitsLeft ∧ fitsOperator ∧ fitsRight) (make a b c) := by
  refine of_write (fun _ cs hblank => by simp only [record, skipSpace_append hblank]) ?_
  intro layout rest _
  let written : List (String × Json) := [("left", l), ("operator", o), ("right", r)]
  let close : List Char := layout.lineBreak ++ '\x7d' :: rest
  have hends : Json.Ends close := (Json.Ends.brace rest).lineBreak layout
  have hbreak := isBlank_lineBreak layout.inner
  rcases exists_gap layout.inner with ⟨gap, hgap, hcolon⟩
  have hwrite : Json.write layout (.object written) rest =
      '\x7b' :: Json.writeFields layout.inner written close := rfl
  rw [hwrite, record, skipSpace_cons (by decide)]
  refine Decides.inBracket ?_ room
  -- there are steps for three fields and the bracket that closes them
  have hlength : written.length ≤ (Json.writeFields layout.inner written close).length :=
    Json.length_le_length_writeFields layout.inner written (by simp [close])
  rcases Nat.exists_eq_add_of_le' hlength with ⟨steps, hsteps⟩
  -- from the bracket back to the first field, as a field is read before what stands behind it
  have hclose : Decides (keyedFields (fields left operator right) (steps + 1) false
      ⟨some a, some b, some c⟩ (fieldsBehind layout.inner [] close)) True
      (⟨some a, some b, some c⟩, rest) :=
    keyedFields_close (isBlank_lineBreak layout) false
  have hthird : Decides (keyedFields (fields left operator right) (steps + 2) false
      ⟨some a, some b, none⟩ (fieldsBehind layout.inner [("right", r)] close)) (fitsRight ∧ True)
      (⟨some a, some b, some c⟩, rest) := by
    rw [fieldsBehind, writeFields_cons hcolon]
    refine keyedFields_of_nextKey (nextKey_false hbreak _) (find?_fields left operator right 2) rfl
      ?_ hclose
    exact (hright.map fun c => (⟨some a, some b, some c⟩ : Draft α β γ)) _ _ _ hgap
      (ends_fieldsBehind _ _ hends)
  have hsecond : Decides (keyedFields (fields left operator right) (steps + 3) false
      ⟨some a, none, none⟩ (fieldsBehind layout.inner [("operator", o), ("right", r)] close))
      (fitsOperator ∧ fitsRight ∧ True) (⟨some a, some b, some c⟩, rest) := by
    rw [fieldsBehind, writeFields_cons hcolon]
    refine keyedFields_of_nextKey (nextKey_false hbreak _) (find?_fields left operator right 1) rfl
      ?_ hthird
    exact (hoperator.map fun b => (⟨some a, some b, none⟩ : Draft α β γ)) _ _ _ hgap
      (ends_fieldsBehind _ _ hends)
  have hfirst : Decides (keyedFields (fields left operator right) (steps + 4) true {}
      (Json.writeFields layout.inner written close))
      (fitsLeft ∧ fitsOperator ∧ fitsRight ∧ True) (⟨some a, some b, some c⟩, rest) := by
    rw [writeFields_cons hcolon]
    refine keyedFields_of_nextKey (nextKey_true hbreak _) (find?_fields left operator right 0) rfl
      ?_ hsecond
    exact (hleft.map fun a => (⟨some a, none, none⟩ : Draft α β γ)) _ _ _ hgap
      (ends_fieldsBehind _ _ hends)
  rw [hsteps]
  refine (hfirst.bind_ok ?_).congr ?_
  · rfl
  · simp

/-! ## Literals and operands -/

/-- If a literal is a float, what documents write for the float is read as the float. -/
def Literal.FloatReadsBackFromDocument (value : Literal) : Prop :=
  ∀ x, value = .float x → Reader.float (Json.floatNotation.render x) = .ok (x, [])

section
variable {value : Literal} {room : Nat}

theorem Literal.startsItem_toJson (value : Literal) (layout : Json.Layout) (rest : List Char) :
    StartsItem (Json.write layout value.toJson rest) := by
  cases value with
  | none => exact ⟨'"', _, rfl, by decide, by decide⟩
  | int | float | string | bool => exact ⟨'\x7b', _, rfl, by decide, by decide⟩

theorem Literal.restores_carrying {i : Nat} {key : String} {json : Json} {payload : Reader Literal}
    (hcase : cases[i]? = some (key, .carrying payload))
    (hpayload : Restores payload json True value) (hfinite : value.isFinite = true)
    (hsome : value ≠ .none) (room : Nat) :
    Restores (fromJson room) (.object [(key, json)]) (value ≠ .none → 0 < room) value := by
  have hkeys : (cases.map Prod.fst).Nodup := by decide
  have hvariant := hpayload.carrying (caseOf_of_mem hkeys (List.mem_of_getElem? hcase)) room
  refine (hvariant.checked (if_pos hfinite)).congr ?_
  simp [hsome]

/-- A missing value opens no bracket, and every other literal opens one. -/
theorem Literal.restores_fromJson (hfinite : value.isFinite = true)
    (hreads : value.FloatReadsBackFromDocument) (room : Nat) :
    Restores (fromJson room) value.toJson (value ≠ .none → 0 < room) value := by
  cases value with
  | int n =>
      exact restores_carrying (i := 0) rfl ((Restores.integer n).map Literal.int) hfinite nofun room
  | float x =>
      have hfloat := Restores.float (hreads x rfl)
      exact restores_carrying (i := 1) rfl (hfloat.map Literal.float) hfinite nofun room
  | string s =>
      have hstring := (Restores.string s.toList).map fun cs => Literal.string (String.ofList cs)
      rw [String.ofList_toList] at hstring
      exact restores_carrying (i := 2) rfl hstring hfinite nofun room
  | bool b =>
      have hboolean := (Restores.boolean b).map Literal.bool
      exact restores_carrying (i := 3) rfl hboolean hfinite nofun room
  | none =>
      -- a name alone, so it is read even where no bracket may open
      have hkeys : (cases.map Prod.fst).Nodup := by decide
      have hmem : ("none", Case.plain Literal.none) ∈ cases := List.mem_of_getElem? (i := 4) rfl
      refine ((Restores.plain (caseOf_of_mem hkeys hmem) room).checked (if_pos hfinite)).congr ?_
      simp

end

/-- A list opens one bracket around its literals. -/
theorem LiteralList.restores_fromJson {list : LiteralList}
    (hfinite : ∀ value ∈ list.items, value.isFinite = true)
    (hreads : ∀ value ∈ list.items, value.FloatReadsBackFromDocument) (room : Nat) :
    Restores (fromJson room) list.toJson
      (0 < room ∧ ∀ value ∈ list.items, value ≠ .none → 0 < room - 1) list := by
  have hitems : ∀ value ∈ list.items, Restores (Literal.fromJson (room - 1)) value.toJson
      (value ≠ .none → 0 < room - 1) value := fun value hmem =>
    Literal.restores_fromJson (hfinite value hmem) (hreads value hmem) (room - 1)
  have hlist := Restores.listOf (List.cons_ne_nil list.first list.rest) hitems
    (fun value _ => value.startsItem_toJson) room
  exact hlist.checked rfl

/-- How many brackets are open at once in the document of an operand. -/
def Operand.nesting : Operand → Nat
  | .single value => if value = .none then 1 else 2
  | .list values => if ∀ value ∈ values.items, value = .none then 2 else 3

theorem Operand.nesting_single_le {value : Literal} {room : Nat} :
    (Operand.single value).nesting ≤ room ↔ 0 < room ∧ (value ≠ .none → 0 < room - 1) := by
  simp only [nesting]
  split_ifs with hnone
  · simp only [hnone, ne_eq, not_true_eq_false, false_implies, and_true]
    exact Nat.succ_le_iff
  · simp only [hnone, ne_eq, not_false_eq_true, forall_const]
    omega

theorem Operand.nesting_list_le {values : LiteralList} {room : Nat} :
    (Operand.list values).nesting ≤ room ↔
      0 < room ∧ 0 < room - 1 ∧ ∀ value ∈ values.items, value ≠ .none → 0 < room - 1 - 1 := by
  simp only [nesting]
  split_ifs with hnone
  · constructor
    · intro hroom
      refine ⟨by omega, by omega, ?_⟩
      intro value hmem hsome
      exact absurd (hnone value hmem) hsome
    · rintro ⟨-, hroom, -⟩
      omega
  · -- one literal with a bracket of its own is enough for the third
    push Not at hnone
    rcases hnone with ⟨value, hmem, hsome⟩
    constructor
    · intro hroom
      exact ⟨by omega, by omega, fun _ _ _ => by omega⟩
    · rintro ⟨-, -, hitems⟩
      have hroom := hitems value hmem hsome
      omega

/-- An operand is read back where all its brackets may open. -/
theorem Operand.restores_fromJson {operand : Operand}
    (hfinite : ∀ value ∈ operand.literals, value.isFinite = true)
    (hreads : ∀ value ∈ operand.literals, value.FloatReadsBackFromDocument) (room : Nat) :
    Restores (fromJson room) operand.toJson (operand.nesting ≤ room) operand := by
  cases operand with
  | single value =>
      have hvalue := Literal.restores_fromJson (hfinite value (List.mem_singleton_self _))
        (hreads value (List.mem_singleton_self _)) (room - 1)
      refine Restores.congr ?_ nesting_single_le.symm
      refine Restores.carrying (caseOf_of_mem ?_ (List.mem_of_getElem? (i := 0) rfl))
        (hvalue.map Operand.single) room
      simp
  | list values =>
      have hvalues := LiteralList.restores_fromJson hfinite hreads (room - 1)
      refine Restores.congr ?_ nesting_list_le.symm
      refine Restores.carrying (caseOf_of_mem ?_ (List.mem_of_getElem? (i := 1) rfl))
        (hvalues.map Operand.list) room
      simp

/-! ## Paths and operators -/

/-- A path opens one bracket around its words. -/
theorem FieldPath.restores_fromJson (path : FieldPath) (room : Nat) :
    Restores (fromJson room) path.toJson (0 < room) path := by
  have hwords : path.words.map String.toList ≠ [] := by simp [words, segments]
  have hstarts : ∀ word layout rest, StartsItem (Json.write layout (.string word) rest) :=
    fun word layout rest => ⟨'"', _, rfl, by decide, by decide⟩
  have hlist := Restores.listOf hwords (fun word _ => Restores.string word)
    (fun word _ => hstarts word) room
  have hback : (path.words.map String.toList).map String.ofList = path.words := by simp
  rw [List.map_map] at hlist
  refine Restores.congr (hlist.checked ?_) (by simp)
  rw [hback, ofWords_eq_ok_iff.2 rfl]
  rfl

theorem Comparator.restores_fromJson (op : Comparator) (room : Nat) :
    Restores (fromJson room) (.string op.key.toList) True op := by
  refine Restores.plain (caseOf_of_mem ?_ (List.mem_map.2 ⟨op, ?_, rfl⟩)) room
  · decide
  · cases op <;> decide

theorem Connective.restores_fromJson (op : Connective) (room : Nat) :
    Restores (fromJson room) (.string op.key.toList) True op := by
  refine Restores.plain (caseOf_of_mem ?_ (List.mem_map.2 ⟨op, ?_, rfl⟩)) room
  · decide
  · cases op <;> decide

/-! ## Filters -/

namespace Expr

/-- How many brackets are open at once in the document of a filter. -/
def nesting : Expr → Nat
  | .comparison _ _ right => 2 + max 1 right.nesting
  | .logical left _ right => 2 + max left.nesting right.nesting

/-- What documents write for a float of the filter is read as the float. -/
def FloatsReadBackFromDocument (e : Expr) : Prop :=
  ∀ value ∈ e.literals, value.FloatReadsBackFromDocument

variable {room : Nat} {child : Reader Expr}

theorem restores_comparison {path : FieldPath} {op : Comparator} {right : Operand}
    (hright : Restores (Operand.fromJson (room - 2)) right.toJson (right.nesting ≤ room - 2) right)
    (haccepts : op.accepts right = true) :
    Restores (readNode room child) (toJson (.comparison path op right))
      ((Expr.comparison path op right).nesting ≤ room) (.comparison path op right) := by
  have hrecord := Draft.restores_record (path.restores_fromJson (room - 2))
    (op.restores_fromJson (room - 2)) hright Expr.comparison (room - 1)
  have hrule := checkOperand_of_accepts path haccepts
  refine Restores.congr (Restores.checked (Restores.carrying (caseOf_of_mem ?_
    (List.mem_of_getElem? (i := 0) rfl)) hrecord room) hrule) ?_
  · simp
  · simp only [nesting, true_and]
    omega

theorem restores_logical {left right : Expr} {op : Connective}
    (hleft : Restores child left.toJson (left.nesting ≤ room - 2) left)
    (hright : Restores child right.toJson (right.nesting ≤ room - 2) right) :
    Restores (readNode room child) (toJson (.logical left op right))
      ((Expr.logical left op right).nesting ≤ room) (.logical left op right) := by
  have hrecord := Draft.restores_record hleft (op.restores_fromJson (room - 2)) hright
    Expr.logical (room - 1)
  refine Restores.congr (Restores.checked (Restores.carrying (caseOf_of_mem ?_
    (List.mem_of_getElem? (i := 1) rfl)) hrecord room) rfl) ?_
  · simp
  · simp only [nesting, true_and]
    omega

/-- Children are read with two brackets less, or not at all where less than two may open. -/
theorem exists_child (room : Nat) :
    ∃ child, fromJson room = readNode room child ∧
      ∀ e, Restores (fromJson (room - 2)) e.toJson (e.nesting ≤ room - 2) e →
        Restores child e.toJson (e.nesting ≤ room - 2) e := by
  -- no filter is without brackets
  have hnone : ∀ e : Expr, Restores (fun _ => .error .malformed) e.toJson (e.nesting ≤ 0) e := by
    intro e layout blank rest _ _
    refine ⟨fun hfits => absurd hfits ?_, fun _ => rfl⟩
    cases e <;> simp [nesting]
  match room with
  | 0 => exact ⟨_, rfl, fun e _ => hnone e⟩
  | 1 => exact ⟨_, rfl, fun e _ => hnone e⟩
  | room + 2 => exact ⟨_, rfl, fun _ h => h⟩

/-- A filter is read back where all its brackets may open, and is otherwise malformed: every level
opens two, and a child is read with what is left. -/
theorem restores_fromJson {e : Expr} (hvalid : e.Valid) (hfloats : e.FloatsReadBackFromDocument)
    (room : Nat) : Restores (fromJson room) e.toJson (e.nesting ≤ room) e := by
  induction e generalizing room with
  | comparison path op right =>
      rcases hvalid with ⟨-, -, -, hfinite, haccepts⟩
      have hright := Operand.restores_fromJson hfinite hfloats (room - 2)
      -- a comparison has no children, so their reader does not matter
      rcases exists_child room with ⟨child, hnode, -⟩
      rw [hnode]
      exact restores_comparison hright haccepts
  | logical left op right ihl ihr =>
      have hleft := ihl hvalid.1 (fun v hv => hfloats v (List.mem_append_left _ hv)) (room - 2)
      have hright := ihr hvalid.2 (fun v hv => hfloats v (List.mem_append_right _ hv)) (room - 2)
      rcases exists_child room with ⟨child, hnode, hchild⟩
      rw [hnode]
      exact restores_logical (hchild left hleft) (hchild right hright)

/-! ## Comparisons joined from the left -/

/-- So many comparisons, joined from the left. -/
inductive LeftChain : Expr → Nat → Prop
  | comparison (path : FieldPath) (op : Comparator) (right : Operand) :
      LeftChain (.comparison path op right) 1
  | logical {left : Expr} {n : Nat} (hleft : LeftChain left n) (op : Connective)
      (path : FieldPath) (comparator : Comparator) (right : Operand) :
      LeftChain (.logical left op (.comparison path comparator right)) (n + 1)

namespace LeftChain

variable {e : Expr} {n : Nat}

theorem pos (h : e.LeftChain n) : 0 < n := by
  cases h <;> exact Nat.succ_pos _

/-- Every comparison of a chain but the last opens two brackets more, and what is not settled by
their number is how many brackets the operands open. -/
theorem nesting_bounds (h : e.LeftChain n) : 2 * n + 1 ≤ e.nesting ∧ e.nesting ≤ 2 * n + 3 := by
  have hoperand : ∀ right : Operand, right.nesting ≤ 3 := by
    intro right
    cases right <;> simp only [Operand.nesting] <;> split_ifs <;> decide
  induction h with
  | comparison path op right =>
      have hright := hoperand right
      simp only [nesting]
      omega
  | @logical left n hleft op path comparator right ih =>
      have hright := hoperand right
      -- the comparison on the right nests no deeper than the chain on the left may
      have hpos := hleft.pos
      simp only [nesting]
      omega

end LeftChain

/-- The filter of `a = None`. -/
def missing : Expr :=
  .comparison ⟨⟨"a", by decide⟩, []⟩ .equal (.single .none)

/-- The filter of `a = None and a = None and ⋯`, with so many connectives. -/
def repeated : Nat → Expr
  | 0 => missing
  | n + 1 => .logical (repeated n) .and missing

theorem leftChain_repeated (n : Nat) : (repeated n).LeftChain (n + 1) := by
  induction n with
  | zero => exact .comparison _ _ _
  | succ n ih => exact .logical ih _ _ _ _

theorem literals_repeated (n : Nat) : ∀ value ∈ (repeated n).literals, value = .none := by
  induction n with
  | zero => exact fun value hmem => List.mem_singleton.1 hmem
  | succ n ih =>
      intro value hmem
      rcases List.mem_append.1 hmem with hmem | hmem
      · exact ih value hmem
      · exact List.mem_singleton.1 hmem

theorem wellTyped_repeated (n : Nat) : (repeated n).WellTyped := by
  induction n with
  | zero => rfl
  | succ n ih => exact ⟨ih, rfl⟩

theorem groupDepth_repeated (n : Nat) : (repeated n).groupDepth = 0 := by
  induction n with
  | zero => rfl
  | succ n ih =>
      have hleft : (repeated n).needsGroup Connective.and.layer = false := by
        cases n <;> rfl
      rw [repeated, groupDepth, ih, hleft]
      rfl

/-- Comparisons that `and` joins need no groups, so every cap accepts them, however many. -/
theorem parse_text_repeated (limit n : Nat) :
    Query.parse limit (repeated n).text = .ok (repeated n) := by
  have hreads : ∀ value ∈ (repeated n).literals, value.ReadsBack := by
    intro value hmem
    rw [literals_repeated n value hmem]
    trivial
  rcases Query.ofText_text (wellTyped_repeated n) hreads with ⟨tokens, hstream, -, hread⟩
  rw [Query.parse_eq_ofTokens hstream]
  exact hread limit (by simp [groupDepth_repeated])

/-! ## Documents of filters -/

/-- What keeps the rules of trees keeps the rules of documents: paths are made of segments. -/
theorem valid_of_wellTyped {e : Expr} (hwell : e.WellTyped) (hfinite : e.Finite) : e.Valid := by
  induction e with
  | comparison path op right => exact valid_comparison hfinite hwell
  | logical left op right ihl ihr =>
      exact ⟨ihl hwell.1 fun value hmem => hfinite value (List.mem_append_left _ hmem),
        ihr hwell.2 fun value hmem => hfinite value (List.mem_append_right _ hmem)⟩

/-- On one line or over several, a filter that keeps the rules is read back from its document if the
document has at most 127 brackets open at once, and otherwise the document is malformed.  So up to
62 comparisons that a query joins from the left are read back, and 64 and more are not; with 63 it
depends on their operands. -/
theorem ofDocument_toJson (e : Expr) (hfloats : e.FloatsReadBackFromDocument) :
    (e.Valid → ∀ text ∈ [e.toJson.compact, e.toJson.pretty],
      (e.nesting ≤ 127 → ofDocument text = .ok e) ∧
      (127 < e.nesting → ofDocument text = .error .malformed)) ∧
    ∀ limit source n, Query.parse limit source = .ok e → e.LeftChain n →
      ∀ text ∈ [e.toJson.compact, e.toJson.pretty],
        (n ≤ 62 → ofDocument text = .ok e) ∧ (64 ≤ n → ofDocument text = .error .malformed) := by
  have hdocument : e.Valid → ∀ text ∈ [e.toJson.compact, e.toJson.pretty],
      Decides (ofDocument text) (e.nesting ≤ 127) e := by
    intro hvalid text htext
    have hrestores := restores_fromJson hvalid hfloats maxNesting
    rcases List.mem_cons.1 htext with rfl | htext
    · exact hrestores.document .inline
    · rw [List.mem_singleton.1 htext]
      exact hrestores.document (.lines 0)
  constructor
  · intro hvalid text htext
    have hdecides := hdocument hvalid text htext
    exact ⟨hdecides.gives, fun hlt => hdecides.refuses (Nat.not_le.2 hlt)⟩
  · intro limit source n hparse hchain text htext
    rcases Query.rules_of_parse hparse with ⟨-, hwell, hfinite⟩
    have hdecides := hdocument (valid_of_wellTyped hwell hfinite) text htext
    -- 62 comparisons fit whatever their operands are, and 64 fit with no operands
    rcases hchain.nesting_bounds with ⟨hlower, hupper⟩
    exact ⟨fun hle => hdecides.gives (by omega), fun hle => hdecides.refuses (by omega)⟩

/-- A filter with a float and a list is read back, and of 64 comparisons that every cap accepts the
document is malformed. -/
theorem ofDocument_toJson_groupedFilter :
    Query.groupedFilter.FloatsReadBackFromDocument ∧ Query.groupedFilter.Valid ∧
      Query.groupedFilter.nesting = 9 ∧
      ofDocument Query.groupedFilter.toJson.pretty = .ok Query.groupedFilter ∧
      (repeated 63).FloatsReadBackFromDocument ∧ (repeated 63).LeftChain 64 ∧
      Query.parse 0 (repeated 63).text = .ok (repeated 63) ∧
      ofDocument (repeated 63).toJson.compact = .error .malformed := by
  have hfloats : Query.groupedFilter.FloatsReadBackFromDocument := by
    intro value hmem x hvalue
    rw [hvalue] at hmem
    have hx : x = 1.5 := by
      simpa [Query.groupedFilter, literals, Operand.literals, LiteralList.items] using hmem
    subst hx
    decide +kernel
  have hvalid : Query.groupedFilter.Valid := by
    refine valid_of_wellTyped ⟨rfl, rfl, rfl⟩ ?_
    unfold Expr.Finite
    decide
  have hnone : (repeated 63).FloatsReadBackFromDocument := by
    intro value hmem x hvalue
    rw [literals_repeated 63 value hmem] at hvalue
    cases hvalue
  have hpretty : Query.groupedFilter.toJson.pretty ∈
      [Query.groupedFilter.toJson.compact, Query.groupedFilter.toJson.pretty] := by simp
  rcases (ofDocument_toJson _ hfloats).1 hvalid _ hpretty with ⟨hread, -⟩
  have hparse := parse_text_repeated 0 63
  rcases (ofDocument_toJson _ hnone).2 0 _ 64 hparse (leftChain_repeated 63) _
    (List.mem_cons_self ..) with ⟨-, hrefused⟩
  exact ⟨hfloats, hvalid, rfl, hread (by decide), hnone, leftChain_repeated 63, hparse,
    hrefused (by decide)⟩

end Expr
end FieldFilter
