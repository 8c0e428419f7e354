import FieldFilter.Proofs.Lexing.Cuts
import FieldFilter.Proofs.Printing.Pieces

/-!
# Canonical texts have no control characters

* `StringLiteral.Plain` — a text without control characters;
* `StringLiteral.plain_encode` — the canonical spelling of a string escapes them;
* `Decimal.Notation.plain_render` — every float is written without them, finite or not;
* `Literal.plain_text`, `Operand.plain_text`, `Expr.plain_text` — the canonical texts.
-/

namespace FieldFilter

/-! ## Control characters -/

namespace StringLiteral

variable {c d : Char} {cs ds : List Char}

theorem toNat_lt_of_isControl (h : isControl c = true) : c.toNat < 0xa0 := by
  simp only [isControl, Bool.or_eq_true, Bool.and_eq_true, decide_eq_true_eq] at h
  omega

/-- Words, marks and numerals go on with no control character. -/
theorem isControl_eq_false_of_continuesToken (h : continuesToken c = true) :
    isControl c = false := by
  have hchecked : ∀ n < 0xa0, continuesToken (Char.ofNat n) = true →
      isControl (Char.ofNat n) = false := by
    decide +kernel
  cases hcontrol : isControl c with
  | false => rfl
  | true =>
      have hnot := hchecked c.toNat (toNat_lt_of_isControl hcontrol)
      rw [Char.ofNat_toNat, hcontrol] at hnot
      exact hnot h

theorem isControl_of_mem_hexFour {n : Nat} (hn : n < 0xa0) (h : c ∈ Text.hexFour n) :
    isControl c = false := by
  have hchecked : ∀ m < 0xa0, (Text.hexFour m).all (fun d => !isControl d) = true := by
    decide +kernel
  simpa using List.all_eq_true.1 (hchecked n hn) c h

/-- What is a control character itself is spelled by a short escape or by its number. -/
theorem isControl_of_mem_encodeChar (h : d ∈ encodeChar c) : isControl d = false := by
  unfold encodeChar at h
  split_ifs at h with _ _ _ _ _ _ _ hcontrol
  -- the characters with a short escape
  any_goals
    rcases List.mem_pair.1 h with rfl | rfl <;> rfl
  · rcases List.mem_append.1 h with hmark | hdigit
    · rcases List.mem_pair.1 hmark with rfl | rfl <;> rfl
    · exact isControl_of_mem_hexFour (toNat_lt_of_isControl hcontrol) hdigit
  · obtain rfl := List.mem_singleton.1 h
    exact Bool.eq_false_iff.2 hcontrol

/-! ## Texts without them -/

/-- A text without control characters. -/
def Plain (cs : List Char) : Prop :=
  ∀ c ∈ cs, isControl c = false

instance (cs : List Char) : Decidable (Plain cs) :=
  decidable_of_iff (cs.all fun c => !isControl c) (by simp [Plain])

@[simp] theorem plain_nil : Plain [] := nofun

@[simp] theorem plain_cons : Plain (c :: cs) ↔ isControl c = false ∧ Plain cs :=
  List.forall_mem_cons

@[simp] theorem plain_append : Plain (cs ++ ds) ↔ Plain cs ∧ Plain ds :=
  List.forall_mem_append

theorem plain_flatMap {α : Type} {xs : List α} {f : α → List Char} (h : ∀ x ∈ xs, Plain (f x)) :
    Plain (xs.flatMap f) := by
  intro c hc
  rcases List.mem_flatMap.1 hc with ⟨x, hx, hcx⟩
  exact h x hx c hcx

theorem Plain.sublist (h : Plain cs) (hsub : List.Sublist ds cs) : Plain ds :=
  fun c hc => h c (hsub.subset hc)

theorem Plain.of_continuesToken (h : ∀ c ∈ cs, continuesToken c = true) : Plain cs :=
  fun c hc => isControl_eq_false_of_continuesToken (h c hc)

theorem plain_toDigits (n : Nat) : Plain (Nat.toDigits 10 n) :=
  .of_continuesToken fun _ hc =>
    continuesToken_of_isDigit (Nat.isDigit_of_mem_toDigits (by decide) (by decide) hc)

theorem plain_replicate {n : Nat} (h : isControl c = false) : Plain (List.replicate n c) := by
  intro d hd
  rw [List.eq_of_mem_replicate hd, h]

/-- The canonical spelling of a string has no control characters. -/
theorem plain_encode (cs : List Char) : Plain (encode cs) := by
  intro d hd
  simp only [encode, List.mem_append, List.mem_singleton, List.mem_flatMap] at hd
  rcases hd with (rfl | ⟨c, -, hd⟩) | rfl
  · rfl
  · exact isControl_of_mem_encodeChar hd
  · rfl

/-- No line ends in a text without control characters. -/
theorem Plain.newline_not_mem (h : Plain cs) : '\n' ∉ cs := fun hmem => nomatch h '\n' hmem

end StringLiteral

open StringLiteral (Plain isControl plain_flatMap plain_toDigits plain_replicate)

theorem plain_of_isIdentifier {word : String} (h : isIdentifier word = true) :
    Plain word.toList :=
  .of_continuesToken fun c hc => by
    simp [continuesToken, isIdentifierPart_of_isIdentifier h c hc]

/-! ## Numbers -/

namespace Decimal

theorem plain_intText (value : Int) : Plain (intText value) := by
  rw [intText]
  split_ifs <;> simp [plain_toDigits, isControl]

namespace Notation

variable {n : Notation} {ds : List Char}

theorem plain_exponentText (n : Notation) (e : Int) : Plain (n.exponentText e) := by
  rw [exponentText]
  split_ifs <;> simp [plain_toDigits, isControl]

theorem plain_positional (hds : Plain ds) (e : Int) : Plain (positional ds e) := by
  have hzeros : ∀ n, Plain (List.replicate n '0') := fun n => plain_replicate rfl
  unfold positional
  split_ifs
  · simp [hzeros, hds, isControl]
  · have htake := hds.sublist (List.take_sublist (e.natAbs + 1) ds)
    have hdrop := hds.sublist (List.drop_sublist (e.natAbs + 1) ds)
    dsimp only
    split_ifs <;> simp [hzeros, htake, hdrop, isControl]

theorem plain_scientific (hds : Plain ds) (e : Int) : Plain (n.scientific ds e) := by
  have htake := hds.sublist (List.take_sublist 1 ds)
  have htail := hds.sublist (List.tail_sublist ds)
  have hexponent := n.plain_exponentText e
  unfold scientific
  dsimp only
  split_ifs <;> simp [htake, htail, hexponent, isControl]

theorem plain_layout (n : Notation) (d : Digits) : Plain (n.layout d) := by
  have hdigits := plain_toDigits d.digits
  unfold layout
  dsimp only
  split_ifs
  · exact plain_positional hdigits _
  · exact plain_scientific hdigits _

/-- A float is written without control characters where what is no finite number is. -/
theorem plain_render (hnan : Plain n.nan) (hinfinity : Plain n.infinity) (value : Float) :
    Plain (n.render value) := by
  have hlayout := n.plain_layout (shortest (Binary.ofBits value.toBits) n.tie)
  have hsign : Plain (if value.toBits >>> 63 == 1 then ['-'] else []) := by
    split_ifs <;> decide
  unfold render
  dsimp only
  split_ifs <;> simp [*, isControl]

end Notation
end Decimal

/-! ## Operands -/

theorem Literal.plain_text (value : Literal) : Plain value.text := by
  cases value with
  | int value => exact Decimal.plain_intText _
  | float value =>
      have hnan : Plain floatNotation.nan := by decide
      have hinfinity : Plain floatNotation.infinity := by decide
      exact Decimal.Notation.plain_render hnan hinfinity value
  | string value => exact StringLiteral.plain_encode _
  | bool value => cases value <;> exact plain_of_isIdentifier (by decide)
  | none => exact plain_of_isIdentifier (by decide)

theorem Operand.plain_text (right : Operand) : Plain right.text := by
  cases right with
  | single value => exact value.plain_text
  | list values =>
      have hrest : Plain (values.rest.flatMap fun value => ", ".toList ++ value.text) :=
        plain_flatMap fun value _ => by simp [value.plain_text, isControl]
      simpa [Operand.text, LiteralList.text, LiteralList.items, joinCommas_cons, List.flatMap_map,
        isControl] using ⟨values.first.plain_text, hrest⟩

/-! ## Filters -/

theorem FieldPath.plain_text (path : FieldPath) : Plain path.text := by
  have hword : ∀ segment : Segment, Plain segment.word.toList := fun segment => by
    have hsegment := segment.valid
    simp only [isSegment, Bool.and_eq_true] at hsegment
    exact plain_of_isIdentifier hsegment.1
  have hrest : Plain (path.rest.flatMap fun segment => '.' :: segment.word.toList) :=
    plain_flatMap fun segment _ => by simp [hword segment, isControl]
  simpa [text, words, segments, joinDots_cons, List.flatMap_map] using ⟨hword path.first, hrest⟩

namespace Expr

theorem plain_grouped {text : List Char} (needed : Bool) (h : Plain text) :
    Plain (grouped needed text) := by
  cases needed with
  | true => simp [grouped, h, isControl]
  | false => exact h

/-- The canonical text of a filter has no control characters, whatever its strings have. -/
theorem plain_text (e : Expr) : Plain e.text := by
  induction e with
  | comparison path op right =>
      have hsymbol : Plain op.symbol.toList := by
        cases op <;> decide
      rw [text_comparison]
      simp [path.plain_text, hsymbol, right.plain_text, isControl]
  | logical left op right ihl ihr =>
      have hsymbol : Plain op.symbol.toList := by
        cases op <;> decide
      rw [text_logical]
      simp [plain_grouped _ ihl, plain_grouped _ ihr, hsymbol, isControl]

end Expr
end FieldFilter
