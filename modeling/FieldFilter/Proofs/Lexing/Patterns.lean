import FieldFilter.Proofs.Lexing.Spellings
import FieldFilter.Proofs.Lexing.StringBodies
import Mathlib.Computability.Language

/-!
# The patterns of tokens

The kinds of tokens are declared by regular patterns, which say what a token may look like but not
how to find one.

* `TokenKind.pattern` — the texts that a kind of token may have;
* `Pattern.mem_word_iff`, `Pattern.mem_quoted_iff` — words and string literals in full;
* `MatchesAt`, `IsLongest` — the matches at the start of a text, and the longest of them.
-/

open scoped Computability

namespace FieldFilter
namespace Pattern

/-! ## Building patterns -/

/-- One character of a class. -/
def oneOf (p : Char → Bool) : Language Char :=
  {cs | ∃ c, p c = true ∧ cs = [c]}

/-- A text as it is. -/
def exactly (cs : List Char) : Language Char :=
  {cs}

def optional (l : Language Char) : Language Char :=
  1 + l

def atLeastOnce (l : Language Char) : Language Char :=
  l * l∗

variable {p : Char → Bool} {l : Language Char} {cs ds : List Char}

theorem mem_oneOf_iff : cs ∈ oneOf p ↔ ∃ c, p c = true ∧ cs = [c] :=
  Iff.rfl

theorem mem_exactly_iff : cs ∈ exactly ds ↔ cs = ds :=
  Iff.rfl

theorem mem_optional_iff : cs ∈ optional l ↔ cs = [] ∨ cs ∈ l :=
  Iff.rfl

theorem mem_exactly_mul_iff : cs ∈ exactly ds * l ↔ ∃ rest ∈ l, cs = ds ++ rest := by
  simp [Language.mem_mul, mem_exactly_iff, eq_comm]

theorem mem_oneOf_mul_iff : cs ∈ oneOf p * l ↔ ∃ c rest, p c = true ∧ rest ∈ l ∧ cs = c :: rest := by
  simp only [Language.mem_mul, mem_oneOf_iff]
  constructor
  · rintro ⟨_, ⟨c, hc, rfl⟩, rest, hrest, rfl⟩
    exact ⟨c, rest, hc, hrest, rfl⟩
  · rintro ⟨c, rest, hc, hrest, rfl⟩
    exact ⟨[c], ⟨c, hc, rfl⟩, rest, hrest, rfl⟩

theorem mem_many_oneOf_iff : cs ∈ (oneOf p)∗ ↔ ∀ c ∈ cs, p c = true := by
  rw [Language.mem_kstar]
  constructor
  · rintro ⟨pieces, rfl, hpieces⟩ c hc
    rcases List.mem_flatten.1 hc with ⟨piece, hpiece, hmem⟩
    rcases hpieces piece hpiece with ⟨d, hd, rfl⟩
    exact List.mem_singleton.1 hmem ▸ hd
  · intro hall
    refine ⟨cs.map fun c => [c], (List.flatMap_singleton' cs).symm, ?_⟩
    intro piece hpiece
    rcases List.mem_map.1 hpiece with ⟨c, hc, rfl⟩
    exact ⟨c, hall c hc, rfl⟩

theorem mem_atLeastOnce_oneOf_iff :
    cs ∈ atLeastOnce (oneOf p) ↔ cs ≠ [] ∧ ∀ c ∈ cs, p c = true := by
  rw [atLeastOnce, mem_oneOf_mul_iff]
  constructor
  · rintro ⟨c, rest, hc, hrest, rfl⟩
    simpa [hc] using mem_many_oneOf_iff.1 hrest
  · rintro ⟨hne, hall⟩
    cases cs with
    | nil => exact absurd rfl hne
    | cons c rest =>
        exact ⟨c, rest, hall c (by simp), mem_many_oneOf_iff.2 fun d hd => hall d (by simp [hd]), rfl⟩

/-! ## Words -/

def word : Language Char :=
  oneOf isIdentifierStart * (oneOf isIdentifierPart)∗

theorem mem_word_iff :
    cs ∈ word ↔ ∃ c rest, isIdentifierStart c = true ∧ (∀ d ∈ rest, isIdentifierPart d = true) ∧
      cs = c :: rest := by
  simp only [word, mem_oneOf_mul_iff, mem_many_oneOf_iff]

/-! ## Numbers -/

def digit : Language Char :=
  oneOf Char.isDigit

/-- The digits that may start a whole part of several digits. -/
def isNonzeroDigit (c : Char) : Bool :=
  '1' ≤ c && c ≤ '9'

theorem isDigit_of_isNonzeroDigit {c : Char} (h : isNonzeroDigit c = true) : c.isDigit = true := by
  simp only [isNonzeroDigit, Bool.and_eq_true, decide_eq_true_eq] at h
  have hone : '1'.toNat ≤ c.toNat := h.1
  exact Char.isDigit_iff_toNat.2 ⟨Nat.le_trans (by decide) hone, h.2⟩

/-- A sign, then a single zero or digits that start with another one. -/
def integer : Language Char :=
  optional (exactly ['-']) * (exactly ['0'] + oneOf isNonzeroDigit * digit∗)

def fraction : Language Char :=
  exactly ['.'] * atLeastOnce digit

def exponent : Language Char :=
  oneOf (fun c => c == 'e' || c == 'E') *
    (optional (oneOf fun c => c == '+' || c == '-') * atLeastOnce digit)

/-- An integer with a fraction, an exponent, or both. -/
def float : Language Char :=
  integer * (fraction * optional exponent + exponent)

/-! ## String literals -/

/-- The characters that stand for themselves between quotation marks. -/
def isRaw (quote c : Char) : Bool :=
  c != quote && c != '\\' && c != '\r' && c != '\n'

/-- The characters that make an escape on their own. -/
def isShortEscape (c : Char) : Bool :=
  ['"', '\'', '\\', '/', 'b', 'f', 'n', 'r', 't'].contains c

def isHexDigit (c : Char) : Bool :=
  ('0' ≤ c && c ≤ '9') || ('A' ≤ c && c ≤ 'F') || ('a' ≤ c && c ≤ 'f')

def item (quote : Char) : Language Char :=
  oneOf (isRaw quote) + exactly ['\\'] * oneOf isShortEscape +
    exactly ['\\', 'u'] *
      (oneOf isHexDigit * (oneOf isHexDigit * (oneOf isHexDigit * oneOf isHexDigit)))

def quoted (quote : Char) : Language Char :=
  exactly [quote] * ((item quote)∗ * exactly [quote])

theorem isRaw_iff {quote c : Char} :
    isRaw quote c = true ↔ c ≠ '\\' ∧ c ≠ quote ∧ StringLiteral.isLineEnd c = false := by
  simp only [isRaw, StringLiteral.isLineEnd, Bool.and_eq_true, bne_iff_ne, Bool.or_eq_false_iff,
    beq_eq_false_iff_ne]
  tauto

theorem isShortEscape_iff {e : Char} :
    isShortEscape e = true ↔ ∃ c, StringLiteral.shortEscape? e = some c := by
  constructor
  · intro h
    have hmem : e ∈ ['"', '\'', '\\', '/', 'b', 'f', 'n', 'r', 't'] := by
      simpa [isShortEscape] using h
    simp only [List.mem_cons, List.not_mem_nil, or_false] at hmem
    rcases hmem with rfl | rfl | rfl | rfl | rfl | rfl | rfl | rfl | rfl <;> exact ⟨_, rfl⟩
  · rintro ⟨c, h⟩
    unfold StringLiteral.shortEscape? at h
    split at h <;> first | rfl | cases h

theorem isHexDigit_iff {c : Char} :
    isHexDigit c = true ↔ ∃ n, StringLiteral.hexValue? c = some n := by
  simp only [isHexDigit, Bool.or_eq_true, Bool.and_eq_true, decide_eq_true_eq]
  unfold StringLiteral.hexValue?
  split_ifs with hdigit hlower hupper
  · simp [hdigit]
  · simp [hlower]
  · simp [hupper]
  · simp [hdigit, hlower, hupper]

theorem exists_unitOf?_iff {h₁ h₂ h₃ h₄ : Char} :
    (∃ n, StringLiteral.unitOf? h₁ h₂ h₃ h₄ = some n) ↔
      ∀ c ∈ [h₁, h₂, h₃, h₄], isHexDigit c = true := by
  constructor
  · rintro ⟨n, hdigits⟩ c hc
    exact isHexDigit_iff.2 (StringLiteral.hexValue?_of_unitOf? hdigits c hc)
  · intro hall
    rcases isHexDigit_iff.1 (hall h₁ (by simp)) with ⟨n₁, hn₁⟩
    rcases isHexDigit_iff.1 (hall h₂ (by simp)) with ⟨n₂, hn₂⟩
    rcases isHexDigit_iff.1 (hall h₃ (by simp)) with ⟨n₃, hn₃⟩
    rcases isHexDigit_iff.1 (hall h₄ (by simp)) with ⟨n₄, hn₄⟩
    simp [StringLiteral.unitOf?, hn₁, hn₂, hn₃, hn₄]

theorem mem_fourHexDigits_iff :
    cs ∈ oneOf isHexDigit * (oneOf isHexDigit * (oneOf isHexDigit * oneOf isHexDigit)) ↔
      ∃ h₁ h₂ h₃ h₄ n, StringLiteral.unitOf? h₁ h₂ h₃ h₄ = some n ∧ cs = [h₁, h₂, h₃, h₄] := by
  simp only [mem_oneOf_mul_iff, mem_oneOf_iff]
  constructor
  · rintro ⟨h₁, _, hhex₁, ⟨h₂, _, hhex₂, ⟨h₃, _, hhex₃, ⟨h₄, hhex₄, rfl⟩, rfl⟩, rfl⟩, rfl⟩
    have hall : ∀ c ∈ [h₁, h₂, h₃, h₄], isHexDigit c = true := by
      simp [hhex₁, hhex₂, hhex₃, hhex₄]
    rcases exists_unitOf?_iff.2 hall with ⟨n, hdigits⟩
    exact ⟨h₁, h₂, h₃, h₄, n, hdigits, rfl⟩
  · rintro ⟨h₁, h₂, h₃, h₄, n, hdigits, rfl⟩
    have hall := exists_unitOf?_iff.1 ⟨n, hdigits⟩
    exact ⟨h₁, _, hall h₁ (by simp), ⟨h₂, _, hall h₂ (by simp),
      ⟨h₃, _, hall h₃ (by simp), ⟨h₄, hall h₄ (by simp), rfl⟩, rfl⟩, rfl⟩, rfl⟩

theorem mem_item_iff {quote : Char} :
    cs ∈ item quote ↔
      (∃ c, isRaw quote c = true ∧ cs = [c]) ∨
        (∃ e c, StringLiteral.shortEscape? e = some c ∧ cs = ['\\', e]) ∨
          ∃ h₁ h₂ h₃ h₄ n, StringLiteral.unitOf? h₁ h₂ h₃ h₄ = some n ∧
            cs = ['\\', 'u', h₁, h₂, h₃, h₄] := by
  rw [item, Language.mem_add, Language.mem_add, or_assoc, mem_oneOf_iff]
  refine or_congr_right (or_congr ?_ ?_)
  · simp only [mem_exactly_mul_iff, mem_oneOf_iff, isShortEscape_iff]
    constructor
    · rintro ⟨_, ⟨e, ⟨c, hescape⟩, rfl⟩, rfl⟩
      exact ⟨e, c, hescape, rfl⟩
    · rintro ⟨e, c, hescape, rfl⟩
      exact ⟨_, ⟨e, ⟨c, hescape⟩, rfl⟩, rfl⟩
  · simp only [mem_exactly_mul_iff, mem_fourHexDigits_iff]
    constructor
    · rintro ⟨_, ⟨h₁, h₂, h₃, h₄, n, hdigits, rfl⟩, rfl⟩
      exact ⟨h₁, h₂, h₃, h₄, n, hdigits, rfl⟩
    · rintro ⟨h₁, h₂, h₃, h₄, n, hdigits, rfl⟩
      exact ⟨_, ⟨h₁, h₂, h₃, h₄, n, hdigits, rfl⟩, rfl⟩

theorem mem_items_iff {quote : Char} :
    cs ∈ (item quote)∗ ↔ ∃ items, StringLiteral.Itemizes quote cs items := by
  constructor
  · intro h
    rcases Language.mem_kstar.1 h with ⟨pieces, rfl, hpieces⟩
    clear h
    induction pieces with
    | nil => exact ⟨[], .nil⟩
    | cons piece pieces ih =>
        rcases ih fun piece' h => hpieces piece' (by simp [h]) with ⟨items, hitems⟩
        rw [List.flatten_cons]
        rcases mem_item_iff.1 (hpieces piece (by simp)) with
          ⟨c, hraw, rfl⟩ | ⟨e, c, hescape, rfl⟩ | ⟨h₁, h₂, h₃, h₄, n, hdigits, rfl⟩
        · rcases isRaw_iff.1 hraw with ⟨hbackslash, hquote, hend⟩
          exact ⟨_, .raw hbackslash hquote hend hitems⟩
        · exact ⟨_, .short hescape hitems⟩
        · exact ⟨_, .unit hdigits hitems⟩
  · rintro ⟨items, hitems⟩
    -- one more item in front of items gives items
    have happend : ∀ {piece rest : List Char}, piece ∈ item quote → rest ∈ (item quote)∗ →
        piece ++ rest ∈ (item quote)∗ := by
      intro piece rest hpiece hrest
      rw [← Language.one_add_self_mul_kstar_eq_kstar]
      exact .inr (Language.append_mem_mul hpiece hrest)
    induction hitems with
    | nil => exact Language.nil_mem_kstar _
    | @raw c _ _ hbackslash hquote hend _ ih =>
        exact happend (mem_item_iff.2 (.inl ⟨c, isRaw_iff.2 ⟨hbackslash, hquote, hend⟩, rfl⟩)) ih
    | @short e c _ _ hescape _ ih =>
        exact happend (mem_item_iff.2 (.inr (.inl ⟨e, c, hescape, rfl⟩))) ih
    | @unit h₁ h₂ h₃ h₄ n _ _ hdigits _ ih =>
        exact happend (mem_item_iff.2 (.inr (.inr ⟨h₁, h₂, h₃, h₄, n, hdigits, rfl⟩))) ih

theorem mem_quoted_iff {quote : Char} :
    cs ∈ quoted quote ↔
      ∃ body items, StringLiteral.Itemizes quote body items ∧ cs = quote :: (body ++ [quote]) := by
  rw [quoted, mem_exactly_mul_iff]
  simp only [Language.mem_mul, mem_items_iff, mem_exactly_iff]
  constructor
  · rintro ⟨_, ⟨body, ⟨items, hitems⟩, _, rfl, rfl⟩, rfl⟩
    exact ⟨body, items, hitems, rfl⟩
  · rintro ⟨body, items, hitems, rfl⟩
    exact ⟨_, ⟨body, ⟨items, hitems⟩, _, rfl, rfl⟩, rfl⟩

end Pattern

/-! ## The patterns of the kinds -/

/-- The texts that a kind of token may have. -/
def TokenKind.pattern (kind : TokenKind) : Language Char :=
  match kind.spelling?, kind with
  | some spelling, _ => Pattern.exactly spelling.toList
  | none, .int => Pattern.integer
  | none, .float => Pattern.float
  | none, .string => Pattern.quoted '"' + Pattern.quoted '\''
  | none, _ => Pattern.word

/-- The start of a text has the form of a token of a kind. -/
def MatchesAt (cs : List Char) (kind : TokenKind) (text : List Char) : Prop :=
  text <+: cs ∧ text ∈ kind.pattern

/-- No token at the start of a text is longer. -/
def IsLongest (cs : List Char) (kind : TokenKind) (text : List Char) : Prop :=
  MatchesAt cs kind text ∧
    ∀ kind' text', MatchesAt cs kind' text' → text'.length ≤ text.length

end FieldFilter
