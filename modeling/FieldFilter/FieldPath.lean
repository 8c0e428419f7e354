/-!
# Field paths

A field is named by a dotted path such as `author.country`.

* `isIdentifier`, `isReserved`, `isSegment` — which words may stand in a path;
* `Segment` — one word of a path, `FieldPath` — a path of at least one segment;
* `FieldPath.ofWords` — the path of given words, or why they make none;
* `FieldPath.ofDotted?` — the path that a dotted text spells.
-/

namespace FieldFilter

/-! ## Words -/

/-- A character that may start an identifier. -/
def isIdentifierStart (c : Char) : Bool :=
  c == '_' || c.isAlpha

/-- A character that may continue an identifier. -/
def isIdentifierPart (c : Char) : Bool :=
  c == '_' || c.isAlphanum

/-- The words that a query reads as keywords or literals, never as a field. -/
def reservedWords : List String :=
  ["and", "or", "not", "in", "True", "False", "None"]

/-- An ASCII letter or underscore, followed by letters, underscores and digits. -/
def isIdentifier (word : String) : Bool :=
  match word.toList with
  | [] => false
  | c :: cs => isIdentifierStart c && cs.all isIdentifierPart

theorem isIdentifierPart_of_isIdentifierStart {c : Char} (h : isIdentifierStart c = true) :
    isIdentifierPart c = true := by
  simp only [isIdentifierStart, isIdentifierPart, Bool.or_eq_true] at h ⊢
  grind [Char.isAlphanum]

theorem isIdentifierPart_of_isIdentifier {word : String} (h : isIdentifier word = true) :
    ∀ c ∈ word.toList, isIdentifierPart c = true := by
  cases hlist : word.toList with
  | nil => simp
  | cons c cs =>
      simp only [isIdentifier, hlist, Bool.and_eq_true, List.all_eq_true] at h
      exact List.forall_mem_cons.2 ⟨isIdentifierPart_of_isIdentifierStart h.1, h.2⟩

/-- A word that a query keeps for itself. -/
def isReserved (word : String) : Bool :=
  reservedWords.contains word

/-- A word that may stand in a path. -/
def isSegment (word : String) : Bool :=
  isIdentifier word && !isReserved word

/-- One word of a path. -/
structure Segment where
  word : String
  valid : isSegment word = true
  deriving DecidableEq, Repr

/-- The segment that a word makes, if it may stand in a path. -/
def Segment.ofWord? (word : String) : Option Segment :=
  if h : isSegment word = true then some ⟨word, h⟩ else none

/-! ## Paths -/

/-- A path of at least one segment. -/
structure FieldPath where
  first : Segment
  rest : List Segment
  deriving DecidableEq, Repr

/-- Why words make no path. -/
inductive FieldPathError where
  | empty
  | notIdentifier
  | reserved
  deriving DecidableEq, Repr

/-- The wording of a refusal. -/
def FieldPathError.message : FieldPathError → String
  | .empty => "name must have at least one segment"
  | .notIdentifier => "name segments must be identifiers"
  | .reserved => "name segments must not be reserved words"

namespace FieldPath

/-- The path of a single segment. -/
def single (segment : Segment) : FieldPath :=
  ⟨segment, []⟩

/-- A path with one more segment at its end. -/
def push (path : FieldPath) (segment : Segment) : FieldPath :=
  { path with rest := path.rest ++ [segment] }

/-- The segments of a path, in order. -/
def segments (path : FieldPath) : List Segment :=
  path.first :: path.rest

/-- The words of a path, in order. -/
def words (path : FieldPath) : List String :=
  path.segments.map Segment.word

/-- The last segment of a path. -/
def last (path : FieldPath) : Segment :=
  path.rest.getLastD path.first

/-- How many segments a path has. -/
def size (path : FieldPath) : Nat :=
  path.segments.length

/-- Words with dots between them. -/
def joinDots : List (List Char) → List Char
  | [] => []
  | [w] => w
  | w :: ws => w ++ '.' :: joinDots ws

/-- A path as a query spells it. -/
def text (path : FieldPath) : List Char :=
  joinDots (path.words.map String.toList)

@[simp] theorem words_single (s : Segment) : (single s).words = [s.word] := rfl

@[simp] theorem words_push (path : FieldPath) (s : Segment) :
    (path.push s).words = path.words ++ [s.word] := by
  simp [words, segments, push]

theorem isSegment_of_mem_words {path : FieldPath} {word : String} (h : word ∈ path.words) :
    isSegment word = true := by
  obtain ⟨segment, -, rfl⟩ := List.mem_map.1 h
  exact segment.valid

/-! ## Paths from words -/

/-- The segments that words make, when every word may stand in a path. -/
def segmentsOf? : List String → Option (List Segment)
  | [] => some []
  | word :: words => do
    let segment ← Segment.ofWord? word
    let segments ← segmentsOf? words
    return segment :: segments

/-- The path of given words.  Words that are no identifiers are noticed before reserved ones. -/
def ofWords (words : List String) : Except FieldPathError FieldPath :=
  match segmentsOf? words with
  | some (first :: rest) => .ok ⟨first, rest⟩
  | some [] => .error .empty
  | none => if words.all isIdentifier then .error .reserved else .error .notIdentifier

theorem segmentsOf?_eq_some_iff {words : List String} {segments : List Segment} :
    segmentsOf? words = some segments ↔ segments.map Segment.word = words := by
  induction words generalizing segments with
  | nil => cases segments <;> simp [segmentsOf?]
  | cons word words ih =>
      constructor
      · intro h
        obtain ⟨segment, hsegment, rest, hrest, rfl⟩ : ∃ segment, Segment.ofWord? word =
            some segment ∧ ∃ rest, segmentsOf? words = some rest ∧ segment :: rest = segments := by
          simpa [segmentsOf?, Option.bind_eq_some_iff] using h
        unfold Segment.ofWord? at hsegment
        split at hsegment <;> cases hsegment
        rw [List.map_cons, ih.1 hrest]
      · intro h
        cases segments with
        | nil => cases h
        | cons segment segments =>
            obtain ⟨rfl, hwords⟩ := List.cons.inj h
            simp [segmentsOf?, Segment.ofWord?, segment.valid, ih.2 hwords]

/-- A path is made of its words, and of no others. -/
theorem ofWords_eq_ok_iff {words : List String} {path : FieldPath} :
    ofWords words = .ok path ↔ path.words = words := by
  constructor
  · intro h
    unfold ofWords at h
    split at h
    · rename_i first rest hsegments
      cases h
      exact segmentsOf?_eq_some_iff.1 hsegments
    · cases h
    · split at h <;> cases h
  · rintro rfl
    have hsegments : segmentsOf? path.words = some path.segments := segmentsOf?_eq_some_iff.2 rfl
    rw [ofWords, hsegments]
    rfl

theorem eq_of_words_eq {path path' : FieldPath} (h : path.words = path'.words) : path = path' :=
  Except.ok.inj ((ofWords_eq_ok_iff.2 h).symm.trans (ofWords_eq_ok_iff.2 rfl))

/-- A text cut at every dot. -/
def cutDots : List Char → List (List Char)
  | [] => [[]]
  | c :: cs =>
    -- a dot starts a new word, which may stay empty
    if c = '.' then [] :: cutDots cs
    else
      match cutDots cs with
      | [] => [[c]]
      | word :: words => (c :: word) :: words

/-- The path that a dotted text spells. -/
def ofDotted? (text : List Char) : Option FieldPath :=
  (ofWords ((cutDots text).map String.ofList)).toOption

end FieldPath

end FieldFilter
