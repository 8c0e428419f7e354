import FieldFilter.Proofs.Completion.Scopes
import FieldFilter.Proofs.Lexing.Tiling

/-!
# Completion by indices

The tokens before a cursor can also be told apart by their indices in the list of tokens, and the
texts between them by slices.  An index or a slice may be out of range; none is.

* `Completion.boundaryUpTo?` — the last place between two characters that is not behind a cursor;
* `Completion.pathStart?`, `Completion.nameEnding?` — paths by the indices of their tokens;
* `Completion.pathStart?_eq`, `Completion.nameEnding?_eq` — they are the paths read backwards;
* `Completion.atOffset?`, `Completion.atOffset?_eq` — the completion by indices, which there always
  is.
-/

namespace FieldFilter

open Text (byteLength dropBytes isBoundary slice? takeBytes)

/-! ## Places in a text -/

namespace Text

/-- One more byte changes a prefix only if a character ends with it. -/
theorem takeBytes_succ {n : Nat} {cs : List Char} (h : isBoundary (n + 1) cs = false) :
    takeBytes (n + 1) cs = takeBytes n cs := by
  have hle := byteLength_takeBytes_le (n + 1) cs
  have hne : byteLength (takeBytes (n + 1) cs) ≠ n + 1 := by simpa [isBoundary] using h
  clear h
  induction cs generalizing n with
  | nil => rfl
  | cons c cs ih =>
      by_cases hfits : c.utf8Size ≤ n + 1
      · simp only [takeBytes, if_pos hfits, byteLength_cons] at hle hne ⊢
        have hlt : c.utf8Size ≤ n := by
          by_contra hlast
          have hzero : n + 1 - c.utf8Size = 0 := by omega
          simp only [hzero, takeBytes_zero, byteLength_nil] at hne
          omega
        have hsub : n + 1 - c.utf8Size = n - c.utf8Size + 1 := by omega
        rw [hsub] at hle hne ⊢
        rw [if_pos hlt, ih (by omega) (by omega)]
      · rw [takeBytes, takeBytes, if_neg hfits, if_neg (by omega)]

/-- From a place between two characters on there is a slice up to the end. -/
theorem slice?_from {n : Nat} {cs : List Char} (h : isBoundary n cs = true) :
    slice? n (byteLength cs) cs = some (dropBytes n cs) := by
  rcases isBoundary_iff.1 h with ⟨before, ⟨behind, rfl⟩, rfl⟩
  rw [dropBytes_byteLength_append]
  exact slice?_rest before behind

theorem isBoundary_of_slice? {start stop : Nat} {cs text : List Char}
    (h : slice? start stop cs = some text) :
    isBoundary start cs = true ∧ isBoundary stop cs = true := by
  unfold slice? at h
  split_ifs at h with hbounds
  exact hbounds.2

/-- An offset past the end counts as the end. -/
theorem takeBytes_min (n : Nat) (cs : List Char) :
    takeBytes (min n (byteLength cs)) cs = takeBytes n cs := by
  rcases Nat.le_total n (byteLength cs) with hle | hle
  · rw [Nat.min_eq_left hle]
  · rw [Nat.min_eq_right hle, takeBytes_of_byteLength_le (Nat.le_refl _),
      takeBytes_of_byteLength_le hle]

end Text

namespace Completion

/-- The last place between two characters that is not behind an offset, going back byte by byte. -/
def boundaryUpTo? (source : List Char) (offset : Nat) : Option Nat :=
  if isBoundary offset source then some offset
  else
    match offset with
    | 0 => none
    | offset + 1 => boundaryUpTo? source offset

theorem boundaryUpTo?_eq (source : List Char) (offset : Nat) :
    boundaryUpTo? source offset = some (byteLength (takeBytes offset source)) := by
  induction offset with
  | zero =>
      have hstart : isBoundary 0 source = true := by simp [isBoundary]
      rw [boundaryUpTo?, if_pos hstart, Text.takeBytes_zero, Text.byteLength_nil]
  | succ offset ih =>
      rw [boundaryUpTo?]
      by_cases h : isBoundary (offset + 1) source = true
      · rw [if_pos h]
        exact congrArg some (beq_iff_eq.1 h).symm
      · rw [if_neg h, ih, Text.takeBytes_succ (Bool.eq_false_iff.2 h)]

/-! ## Paths by the indices of their tokens -/

/-- Whether the token at an index starts a run of names and dots together with what follows it up to
`stop`. -/
def joinsRun? (tokens : List Token) (stop index : Nat) : Option Bool := do
  let token ← tokens[index]?
  if index + 1 = stop then
    return token.kind = .name || token.kind = .dot
  else
    let later ← tokens[index + 1]?
    return token.span.stop = later.span.start &&
      if later.kind = .dot then token.kind = .name else token.kind = .dot

/-- The index of the first token of the run of names and dots that ends before `stop`, going back
from an index. -/
def runStart? (tokens : List Token) (stop : Nat) : Nat → Option Nat
  | 0 => some 0
  | start + 1 => do
    if ← joinsRun? tokens stop start then runStart? tokens stop start else some (start + 1)

/-- The first index up to `stop` at which there is no dot. -/
def skipDots? (tokens : List Token) (stop start : Nat) : Option Nat :=
  if start < stop then do
    let token ← tokens[start]?
    if token.kind = .dot then skipDots? tokens stop (start + 1) else some start
  else
    some start
termination_by stop - start

/-- The index of the first token of the path that ends before `stop`. -/
def pathStart? (tokens : List Token) (stop : Nat) : Option Nat := do
  let start ← runStart? tokens stop stop
  skipDots? tokens stop start

/-- The tokens between two indices. -/
def sliceTokens? (start stop : Nat) (tokens : List Token) : Option (List Token) :=
  if start ≤ stop ∧ stop ≤ tokens.length then some ((tokens.take stop).drop start) else none

/-- The path whose last name stands before `stop`. -/
def nameEnding? (tokens : List Token) : Nat → Option (Option FieldPath)
  | 0 => some none
  | last + 1 => do
    let token ← tokens[last]?
    if token.kind = .name then
      let start ← pathStart? tokens (last + 1)
      let run ← sliceTokens? start (last + 1) tokens
      let names := run.filter fun token => token.kind = .name
      return (FieldPath.ofWords (names.map Token.valueText)).toOption
    else
      return none

variable {tokens before after : List Token} {later : Token} {start stop : Nat}

/-- Going back over indices finds the run that reading backwards finds. -/
theorem runStart?_of_lt (before after : List Token) (later : Token) {stop : Nat}
    (hstop : before.length < stop) :
    ∃ start, runStart? (before ++ later :: after) stop before.length = some start ∧
      start ≤ before.length ∧ before.drop start ++ [later] = runBefore later before.reverse := by
  induction before using List.reverseRecOn generalizing later after with
  | nil => exact ⟨0, rfl, Nat.le_refl 0, rfl⟩
  | append_singleton before token ih =>
      have hne : before.length + 1 ≠ stop := by
        simp only [List.length_append, List.length_singleton] at hstop
        omega
      have htoken : (before ++ [token] ++ later :: after)[before.length]? = some token := by simp
      have hlater : (before ++ [token] ++ later :: after)[before.length + 1]? = some later := by
        simp
      have hjoins : joinsRun? (before ++ [token] ++ later :: after) stop before.length =
          some (token.span.stop = later.span.start &&
            if later.kind = .dot then token.kind = .name else token.kind = .dot) := by
        simp only [joinsRun?, htoken, Option.bind_eq_bind, Option.bind_some, if_neg hne, hlater]
        rfl
      have hrun : runStart? (before ++ [token] ++ later :: after) stop (before ++ [token]).length =
          (joinsRun? (before ++ [token] ++ later :: after) stop before.length).bind fun joins =>
            if joins then runStart? (before ++ [token] ++ later :: after) stop before.length
            else some (before.length + 1) := by
        rw [List.length_append, List.length_singleton]
        rfl
      rw [hrun, hjoins, Option.bind_some, List.reverse_append, List.reverse_singleton,
        List.singleton_append, runBefore]
      by_cases hcond : token.span.stop = later.span.start ∧
          if later.kind = .dot then token.kind = .name else token.kind = .dot
      · rcases ih (later :: after) token (by simp at hstop; omega) with
          ⟨start, hstart, hle, hsame⟩
        refine ⟨start, ?_, ?_, ?_⟩
        · rw [if_pos (by simpa using hcond), List.append_assoc]
          exact hstart
        · simp only [List.length_append, List.length_singleton]
          omega
        · rw [if_pos hcond, ← hsame, List.drop_append_of_le_length hle]
      · refine ⟨before.length + 1, ?_, by simp, ?_⟩
        · rw [if_neg (by simpa using hcond)]
        · rw [if_neg hcond]
          simp

theorem skipDots?_eq (hstop : stop ≤ tokens.length) (hstart : start ≤ stop) :
    ∃ first ≤ stop, skipDots? tokens stop start = some first ∧
      (tokens.take stop).drop first =
        ((tokens.take stop).drop start).dropWhile fun token => token.kind = .dot := by
  induction hdistance : stop - start generalizing start with
  | zero =>
      have hend : start = stop := by omega
      subst hend
      refine ⟨start, Nat.le_refl _, ?_, ?_⟩
      · rw [skipDots?, if_neg (Nat.lt_irrefl _)]
      · simp
  | succ distance ih =>
      have hlt : start < stop := by omega
      have hindex : start < tokens.length := by omega
      have htoken : tokens[start]? = some tokens[start] := List.getElem?_eq_getElem hindex
      have hdrop : (tokens.take stop).drop start =
          tokens[start] :: (tokens.take stop).drop (start + 1) := by
        rw [List.drop_eq_getElem_cons (by simp; omega), List.getElem_take]
      rw [skipDots?, if_pos hlt, htoken, Option.bind_eq_bind, Option.bind_some, hdrop,
        List.dropWhile_cons]
      by_cases hdot : tokens[start].kind = .dot
      · simp only [hdot, if_true, decide_true]
        exact ih hlt (by omega)
      · simp only [hdot, if_false, decide_false, Bool.false_eq_true]
        exact ⟨start, hstart, rfl, hdrop⟩

/-- The tokens from the start of a path on are the path that reading backwards finds. -/
theorem pathStart?_eq (hstop : stop ≤ tokens.length) :
    ∃ start ≤ stop, pathStart? tokens stop = some start ∧
      (tokens.take stop).drop start = pathRun (tokens.take stop).reverse := by
  rcases List.eq_nil_or_concat (tokens.take stop) with hnil | ⟨before, later, hlast⟩
  · have hzero : stop = 0 := by
      have hlength := congrArg List.length hnil
      simp only [List.length_take, List.length_nil] at hlength
      omega
    subst hzero
    refine ⟨0, Nat.le_refl 0, ?_, by simp [pathRun]⟩
    rw [pathStart?, runStart?, Option.bind_eq_bind, Option.bind_some, skipDots?,
      if_neg (Nat.lt_irrefl 0)]
  · have hlength : before.length + 1 = stop := by
      have hlength := congrArg List.length hlast
      simp only [List.concat_eq_append, List.length_take, List.length_append,
        List.length_singleton] at hlength
      omega
    rw [List.concat_eq_append] at hlast
    have hsplit : tokens = before ++ later :: tokens.drop stop := by
      have hwhole := List.take_append_drop stop tokens
      rw [hlast, List.append_assoc] at hwhole
      exact hwhole.symm
    have hlater : tokens[before.length]? = some later := by
      rw [hsplit]
      simp
    have hrun : runStart? tokens stop stop =
        if later.kind = .name ∨ later.kind = .dot then runStart? tokens stop before.length
        else some stop := by
      have hunfold : runStart? tokens stop (before.length + 1) =
          (joinsRun? tokens stop before.length).bind fun joins =>
            if joins then runStart? tokens stop before.length else some (before.length + 1) := rfl
      rw [hlength, joinsRun?, hlater] at hunfold
      rw [hunfold]
      simp [hlength]
    have hstarts : ∃ start ≤ stop, runStart? tokens stop stop = some start ∧
        ((tokens.take stop).drop start).dropWhile (fun token => token.kind = .dot) =
          pathRun (tokens.take stop).reverse := by
      rw [hrun, hlast, List.reverse_append, List.reverse_singleton, List.singleton_append, pathRun]
      by_cases hkind : later.kind = .name ∨ later.kind = .dot
      · have hbefore : before.length < stop := by omega
        rcases runStart?_of_lt before (tokens.drop stop) later hbefore with
          ⟨start, hstart, hle, hsame⟩
        rw [← hsplit] at hstart
        refine ⟨start, by omega, ?_, ?_⟩
        · rw [if_pos hkind, hstart]
        · rw [if_pos hkind, List.drop_append_of_le_length hle, hsame]
      · refine ⟨stop, Nat.le_refl _, ?_, ?_⟩
        · rw [if_neg hkind]
        · rw [if_neg hkind, ← hlength]
          simp
    rcases hstarts with ⟨start, hle, hstart, hpath⟩
    rcases skipDots?_eq hstop hle with ⟨first, hfirst, hskip, hsame⟩
    refine ⟨first, hfirst, ?_, hsame.trans hpath⟩
    rw [pathStart?, hstart, Option.bind_eq_bind, Option.bind_some, hskip]

/-- The path whose last name stands before an index is the one that reading backwards finds. -/
theorem nameEnding?_eq (hstop : stop ≤ tokens.length) :
    nameEnding? tokens stop = some (pathEnding (tokens.take stop).reverse) := by
  cases stop with
  | zero => rfl
  | succ last =>
      have hindex : last < tokens.length := by omega
      have htoken : tokens[last]? = some tokens[last] := List.getElem?_eq_getElem hindex
      have hreverse : (tokens.take (last + 1)).reverse =
          tokens[last] :: (tokens.take last).reverse := by
        rw [List.take_add_one, htoken]
        simp
      rcases pathStart?_eq hstop with ⟨start, hle, hstart, hrun⟩
      have hslice : sliceTokens? start (last + 1) tokens =
          some (pathRun (tokens.take (last + 1)).reverse) := by
        rw [sliceTokens?, if_pos ⟨hle, hstop⟩, hrun]
      rw [nameEnding?, htoken, Option.bind_eq_bind, Option.bind_some, hstart, hreverse, pathEnding]
      by_cases hname : tokens[last].kind = .name
      · rw [if_pos hname, if_pos hname, Option.bind_eq_bind, Option.bind_some, hslice, hreverse]
        rfl
      · rw [if_neg hname, if_neg hname]
        rfl

/-! ## The completion by indices -/

/-- The completion inside a dotted path, as `ofPath` gives it for tokens that are read backwards. -/
def ofPath? (before : List Char) (tokens : List Token) (gapStart : Nat) : Option Completion := do
  let start ← pathStart? tokens tokens.length
  let typedStart := (tokens[start]?.map fun token => token.span.start).getD gapStart
  let typed ← slice? typedStart (byteLength before) before
  match cutLastDot typed with
  | some (finished, segment) =>
    let path := FieldPath.ofDotted? finished
    return ⟨segment, path.map fun _ => .field, path⟩
  | none => return ⟨typed, none, none⟩

/-- The kind of the token before the last one, if there are so many. -/
def previousKind? (tokens : List Token) : Option (Option TokenKind) :=
  match tokens.length with
  | index + 2 => tokens[index]?.map fun token => some token.kind
  | _ => some none

/-- The scope and path after finished tokens, as `scopeAfter` gives them for tokens that are read
backwards. -/
def scopeAfter? (tokens : List Token) (gap : Bool) (typed : List Char) :
    Option (Option Scope × Option FieldPath) := do
  let previous ← previousKind? tokens
  if typed = [')'] ∧ !gap then return (none, none)
  else
    match tokens.getLast?.map Token.kind with
    | none => return (some .field, none)
    | some last =>
      if (last.isConnective && gap) || (last == .openParen && opensGroup previous) then
        return (some .field, none)
      else if gap && (last.isComparator || last == .inWord) && previous == some .name then
        match tokens.length with
        | 0 => none
        | index + 1 =>
          let path ← nameEnding? tokens index
          return (some .value, path)
      else if gap && last == .name then
        let path ← nameEnding? tokens tokens.length
        return (some .comparison, path)
      else if gap && (last.isLiteral || last == .closeParen) then return (some .logical, none)
      else return (none, none)

/-- The tokens before a cursor that they do not reach, in reading order. -/
def finishedTokens (before : List Char) : List Token :=
  let tokens := (TokenStream.ofText before).tokens
  if tokens.getLast?.any fun token => byteLength before ≤ token.span.stop then tokens.dropLast
  else tokens

/-- The completion at the end of a text. -/
def ofText? (before : List Char) : Option Completion := do
  let tokens := finishedTokens before
  let gapStart := (tokens.getLast?.map fun token => token.span.stop).getD 0
  let gap ← slice? gapStart (byteLength before) before
  let typed := Text.trimStart gap
  let blanks := typed.length != gap.length
  if !blanks && (typed.head? == some '.' || tokens.getLast?.map Token.kind == some .dot) then
    ofPath? before tokens gapStart
  else
    let typedText := if typed = ['('] then [] else typed
    let (scope, path) ← scopeAfter? tokens blanks typedText
    return ⟨typedText, scope, path⟩

/-- The completion at a byte offset of a text. -/
def atOffset? (source : List Char) (cursor : Nat) : Option Completion := do
  let stop ← boundaryUpTo? source (min cursor (byteLength source))
  let before ← slice? 0 stop source
  ofText? before

/-! ### It is the completion -/

theorem ofPath?_eq {text : List Char} {gapStart : Nat} (hgap : isBoundary gapStart text = true)
    (htokens : ∀ token ∈ tokens, isBoundary token.span.start text = true) :
    ofPath? text tokens gapStart = some (ofPath text tokens.reverse gapStart) := by
  rcases pathStart?_eq (Nat.le_refl tokens.length) with ⟨start, -, hstart, hrun⟩
  rw [List.take_length] at hrun
  have hfirst : tokens[start]? = (pathRun tokens.reverse).head? := by
    rw [← hrun, List.head?_drop]
  have hboundary : isBoundary ((tokens[start]?.map fun token => token.span.start).getD gapStart)
      text = true := by
    cases htoken : tokens[start]? with
    | none => exact hgap
    | some token => exact htokens token (List.mem_of_getElem? htoken)
  have htyped : slice? ((tokens[start]?.map fun token => token.span.start).getD gapStart)
      (byteLength text) text = some (dropBytes
        (((pathRun tokens.reverse).head?.map fun token => token.span.start).getD gapStart)
        text) := by
    rw [Text.slice?_from hboundary, hfirst]
  simp only [ofPath?, hstart, Option.bind_eq_bind, Option.bind_some, htyped, ofPath]
  cases pathRun tokens.reverse with
  | nil =>
      simp only [List.head?_nil, Option.map_none, Option.getD_none]
      cases cutLastDot _ <;> rfl
  | cons first run =>
      simp only [List.head?_cons, Option.map_some, Option.getD_some]
      cases cutLastDot _ <;> rfl

theorem previousKind?_eq (tokens : List Token) :
    previousKind? tokens = some (tokens.reverse[1]?.map Token.kind) := by
  cases hreverse : tokens.reverse with
  | nil => simp [List.reverse_eq_nil_iff.1 hreverse, previousKind?]
  | cons last rest =>
      have htokens : tokens = rest.reverse ++ [last] := by
        rw [← List.reverse_reverse tokens, hreverse, List.reverse_cons]
      cases rest with
      | nil => simp [htokens, previousKind?]
      | cons previous rest => simp [htokens, previousKind?]

theorem scopeAfter?_eq (tokens : List Token) (gap : Bool) (typed : List Char) :
    scopeAfter? tokens gap typed = some (scopeAfter tokens.reverse gap typed) := by
  simp only [scopeAfter?, previousKind?_eq, Option.bind_eq_bind, Option.bind_some, scopeAfter,
    List.head?_reverse]
  split_ifs with hclosed
  · rfl
  cases hlast : tokens.getLast? with
  | none => rfl
  | some last =>
      rcases List.getLast?_eq_some_iff.1 hlast with ⟨rest, rfl⟩
      have hbefore : nameEnding? (rest ++ [last]) rest.length = some (pathEnding rest.reverse) := by
        rw [nameEnding?_eq (by simp), List.take_left]
      have hwhole : nameEnding? (rest ++ [last]) (rest ++ [last]).length =
          some (pathEnding (rest ++ [last]).reverse) := by
        rw [nameEnding?_eq (Nat.le_refl _), List.take_length]
      simp only [Option.map_some, hwhole, Option.bind_some]
      split_ifs
      · rfl
      · simp [hbefore]
      · rfl
      · rfl
      · rfl

theorem finishedTokens_reverse (before : List Char) :
    (finishedTokens before).reverse = finished before := by
  rw [finished, finishedTokens]
  cases hreverse : (TokenStream.ofText before).tokens.reverse with
  | nil => simp [List.reverse_eq_nil_iff.1 hreverse]
  | cons last rest =>
      have htokens : (TokenStream.ofText before).tokens = rest.reverse ++ [last] := by
        rw [← List.reverse_reverse (TokenStream.ofText before).tokens, hreverse, List.reverse_cons]
      by_cases hreaches : byteLength before ≤ last.span.stop
      · simp [htokens, hreaches]
      · simp [htokens, hreaches]

theorem mem_of_mem_finishedTokens {before : List Char} {token : Token}
    (h : token ∈ finishedTokens before) : token ∈ (TokenStream.ofText before).tokens := by
  rw [finishedTokens] at h
  split at h
  · exact List.dropLast_subset _ h
  · exact h

/-- Tokens start and stop between two characters of their text. -/
theorem isBoundary_of_mem_finishedTokens {before : List Char} {token : Token}
    (h : token ∈ finishedTokens before) :
    isBoundary token.span.start before = true ∧ isBoundary token.span.stop before = true := by
  have hitem := TokenStream.mem_items_of_mem_tokens (mem_of_mem_finishedTokens h)
  rcases TokenStream.covered_of_mem_items hitem with ⟨-, text, hslice, -⟩
  exact Text.isBoundary_of_slice? hslice

theorem ofText?_eq (before : List Char) : ofText? before = some (ofText before) := by
  have hhead : (finished before).head? = (finishedTokens before).getLast? := by
    rw [← finishedTokens_reverse, List.head?_reverse]
  have hgap : isBoundary
      (((finishedTokens before).getLast?.map fun token => token.span.stop).getD 0) before = true := by
    cases hlast : (finishedTokens before).getLast? with
    | none => simp [isBoundary]
    | some last =>
        exact (isBoundary_of_mem_finishedTokens (List.mem_of_getLast? hlast)).2
  have hpath := ofPath?_eq hgap fun token htoken => (isBoundary_of_mem_finishedTokens htoken).1
  simp only [ofText?, Text.slice?_from hgap, Option.bind_eq_bind, Option.bind_some, hpath,
    scopeAfter?_eq, finishedTokens_reverse]
  rw [ofText_eq_ite, hhead]
  simp only [blanksBehind, typedOutside, unfinished, hhead]
  split_ifs <;> rfl

/-- Completing by indices always gives the completion: no index and no slice is out of range, and
there is a place between two characters that is not behind the cursor. -/
theorem atOffset?_eq (source : List Char) (cursor : Nat) :
    atOffset? source cursor = some (atOffset source cursor) := by
  have hclamp := Text.takeBytes_min cursor source
  have hslice : slice? 0 (byteLength (takeBytes cursor source)) source =
      some (takeBytes cursor source) := by
    have hzero := Text.slice?_zero (takeBytes cursor source) (dropBytes cursor source)
    rwa [Text.takeBytes_append_dropBytes] at hzero
  simp only [atOffset?, boundaryUpTo?_eq, hclamp, Option.bind_eq_bind, Option.bind_some, hslice,
    ofText?_eq]
  rfl

end Completion
end FieldFilter
