import FieldFilter.Proofs.Completion.Paths
import FieldFilter.Proofs.Lexing.Endings

/-!
# What stands right before a cursor

A completion depends on what the text before the cursor ends with: separators behind its last token,
or the last token itself, right behind the token before it or not.

* `Completion.ofText_of_separator` — separators stand before the cursor;
* `Completion.EndsIn`, `Completion.exists_endsIn` — a token ends at the cursor;
* `Completion.EndsIn.ofText_of_path`, `Completion.EndsIn.ofText_of_not_path` — what is completed
  then;
* `Completion.ofPath_eq` — the completion inside a path;
* `Span.gapless_map_iff` — tokens without a gap stand right behind each other;
* `TokenStream.dropBytes_of_isChain` — a text that ends with such tokens ends with what they carry.
-/

namespace FieldFilter

open Text (byteLength dropBytes)
open TokenStream (isSeparator)

namespace Completion

variable {before front gap text segment : List Char} {tokens rest : List Token}
  {first last : Token} {path : FieldPath}

/-! ## Separators before the cursor -/

theorem exists_separator_append (front : List Char) (hne : gap ≠ [])
    (hgap : ∀ d ∈ gap, isSeparator d = true) :
    ∃ d ∈ (front ++ gap).getLast?, isSeparator d = true :=
  ⟨gap.getLast hne, List.mem_getLast?_append_of_mem_getLast? (List.getLast_mem_getLast? hne),
    hgap _ (List.getLast_mem hne)⟩

theorem trimStart_eq_nil (hgap : ∀ d ∈ gap, isSeparator d = true) : Text.trimStart gap = [] :=
  List.dropWhile_eq_nil_iff.2 fun d hd => Text.isBlank_of_isSeparator (hgap d hd)

theorem trimStart_append {c : Char} (hgap : ∀ d ∈ gap, isSeparator d = true)
    (hc : Text.isBlank c = false) : Text.trimStart (gap ++ c :: text) = c :: text := by
  have hblanks : ∀ d ∈ gap, Text.isBlank d = true := fun d hd =>
    Text.isBlank_of_isSeparator (hgap d hd)
  rw [Text.trimStart, List.dropWhile_append_of_pos hblanks]
  simp [hc]

/-- Behind separators it does not matter what is being typed. -/
theorem scopeAfter_of_gap (tokens : List Token) (typed : List Char) :
    scopeAfter tokens true typed = scopeAfter tokens true [] := by
  simp [scopeAfter]

/-- Where the last of some tokens stops. -/
def lastStop (tokens : List Token) : Nat :=
  (tokens.getLast?.map fun token => token.span.stop).getD 0

theorem lastStop_of_getLast? (h : last ∈ tokens.getLast?) : lastStop tokens = last.span.stop := by
  rw [lastStop, Option.mem_def.1 h]
  rfl

/-- The last of some tokens that start a text stops where the text up to their end does. -/
theorem lastStop_of_front {back : List Char}
    (hfront : TokenStream.Front {} before tokens front back) : lastStop tokens = byteLength front := by
  have hstop := hfront.stop_eq
  rwa [Place.offset_start, List.head?_reverse] at hstop

/-- Where the finished tokens are known, so is the text behind them. -/
theorem unfinished_of_front {back : List Char}
    (hfinished : finished before = tokens.reverse)
    (hfront : TokenStream.Front {} before tokens front back) : unfinished before = back := by
  have hstop := lastStop_of_front hfront
  rw [lastStop] at hstop
  rw [unfinished, hfinished, List.head?_reverse, hstop, hfront.split,
    Text.dropBytes_byteLength_append]

/-- A text whose last token reaches its end does not end with a separator. -/
theorem isSeparator_eq_false_of_lastStop
    (hstop : lastStop (TokenStream.ofText before).tokens = byteLength before) :
    ∀ d ∈ before.getLast?, isSeparator d = false := by
  intro d hd
  rw [Bool.eq_false_iff]
  intro hsep
  cases hlast : (TokenStream.ofText before).tokens.getLast? with
  | none =>
      rw [lastStop, hlast] at hstop
      have hnil : before = [] := Text.eq_nil_of_byteLength_eq_zero hstop.symm
      rw [hnil] at hd
      cases hd
  | some last =>
      have hmem := List.mem_of_getLast? hlast
      have hlt := TokenStream.stop_lt_of_separator hmem ⟨d, hd, hsep⟩
      rw [lastStop_of_getLast? hlast] at hstop
      exact absurd hstop (Nat.ne_of_lt hlt)

/-- A text without faults whose last token does not reach its end ends with a separator. -/
theorem exists_separator_of_lastStop (herror : (TokenStream.ofText before).error = none)
    (hstop : lastStop (TokenStream.ofText before).tokens ≠ byteLength before) :
    ∃ d ∈ before.getLast?, isSeparator d = true := by
  rcases TokenStream.exists_front_of_error_eq_none herror with ⟨front, back, hfront, hback⟩
  have hlast := lastStop_of_front hfront
  have hne : back ≠ [] := by
    rintro rfl
    obtain rfl : front = before := by simpa using hfront.split.symm
    exact hstop hlast
  rw [hfront.split]
  exact exists_separator_append front hne hback

/-- Behind separators all tokens are finished, and nothing is being typed. -/
theorem ofText_of_separator (herror : (TokenStream.ofText before).error = none)
    (hends : ∃ d ∈ before.getLast?, isSeparator d = true) :
    ofText before =
      let after := scopeAfter (TokenStream.ofText before).tokens.reverse true []
      ⟨[], after.1, after.2⟩ := by
  have hfinished : finished before = (TokenStream.ofText before).tokens.reverse := by
    rw [finished]
    cases hreverse : (TokenStream.ofText before).tokens.reverse with
    | nil => rfl
    | cons last rest =>
        have hmem : last ∈ (TokenStream.ofText before).tokens := by
          rw [← List.mem_reverse, hreverse]
          simp
        exact if_neg (Nat.not_le.2 (TokenStream.stop_lt_of_separator hmem hends))
  rcases TokenStream.exists_front_of_error_eq_none herror with ⟨front, back, hfront, hback⟩
  have hunfinished : unfinished before = back := unfinished_of_front hfinished hfront
  -- otherwise the separator would belong to the last token
  have hne : back ≠ [] := by
    rintro rfl
    rcases hends with ⟨d, hd, hsep⟩
    obtain rfl : front = before := by simpa using hfront.split.symm
    have hnot := isSeparator_eq_false_of_lastStop (lastStop_of_front hfront) d hd
    rw [hsep] at hnot
    cases hnot
  have hblanks : blanksBehind before = true := by
    rw [blanksBehind, hunfinished, trimStart_eq_nil hback]
    have hpos := List.length_pos_of_ne_nil hne
    simpa using Nat.ne_of_lt hpos
  have htyped : typedOutside before = [] := by
    rw [typedOutside, hunfinished, trimStart_eq_nil hback]
    rfl
  rw [ofText_eq_ite, hblanks, htyped, hfinished]
  rfl

/-! ## A token that ends at the cursor -/

/-- The text before a cursor ends with a token: the text up to it reads as the tokens before it,
which are finished, and separators may stand between them and it. -/
structure EndsIn (before : List Char) (tokens : List Token) (last : Token)
    (front gap text : List Char) : Prop where
  split : before = front ++ gap ++ text
  isSeparator : ∀ d ∈ gap, isSeparator d = true
  read_eq : TokenStream.ofText (front ++ gap) = ⟨tokens, none⟩
  stop_eq : lastStop tokens = byteLength front
  start_eq : last.span.start = byteLength (front ++ gap)
  finished_eq : finished before = tokens.reverse
  unfinished_eq : unfinished before = gap ++ text
  trimStart_eq : Text.trimStart (gap ++ text) = text
  spelled : last.value.SpelledBy text

/-- A text without faults whose last token reaches its end. -/
theorem exists_endsIn (hread : TokenStream.ofText before = ⟨tokens ++ [last], none⟩)
    (hstop : last.span.stop = byteLength before) :
    ∃ front gap text, EndsIn before tokens last front gap text := by
  have hfinished : finished before = tokens.reverse := by
    simp [finished, hread, hstop]
  rcases exists_front before with ⟨front, hfront⟩
  rw [hfinished, List.reverse_reverse] at hfront
  -- behind the finished tokens the last one is all that is read
  have hbehind : TokenStream.read (Place.afterText {} front) (unfinished before) =
      ⟨[last], none⟩ := by
    have hwhole := hfront.read_eq.symm.trans hread
    generalize TokenStream.read (Place.afterText {} front) (unfinished before) = stream at hwhole
    rcases stream with ⟨more, error⟩
    simpa [TokenStream.prepend] using hwhole
  have hstep := TokenStream.readStep_read (Place.afterText {} front) (unfinished before)
  rw [hbehind] at hstep
  have hsplit := hfront.split
  generalize hunfinished : unfinished before = behind at hstep hsplit
  generalize hstream : (⟨[last], none⟩ : TokenStream) = stream at hstep
  cases hstep with
  | blank _ => cases hstream
  | fault _ _ _ _ => cases hstream
  | @token gap text behind c piece hgap hsep houtcome htext =>
      have hlast : last =
          TokenStream.tokenAt (Place.afterText {} (front ++ gap)) piece (c :: text) := by
        have htokens := congrArg TokenStream.tokens hstream
        simpa [TokenStream.cons] using (List.cons.inj htokens).1
      -- nothing is left behind a token that reaches the end
      obtain rfl : behind = [] := by
        refine Text.eq_nil_of_byteLength_eq_zero ?_
        rw [hlast, hsplit] at hstop
        simp only [TokenStream.tokenAt, Place.offset_behind, Text.byteLength_append,
          Text.byteLength_cons] at hstop
        omega
      rw [List.append_nil] at *
      -- no token starts with a blank, so trimming stops in front of it
      have hblank : Text.isBlank c = false := by
        rw [Bool.eq_false_iff]
        intro hblank
        rcases Lexeme.exists_fault_of_isBlank hblank text with ⟨fault, hfault⟩
        rw [hfault] at houtcome
        cases houtcome
      have hapart : StartsApart gap :=
        .of_isBlank fun d hd => Text.isBlank_of_isSeparator (hgap d (List.mem_of_mem_head? hd))
      refine ⟨front, gap, c :: text, by simpa using hsplit, hgap, ?_, ?_, ?_, hfinished,
        hunfinished, trimStart_append hgap hblank, ?_⟩
      · have hcut := hfront.read_cut gap hapart
        have hnothing : TokenStream.read (Place.afterText {} front) gap = ⟨[], none⟩ := by
          rw [← List.append_nil gap, TokenStream.read_separators hgap, TokenStream.read_nil]
        rw [TokenStream.ofText, hcut, hnothing]
        simp [TokenStream.prepend]
      · exact lastStop_of_front hfront
      · rw [hlast]
        exact Place.offset_start (front ++ gap)
      · rw [hlast, ← htext]
        exact Lexeme.spelledBy_start houtcome

namespace EndsIn

variable (h : EndsIn before tokens last front gap text)
include h

theorem blanksBehind_eq : blanksBehind before = !gap.isEmpty := by
  rw [blanksBehind, h.unfinished_eq, h.trimStart_eq]
  cases gap with
  | nil => simp
  | cons d gap =>
      have hlonger : text.length ≠ (d :: gap ++ text).length := by
        simp only [List.length_append, List.length_cons]
        omega
      simpa using hlonger

theorem typedOutside_eq : typedOutside before = if text = ['('] then [] else text := by
  rw [typedOutside, h.unfinished_eq, h.trimStart_eq]

/-- A token right behind a dot, or a dot right behind a token, is part of a path. -/
theorem ofText_of_path (hgap : gap = [])
    (hdot : text.head? = some '.' ∨ tokens.getLast?.map Token.kind = some .dot) :
    ofText before = ofPath before tokens.reverse (byteLength front) := by
  have hstop := h.stop_eq
  rw [lastStop] at hstop
  rw [← List.head?_reverse] at hstop hdot
  rw [ofText_eq_ite, h.blanksBehind_eq, h.unfinished_eq, h.trimStart_eq, h.finished_eq, hstop,
    if_pos (by simpa [hgap] using hdot)]

/-- Any other token at the cursor is what is being typed behind the tokens before it. -/
theorem ofText_of_not_path
    (hdot : gap = [] →
      text.head? ≠ some '.' ∧ ∀ token ∈ tokens.getLast?, token.kind ≠ .dot) :
    ofText before =
      let typed := if text = ['('] then [] else text
      let after := scopeAfter tokens.reverse (!gap.isEmpty) typed
      ⟨typed, after.1, after.2⟩ := by
  rw [ofText_eq_ite, h.blanksBehind_eq, h.unfinished_eq, h.trimStart_eq, h.finished_eq,
    h.typedOutside_eq, if_neg]
  simp only [List.head?_reverse, Bool.not_not, Bool.and_eq_true, List.isEmpty_iff, Bool.or_eq_true,
    beq_iff_eq, not_and, not_or, Option.map_eq_some_iff, not_exists]
  intro hgap
  exact ⟨(hdot hgap).1, fun token => (hdot hgap).2 token⟩

/-- The token stands right behind the one before it if there are no separators between them. -/
theorem adjoins_iff {token : Token} (htoken : token ∈ tokens.getLast?) :
    token.Adjoins last ↔ gap = [] := by
  have hfront : token.span.stop = byteLength front :=
    (lastStop_of_getLast? htoken).symm.trans h.stop_eq
  rw [Token.Adjoins, hfront, h.start_eq, Text.byteLength_append]
  constructor
  · intro hsame
    exact Text.eq_nil_of_byteLength_eq_zero (by omega)
  · rintro rfl
    rfl

/-- There are separators in front of the token exactly if the text up to it ends with one. -/
theorem gap_eq_nil_iff :
    gap = [] ↔ ∀ d ∈ (front ++ gap).getLast?, TokenStream.isSeparator d = false := by
  constructor
  · rintro rfl
    have hread := h.read_eq
    have hstop := h.stop_eq
    rw [List.append_nil] at hread ⊢
    exact isSeparator_eq_false_of_lastStop (by rwa [hread])
  · intro hends
    by_contra hne
    rcases exists_separator_append front hne h.isSeparator with ⟨d, hd, hsep⟩
    rw [hends d hd] at hsep
    cases hsep

/-- A token that carries a text is spelled so. -/
theorem text_eq {spelling : String} (hvalue : last.value = .text spelling) :
    text = spelling.toList := by
  rw [h.spelled.text_eq spelling hvalue, String.toList_ofList]

end EndsIn

/-! ## Inside a path -/

/-- Behind the segments of a path and a dot, the path is reported with what stands behind the
dot. -/
theorem ofPath_eq {gapStart : Nat} (hrun : pathRun tokens = first :: rest)
    (htext : dropBytes first.span.start before = path.text ++ '.' :: segment)
    (hdot : '.' ∉ segment) :
    ofPath before tokens gapStart = ⟨segment, some .field, some path⟩ := by
  have hpath : FieldPath.ofDotted? path.text = some path := FieldPath.ofDotted?_eq_some_iff.2 rfl
  rw [ofPath, hrun]
  simp only [htext, cutLastDot_append hdot, hpath, Option.map_some]

/-- Where there is no path and no dot, nothing is reported. -/
theorem ofPath_eq_none {gapStart : Nat} (hrun : pathRun tokens = [])
    (hdot : '.' ∉ dropBytes gapStart before) :
    ofPath before tokens gapStart = ⟨dropBytes gapStart before, none, none⟩ := by
  rw [ofPath, hrun]
  simp only [cutLastDot_eq_none hdot]

end Completion

/-! ## Tokens without a gap -/

/-- Tokens without a gap stand right behind each other. -/
theorem Span.gapless_map_iff {start stop : Nat} {tokens : List Token} :
    Gapless start (tokens.map Token.span) stop ↔
      tokens.IsChain Token.Adjoins ∧ (∀ first ∈ tokens.head?, first.span.start = start) ∧
        (tokens.getLast?.map fun token => token.span.stop).getD start = stop := by
  induction tokens generalizing start with
  | nil => simp [Gapless]
  | cons token tokens ih =>
      rw [List.map_cons, Gapless, ih]
      cases tokens with
      | nil => simp
      | cons next tokens =>
          simp only [List.head?_cons, Option.mem_def, Option.some.injEq, forall_eq',
            List.isChain_cons_cons, List.getLast?_cons, Option.map_some, Option.getD_some,
            Token.Adjoins]
          grind

/-- From the first of the tokens that end a text without a gap on, the text is what they carry. -/
theorem TokenStream.dropBytes_of_isChain {source : List Char} {rest more : List Token}
    {first : Token} (hread : TokenStream.ofText source = ⟨rest ++ first :: more, none⟩)
    (hchain : (first :: more).IsChain Token.Adjoins)
    (hstop : ∀ last ∈ (first :: more).getLast?, last.span.stop = byteLength source)
    (htexts : ∀ token ∈ first :: more, ∃ text, token.value = .text text) :
    dropBytes first.span.start source =
      (first :: more).flatMap fun token => token.valueText.toList := by
  have htiles : Tiles [] source (rest.map .ok ++ (first :: more).map .ok) := by
    rw [← List.map_append]
    exact TokenStream.items_of_ofText hread ▸ tiles_read [] source
  rcases htiles.exists_behind (by simp) with ⟨front, behind, rfl, hbehind⟩
  have hgapless : Span.Gapless first.span.start ((first :: more).map Token.span)
      (byteLength (front ++ behind)) := by
    refine Span.gapless_map_iff.2 ⟨hchain, by simp, ?_⟩
    rw [List.getLast?_cons] at hstop ⊢
    exact hstop _ rfl
  rcases hbehind.exists_text_of_gapless (by simp) hgapless htexts with ⟨gap, htext, hstart⟩
  rw [hstart, List.nil_append, htext, ← List.append_assoc, Text.dropBytes_byteLength_append]

end FieldFilter
