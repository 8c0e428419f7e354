import FieldFilter.Proofs.Printing.Pieces
import FieldFilter.Proofs.Reading.Beginnings

/-!
# What a completion promises

* `Completion.Announced` — the finished tokens behind which a scope is reported;
* `Completion.finished`, `Completion.unfinished` — the tokens before what is being typed, and the
  text behind them;
* `Completion.cutLastDot_eq_some_iff` — the text around the last dot;
* `Completion.readsAs_finished` — without what is being typed the text reads as the finished tokens;
* `Completion.Continues` — what a scope promises;
* `Completion.continues_atOffset` — what a scope promises can come next, but for connectives inside
  a list.
-/

namespace FieldFilter

open Query (Begins)

namespace Completion

variable {tokens : List Token} {gap : Bool} {typed : List Char} {scope : Scope}
  {path : Option FieldPath} {before : List Char}

/-! ## Where scopes are reported -/

/-- The finished tokens, last first, behind which a scope is reported with a path; `gap` says that
blanks follow them. -/
inductive Announced (gap : Bool) : List Token → Scope → Option FieldPath → Prop where
  | start : Announced gap [] .field none
  | connective {last : Token} {rest : List Token} (hgap : gap = true)
      (hlast : last.kind.isConnective = true) : Announced gap (last :: rest) .field none
  | group {last : Token} {rest : List Token} (hlast : last.kind = .openParen)
      (hopens : opensGroup (rest.head?.map Token.kind) = true) :
      Announced gap (last :: rest) .field none
  | value {last name : Token} {rest : List Token} (hgap : gap = true)
      (hlast : last.kind.isComparator = true ∨ last.kind = .inWord) (hname : name.kind = .name) :
      Announced gap (last :: name :: rest) .value (pathEnding (name :: rest))
  | comparison {last : Token} {rest : List Token} (hgap : gap = true)
      (hlast : last.kind = .name) :
      Announced gap (last :: rest) .comparison (pathEnding (last :: rest))
  | logical {last : Token} {rest : List Token} (hgap : gap = true)
      (hlast : last.kind.isLiteral = true ∨ last.kind = .closeParen) :
      Announced gap (last :: rest) .logical none

theorem announced_of_scopeAfter (h : scopeAfter tokens gap typed = (some scope, path)) :
    Announced gap tokens scope path := by
  unfold scopeAfter at h
  cases tokens with
  | nil =>
      split_ifs at h <;> cases h
      exact .start
  | cons last rest =>
      have hprevious : (last :: rest)[1]? = rest.head? := by cases rest <;> rfl
      simp only [hprevious, List.head?_cons, Option.map_some, List.tail_cons] at h
      split_ifs at h with hclosed hfield hvalue hname hlogical <;> cases h
      · simp only [Bool.or_eq_true, Bool.and_eq_true, beq_iff_eq] at hfield
        rcases hfield with ⟨hlast, hgap⟩ | ⟨hlast, hopens⟩
        · exact .connective hgap hlast
        · exact .group hlast hopens
      · simp only [Bool.or_eq_true, Bool.and_eq_true, beq_iff_eq] at hvalue
        rcases hvalue with ⟨⟨hgap, hlast⟩, hprevious⟩
        cases rest with
        | nil => cases hprevious
        | cons name rest => exact .value hgap hlast (Option.some.inj hprevious)
      · simp only [Bool.and_eq_true, beq_iff_eq] at hname
        exact .comparison hname.1 hname.2
      · simp only [Bool.or_eq_true, Bool.and_eq_true, beq_iff_eq] at hlogical
        exact .logical hlogical.1 hlogical.2

/-! ## What is finished -/

/-- The tokens before what is being typed, last first. -/
def finished (before : List Char) : List Token :=
  match (TokenStream.ofText before).tokens.reverse with
  | last :: rest =>
    if Text.byteLength before ≤ last.span.stop then rest
    else (TokenStream.ofText before).tokens.reverse
  | [] => []

/-- The text behind the finished tokens. -/
def unfinished (before : List Char) : List Char :=
  Text.dropBytes (((finished before).head?.map fun token => token.span.stop).getD 0) before

theorem finished_isPrefix (before : List Char) :
    (finished before).reverse <+: (TokenStream.ofText before).tokens := by
  rw [← List.reverse_suffix, List.reverse_reverse, finished]
  cases (TokenStream.ofText before).tokens.reverse with
  | nil => exact List.suffix_refl _
  | cons last rest =>
      dsimp only
      split
      · exact List.suffix_cons last rest
      · exact List.suffix_refl _

/-- Whether blanks stand between the finished tokens and what is being typed. -/
def blanksBehind (before : List Char) : Bool :=
  (Text.trimStart (unfinished before)).length != (unfinished before).length

/-- What is being typed outside of paths: an opening parenthesis is complete. -/
def typedOutside (before : List Char) : List Char :=
  if Text.trimStart (unfinished before) = ['('] then [] else Text.trimStart (unfinished before)

theorem ofText_eq_ite (before : List Char) :
    ofText before =
      if !blanksBehind before && ((Text.trimStart (unfinished before)).head? == some '.' ||
          (finished before).head?.map Token.kind == some .dot) then
        ofPath before (finished before)
          (((finished before).head?.map fun token => token.span.stop).getD 0)
      else
        let after := scopeAfter (finished before) (blanksBehind before) (typedOutside before)
        ⟨typedOutside before, after.1, after.2⟩ :=
  rfl

/-- A completion is inside a path, or tells what may follow the finished tokens. -/
theorem ofText_eq (before : List Char) :
    (∃ gapStart, ofText before = ofPath before (finished before) gapStart) ∨
      ofText before =
        let after := scopeAfter (finished before) (blanksBehind before) (typedOutside before)
        ⟨typedOutside before, after.1, after.2⟩ := by
  have hunfold := ofText_eq_ite before
  split at hunfold
  · exact .inl ⟨_, hunfold⟩
  · exact .inr hunfold

theorem typedOutside_suffix (before : List Char) : typedOutside before <:+ before := by
  rw [typedOutside]
  split
  · exact List.nil_suffix
  · exact (List.dropWhile_suffix _).trans (Text.dropBytes_suffix _ before)

/-! ## Around the last dot -/

section
variable {cs finished segment : List Char}

theorem cutLastDot_append (hdot : '.' ∉ segment) :
    cutLastDot (finished ++ '.' :: segment) = some (finished, segment) := by
  have hwhile : ((finished ++ '.' :: segment).reverse.takeWhile (· != '.')).reverse = segment := by
    have hreverse : (finished ++ '.' :: segment).reverse =
        segment.reverse ++ '.' :: finished.reverse := by simp
    rw [hreverse, takeWhile_append_of_head (by simpa using fun c hc => ne_of_mem_of_not_mem hc hdot)
      (by simp), List.reverse_reverse]
  have hlength : (finished ++ '.' :: segment).length - segment.length - 1 = finished.length := by
    simp only [List.length_append, List.length_cons]
    omega
  rw [cutLastDot, hwhile, hlength, List.take_left, if_pos (by simp; omega)]

theorem cutLastDot_eq_none (hdot : '.' ∉ cs) : cutLastDot cs = none := by
  have hwhile : cs.reverse.takeWhile (· != '.') = cs.reverse := by
    refine List.takeWhile_eq_self_iff.2 fun c hc => ?_
    simpa using ne_of_mem_of_not_mem (List.mem_reverse.1 hc) hdot
  rw [cutLastDot, hwhile, if_neg (by simp)]

theorem exists_lastDot (h : '.' ∈ cs) :
    ∃ finished segment, cs = finished ++ '.' :: segment ∧ '.' ∉ segment := by
  rcases List.eq_append_cons_of_mem (List.mem_reverse.2 h) with ⟨after, behind, hsplit, hnot⟩
  refine ⟨behind.reverse, after.reverse, ?_, by simpa using hnot⟩
  rw [← List.reverse_reverse cs, hsplit]
  simp

theorem dot_not_mem_of_cutLastDot (h : cutLastDot cs = none) : '.' ∉ cs := by
  intro hmem
  rcases exists_lastDot hmem with ⟨finished, segment, rfl, hnot⟩
  rw [cutLastDot_append hnot] at h
  cases h

/-- The text before and after the last dot. -/
theorem cutLastDot_eq_some_iff :
    cutLastDot cs = some (finished, segment) ↔
      cs = finished ++ '.' :: segment ∧ '.' ∉ segment := by
  constructor
  · intro h
    by_cases hmem : '.' ∈ cs
    · rcases exists_lastDot hmem with ⟨front, last, hcs, hnot⟩
      rw [hcs, cutLastDot_append hnot] at h
      cases h
      exact ⟨hcs, hnot⟩
    · rw [cutLastDot_eq_none hmem] at h
      cases h
  · rintro ⟨rfl, hdot⟩
    exact cutLastDot_append hdot

theorem suffix_of_cutLastDot (h : cutLastDot cs = some (finished, segment)) : segment <:+ cs := by
  rw [(cutLastDot_eq_some_iff.1 h).1]
  exact (List.suffix_cons _ _).trans (List.suffix_append _ _)

end

/-! ## Inside a path -/

/-- Inside a path the scope comes with the path. -/
theorem ofPath_cases (before : List Char) (tokens : List Token) (gapStart : Nat) :
    (ofPath before tokens gapStart).typed <:+ before ∧
      (ofPath before tokens gapStart).scope =
        (ofPath before tokens gapStart).path.map fun _ => .field := by
  unfold ofPath
  dsimp only
  split
  · rename_i hcut
    exact ⟨(suffix_of_cutLastDot hcut).trans (Text.dropBytes_suffix _ before), rfl⟩
  · exact ⟨Text.dropBytes_suffix _ before, rfl⟩

/-! ## Where the finished tokens end -/

/-- The finished tokens end in front of the blanks before what is being typed, and the text up to
there reads as them. -/
theorem exists_front (before : List Char) :
    ∃ front, TokenStream.Front {} before (finished before).reverse front (unfinished before) := by
  rcases TokenStream.exists_front {} before (finished_isPrefix before) with
    ⟨front, back, hfront⟩
  have hstop := hfront.stop_eq
  rw [List.reverse_reverse, Place.offset_start] at hstop
  have hback : unfinished before = back := by
    have hzero : (({} : Place).offset) = 0 := rfl
    rw [unfinished, ← hzero, hstop, hfront.split, Text.dropBytes_byteLength_append]
  exact ⟨front, hback ▸ hfront⟩

theorem takeWhile_append_trimStart (cs : List Char) :
    cs.takeWhile Text.isBlank ++ Text.trimStart cs = cs :=
  List.takeWhile_append_dropWhile

theorem isBlank_of_mem_takeWhile (cs : List Char) :
    ∀ d ∈ cs.takeWhile Text.isBlank, Text.isBlank d = true :=
  fun _ hd => List.mem_takeWhile_imp hd

theorem startsApart_takeWhile (cs : List Char) : StartsApart (cs.takeWhile Text.isBlank) :=
  .of_isBlank fun d hd => isBlank_of_mem_takeWhile cs d (List.mem_of_mem_head? hd)

/-- Behind blanks a text without faults reads as its pieces. -/
theorem pieces_behind_blanks {place : Place} {blanks text : List Char} {pieces : List Piece}
    (hblanks : ∀ d ∈ blanks, Text.isBlank d = true) (hlexes : Lexes text pieces [])
    (herror : (TokenStream.read place (blanks ++ text)).error = none) :
    (TokenStream.read place (blanks ++ text)).tokens.map Token.piece = pieces := by
  rcases TokenStream.read_blanks hblanks with hskipped | ⟨-, hfault⟩
  · rcases hlexes (place.afterText blanks) with ⟨tokens, hpieces, hread⟩
    rw [List.append_nil] at hread
    rw [hskipped, hread]
    simpa [TokenStream.prepend] using hpieces
  · exact absurd herror hfault

/-- A text has the given tokens, perhaps with an opening parenthesis behind them. -/
def ReadsAs (q : List Char) (tokens : List Token) : Prop :=
  (TokenStream.ofText q).tokens = tokens ∨
    ∃ openParen : Token, openParen.kind = .openParen ∧
      (TokenStream.ofText q).tokens = tokens ++ [openParen]

/-- Without what is being typed, a text that begins a query reads as the finished tokens. -/
theorem readsAs_finished {q : List Char} (hq : q ++ typedOutside before = before)
    (hbegins : Begins q) : ReadsAs q (finished before).reverse := by
  rcases Query.begins_iff.1 hbegins with ⟨r, herror, -⟩
  rcases exists_front before with ⟨front, hfront⟩
  have hblanks := isBlank_of_mem_takeWhile (unfinished before)
  have hsplit := takeWhile_append_trimStart (unfinished before)
  by_cases hparen : Text.trimStart (unfinished before) = ['(']
  · -- the parenthesis is not being typed any more
    rw [typedOutside, if_pos hparen, List.append_nil] at hq
    subst hq
    have hread : TokenStream.ofText q = _ := hfront.read_eq
    rw [← hsplit, hparen] at hread
    rw [hread] at herror
    have hpieces := pieces_behind_blanks hblanks Lexes.openParen herror
    rcases List.map_eq_singleton_iff.1 hpieces with ⟨openParen, htokens, hpiece⟩
    refine .inr ⟨openParen, congrArg Prod.fst hpiece, ?_⟩
    rw [hread, TokenStream.prepend, htokens]
  · rw [typedOutside, if_neg hparen] at hq
    have hfrontBlanks : q = front ++ (unfinished before).takeWhile Text.isBlank := by
      have hwhole : q ++ Text.trimStart (unfinished before) =
          front ++ (unfinished before).takeWhile Text.isBlank ++
            Text.trimStart (unfinished before) := by
        rw [hq, List.append_assoc, hsplit, ← hfront.split]
      exact List.append_cancel_right hwhole
    have hread : TokenStream.ofText q = _ :=
      hfrontBlanks ▸ hfront.read_cut _ (startsApart_takeWhile (unfinished before))
    rw [← List.append_nil ((unfinished before).takeWhile Text.isBlank)] at hread
    rw [hread] at herror
    have hpieces := pieces_behind_blanks hblanks Lexes.nil herror
    refine .inl ?_
    rw [hread, TokenStream.prepend, List.map_eq_nil_iff.1 hpieces, List.append_nil]

/-! ## What a scope promises -/

/-- What a scope promises can come next behind a space: any name for a field without a path, any
comparator, some literal or the parenthesis of a list, and any connective unless the text ends
inside a list. -/
def Continues (q : List Char) : Option Scope → Option FieldPath → Prop
  | some .field, none => ∀ segment : Segment, Begins (q ++ ' ' :: segment.word.toList)
  | some .comparison, _ => ∀ op : Comparator, Begins (q ++ ' ' :: op.symbol.toList)
  | some .value, _ =>
    Begins (q ++ ' ' :: ['(']) ∨ ∃ value : Literal, Begins (q ++ ' ' :: value.text)
  | some .logical, _ =>
    ∀ op : Connective, Begins (q ++ ' ' :: op.symbol.toList) ↔ ¬ Query.InsideList q
  | _, _ => True

variable {q : List Char}

open Reading Query

/-- The state behind a token, and the state in front of it. -/
theorem exists_last {tokens : List Token} {last : Token} (hbegins : Begins q)
    (htokens : (TokenStream.ofText q).tokens = tokens ++ [last]) :
    ∃ limit r₀ r, run limit 0 {} tokens = .ok r₀ ∧ Moves (limit - 0) r₀ last r ∧
      Leads last.kind r.awaiting ∧ ReadsTo q r ∧
      ∀ token ∈ tokens ++ [last], token.agrees = true := by
  rcases begins_iff.1 hbegins with ⟨r, herror, limit, hrun⟩
  have hagrees := TokenStream.agrees_of_mem_ofText q
  rw [htokens] at hrun hagrees
  rcases exists_of_run_append_singleton hrun (hagrees last (by simp)) with
    ⟨r₀, hrun₀, hmoves, hleads⟩
  exact ⟨limit, r₀, r, hrun₀, hmoves, hleads, ⟨herror, limit, htokens ▸ hrun⟩, hagrees⟩

/-- A parenthesis that does not follow the word `in` is that of a group. -/
theorem begins_name_of_openParen {tokens : List Token} {openParen : Token} (hbegins : Begins q)
    (htokens : (TokenStream.ofText q).tokens = tokens ++ [openParen])
    (hkind : openParen.kind = .openParen) (hprevious : ∀ t ∈ tokens.getLast?, t.kind ≠ .inWord)
    (segment : Segment) : Begins (q ++ ' ' :: segment.word.toList) := by
  rcases exists_last hbegins htokens with ⟨limit, r₀, r, hrun, hmoves, -, hreads, hagrees⟩
  rcases hmoves.cases_of_openParen hkind (hagrees openParen (by simp)) with
    ⟨-, hawaiting⟩ | ⟨path, op, hlist, -⟩
  · exact hreads.begins_name hawaiting segment
  · -- only the word `in` leads to a list
    rcases List.eq_nil_or_concat tokens with rfl | ⟨tokens, last, rfl⟩
    · cases hrun
      cases hlist
    · simp only [List.concat_eq_append] at hrun hagrees hprevious
      rcases exists_of_run_append_singleton hrun (hagrees last (by simp)) with ⟨_, -, -, hleads⟩
      rw [hlist] at hleads
      exact absurd hleads (hprevious last (by simp))

/-- A parenthesis behind a token opens a group behind a connective or another parenthesis, and a
list behind the word `in`. -/
theorem cases_of_openParen {tokens : List Token} {last openParen : Token} (hbegins : Begins q)
    (htokens : (TokenStream.ofText q).tokens = tokens ++ [last] ++ [openParen])
    (hkind : openParen.kind = .openParen) :
    (last.kind.isConnective = true ∨ last.kind = .openParen) ∨
      last.kind = .inWord ∧ ∃ r path op, ReadsTo q r ∧ r.awaiting = .firstItem path op := by
  rcases exists_last hbegins htokens with ⟨limit, r₀, r, hrun, hmoves, -, hreads, hagrees⟩
  rcases exists_of_run_append_singleton hrun (hagrees last (by simp)) with ⟨_, -, -, hleads⟩
  rcases hmoves.cases_of_openParen hkind (hagrees openParen (by simp)) with
    ⟨hoperand, -⟩ | ⟨path, op, hlist, hfirst⟩
  · rw [hoperand] at hleads
    exact .inl hleads
  · rw [hlist] at hleads
    exact .inr ⟨hleads, r, path, op, hreads, hfirst⟩

theorem continues_field {last : Token} {tokens : List Token} (hbegins : Begins q)
    (htokens : ReadsAs q (tokens ++ [last]))
    (hlast : last.kind.isConnective = true ∨
      last.kind = .openParen ∧ ∀ t ∈ tokens.getLast?, t.kind ≠ .inWord)
    (segment : Segment) : Begins (q ++ ' ' :: segment.word.toList) := by
  rcases htokens with htokens | ⟨openParen, hkind, htokens⟩
  · rcases hlast with hconnective | ⟨hkind, hprevious⟩
    · rcases exists_last hbegins htokens with ⟨_, _, r, -, -, hleads, hreads, -⟩
      exact hreads.begins_name (hleads.operand_of_connective hconnective) segment
    · exact begins_name_of_openParen hbegins htokens hkind hprevious segment
  · refine begins_name_of_openParen hbegins htokens hkind ?_ segment
    intro t ht hin
    obtain rfl : last = t := by simpa using ht
    rcases hlast with hconnective | ⟨hopen, -⟩
    · rw [hin] at hconnective
      cases hconnective
    · rw [hin] at hopen
      cases hopen

theorem continues_value {last : Token} {tokens : List Token} (hbegins : Begins q)
    (htokens : ReadsAs q (tokens ++ [last]))
    (hlast : last.kind.isComparator = true ∨ last.kind = .inWord) :
    Begins (q ++ ' ' :: ['(']) ∨ ∃ value : Literal, Begins (q ++ ' ' :: value.text) := by
  rcases htokens with htokens | ⟨openParen, hkind, htokens⟩
  · rcases exists_last hbegins htokens with
      ⟨_, _, ⟨outer, inner, awaiting⟩, -, -, hleads, hreads, -⟩
    rcases hlast with hcomparator | hin
    · obtain ⟨path, op, rfl, hop⟩ := hleads.value_of_comparator hcomparator
      exact .inr ⟨_, hreads.begins_value hop⟩
    · rw [hin] at hleads
      obtain ⟨path, op, rfl⟩ := hleads.list_of_inWord
      exact .inl hreads.begins_list
  · rcases cases_of_openParen hbegins htokens hkind with
      hgroup | ⟨-, ⟨outer, inner, awaiting⟩, path, op, hreads, hfirst⟩
    · cases hlastKind : last.kind <;> simp_all [TokenKind.isComparator, TokenKind.comparator?,
        TokenKind.isConnective, TokenKind.connective?]
    · obtain rfl : awaiting = .firstItem path op := hfirst
      exact .inr ⟨_, hreads.begins_firstItem⟩

theorem continues_comparison {last : Token} {tokens : List Token} (hbegins : Begins q)
    (htokens : ReadsAs q (tokens ++ [last])) (hlast : last.kind = .name) (op : Comparator) :
    Begins (q ++ ' ' :: op.symbol.toList) := by
  rcases htokens with htokens | ⟨openParen, hkind, htokens⟩
  · rcases exists_last hbegins htokens with
      ⟨_, _, ⟨outer, inner, awaiting⟩, -, -, hleads, hreads, -⟩
    rw [hlast] at hleads
    obtain ⟨path, rfl⟩ := hleads.path_of_name
    exact hreads.begins_comparator op
  · -- no parenthesis follows a name
    have hcases := cases_of_openParen hbegins htokens hkind
    rw [hlast] at hcases
    rcases hcases with (hconnective | hopen) | ⟨hin, -⟩
    · cases hconnective
    · cases hopen
    · cases hin

theorem continues_logical {last : Token} {tokens : List Token} (hbegins : Begins q)
    (htokens : ReadsAs q (tokens ++ [last]))
    (hlast : last.kind.isLiteral = true ∨ last.kind = .closeParen) (op : Connective) :
    Begins (q ++ ' ' :: op.symbol.toList) ↔ ¬ InsideList q := by
  rcases htokens with htokens | ⟨openParen, hkind, htokens⟩
  · rcases exists_last hbegins htokens with ⟨_, _, r, -, -, hleads, hreads, -⟩
    exact hreads.begins_connective_iff (hleads.cases_of_literal hlast) op
  · -- no parenthesis follows a literal or a closed one
    have hcases := cases_of_openParen hbegins htokens hkind
    cases hlastKind : last.kind <;> simp_all [TokenKind.isLiteral, TokenKind.isConnective,
      TokenKind.connective?]

/-- What a scope promises behind the finished tokens can come next. -/
theorem continues_of_announced {tokens : List Token} (hbegins : Begins q)
    (htokens : ReadsAs q tokens.reverse) (h : Announced gap tokens scope path) :
    Continues q (some scope) path := by
  cases h with
  | start =>
      intro segment
      rcases htokens with htokens | ⟨openParen, hkind, htokens⟩
      · rcases begins_iff.1 hbegins with ⟨r, herror, limit, hrun⟩
        have hstart : r = {} := by
          rw [htokens] at hrun
          exact (Except.ok.inj hrun).symm
        exact ReadsTo.begins_name ⟨herror, limit, hrun⟩ (hstart ▸ rfl) segment
      · exact begins_name_of_openParen hbegins htokens hkind (by simp) segment
  | @connective last rest hgap hlast =>
      rw [List.reverse_cons] at htokens
      exact continues_field hbegins htokens (.inl hlast)
  | @group last rest hlast hopens =>
      rw [List.reverse_cons] at htokens
      refine continues_field hbegins htokens (.inr ⟨hlast, ?_⟩)
      intro t ht hin
      rw [List.getLast?_reverse] at ht
      rw [ht] at hopens
      simp [opensGroup, hin, TokenKind.isConnective, TokenKind.connective?] at hopens
  | @value last name rest hgap hlast hname =>
      rw [List.reverse_cons] at htokens
      exact continues_value hbegins htokens hlast
  | @comparison last rest hgap hlast =>
      rw [List.reverse_cons] at htokens
      exact continues_comparison hbegins htokens hlast
  | @logical last rest hgap hlast =>
      rw [List.reverse_cons] at htokens
      exact continues_logical hbegins htokens hlast

/-- Of a text before a cursor that begins a query when what is being typed is taken off, the scope
that is reported promises what can come next, but for connectives inside a list. -/
theorem continues_atOffset (source : List Char) (cursor : Nat) :
    ∃ q, q ++ (atOffset source cursor).typed = Text.takeBytes cursor source ∧
      (Begins q →
        Continues q (atOffset source cursor).scope (atOffset source cursor).path) := by
  rw [atOffset]
  generalize Text.takeBytes cursor source = before
  rcases ofText_eq before with ⟨gapStart, hpath⟩ | hafter
  · rcases ofPath_cases before (finished before) gapStart with ⟨⟨q, hq⟩, hscope⟩
    rw [hpath]
    refine ⟨q, hq, fun _ => ?_⟩
    -- a field is reported with the path that it is in
    rw [hscope]
    cases (ofPath before (finished before) gapStart).path <;> trivial
  · rcases typedOutside_suffix before with ⟨q, hq⟩
    rw [hafter]
    refine ⟨q, hq, fun hbegins => ?_⟩
    dsimp only
    rcases hscopeAfter :
        scopeAfter (finished before) (blanksBehind before) (typedOutside before) with
      ⟨_ | scope, path⟩
    · trivial
    · exact continues_of_announced hbegins (readsAs_finished hq hbegins)
        (announced_of_scopeAfter hscopeAfter)

/-- A list that is not closed. -/
def unfinishedList : List Char :=
  "a in (1 ".toList

/-- Behind a literal of a list a connective is reported, but none can come next. -/
theorem not_begins_connective_unfinishedList :
    atOffset unfinishedList 8 = ⟨[], some .logical, none⟩ ∧ Begins unfinishedList ∧
      ∀ op : Connective, ¬ Begins (unfinishedList ++ ' ' :: op.symbol.toList) := by
  -- the machine has read one literal of the list
  let r : Reading := ⟨[], {}, .separator (.single ⟨"a", by decide⟩) .memberOf (.single (.int 1))⟩
  have hreads : ReadsTo unfinishedList r :=
    ⟨by decide +kernel, 0, by decide +kernel⟩
  have hinside : InsideList unfinishedList := hreads.insideList_iff.2 rfl
  refine ⟨by decide +kernel, begins_iff.2 ⟨r, hreads⟩, ?_⟩
  intro op hbegins
  exact (hreads.begins_connective_iff (.inr ⟨_, _, _, rfl⟩) op).1 hbegins hinside

end Completion

end FieldFilter
