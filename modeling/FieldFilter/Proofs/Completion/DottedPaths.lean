import FieldFilter.Proofs.Completion.Layouts

/-!
# Completing a dotted path

* `Completion.exists_dotted_tokens` — the tokens of a path that is being typed, up to the cursor;
* `Completion.pathRun_dotted` — going back from its last dot finds all of it;
* `Completion.atOffset_dotted` — behind a path and a dot a field is reported with the path, and a
  path is reported with a field only where it stands before the cursor.
-/

namespace FieldFilter

open Text (byteLength dropBytes)
open TokenStream (isSeparator)

namespace Completion

variable {u segment before : List Char} {path : FieldPath} {run tokens typed : List Token}
  {dot : Token}

/-- Behind a path and a dot stands nothing yet, or the start of its next segment, which may be a
reserved word. -/
def IsPartial (segment : List Char) : Prop :=
  segment = [] ∨ isIdentifier (String.ofList segment) = true

theorem IsPartial.isIdentifierPart (h : IsPartial segment) :
    ∀ c ∈ segment, isIdentifierPart c = true := by
  rcases h with rfl | hword
  · simp
  · simpa using isIdentifierPart_of_isIdentifier hword

theorem IsPartial.dot_not_mem (h : IsPartial segment) : '.' ∉ segment := by
  intro hdot
  cases h.isIdentifierPart '.' hdot

/-- What is typed behind the last dot is nothing or one token. -/
theorem IsPartial.exists_lexes (h : IsPartial segment) :
    ∃ pieces, Lexes segment pieces [] ∧
      (segment = [] ∧ pieces = [] ∨ ∃ piece, pieces = [piece]) := by
  rcases h with rfl | hword
  · exact ⟨[], Lexes.nil, .inl ⟨rfl, rfl⟩⟩
  · have hlexes := Lexes.word hword IsBoundary.nil.endsWord
    rw [String.toList_ofList] at hlexes
    exact ⟨_, hlexes, .inr ⟨_, rfl⟩⟩

/-- A path that is being typed behind a text has its tokens, a dot, and perhaps one token more, and
there are no gaps between these. -/
theorem exists_dotted_tokens (herror : (TokenStream.ofText u).error = none)
    (hends : ∀ c ∈ u.getLast?, isSeparator c = true) (path : FieldPath)
    (hsegment : IsPartial segment) :
    ∃ run dot typed, TokenStream.ofText (u ++ path.text ++ '.' :: segment) =
        ⟨(TokenStream.ofText u).tokens ++ run ++ dot :: typed, none⟩ ∧
      PathTokens run path ∧ dot.piece = (.dot, .text ".") ∧
      (segment = [] ∧ typed = [] ∨ ∃ word, typed = [word]) ∧
      Span.Gapless (byteLength u) ((run ++ dot :: typed).map Token.span)
        (byteLength (u ++ path.text ++ '.' :: segment)) := by
  rcases hsegment.exists_lexes with ⟨pieces, hlexes, hpieces⟩
  have hpath : Lexes path.text path.pieces (['.'] ++ segment ++ []) :=
    Lexes.path path fun c hc => by cases hc; rfl
  have hdotted : Lexes (path.text ++ (['.'] ++ segment))
      (path.pieces ++ ([(.dot, .text ".")] ++ pieces)) [] :=
    hpath.append (Lexes.dot.append hlexes)
  have hall : ∀ c ∈ path.text ++ (['.'] ++ segment), isSeparator c = false := by
    intro c hc
    rcases List.mem_append.1 hc with hc | hc
    · exact path.isSeparator_of_mem_text c hc
    · rcases List.mem_cons.1 hc with rfl | hc
      · rfl
      · exact TokenStream.isSeparator_eq_false (by rfl) (hsegment.isIdentifierPart c hc)
  rcases hdotted.exists_gapless hall u with ⟨tokens, hread, htokens, hgapless⟩
  rcases List.map_eq_append_iff.1 htokens with ⟨run, behind, rfl, hrun, hbehind⟩
  rcases List.map_eq_cons_iff.1 hbehind with ⟨dot, typed, rfl, hdot, htyped⟩
  have htext : u ++ path.text ++ '.' :: segment = u ++ (path.text ++ (['.'] ++ segment)) := by simp
  refine ⟨run, dot, typed, ?_, FieldPath.pathTokens_of_pieces hrun, hdot, ?_, htext ▸ hgapless⟩
  · have hends' : ∀ c ∈ u.getLast?, endsTokens c = true := fun c hc =>
      endsTokens_of_isSeparator (hends c hc)
    have hwhole := TokenStream.read_append_of_endsTokens herror hends'
      (path.text ++ (['.'] ++ segment))
    rw [htext, TokenStream.ofText, hwhole, hread]
    simp [TokenStream.prepend, TokenStream.ofText]
  · rcases hpieces with ⟨hnil, rfl⟩ | ⟨piece, rfl⟩
    · exact .inl ⟨hnil, by simpa using htyped⟩
    · rcases List.map_eq_singleton_iff.1 htyped with ⟨word, hword, -⟩
      exact .inr ⟨word, hword⟩

/-- Going back from a path behind separators, or from a dot right behind it, finds all of it. -/
theorem pathRun_dotted {stop : Nat} (hends : ∀ c ∈ u.getLast?, isSeparator c = true)
    (hrun : PathTokens run path) (hdot : dot.kind = .dot)
    (hgapless : Span.Gapless (byteLength u) ((run ++ dot :: typed).map Token.span) stop)
    (hagrees : ∀ token ∈ (TokenStream.ofText u).tokens ++ run, token.agrees = true) :
    pathRun ((TokenStream.ofText u).tokens ++ run).reverse = run ∧
      pathRun ((TokenStream.ofText u).tokens ++ run ++ [dot]).reverse = run ++ [dot] := by
  rcases Span.gapless_map_iff.1 hgapless with ⟨hchain, hfirst, -⟩
  rcases List.isChain_append.1 hchain with ⟨hrunChain, -, hbehind⟩
  rcases hrun.exists_last with ⟨before, name, rfl, hname⟩
  -- no token of the text in front reaches the path
  have hstops : ∀ token ∈ (TokenStream.ofText u).tokens.getLast?,
      (token.kind ≠ .name ∧ token.kind ≠ .dot) ∨
        ∃ first ∈ (before ++ [name]).head?, ¬ token.Adjoins first := by
    intro token htoken
    have hmem := List.mem_of_getLast? htoken
    have hne : u ≠ [] := by
      rintro rfl
      simp [TokenStream.ofText] at hmem
    have hlast := List.getLast_mem_getLast? hne
    have hlt := TokenStream.stop_lt_of_separator hmem ⟨_, hlast, hends _ hlast⟩
    cases hhead : (before ++ [name]).head? with
    | none => simp at hhead
    | some first =>
        have hstart := hfirst first (by rw [List.head?_append, hhead]; rfl)
        refine .inr ⟨first, rfl, fun hadjoins => ?_⟩
        have hsame : token.span.stop = first.span.start := hadjoins
        omega
  have hback := pathRun_append hrun hrunChain hstops hagrees
  refine ⟨hback, ?_⟩
  have hadjoins : name.Adjoins dot := hbehind name (by simp) dot rfl
  have hreverse : ((TokenStream.ofText u).tokens ++ (before ++ [name]) ++ [dot]).reverse =
      dot :: name :: ((TokenStream.ofText u).tokens ++ before).reverse := by simp
  have hreverse' : ((TokenStream.ofText u).tokens ++ (before ++ [name])).reverse =
      name :: ((TokenStream.ofText u).tokens ++ before).reverse := by simp
  rw [hreverse, pathRun_dot hdot hname hadjoins, ← hreverse', hback]

/-- Where the tokens of a path and a dot start with the path, it is reported with what is typed
behind the dot. -/
theorem ofPath_dotted {stop gapStart : Nat} {more : List Token} (hrun : PathTokens run path)
    (hgapless : Span.Gapless (byteLength u) ((run ++ more).map Token.span) stop)
    (hfound : ∃ kept, pathRun tokens = run ++ kept) (hsegment : IsPartial segment) :
    ofPath (u ++ path.text ++ '.' :: segment) tokens gapStart =
      ⟨segment, some .field, some path⟩ := by
  rcases hfound with ⟨kept, hfound⟩
  rcases Span.gapless_map_iff.1 hgapless with ⟨-, hfirst, -⟩
  cases run with
  | nil =>
      have hlength : 0 + 1 = 2 * path.words.length := hrun.length_eq
      omega
  | cons first run =>
      have hstart : first.span.start = byteLength u := hfirst first (by simp)
      have htext : dropBytes first.span.start (u ++ path.text ++ '.' :: segment) =
          path.text ++ '.' :: segment := by
        rw [hstart, List.append_assoc, Text.dropBytes_byteLength_append]
      exact ofPath_eq (hfound.trans List.cons_append) htext hsegment.dot_not_mem

/-- Behind a path and a dot a field is reported, with the path and what is typed behind the dot. -/
theorem ofText_dotted (herror : (TokenStream.ofText u).error = none)
    (hends : ∀ c ∈ u.getLast?, isSeparator c = true) (path : FieldPath)
    (hsegment : IsPartial segment) :
    ofText (u ++ path.text ++ '.' :: segment) = ⟨segment, some .field, some path⟩ := by
  rcases exists_dotted_tokens herror hends path hsegment with
    ⟨run, dot, typed, hread, hrun, hpiece, htyped, hgapless⟩
  have hdot : dot.kind = .dot := congrArg Prod.fst hpiece
  have hagrees := TokenStream.agrees_of_mem_ofText (u ++ path.text ++ '.' :: segment)
  rw [hread] at hagrees
  have hfound := pathRun_dotted hends hrun hdot hgapless fun token htoken =>
    hagrees token (List.mem_append_left _ htoken)
  rcases Span.gapless_map_iff.1 hgapless with ⟨hchain, -, hstop⟩
  rcases hrun.exists_last with ⟨before, name, hlast, -⟩
  rcases htyped with ⟨rfl, rfl⟩ | ⟨word, rfl⟩
  · -- the dot reaches the cursor
    have hstop' : dot.span.stop = byteLength (u ++ path.text ++ ['.']) := by simpa using hstop
    rcases exists_endsIn hread hstop' with ⟨front, gap, text, hendsIn⟩
    have hadjoins : name.Adjoins dot :=
      (List.isChain_append.1 hchain).2.2 name (by simp [hlast]) dot rfl
    have hgap : gap = [] := (hendsIn.adjoins_iff (by simp [hlast])).1 hadjoins
    have htext := hendsIn.text_eq (congrArg Prod.snd hpiece)
    rw [hendsIn.ofText_of_path hgap (.inl (by rw [htext]; rfl))]
    exact ofPath_dotted hrun hgapless ⟨[], by simpa using hfound.1⟩ hsegment
  · -- the segment behind the dot reaches the cursor
    have hread' : TokenStream.ofText (u ++ path.text ++ '.' :: segment) =
        ⟨(TokenStream.ofText u).tokens ++ run ++ [dot] ++ [word], none⟩ := by simpa using hread
    have hstop' : word.span.stop = byteLength (u ++ path.text ++ '.' :: segment) := by
      simpa using hstop
    rcases exists_endsIn hread' hstop' with ⟨front, gap, text, hendsIn⟩
    have hadjoins : dot.Adjoins word := by
      have hbehind := (List.isChain_append.1 hchain).2.1
      simpa using hbehind
    have hgap : gap = [] := (hendsIn.adjoins_iff (by simp)).1 hadjoins
    rw [hendsIn.ofText_of_path hgap (.inr (by simp [hdot]))]
    exact ofPath_dotted hrun hgapless ⟨[dot], hfound.2⟩ hsegment

/-! ## Where a path is reported -/

theorem Announced.path_eq_none {gap : Bool} {found : Option FieldPath}
    (h : Announced gap tokens .field found) : found = none := by
  cases h <;> rfl

/-- A path that is being typed stands before the dot that is before what is typed. -/
theorem suffix_of_ofPath {gapStart : Nat} (h : (ofPath before tokens gapStart).path = some path) :
    path.text ++ '.' :: (ofPath before tokens gapStart).typed <:+ before := by
  unfold ofPath at h ⊢
  dsimp only at h ⊢
  split at h
  · rename_i finished segment hcut
    dsimp only at h ⊢
    rw [FieldPath.ofDotted?_eq_some_iff.1 h, ← (cutLastDot_eq_some_iff.1 hcut).1]
    exact Text.dropBytes_suffix _ before
  · cases h

/-- A path that is reported with a field stands before the cursor, with a dot and what is typed
behind it. -/
theorem suffix_of_ofText (hscope : (ofText before).scope = some .field)
    (hpath : (ofText before).path = some path) :
    path.text ++ '.' :: (ofText before).typed <:+ before := by
  rcases ofText_eq before with ⟨gapStart, heq⟩ | heq
  · rw [heq] at hpath ⊢
    exact suffix_of_ofPath hpath
  · -- elsewhere a field is reported without a path
    rw [heq] at hscope hpath
    have hannounced : Announced (blanksBehind before) (finished before) .field (some path) :=
      announced_of_scopeAfter (Prod.ext hscope hpath)
    cases hannounced.path_eq_none

/-- Behind a text that is empty or has no faults and ends with separators, a path and a dot, with
nothing or the start of a segment behind the dot: a field is reported with that path and what stands
behind the dot.  And wherever a field is reported with a path, the text before the cursor ends with
the path, a dot and what is being typed. -/
theorem atOffset_dotted :
    (∀ (source : List Char) (cursor : Nat) (u segment : List Char) (path : FieldPath),
      (TokenStream.ofText u).error = none → (∀ c ∈ u.getLast?, isSeparator c = true) →
      IsPartial segment → Text.takeBytes cursor source = u ++ path.text ++ '.' :: segment →
      atOffset source cursor = ⟨segment, some .field, some path⟩) ∧
    ∀ (source : List Char) (cursor : Nat) (path : FieldPath),
      (atOffset source cursor).scope = some .field →
      (atOffset source cursor).path = some path →
      path.text ++ '.' :: (atOffset source cursor).typed <:+ Text.takeBytes cursor source := by
  constructor
  · intro source cursor u segment path herror hends hsegment hbefore
    rw [atOffset, hbefore]
    exact ofText_dotted herror hends path hsegment
  · intro source cursor path hscope hpath
    exact suffix_of_ofText hscope hpath

/-- A reserved word that is typed behind the dot of a path, in the middle of a text. -/
theorem atOffset_dotted_keyword :
    let source := "a = 1 and b.c.in (2)".toList
    let path : FieldPath := ⟨⟨"b", by decide⟩, [⟨"c", by decide⟩]⟩
    (TokenStream.ofText "a = 1 and ".toList).error = none ∧ IsPartial "in".toList ∧
      Text.takeBytes 16 source = "a = 1 and ".toList ++ path.text ++ '.' :: "in".toList ∧
      atOffset source 16 = ⟨"in".toList, some .field, some path⟩ ∧
      path.text ++ '.' :: "in".toList <:+ Text.takeBytes 16 source := by
  intro source path
  have herror : (TokenStream.ofText "a = 1 and ".toList).error = none := by decide +kernel
  have hends : ∀ c ∈ "a = 1 and ".toList.getLast?, isSeparator c = true := by
    rintro c ⟨⟩
    rfl
  have hsegment : IsPartial "in".toList := .inr (by decide +kernel)
  have hbefore : Text.takeBytes 16 source =
      "a = 1 and ".toList ++ path.text ++ '.' :: "in".toList := by decide +kernel
  have hcompletion : atOffset source 16 = ⟨"in".toList, some .field, some path⟩ :=
    atOffset_dotted.1 source 16 _ _ path herror hends hsegment hbefore
  have hsuffix := atOffset_dotted.2 source 16 path (congrArg scope hcompletion)
    (congrArg Completion.path hcompletion)
  rw [hcompletion] at hsuffix
  exact ⟨herror, hsegment, hbefore, hcompletion, hsuffix⟩

end Completion
end FieldFilter
