import FieldFilter.Proofs.Completion.Indices
import FieldFilter.Proofs.Completion.Layouts

/-!
# What is being typed

What an editor replaces by a completion is the end of the text before the cursor, and nothing of it
belongs to a token that is finished.

* `Completion.filter_stop_lt` — the finished tokens are those that end in front of the cursor;
* `Completion.ContinuesPath` — what stands behind them goes on with a path;
* `Completion.typed_of_continuesPath` — inside a path the text behind the last dot is being typed;
* `Completion.typedOutside_cases` — elsewhere all the text behind the finished tokens and blanks;
* `Completion.typed_atOffset` — what is being typed at a cursor.
-/

namespace FieldFilter

open Text (byteLength dropBytes isBlank)

/-- What is dropped from the front of a text leaves alone what follows it. -/
theorem Text.dropBytes_append {n : Nat} {cs : List Char} (h : n ≤ byteLength cs)
    (ds : List Char) : dropBytes n (cs ++ ds) = dropBytes n cs ++ ds := by
  induction cs generalizing n with
  | nil =>
      obtain rfl : n = 0 := by simpa using h
      simp
  | cons c cs ih =>
      rw [Text.byteLength_cons] at h
      by_cases hsize : c.utf8Size ≤ n
      · simp [dropBytes, hsize, ih (show n - c.utf8Size ≤ byteLength cs by omega)]
      · simp [dropBytes, hsize]

namespace Completion

variable {before front back region rest segment : List Char} {tokens : List Token} {token : Token}

/-! ## Finished tokens -/

/-- Every token but the last stops before the last one does. -/
theorem stop_lt_of_ordered {offset : Nat} {last : Token}
    (h : TokenStream.Ordered offset (tokens ++ [last])) (htoken : token ∈ tokens) :
    token.span.stop < last.span.stop := by
  have hprecedes : token.span.stop ≤ last.span.start :=
    (List.pairwise_append.1 h.pairwise).2.2 token htoken last (by simp)
  have hcovers := (h.covers last (by simp)).2
  omega

theorem stop_le_lastStop {offset : Nat} (h : TokenStream.Ordered offset tokens)
    (htoken : token ∈ tokens) : token.span.stop ≤ lastStop tokens := by
  rcases List.eq_nil_or_concat tokens with rfl | ⟨rest, last, rfl⟩
  · cases htoken
  · rw [List.concat_eq_append] at h htoken ⊢
    have hlast : lastStop (rest ++ [last]) = last.span.stop := lastStop_of_getLast? (by simp)
    rw [hlast]
    rcases List.mem_append.1 htoken with hrest | hmem
    · exact Nat.le_of_lt (stop_lt_of_ordered h hrest)
    · obtain rfl : token = last := by simpa using hmem
      exact Nat.le_refl _

/-- The tokens that end in front of the end of a text are the finished ones: only the last token of
the text can reach its end. -/
theorem filter_stop_lt (before : List Char) :
    ((TokenStream.ofText before).tokens.filter fun token => token.span.stop < byteLength before) =
      (finished before).reverse := by
  have hordered := TokenStream.ordered_ofText before
  have hstop : ∀ token ∈ (TokenStream.ofText before).tokens,
      token.span.stop ≤ byteLength before := fun token htoken =>
    (@TokenStream.span_of_mem_read [] before token htoken).2.2
  rw [finished]
  generalize (TokenStream.ofText before).tokens = tokens at hordered hstop
  rcases List.eq_nil_or_concat tokens with rfl | ⟨rest, last, rfl⟩
  · rfl
  · rw [List.concat_eq_append] at hordered hstop ⊢
    have hkept : rest.filter (fun token => token.span.stop < byteLength before) = rest := by
      refine List.filter_eq_self.2 fun token htoken => ?_
      have hlt := stop_lt_of_ordered hordered htoken
      exact decide_eq_true (Nat.lt_of_lt_of_le hlt (hstop last (by simp)))
    rw [List.filter_append, hkept, List.reverse_append]
    by_cases hreaches : byteLength before ≤ last.span.stop
    · simp [hreaches, Nat.not_lt.2 hreaches]
    · simp [hreaches, Nat.lt_of_not_le hreaches]

theorem unfinished_eq (before : List Char) :
    unfinished before = dropBytes (lastStop (finished before).reverse) before := by
  rw [unfinished, lastStop, List.getLast?_reverse]

/-- The finished tokens lie in the text up to the end of the last of them. -/
theorem span_of_mem_finished
    (hfront : TokenStream.Front {} before (finished before).reverse front back)
    (htoken : token ∈ finished before) :
    token.span.start ≤ token.span.stop ∧ token.span.stop ≤ byteLength front := by
  have hstarts := finished_isPrefix before
  have hordered := TokenStream.ordered_ofText before
  have hfinished : TokenStream.Ordered 0 (finished before).reverse :=
    ⟨hordered.pairwise.sublist hstarts.sublist,
      fun token htoken => hordered.covers token (hstarts.subset htoken)⟩
  have hmem := List.mem_reverse.2 htoken
  refine ⟨Nat.le_of_lt (hfinished.covers token hmem).2, ?_⟩
  rw [← lastStop_of_front hfront]
  exact stop_le_lastStop hfinished hmem

/-! ## Where what is being typed goes on with a path -/

/-- What stands behind finished tokens goes on with a path: no blanks separate them, and there is a
dot at either side of the place where they meet. -/
def ContinuesPath (tokens : List Token) (gap : List Char) : Prop :=
  (∀ c ∈ gap.head?, isBlank c = false) ∧
    (gap.head? = some '.' ∨ tokens.getLast?.map Token.kind = some .dot)

theorem trimStart_eq_self {gap : List Char} (h : ∀ c ∈ gap.head?, isBlank c = false) :
    Text.trimStart gap = gap := by
  cases gap with
  | nil => rfl
  | cons c gap => simp [Text.trimStart, h c rfl]

theorem head?_trimStart (gap : List Char) : ∀ c ∈ (Text.trimStart gap).head?, isBlank c = false := by
  intro c hc
  have hhead := List.head?_dropWhile_not isBlank gap
  rw [Text.trimStart] at hc
  rw [Option.mem_def.1 hc] at hhead
  exact hhead

theorem blanksBehind_eq_false_iff :
    blanksBehind before = false ↔ ∀ c ∈ (unfinished before).head?, isBlank c = false := by
  constructor
  · intro h c hc
    have hlength : (Text.trimStart (unfinished before)).length = (unfinished before).length := by
      simpa [blanksBehind] using h
    have hself : Text.trimStart (unfinished before) = unfinished before :=
      (List.dropWhile_suffix isBlank).eq_of_length hlength
    exact head?_trimStart _ c (hself.symm ▸ hc)
  · intro h
    simp [blanksBehind, trimStart_eq_self h]

theorem continuesPath_finished_iff :
    ContinuesPath (finished before).reverse (unfinished before) ↔
      (!blanksBehind before && ((Text.trimStart (unfinished before)).head? == some '.' ||
        (finished before).head?.map Token.kind == some .dot)) = true := by
  rw [ContinuesPath, ← blanksBehind_eq_false_iff, List.getLast?_reverse]
  simp only [Bool.and_eq_true, Bool.not_eq_true', Bool.or_eq_true, beq_iff_eq]
  refine and_congr_right fun hblanks => ?_
  rw [trimStart_eq_self (blanksBehind_eq_false_iff.1 hblanks)]

/-! ## Inside a path -/

theorem mem_of_mem_runBefore {later : Token} (h : token ∈ runBefore later tokens) :
    token ∈ later :: tokens := by
  fun_induction runBefore later tokens with
  | case1 => exact h
  | case2 later next tokens _ _ ih =>
      rcases List.mem_append.1 h with hmem | hmem
      · exact List.mem_cons_of_mem _ (ih hmem)
      · simpa using .inl (List.mem_singleton.1 hmem)
  | case3 => exact List.mem_cons.2 (.inl (List.mem_singleton.1 h))

theorem mem_of_mem_pathRun (h : token ∈ pathRun tokens) : token ∈ tokens := by
  unfold pathRun at h
  split at h
  · exact h
  · split_ifs at h
    · exact mem_of_mem_runBefore ((List.dropWhile_sublist _).subset h)
    · cases h

/-- The path that is being typed starts at a finished token, or behind all of them. -/
theorem exists_region (hfront : TokenStream.Front {} before (finished before).reverse front back) :
    ∃ region, region <:+ before ∧ back <:+ region ∧
      (ofPath before (finished before) (byteLength front)).typed =
        ((cutLastDot region).map Prod.snd).getD region := by
  -- wherever the path starts, all that is unfinished belongs to it
  have hregion : ∀ start, start ≤ byteLength front →
      dropBytes start before <:+ before ∧ back <:+ dropBytes start before := by
    intro start hstart
    refine ⟨Text.dropBytes_suffix _ _, ?_⟩
    rw [hfront.split, Text.dropBytes_append hstart]
    exact List.suffix_append _ _
  rw [ofPath]
  cases hrun : pathRun (finished before) with
  | nil =>
      rcases hregion _ (Nat.le_refl _) with ⟨hbefore, hback⟩
      refine ⟨_, hbefore, hback, ?_⟩
      dsimp only
      cases cutLastDot (dropBytes (byteLength front) before) <;> rfl
  | cons first run =>
      have hmem : first ∈ finished before := mem_of_mem_pathRun (by rw [hrun]; simp)
      have hspan := span_of_mem_finished hfront hmem
      rcases hregion _ (Nat.le_trans hspan.1 hspan.2) with ⟨hbefore, hback⟩
      refine ⟨_, hbefore, hback, ?_⟩
      dsimp only
      cases cutLastDot (dropBytes first.span.start before) <;> rfl

/-- The text of a dot that ends the finished tokens ends the text up to there. -/
theorem dot_suffix_of_finished
    (hfront : TokenStream.Front {} before (finished before).reverse front back)
    (hdot : (finished before).head?.map Token.kind = some .dot) : ['.'] <:+ front := by
  rcases Option.map_eq_some_iff.1 hdot with ⟨dot, hhead, hkind⟩
  have hmem : dot ∈ (TokenStream.ofText before).tokens :=
    (finished_isPrefix before).subset (List.mem_reverse.2 (List.mem_of_head? hhead))
  have hvalue : dot.value = .text "." := TokenStream.value_of_mem_ofText hmem hkind rfl rfl
  have hstop : dot.span.stop = byteLength front := by
    rw [← lastStop_of_front hfront, lastStop_of_getLast?]
    rwa [List.getLast?_reverse]
  rcases TokenStream.covered_of_mem_items (TokenStream.mem_items_of_mem_tokens hmem) with
    ⟨-, text, hslice, hspelled⟩
  have hspelled : dot.value.SpelledBy text := hspelled
  have htext : text = ['.'] := by
    rw [← String.toList_ofList (l := text), ← hspelled.text_eq _ hvalue]
    rfl
  rcases Text.slice?_eq_some_iff.1 hslice with ⟨start, behind, hsplit, -, hend⟩
  -- the text up to the end of the dot is all of the finished text
  have hfrontPrefix : front <+: before := ⟨back, hfront.split.symm⟩
  have hstartPrefix : start ++ text <+: before := ⟨behind, by rw [hsplit, List.append_assoc]⟩
  rw [Text.eq_of_prefix_of_byteLength_eq hfrontPrefix hstartPrefix (hstop ▸ hend).symm, htext]
  exact List.suffix_append _ _

/-- A part of a text without a dot, at its end, stands behind its last dot. -/
theorem suffix_of_dot_not_mem (hdot : '.' :: rest <:+ before) (hsegment : segment <:+ before)
    (hnot : '.' ∉ segment) : segment <:+ rest := by
  rcases List.suffix_or_suffix_of_suffix hsegment hdot with hsuffix | hsuffix
  · rcases List.suffix_cons_iff.1 hsuffix with rfl | hsuffix
    · exact absurd List.mem_cons_self hnot
    · exact hsuffix
  · exact absurd (hsuffix.subset List.mem_cons_self) hnot

/-- Of a part that goes back to a dot or further, what stands behind the last dot is what stands
behind the last dot of the whole text. -/
theorem cutLastDot_region (hregion : region <:+ before) (hdot : '.' :: rest <:+ before)
    (hrest : rest <:+ region) (hsegment : ((cutLastDot region).map Prod.snd).getD region = segment) :
    segment <:+ rest ∧ '.' ∉ segment ∧ '.' :: segment <:+ before := by
  cases hcut : cutLastDot region with
  | some parts =>
      rcases parts with ⟨finished, last⟩
      obtain rfl : last = segment := by simpa [hcut] using hsegment
      rcases cutLastDot_eq_some_iff.1 hcut with ⟨rfl, hnot⟩
      have hlast : '.' :: last <:+ before := (List.suffix_append _ _).trans hregion
      exact ⟨suffix_of_dot_not_mem hdot ((List.suffix_cons _ _).trans hlast) hnot, hnot, hlast⟩
  | none =>
      obtain rfl : region = segment := by simpa [hcut] using hsegment
      -- then the region starts right behind the dot
      have hnot : '.' ∉ region := dot_not_mem_of_cutLastDot hcut
      have hsuffix := suffix_of_dot_not_mem hdot hregion hnot
      obtain rfl : region = rest := hsuffix.eq_of_length_le hrest.length_le
      exact ⟨hsuffix, hnot, hdot⟩

/-- Inside a path the text behind the last dot is being typed, and it stands behind the finished
tokens. -/
theorem typed_of_continuesPath
    (hfront : TokenStream.Front {} before (finished before).reverse front (unfinished before))
    (h : ContinuesPath (finished before).reverse (unfinished before)) :
    (ofText before).typed <:+ unfinished before ∧ '.' ∉ (ofText before).typed ∧
      '.' :: (ofText before).typed <:+ before := by
  have hstop : (((finished before).head?.map fun token => token.span.stop).getD 0) =
      byteLength front := by
    rw [← lastStop_of_front hfront, lastStop, List.getLast?_reverse]
  have hpath : ofText before = ofPath before (finished before) (byteLength front) := by
    rw [ofText_eq_ite, if_pos (continuesPath_finished_iff.1 h), hstop]
  have hunfinished : unfinished before <:+ before := Text.dropBytes_suffix _ before
  rcases exists_region hfront with ⟨region, hregion, hback, htyped⟩
  rw [hpath]
  -- the dot starts what is behind the finished tokens, or it ends them
  rcases h.2 with hhead | hlast
  · rcases List.head?_eq_some_iff.1 hhead with ⟨rest, hsplit⟩
    have hrest : rest <:+ unfinished before := hsplit ▸ List.suffix_cons _ _
    rcases cutLastDot_region hregion (hsplit ▸ hunfinished) (hrest.trans hback) htyped.symm with
      ⟨hsuffix, hnot, hdot⟩
    exact ⟨hsuffix.trans hrest, hnot, hdot⟩
  · rw [List.getLast?_reverse] at hlast
    have hdot : '.' :: unfinished before <:+ before := by
      rcases dot_suffix_of_finished hfront hlast with ⟨start, hstart⟩
      refine ⟨start, ?_⟩
      rw [← List.singleton_append, ← List.append_assoc, hstart, ← hfront.split]
    exact cutLastDot_region hregion hdot hback htyped.symm

/-! ## Outside of paths -/

/-- Elsewhere all that stands behind the finished tokens and blanks is being typed, unless it is an
opening parenthesis. -/
theorem typedOutside_cases (before : List Char) :
    ∃ blanks, (∀ d ∈ blanks, isBlank d = true) ∧
      (∀ d ∈ (typedOutside before).head?, isBlank d = false) ∧
      (unfinished before = blanks ++ typedOutside before ∧ typedOutside before ≠ ['('] ∨
        unfinished before = blanks ++ ['('] ∧ typedOutside before = []) := by
  refine ⟨(unfinished before).takeWhile isBlank, isBlank_of_mem_takeWhile _, ?_⟩
  have hsplit := takeWhile_append_trimStart (unfinished before)
  rw [typedOutside]
  split_ifs with hparen
  · exact ⟨by simp, .inr ⟨hparen ▸ hsplit.symm, rfl⟩⟩
  · exact ⟨head?_trimStart _, .inl ⟨hsplit.symm, hparen⟩⟩

/-! ## At a cursor -/

/-- What is being typed ends the text before the cursor and overlaps no finished token. -/
theorem typed_suffix_unfinished (before : List Char) :
    (ofText before).typed <:+ unfinished before := by
  rcases exists_front before with ⟨front, hfront⟩
  by_cases hpath : ContinuesPath (finished before).reverse (unfinished before)
  · exact (typed_of_continuesPath hfront hpath).1
  · rw [ofText_eq_ite, if_neg (mt continuesPath_finished_iff.2 hpath)]
    dsimp only
    rw [typedOutside]
    split_ifs
    · exact List.nil_suffix
    · exact List.dropWhile_suffix _

/-- Of the text before a cursor, which stops at the last place between two characters that is not
behind the cursor, what is being typed is an end that overlaps no token that ends in front of the
cursor.  Where the text behind these tokens goes on with a path, it is all that stands behind the
last dot; elsewhere it is all that stands behind the tokens and blanks, but for an opening
parenthesis.  What stands behind the cursor does not matter. -/
theorem typed_atOffset (source : List Char) (cursor : Nat) :
    boundaryUpTo? source (min cursor (byteLength source)) =
      some (byteLength (Text.takeBytes cursor source)) ∧
    Text.takeBytes cursor source <+: source ∧
    let before := Text.takeBytes cursor source
    let tokens := (TokenStream.ofText before).tokens.filter fun token =>
      token.span.stop < byteLength before
    let gap := dropBytes (lastStop tokens) before
    let typed := (atOffset source cursor).typed
    (∃ q, before = q ++ typed ∧ ∀ token ∈ tokens, token.span.stop ≤ byteLength q) ∧
    (ContinuesPath tokens gap ∧ (∃ q, before = q ++ '.' :: typed) ∧ '.' ∉ typed ∨
      ¬ ContinuesPath tokens gap ∧ ∃ blanks, (∀ d ∈ blanks, isBlank d = true) ∧
        (∀ d ∈ typed.head?, isBlank d = false) ∧
        (gap = blanks ++ typed ∧ typed ≠ ['('] ∨ gap = blanks ++ ['('] ∧ typed = [])) ∧
    atOffset source cursor = atOffset before (byteLength before) := by
  have hclamp := Text.takeBytes_min cursor source
  refine ⟨by rw [boundaryUpTo?_eq, hclamp], Text.takeBytes_prefix cursor source, ?_⟩
  intro before tokens gap typed
  have hwhole : Text.takeBytes (byteLength before) before = before :=
    Text.takeBytes_of_byteLength_le (Nat.le_refl _)
  have htokens : tokens = (finished before).reverse := filter_stop_lt before
  have hgap : gap = unfinished before := by rw [unfinished_eq, ← htokens]
  rcases exists_front before with ⟨front, hfront⟩
  refine ⟨?_, ?_, ?_⟩
  · rcases typed_suffix_unfinished before with ⟨skipped, hskipped⟩
    refine ⟨front ++ skipped, ?_, fun token htoken => ?_⟩
    · rw [List.append_assoc]
      exact hfront.split.trans (congrArg (front ++ ·) hskipped.symm)
    · rw [htokens, List.mem_reverse] at htoken
      have hspan := span_of_mem_finished hfront htoken
      rw [Text.byteLength_append]
      omega
  · rw [hgap, htokens]
    by_cases hpath : ContinuesPath (finished before).reverse (unfinished before)
    · rcases typed_of_continuesPath hfront hpath with ⟨-, hnot, q, hq⟩
      exact .inl ⟨hpath, ⟨q, hq.symm⟩, hnot⟩
    · have htyped : typed = typedOutside before := by
        have houtside := ofText_eq_ite before
        rw [if_neg (mt continuesPath_finished_iff.2 hpath)] at houtside
        exact congrArg Completion.typed houtside
      rw [htyped]
      exact .inr ⟨hpath, typedOutside_cases before⟩
  · rw [atOffset, atOffset, hwhole]

/-- The last dot may stand in a string that is not closed. -/
example : (atOffset "a.\"b.c".toList 7).typed = ['c'] := by
  decide +kernel

end Completion
end FieldFilter
