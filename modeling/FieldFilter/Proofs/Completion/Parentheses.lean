import FieldFilter.Proofs.Completion.Layouts

/-!
# Completing at a parenthesis

* `Completion.opensGroup_of_operand` — where a group may open, the completion says so;
* `Completion.atOffset_openParen` — behind the parenthesis that opens a group a field is reported,
  unless the parenthesis stands at the cursor and right behind a connective;
* `Completion.ofPath_closeParen` — behind a dot the closing parenthesis counts as part of a path;
* `Completion.atOffset_closeParen` — right behind a closing parenthesis nothing is reported, unless
  separators or a dot stand in front of it.
-/

namespace FieldFilter

open Query (Begins)
open Reading (run exists_of_run_append_singleton)
open Text (byteLength dropBytes)
open TokenStream (isSeparator)

namespace Completion

variable {before : List Char} {tokens front rest kept : List Token} {limit : Nat} {r : Reading}
  {last openParen closeParen : Token}

/-! ## Opening a group -/

theorem scopeAfter_connective (hlast : last.kind.isConnective = true) (gap : Bool) :
    scopeAfter (last :: rest) gap [] = if gap then (some .field, none) else (none, none) := by
  cases gap with
  | true => simp [scopeAfter, hlast]
  | false =>
      have hopen : last.kind ≠ .openParen := by
        intro hopen
        rw [hopen] at hlast
        cases hlast
      simp [scopeAfter, hopen]

theorem scopeAfter_group (hlast : last.kind = .openParen)
    (hopens : opensGroup (rest.head?.map Token.kind) = true) (gap : Bool) :
    scopeAfter (last :: rest) gap [] = (some .field, none) := by
  rw [List.head?_eq_getElem?] at hopens
  simp [scopeAfter, hlast, hopens]

/-- Where the machine waits for an operand, a group may open. -/
theorem opensGroup_of_operand (hrun : run limit 0 {} tokens = .ok r) (hr : r.awaiting = .operand)
    (hagrees : ∀ token ∈ tokens, token.agrees = true) :
    opensGroup (tokens.getLast?.map Token.kind) = true := by
  rcases List.eq_nil_or_concat tokens with rfl | ⟨tokens, last, rfl⟩
  · rfl
  · rw [List.concat_eq_append] at *
    rcases exists_of_run_append_singleton hrun (hagrees last (by simp)) with ⟨_, -, -, hleads⟩
    rw [hr] at hleads
    simpa [opensGroup, Reading.Leads] using hleads

/-- A parenthesis behind which the machine waits for an operand stands where it did so as well. -/
theorem operand_of_openParen (hrun : run limit 0 {} (tokens ++ [openParen]) = .ok r)
    (hr : r.awaiting = .operand) (hkind : openParen.kind = .openParen)
    (hagrees : ∀ token ∈ tokens ++ [openParen], token.agrees = true) :
    ∃ r₀, run limit 0 {} tokens = .ok r₀ ∧ r₀.awaiting = .operand := by
  rcases exists_of_run_append_singleton hrun (hagrees openParen (by simp)) with
    ⟨r₀, hrun₀, hmoves, -⟩
  rcases hmoves.cases_of_openParen hkind (hagrees openParen (by simp)) with
    ⟨hoperand, -⟩ | ⟨path, op, -, hfirst⟩
  · exact ⟨r₀, hrun₀, hoperand⟩
  · rw [hr] at hfirst
    cases hfirst

/-- The parenthesis that ends a text which begins a query opens a group if no list is open. -/
theorem operand_of_not_insideList (hbegins : Begins before)
    (htokens : (TokenStream.ofText before).tokens = front ++ [openParen])
    (hkind : openParen.kind = .openParen) (houtside : ¬ Query.InsideList before) :
    ∃ limit r, run limit 0 {} front = .ok r ∧ r.awaiting = .operand := by
  rcases exists_last hbegins htokens with ⟨limit, r₀, r, hrun, hmoves, -, hreads, hagrees⟩
  rcases hmoves.cases_of_openParen hkind (hagrees openParen (by simp)) with
    ⟨hoperand, -⟩ | ⟨path, op, -, hfirst⟩
  · exact ⟨limit, r₀, hrun, hoperand⟩
  · -- behind the parenthesis of a list the machine is inside the list
    rw [hreads.insideList_iff] at houtside
    rcases r with ⟨outer, inner, awaiting⟩
    obtain rfl : awaiting = .firstItem path op := hfirst
    exact absurd rfl houtside

/-- Where a group may open, a field is reported behind the tokens before it, but right behind a
connective nothing is. -/
theorem scopeAfter_of_operand (hrun : run limit 0 {} tokens = .ok r) (hr : r.awaiting = .operand)
    (hagrees : ∀ token ∈ tokens, token.agrees = true) (gap : Bool) :
    scopeAfter tokens.reverse gap [] =
      if gap = false ∧ ∃ last ∈ tokens.getLast?, last.kind.isConnective = true then (none, none)
      else (some .field, none) := by
  rcases List.eq_nil_or_concat tokens with rfl | ⟨tokens, last, rfl⟩
  · simp [scopeAfter]
  · rw [List.concat_eq_append] at *
    have hopens := opensGroup_of_operand hrun hr hagrees
    simp only [List.getLast?_append, List.getLast?_singleton, Option.some_or, Option.map_some,
      opensGroup, Bool.or_eq_true, beq_iff_eq] at hopens
    rw [List.reverse_append, List.reverse_singleton, List.singleton_append]
    rcases hopens with hconnective | hopen
    · rw [scopeAfter_connective hconnective]
      cases gap <;> simp [hconnective]
    · -- another parenthesis of a group, in front of which a group may open as well
      rcases operand_of_openParen hrun hr hopen hagrees with ⟨r₀, hrun₀, hr₀⟩
      have hopens := opensGroup_of_operand hrun₀ hr₀ fun token htoken =>
        hagrees token (List.mem_append_left _ htoken)
      rw [← List.head?_reverse] at hopens
      rw [scopeAfter_group hopen hopens]
      simp [hopen, TokenKind.isConnective, TokenKind.connective?]

/-- A text that begins a query and ends with the parenthesis of a group, perhaps with separators
behind it: a field is reported, but nothing is if the parenthesis stands at the cursor and right
behind a connective. -/
theorem atOffset_openParen (source : List Char) (cursor : Nat)
    (hbefore : Text.takeBytes cursor source = before) (hbegins : Begins before)
    (htokens : (TokenStream.ofText before).tokens = front ++ [openParen])
    (hkind : openParen.kind = .openParen) (houtside : ¬ Query.InsideList before) :
    atOffset source cursor =
      if openParen.span.stop = byteLength before ∧
          ∃ last ∈ front.getLast?, last.kind.isConnective = true ∧ last.Adjoins openParen then
        ⟨[], none, none⟩
      else ⟨[], some .field, none⟩ := by
  rcases operand_of_not_insideList hbegins htokens hkind houtside with ⟨limit, r, hrun, hr⟩
  have hagrees : ∀ token ∈ front, token.agrees = true := fun token htoken =>
    TokenStream.agrees_of_mem_ofText before token (by simp [htokens, htoken])
  have hopens := opensGroup_of_operand hrun hr hagrees
  have herror : (TokenStream.ofText before).error = none := by
    rcases Query.begins_iff.1 hbegins with ⟨_, hreads⟩
    exact hreads.1
  rw [atOffset, hbefore]
  by_cases hstop : openParen.span.stop = byteLength before
  · -- the parenthesis is complete in itself, so the tokens before it tell what follows
    have hread : TokenStream.ofText before = ⟨front ++ [openParen], none⟩ := by
      rw [← htokens, ← herror]
    rcases exists_endsIn hread hstop with ⟨start, gap, text, h⟩
    have hmem : openParen ∈ (TokenStream.ofText before).tokens := by simp [htokens]
    have hspelling : text = "(".toList :=
      h.text_eq (TokenStream.value_of_mem_ofText hmem hkind rfl rfl)
    obtain rfl : text = ['('] := hspelling
    have hnotDot : ∀ token ∈ front.getLast?, token.kind ≠ .dot := by
      intro token htoken hdot
      rw [Option.mem_def.1 htoken, Option.map_some, hdot] at hopens
      cases hopens
    have hadjoins : ((!gap.isEmpty) = false ∧
          ∃ last ∈ front.getLast?, last.kind.isConnective = true) ↔
        openParen.span.stop = byteLength before ∧
          ∃ last ∈ front.getLast?, last.kind.isConnective = true ∧ last.Adjoins openParen := by
      constructor
      · rintro ⟨hgap, last, hlast, hconnective⟩
        have hnil : gap = [] := by simpa using hgap
        exact ⟨hstop, last, hlast, hconnective, (h.adjoins_iff hlast).2 hnil⟩
      · rintro ⟨-, last, hlast, hconnective, hadjoins⟩
        exact ⟨by simp [(h.adjoins_iff hlast).1 hadjoins], last, hlast, hconnective⟩
    rw [h.ofText_of_not_path fun _ => ⟨by simp, hnotDot⟩]
    simp only [if_true, scopeAfter_of_operand hrun hr hagrees, hadjoins]
    split <;> rfl
  · -- separators stand behind the parenthesis
    have hlast : lastStop (TokenStream.ofText before).tokens = openParen.span.stop :=
      lastStop_of_getLast? (by simp [htokens])
    have hends := exists_separator_of_lastStop herror (hlast ▸ hstop)
    rw [ofText_of_separator herror hends, htokens, List.reverse_append, List.reverse_singleton,
      List.singleton_append, ← List.head?_reverse] at *
    rw [scopeAfter_group hkind hopens, if_neg (by simp [hstop])]

/-- Two parentheses with a line break between them, in the middle of a text. -/
theorem atOffset_openParen_nested :
    let source := "(\n(a = 1))".toList
    let outside : Token := ⟨.openParen, .text "(", ⟨0, 1⟩, ⟨1, 1⟩⟩
    let inside : Token := ⟨.openParen, .text "(", ⟨2, 3⟩, ⟨2, 1⟩⟩
    Text.takeBytes 3 source = "(\n(".toList ∧ Begins "(\n(".toList ∧
      (TokenStream.ofText "(\n(".toList).tokens = [outside] ++ [inside] ∧
      ¬ Query.InsideList "(\n(".toList ∧ atOffset source 3 = ⟨[], some .field, none⟩ := by
  intro source outside inside
  have hbefore : Text.takeBytes 3 source = "(\n(".toList := by decide +kernel
  have hreads : Query.ReadsTo "(\n(".toList ⟨[{}, {}], {}, .operand⟩ :=
    ⟨by decide +kernel, 2, by decide +kernel⟩
  have hbegins : Begins "(\n(".toList := Query.begins_iff.2 ⟨_, hreads⟩
  have htokens : (TokenStream.ofText "(\n(".toList).tokens = [outside] ++ [inside] := by
    decide +kernel
  have houtside : ¬ Query.InsideList "(\n(".toList := by
    rw [hreads.insideList_iff]
    exact fun h => by cases h
  have hcompletion := atOffset_openParen source 3 hbefore hbegins htokens rfl houtside
  rw [if_neg (by decide +kernel)] at hcompletion
  exact ⟨hbefore, hbegins, htokens, houtside, hcompletion⟩

/-- A conjunction whose second operand starts with a group, right behind the connective. -/
def groupAtConnective : List Char :=
  "a = 1 and(".toList

/-- Right behind the parenthesis no field is reported, though one can come next and is reported
behind a blank. -/
theorem atOffset_groupAtConnective :
    Begins groupAtConnective ∧ ¬ Query.InsideList groupAtConnective ∧
      ((TokenStream.ofText groupAtConnective).tokens.getLast?.map Token.kind) = some .openParen ∧
      (∀ segment : Segment, Begins (groupAtConnective ++ ' ' :: segment.word.toList)) ∧
      atOffset (groupAtConnective ++ [' ']) 11 = ⟨[], some .field, none⟩ ∧
      atOffset groupAtConnective 10 = ⟨[], none, none⟩ ∧
      atOffset groupAtConnective 10 ≠ ⟨[], some .field, none⟩ := by
  let compared : Expr := .comparison (.single ⟨"a", by decide⟩) .equal (.single (.int 1))
  have hreads : Query.ReadsTo groupAtConnective ⟨[{ conjunct := some compared }], {}, .operand⟩ :=
    ⟨by decide +kernel, 1, by decide +kernel⟩
  refine ⟨Query.begins_iff.2 ⟨_, hreads⟩, ?_, by decide +kernel, hreads.begins_name rfl,
    by decide +kernel, by decide +kernel, by decide +kernel⟩
  rw [hreads.insideList_iff]
  exact fun h => by cases h

/-! ## Closing a parenthesis -/

theorem scopeAfter_closeParen (tokens : List Token) :
    scopeAfter tokens false [')'] = (none, none) := by
  simp [scopeAfter]

/-- From the first token of a path on that ends right behind a dot and a parenthesis, the text
before the cursor is that of the path, the dot and the parenthesis. -/
theorem dropBytes_path {path : FieldPath} {first dot : Token}
    (hread : TokenStream.ofText before = ⟨rest ++ (first :: kept) ++ [dot, closeParen], none⟩)
    (hpath : PathTokens (first :: kept) path)
    (hchain : (first :: kept ++ [dot, closeParen]).IsChain Token.Adjoins)
    (hdot : dot.kind = .dot) (hparen : closeParen.kind = .closeParen)
    (hstop : closeParen.span.stop = byteLength before) :
    dropBytes first.span.start before = path.text ++ '.' :: [')'] := by
  have hmem : ∀ token ∈ first :: kept ++ [dot, closeParen],
      token ∈ (TokenStream.ofText before).tokens := by
    intro token htoken
    rw [hread, List.append_assoc]
    exact List.mem_append_right _ htoken
  have hdotValue : dot.value = .text "." :=
    TokenStream.value_of_mem_ofText (hmem dot (by simp)) hdot rfl rfl
  have hparenValue : closeParen.value = .text ")" :=
    TokenStream.value_of_mem_ofText (hmem closeParen (by simp)) hparen rfl rfl
  have htexts : ∀ token ∈ first :: kept ++ [dot, closeParen], ∃ text, token.value = .text text := by
    intro token htoken
    have hagrees := TokenStream.agrees_of_mem_ofText before token (hmem token htoken)
    refine Token.exists_text_of_agrees hagrees ?_
    rcases List.mem_append.1 htoken with hname | hmark
    · rcases hpath.kind_cases token hname with hkind | hkind <;> rw [hkind] <;> rfl
    · simp only [List.mem_cons, List.not_mem_nil, or_false] at hmark
      rcases hmark with rfl | rfl
      · rw [hdot]
        rfl
      · rw [hparen]
        rfl
  have hlast : ∀ last ∈ (first :: kept ++ [dot, closeParen]).getLast?,
      last.span.stop = byteLength before := by
    intro last hlast
    rw [List.getLast?_append] at hlast
    cases hlast
    exact hstop
  rw [List.append_assoc] at hread
  have hcarried : dropBytes first.span.start before =
      (first :: kept ++ [dot, closeParen]).flatMap fun token => token.valueText.toList :=
    TokenStream.dropBytes_of_isChain hread hchain hlast htexts
  rw [hcarried, List.flatMap_append, ← hpath.text_eq_flatMap fun token htoken =>
    hmem token (List.mem_append_left _ htoken)]
  simp [Token.valueText, hdotValue, hparenValue, TokenValue.printable]

/-- A closing parenthesis right behind a path and a dot counts as what is typed there. -/
theorem ofPath_of_gaplessEnd {path : FieldPath} {dot : Token} (gapStart : Nat)
    (hread : TokenStream.ofText before = ⟨rest ++ [dot] ++ [closeParen], none⟩)
    (hpath : GaplessEnd rest kept path) (hdot : dot.kind = .dot)
    (hparen : closeParen.kind = .closeParen) (hlast : ∀ name ∈ rest.getLast?, name.Adjoins dot)
    (hadjoins : dot.Adjoins closeParen) (hstop : closeParen.span.stop = byteLength before) :
    ofPath before (dot :: rest.reverse) gapStart = ⟨[')'], some .field, some path⟩ := by
  rcases hpath.isSuffix with ⟨more, rfl⟩
  have hagrees : ∀ token ∈ more ++ kept, token.agrees = true := fun token htoken =>
    TokenStream.agrees_of_mem_ofText before token (by
      rw [hread]
      exact List.mem_append_left _ (List.mem_append_left _ htoken))
  have hrun : pathRun (dot :: (more ++ kept).reverse) = kept ++ [dot] := by
    rcases hpath.pathTokens.exists_last with ⟨names, name, rfl, hname⟩
    have hreverse : (more ++ (names ++ [name])).reverse = name :: (more ++ names).reverse := by simp
    rw [hreverse, pathRun_dot hdot hname (hlast name (by simp)), ← hreverse,
      pathRun_of_gaplessEnd hpath hagrees]
  cases kept with
  | nil =>
      have hlength : 0 + 1 = 2 * path.words.length := hpath.pathTokens.length_eq
      omega
  | cons first kept =>
      have hchain : (first :: kept ++ [dot, closeParen]).IsChain Token.Adjoins := by
        refine List.isChain_append.2 ⟨hpath.adjoins, by simpa using hadjoins, ?_⟩
        rintro name hname _ ⟨⟩
        exact hlast name (List.mem_getLast?_append_of_mem_getLast? hname)
      have hread' : TokenStream.ofText before =
          ⟨more ++ (first :: kept) ++ [dot, closeParen], none⟩ := by simpa using hread
      exact ofPath_eq hrun (dropBytes_path hread' hpath.pathTokens hchain hdot hparen hstop)
        (by decide +kernel)

/-- Right behind a dot that stands right behind no path, nothing is reported. -/
theorem ofPath_of_no_gaplessEnd {dot : Token} {gapStart : Nat} (hdot : dot.kind = .dot)
    (hagrees : ∀ token ∈ rest, token.agrees = true)
    (hnone : ¬ ∃ path, ∃ kept, GaplessEnd rest kept path ∧ ∀ name ∈ rest.getLast?, name.Adjoins dot)
    (hbehind : dropBytes gapStart before = [')']) :
    ofPath before (dot :: rest.reverse) gapStart = ⟨[')'], none, none⟩ := by
  have hstops : ∀ name ∈ rest.reverse.head?, name.kind = .name → ¬ name.Adjoins dot := by
    intro name hname hkind hadjoins
    rw [List.head?_reverse] at hname
    rcases exists_gaplessEnd hname hkind hagrees with ⟨path, hpath⟩
    refine hnone ⟨path, _, hpath, ?_⟩
    intro last hlast
    rwa [Option.mem_unique hlast hname]
  rw [ofPath_eq_none (pathRun_dot_eq_nil hdot hstops) (by simp [hbehind]), hbehind]

/-- Right behind a dot a closing parenthesis counts as what is typed there: a field is reported if a
path ends right in front of the dot, with the longest one without a gap. -/
theorem ofPath_closeParen {dot : Token} {gapStart : Nat}
    (hread : TokenStream.ofText before = ⟨rest ++ [dot] ++ [closeParen], none⟩)
    (hdot : dot.kind = .dot) (hparen : closeParen.kind = .closeParen)
    (hadjoins : dot.Adjoins closeParen) (hstop : closeParen.span.stop = byteLength before)
    (hbehind : dropBytes gapStart before = [')']) :
    let c := ofPath before (dot :: rest.reverse) gapStart
    c.typed = [')'] ∧ c.scope = c.path.map (fun _ => .field) ∧
      ∀ path, c.path = some path ↔
        ∃ kept, GaplessEnd rest kept path ∧ ∀ name ∈ rest.getLast?, name.Adjoins dot := by
  intro c
  by_cases hfound : ∃ path, ∃ kept, GaplessEnd rest kept path ∧
      ∀ name ∈ rest.getLast?, name.Adjoins dot
  · rcases hfound with ⟨found, kept, hpath, hlast⟩
    have hc : c = ⟨[')'], some .field, some found⟩ :=
      ofPath_of_gaplessEnd gapStart hread hpath hdot hparen hlast hadjoins hstop
    rw [hc]
    refine ⟨rfl, rfl, fun path => ⟨?_, ?_⟩⟩
    · rintro ⟨⟩
      exact ⟨kept, hpath, hlast⟩
    · rintro ⟨kept', hpath', -⟩
      exact congrArg some (hpath.path_unique hpath')
  · have hagrees : ∀ token ∈ rest, token.agrees = true := fun token htoken =>
      TokenStream.agrees_of_mem_ofText before token (by simp [hread, htoken])
    have hc : c = ⟨[')'], none, none⟩ := ofPath_of_no_gaplessEnd hdot hagrees hfound hbehind
    rw [hc]
    refine ⟨rfl, rfl, fun path => ⟨?_, ?_⟩⟩
    · rintro ⟨⟩
    · rintro ⟨kept, hpath⟩
      exact absurd ⟨path, kept, hpath⟩ hfound

namespace EndsIn

variable {start gap : List Char} (h : EndsIn before front closeParen start gap [')'])
include h

/-- Behind separators what stands in front of a closing parenthesis tells what is reported. -/
theorem ofText_closeParen_of_gap (hgap : gap ≠ []) :
    ofText before = ⟨[')'], (ofText (start ++ gap)).scope, (ofText (start ++ gap)).path⟩ := by
  have hends := exists_separator_append start hgap h.isSeparator
  have hblanks : (!gap.isEmpty) = true := by simpa using hgap
  rw [h.ofText_of_not_path fun hnil => absurd hnil hgap, hblanks,
    ofText_of_separator (by rw [h.read_eq]) hends, h.read_eq]
  simp only [scopeAfter_of_gap front.reverse, List.cons.injEq, Char.reduceEq, false_and, if_false]

/-- Right behind a token that is no dot, a closing parenthesis is not followed by anything yet. -/
theorem ofText_closeParen_of_no_gap (hgap : gap = [])
    (hdot : ∀ token ∈ front.getLast?, token.kind ≠ .dot) : ofText before = ⟨[')'], none, none⟩ := by
  rw [h.ofText_of_not_path fun _ => ⟨by simp, hdot⟩, hgap]
  exact congrArg (fun after => (⟨[')'], after.1, after.2⟩ : Completion))
    (scopeAfter_closeParen front.reverse)

end EndsIn

/-- A text without faults that ends with a closing parenthesis at the cursor: the parenthesis is
what is being typed.  Behind separators the scope and the path are those in front of the
parenthesis.  Right behind a token nothing is reported, but right behind a dot a field is, with the
longest path that ends in front of the dot, if one stands there. -/
theorem atOffset_closeParen (source : List Char) (cursor : Nat)
    (hbefore : Text.takeBytes cursor source = before)
    (hread : TokenStream.ofText before = ⟨front ++ [closeParen], none⟩)
    (hkind : closeParen.kind = .closeParen) (hstop : closeParen.span.stop = byteLength before) :
    ∃ q, q ++ [')'] = before ∧ TokenStream.ofText q = ⟨front, none⟩ ∧
      (atOffset source cursor).typed = [')'] ∧
      ((∃ d ∈ q.getLast?, isSeparator d = true) →
        (atOffset source cursor).scope = (ofText q).scope ∧
          (atOffset source cursor).path = (ofText q).path) ∧
      ((∀ d ∈ q.getLast?, isSeparator d = false) →
        ((∀ token ∈ front.getLast?, token.kind ≠ .dot) →
          (atOffset source cursor).scope = none ∧ (atOffset source cursor).path = none) ∧
        ∀ rest dot, front = rest ++ [dot] → dot.kind = .dot →
          (atOffset source cursor).scope = (atOffset source cursor).path.map (fun _ => .field) ∧
            ∀ path, (atOffset source cursor).path = some path ↔
              ∃ kept, GaplessEnd rest kept path ∧ ∀ name ∈ rest.getLast?, name.Adjoins dot) := by
  rcases exists_endsIn hread hstop with ⟨start, gap, text, h⟩
  have hmem : closeParen ∈ (TokenStream.ofText before).tokens := by simp [hread]
  have hspelling : text = ")".toList :=
    h.text_eq (TokenStream.value_of_mem_ofText hmem hkind rfl rfl)
  obtain rfl : text = [')'] := hspelling
  rw [atOffset, hbefore]
  refine ⟨start ++ gap, h.split.symm, h.read_eq, ?_⟩
  by_cases hgap : gap = []
  · have hends := h.gap_eq_nil_iff.1 hgap
    have hnot : ¬ ∃ d ∈ (start ++ gap).getLast?, isSeparator d = true := by
      rintro ⟨d, hd, hsep⟩
      rw [hends d hd] at hsep
      cases hsep
    by_cases hdot : ∃ dot ∈ front.getLast?, dot.kind = .dot
    · -- the parenthesis continues a path
      rcases hdot with ⟨dot, hlast, hdot⟩
      rcases List.getLast?_eq_some_iff.1 hlast with ⟨rest, rfl⟩
      have hbehind : dropBytes (byteLength start) before = [')'] := by
        rw [h.split, hgap, List.append_nil, Text.dropBytes_byteLength_append]
      have hpath := ofPath_closeParen hread hdot hkind ((h.adjoins_iff hlast).2 hgap) hstop hbehind
      rw [h.ofText_of_path hgap (.inr (by simp [hdot])), List.reverse_append,
        List.reverse_singleton, List.singleton_append]
      refine ⟨hpath.1, fun hsep => absurd hsep hnot, fun _ => ⟨?_, ?_⟩⟩
      · intro hnone
        exact absurd hdot (hnone dot hlast)
      · intro rest' dot' hsplit _
        obtain ⟨rfl, hdots⟩ := List.append_inj' hsplit rfl
        obtain rfl := (List.cons.inj hdots).1
        exact hpath.2
    · have hnone : ∀ token ∈ front.getLast?, token.kind ≠ .dot := fun token htoken hkind =>
        hdot ⟨token, htoken, hkind⟩
      rw [h.ofText_closeParen_of_no_gap hgap hnone]
      refine ⟨rfl, fun hsep => absurd hsep hnot, fun _ => ⟨fun _ => ⟨rfl, rfl⟩, ?_⟩⟩
      rintro rest dot rfl hkind
      exact absurd hkind (hnone dot (by simp))
  · rw [h.ofText_closeParen_of_gap hgap]
    refine ⟨rfl, fun _ => ⟨rfl, rfl⟩, fun hends => ?_⟩
    exact absurd (h.gap_eq_nil_iff.2 hends) hgap

/-- Right behind a closed group, in the middle of a text. -/
theorem atOffset_closeParen_group :
    let source := "(a = 1) and b = 2".toList
    let front := (TokenStream.ofText "(a = 1".toList).tokens
    let closeParen : Token := ⟨.closeParen, .text ")", ⟨6, 7⟩, ⟨1, 7⟩⟩
    Text.takeBytes 7 source = "(a = 1)".toList ∧
      TokenStream.ofText "(a = 1)".toList = ⟨front ++ [closeParen], none⟩ ∧
      closeParen.span.stop = byteLength "(a = 1)".toList ∧
      (atOffset source 7).scope = none ∧ (atOffset source 7).path = none := by
  intro source front closeParen
  have hbefore : Text.takeBytes 7 source = "(a = 1)".toList := by decide +kernel
  have hread : TokenStream.ofText "(a = 1)".toList = ⟨front ++ [closeParen], none⟩ := by
    decide +kernel
  have hstop : closeParen.span.stop = byteLength "(a = 1)".toList := by decide +kernel
  rcases atOffset_closeParen source 7 hbefore hread rfl hstop with ⟨q, hq, -, -, -, hnoGap⟩
  obtain rfl : q = "(a = 1".toList := by
    have hsplit : "(a = 1)".toList = "(a = 1".toList ++ [')'] := by decide +kernel
    rw [hsplit] at hq
    exact List.append_cancel_right hq
  have hends : ∀ d ∈ "(a = 1".toList.getLast?, isSeparator d = false := by
    rintro d ⟨⟩
    rfl
  have hlast : front.getLast?.map Token.kind = some .int := by decide +kernel
  have hnotDot : ∀ token ∈ front.getLast?, token.kind ≠ .dot := by
    intro token htoken hdot
    rw [Option.mem_def.1 htoken, Option.map_some, hdot] at hlast
    cases hlast
  exact ⟨hbefore, hread, hstop, (hnoGap hends).1 hnotDot⟩

/-- A group with a blank before its closing parenthesis. -/
def spacedGroup : List Char :=
  "(a = 1 )".toList

/-- Right behind a closing parenthesis with a blank in front of it, a connective is reported. -/
theorem atOffset_spacedGroup :
    (TokenStream.ofText spacedGroup).error = none ∧
      ((TokenStream.ofText spacedGroup).tokens.getLast?.map fun token =>
        (token.kind, token.span.stop)) = some (.closeParen, byteLength spacedGroup) ∧
      atOffset spacedGroup 8 = ⟨[')'], some .logical, none⟩ ∧
      (atOffset spacedGroup 8).scope ≠ none :=
  ⟨by decide +kernel, by decide +kernel, by decide +kernel, by decide +kernel⟩

end Completion
end FieldFilter
