import FieldFilter.Proofs.Completion.Scopes
import FieldFilter.Proofs.Paths
import Mathlib.Data.List.Chain

/-!
# The path that a completion reports

Behind a path, and behind a path and a comparator, a completion comes with a path.  It goes back
over tokens that stand next to each other, while a query is read without looking at what stands
between its tokens.

* `GaplessEnd` — the longest end of some tokens that is a path without a gap;
* `Completion.gaplessEnd_pathRun`, `Completion.pathEnding_eq` — reading backwards finds it;
* `Reading.Read.exists_path` — the tokens of the path that the machine has read last;
* `GaplessEnd.eq_iff` — both are the same path exactly if the machine's has no gap;
* `Completion.path_atOffset` — the path of a completion, and the path that is compared.
-/

namespace FieldFilter

open Query (Begins ReadsTo)

/-! ## Paths without a gap -/

/-- One token stands right behind another. -/
def Token.Adjoins (token next : Token) : Prop :=
  token.span.stop = next.span.start

instance (token next : Token) : Decidable (token.Adjoins next) :=
  inferInstanceAs (Decidable (token.span.stop = next.span.start))

/-- The longest end of some tokens that is the tokens of a path without a gap, with that path. -/
structure GaplessEnd (tokens kept : List Token) (path : FieldPath) : Prop where
  isSuffix : kept <:+ tokens
  pathTokens : PathTokens kept path
  adjoins : kept.IsChain Token.Adjoins
  longest : ∀ kept' path', kept' <:+ tokens → PathTokens kept' path' →
    kept'.IsChain Token.Adjoins → kept' <:+ kept

section
variable {tokens front kept run : List Token} {name dot previous : Token} {path named : FieldPath}
  {segment : Segment}

theorem append_singleton_suffix_iff {α : Type} {xs ys : List α} {a b : α} :
    xs ++ [a] <:+ ys ++ [b] ↔ xs <:+ ys ∧ a = b := by
  rw [List.suffix_append_inj_of_length_eq (by rfl), List.singleton_inj]

theorem PathTokens.exists_last (h : PathTokens tokens path) :
    ∃ front name, tokens = front ++ [name] ∧ name.kind = .name := by
  cases h with
  | @single name _ hkind _ => exact ⟨[], name, rfl, hkind⟩
  | @push tokens _ dot name _ _ _ hkind _ => exact ⟨tokens ++ [dot], name, by simp, hkind⟩

theorem PathTokens.length_eq (h : PathTokens tokens path) :
    tokens.length + 1 = 2 * path.words.length := by
  induction h with
  | single _ _ => rfl
  | push _ _ _ _ ih =>
      simp only [List.length_append, FieldPath.words_push, List.length_cons, List.length_nil]
      omega

theorem PathTokens.path_eq (h : PathTokens tokens path) (h' : PathTokens tokens named) :
    path = named :=
  FieldPath.eq_of_words_eq (h.words_eq.trans h'.words_eq.symm)

namespace GaplessEnd

/-- A name alone is a path, and there is no longer one if a gap stands in front of it or in front of
the dot before it. -/
theorem single (hkind : name.kind = .name) (hword : name.valueText = segment.word)
    (hstops : ∀ front' previous dot, front = front' ++ [previous, dot] → previous.kind = .name →
      dot.kind = .dot → previous.Adjoins dot → ¬ dot.Adjoins name) :
    GaplessEnd (front ++ [name]) [name] (.single segment) := by
  refine ⟨List.suffix_append _ _, .single hkind hword, List.isChain_singleton _, ?_⟩
  intro kept' path' hsuffix hpath hchain
  cases hpath with
  | @single name' _ _ _ =>
      have hsame : [] ++ [name'] <:+ front ++ [name] := hsuffix
      obtain ⟨-, rfl⟩ := append_singleton_suffix_iff.1 hsame
      exact List.suffix_refl _
  | @push kept' _ dot name' _ hpath hdot _ _ =>
      rcases hpath.exists_last with ⟨front', previous, rfl, hprevious⟩
      have hsame : front' ++ [previous, dot] ++ [name'] <:+ front ++ [name] := by
        simpa using hsuffix
      obtain ⟨⟨more, hfront⟩, rfl⟩ := append_singleton_suffix_iff.1 hsame
      rw [List.append_assoc] at hchain
      rcases List.isChain_append.1 hchain with ⟨-, hlast, -⟩
      simp only [List.cons_append, List.nil_append, List.isChain_cons_cons] at hlast
      rw [← List.append_assoc] at hfront
      exact absurd hlast.2.1 (hstops _ _ _ hfront.symm hprevious hdot hlast.1)

/-- A path without a gap goes on with a dot and a name that stand right behind it. -/
theorem push (h : GaplessEnd (front ++ [previous]) kept path) (hdot : dot.kind = .dot)
    (hkind : name.kind = .name) (hword : name.valueText = segment.word)
    (hprevious : previous.Adjoins dot) (hadjoins : dot.Adjoins name) :
    GaplessEnd (front ++ [previous] ++ [dot, name]) (kept ++ [dot, name]) (path.push segment) := by
  have hextend : ∀ {ends : List Token}, ends <:+ kept → ends ++ [dot, name] <:+ kept ++ [dot, name] :=
    fun hends => (List.suffix_append_inj_of_length_eq (by rfl)).2 ⟨hends, rfl⟩
  rcases h.pathTokens.exists_last with ⟨kept', last, rfl, -⟩
  obtain rfl : last = previous := (append_singleton_suffix_iff.1 h.isSuffix).2
  refine ⟨(List.suffix_append_inj_of_length_eq (by rfl)).2 ⟨h.isSuffix, rfl⟩,
    .push h.pathTokens hdot hkind hword, ?_, ?_⟩
  · refine List.isChain_append.2 ⟨h.adjoins, by simpa using hadjoins, ?_⟩
    simpa using hprevious
  · intro ends path' hsuffix hpath hchain
    cases hpath with
    | @single name' _ _ _ =>
        have hsame : [] ++ [name'] <:+ front ++ [last, dot] ++ [name] := by simpa using hsuffix
        obtain ⟨-, rfl⟩ := append_singleton_suffix_iff.1 hsame
        exact ⟨kept' ++ [last] ++ [dot], by simp⟩
    | @push ends _ dot' name' _ hpath _ _ _ =>
        rcases (List.suffix_append_inj_of_length_eq (by rfl)).1 hsuffix with ⟨hends, htail⟩
        rw [htail]
        exact hextend (h.longest _ _ hends hpath hchain.left_of_append)

/-- What stands in front does not matter if no path goes on with its last token, or if there is a
gap behind it. -/
theorem of_append_of_stops (h : GaplessEnd (front ++ run) kept path)
    (hstops : ∀ token ∈ front.getLast?, (token.kind ≠ .name ∧ token.kind ≠ .dot) ∨
      ∃ first ∈ run.head?, ¬ token.Adjoins first) :
    GaplessEnd run kept path := by
  refine ⟨?_, h.pathTokens, h.adjoins, fun kept' path' hsuffix =>
    h.longest kept' path' (List.suffix_append_of_suffix hsuffix)⟩
  rcases List.suffix_or_suffix_of_suffix h.isSuffix (List.suffix_append front run) with
    hsuffix | ⟨more, rfl⟩
  · exact hsuffix
  · -- what is kept would go on in front with a token that no path has, or across a gap
    have hmore : more <:+ front :=
      ((List.suffix_append_inj_of_length_eq (by rfl)).1 h.isSuffix).1
    rcases List.eq_nil_or_concat more with rfl | ⟨more, token, rfl⟩
    · exact List.suffix_refl _
    · rw [List.concat_eq_append] at hmore
      have hlast : token ∈ front.getLast? := by
        rcases hmore with ⟨first, rfl⟩
        simp
      rcases hstops token hlast with hkinds | ⟨first, hfirst, hgap⟩
      · rcases h.pathTokens.kind_cases token (by simp) with hkind | hkind
        · exact absurd hkind hkinds.1
        · exact absurd hkind hkinds.2
      · rw [List.concat_eq_append] at h
        exact absurd ((List.isChain_append.1 h.adjoins).2.2 token (by simp) first hfirst) hgap

/-- Only the names and dots at the end matter. -/
theorem of_append (h : GaplessEnd (front ++ run) kept path)
    (hfront : ∀ token ∈ front.getLast?, token.kind ≠ .name ∧ token.kind ≠ .dot) :
    GaplessEnd run kept path :=
  h.of_append_of_stops fun token htoken => .inl (hfront token htoken)

/-- A path without a gap is kept as a whole. -/
theorem kept_eq (h : GaplessEnd run kept path) (hrun : PathTokens run named)
    (hchain : run.IsChain Token.Adjoins) : kept = run := by
  have hsuffix := h.longest run named (List.suffix_refl run) hrun hchain
  exact h.isSuffix.eq_of_length_le hsuffix.length_le

/-- There is one longest end. -/
theorem kept_unique (h : GaplessEnd tokens kept path) (h' : GaplessEnd tokens run named) :
    kept = run := by
  have hrun := h.longest run named h'.isSuffix h'.pathTokens h'.adjoins
  have hkept := h'.longest kept path h.isSuffix h.pathTokens h.adjoins
  exact hkept.eq_of_length_le hrun.length_le

theorem path_unique (h : GaplessEnd tokens kept path) (h' : GaplessEnd tokens run named) :
    path = named :=
  h.pathTokens.path_eq (h.kept_unique h' ▸ h'.pathTokens)

/-- Of the tokens of a path, all are kept exactly if there is no gap. -/
theorem eq_iff (h : GaplessEnd run kept path) (hrun : PathTokens run named) :
    path = named ↔ run.IsChain Token.Adjoins := by
  constructor
  · rintro rfl
    have hlength : kept.length = run.length := by
      have hkept := h.pathTokens.length_eq
      have hrun := hrun.length_eq
      omega
    exact h.isSuffix.eq_of_length hlength ▸ h.adjoins
  · intro hchain
    exact h.pathTokens.path_eq (h.kept_eq hrun hchain ▸ hrun)

end GaplessEnd
end

/-! ## Reading backwards -/

namespace Completion

variable {name dot later : Token} {rest tokens front kept run : List Token} {path : FieldPath}

theorem mem_runBefore (later : Token) (tokens : List Token) : later ∈ runBefore later tokens := by
  fun_cases runBefore later tokens <;> simp

theorem runBefore_name (hlater : later.kind = .name) (token : Token) :
    runBefore later (token :: tokens) =
      if token.Adjoins later ∧ token.kind = .dot then runBefore token tokens ++ [later]
      else [later] := by
  rw [runBefore]
  exact if_congr (by simp [hlater, Token.Adjoins]) rfl rfl

theorem runBefore_dot (hlater : later.kind = .dot) (token : Token) :
    runBefore later (token :: tokens) =
      if token.Adjoins later ∧ token.kind = .name then runBefore token tokens ++ [later]
      else [later] := by
  rw [runBefore]
  exact if_congr (by simp [hlater, Token.Adjoins]) rfl rfl

/-- Going back from a name, the path goes on in front of it if a dot and another name stand there
without a gap, and it starts with the name otherwise. -/
theorem pathRun_cases (rest : List Token) (hname : name.kind = .name) :
    (∃ dot previous more, rest = dot :: previous :: more ∧ dot.kind = .dot ∧
        previous.kind = .name ∧ previous.Adjoins dot ∧ dot.Adjoins name ∧
        pathRun (name :: rest) = pathRun (previous :: more) ++ [dot, name]) ∨
      (pathRun (name :: rest) = [name] ∧
        ∀ dot previous more, rest = dot :: previous :: more → previous.kind = .name →
          dot.kind = .dot → previous.Adjoins dot → ¬ dot.Adjoins name) := by
  have hrun : ∀ rest, pathRun (name :: rest) =
      (runBefore name rest).dropWhile fun token => token.kind = .dot := by
    simp [pathRun, hname]
  rw [hrun]
  cases rest with
  | nil => exact .inr ⟨by simp [runBefore, hname], by simp⟩
  | cons dot rest =>
      rw [runBefore_name hname]
      by_cases hdot : dot.Adjoins name ∧ dot.kind = .dot
      · rw [if_pos hdot]
        cases rest with
        | nil => exact .inr ⟨by simp [runBefore, hname, hdot.2], by simp⟩
        | cons previous more =>
            rw [runBefore_dot hdot.2]
            by_cases hprevious : previous.Adjoins dot ∧ previous.kind = .name
            · refine .inl ⟨dot, previous, more, rfl, hdot.2, hprevious.2, hprevious.1, hdot.1, ?_⟩
              -- the name that goes on in front is no dot, so it is not dropped
              have hkeeps : (runBefore previous more).dropWhile (fun t => t.kind = .dot) ≠ [] := by
                intro hnil
                have hdots := List.dropWhile_eq_nil_iff.1 hnil previous (mem_runBefore _ _)
                simp [hprevious.2] at hdots
              rw [if_pos hprevious, pathRun, if_pos (.inl hprevious.2), List.append_assoc,
                List.dropWhile_append, if_neg (by simpa using hkeeps)]
              rfl
            · rw [if_neg hprevious]
              refine .inr ⟨by simp [hname, hdot.2], ?_⟩
              rintro _ _ _ ⟨⟩ hkind - hadjoins
              exact absurd ⟨hadjoins, hkind⟩ hprevious
      · rw [if_neg hdot]
        refine .inr ⟨by simp [hname], ?_⟩
        rintro _ _ _ ⟨⟩ - hkind - hadjoins
        exact hdot ⟨hadjoins, hkind⟩

/-- Going back from a name finds the longest path without a gap. -/
theorem gaplessEnd_pathRun (hname : name.kind = .name)
    (hagrees : ∀ token ∈ name :: rest, token.agrees = true) :
    ∃ path, GaplessEnd (name :: rest).reverse (pathRun (name :: rest)) path := by
  induction hlength : rest.length using Nat.strong_induction_on generalizing name rest with
  | _ n ih =>
      have hsegment := Token.isSegment_of_agrees (hagrees name (by simp)) hname
      have hword : name.valueText = (⟨name.valueText, hsegment⟩ : Segment).word := rfl
      rcases pathRun_cases rest hname with
        ⟨dot, previous, more, rfl, hdot, hprevious, hbefore, hbehind, hrun⟩ | ⟨hrun, hstops⟩
      · have hshorter : more.length < n := by
          simp only [List.length_cons] at hlength
          omega
        rcases ih _ hshorter hprevious (fun t ht => hagrees t (by simp_all)) rfl with ⟨path, hpath⟩
        rw [hrun]
        rw [List.reverse_cons] at hpath
        exact ⟨_, by simpa using hpath.push hdot hname hword hbefore hbehind⟩
      · rw [hrun, List.reverse_cons]
        refine ⟨_, .single hname hword ?_⟩
        intro front previous dot hfront
        refine hstops dot previous front.reverse ?_
        rw [← List.reverse_reverse rest, hfront]
        simp

/-- Some path without a gap ends with a name. -/
theorem exists_gaplessEnd {name : Token} (hlast : name ∈ tokens.getLast?)
    (hkind : name.kind = .name) (hagrees : ∀ token ∈ tokens, token.agrees = true) :
    ∃ path, GaplessEnd tokens (pathRun tokens.reverse) path := by
  rcases List.getLast?_eq_some_iff.1 hlast with ⟨more, rfl⟩
  have hreverse : (more ++ [name]).reverse = name :: more.reverse := by simp
  have hback : ∀ token ∈ name :: more.reverse, token.agrees = true := by
    rw [← hreverse]
    exact fun token htoken => hagrees token (List.mem_reverse.1 htoken)
  rcases gaplessEnd_pathRun hkind hback with ⟨path, hpath⟩
  rw [← hreverse, List.reverse_reverse] at hpath
  exact ⟨path, hpath⟩

/-- Going back finds the longest path without a gap. -/
theorem pathRun_of_gaplessEnd {path : FieldPath} (hpath : GaplessEnd tokens kept path)
    (hagrees : ∀ token ∈ tokens, token.agrees = true) : pathRun tokens.reverse = kept := by
  rcases hpath.isSuffix with ⟨more, rfl⟩
  rcases hpath.pathTokens.exists_last with ⟨names, name, rfl, hname⟩
  rcases exists_gaplessEnd (by simp) hname hagrees with ⟨found, hfound⟩
  exact hfound.kept_unique hpath

/-- Going back from the end of a path without a gap finds the path, if nothing in front of it can
belong to it. -/
theorem pathRun_append (hrun : PathTokens run path) (hchain : run.IsChain Token.Adjoins)
    (hstops : ∀ token ∈ front.getLast?, (token.kind ≠ .name ∧ token.kind ≠ .dot) ∨
      ∃ first ∈ run.head?, ¬ token.Adjoins first)
    (hagrees : ∀ token ∈ front ++ run, token.agrees = true) :
    pathRun (front ++ run).reverse = run := by
  rcases hrun.exists_last with ⟨before, name, rfl, hname⟩
  rcases exists_gaplessEnd (by simp) hname hagrees with ⟨found, hfound⟩
  exact (hfound.of_append_of_stops hstops).kept_eq hrun hchain

/-- Going back from a dot right behind a name finds the path that ends with the name, and the
dot. -/
theorem pathRun_dot (hdot : dot.kind = .dot) (hname : name.kind = .name)
    (hadjoins : name.Adjoins dot) (rest : List Token) :
    pathRun (dot :: name :: rest) = pathRun (name :: rest) ++ [dot] := by
  have hkeeps : (runBefore name rest).dropWhile (fun token => token.kind = .dot) ≠ [] := by
    intro hnil
    have hdots := List.dropWhile_eq_nil_iff.1 hnil name (mem_runBefore _ _)
    simp [hname] at hdots
  rw [pathRun, if_pos (.inr hdot), runBefore_dot hdot, if_pos ⟨hadjoins, hname⟩, pathRun,
    if_pos (.inl hname), List.dropWhile_append, if_neg (by simpa using hkeeps)]

/-- Going back from any other dot finds no path. -/
theorem pathRun_dot_eq_nil (hdot : dot.kind = .dot)
    (hstops : ∀ name ∈ rest.head?, name.kind = .name → ¬ name.Adjoins dot) :
    pathRun (dot :: rest) = [] := by
  rw [pathRun, if_pos (.inr hdot)]
  cases rest with
  | nil => simp [runBefore, hdot]
  | cons name rest =>
      have hnot : ¬ (name.Adjoins dot ∧ name.kind = .name) := fun h => hstops name rfl h.2 h.1
      rw [runBefore_dot hdot, if_neg hnot]
      simp [hdot]

/-- The path that ends some tokens is the one that going back finds, and there always is one behind
a name. -/
theorem pathEnding_eq (hname : name.kind = .name)
    (hpath : PathTokens (pathRun (name :: rest)) path) :
    pathEnding (name :: rest) = some path := by
  have hwords := FieldPath.ofWords_eq_ok_iff.2 hpath.words_eq
  simp only [pathEnding, if_pos hname, hwords]
  rfl

end Completion

/-! ## The path that is compared -/

/-- The path of the comparison that is being read, once its last name has been read. -/
def Awaiting.path? : Awaiting → Option FieldPath
  | .path field | .inWord field => some field
  | .value field _ | .list field _ | .firstItem field _ => some field
  | .nextItem field _ _ | .separator field _ _ => some field
  | .operand | .segment _ | .connective _ => none

/-- What stands behind a path where a scope is reported: nothing, a comparator, or the word `in`,
perhaps with the parenthesis of a list. -/
inductive Behind : Scope → List Token → Prop where
  | comparison : Behind .comparison []
  | value {last : Token} (hlast : last.kind.isComparator = true ∨ last.kind = .inWord) :
      Behind .value [last]
  | list {last openParen : Token} (hlast : last.kind = .inWord)
      (hopen : openParen.kind = .openParen) : Behind .value [last, openParen]

namespace Reading

variable {d room limit leaked : Nat} {r r' : Reading} {token : Token} {tokens : List Token}
  {outer : List Level} {inner : Level} {path : FieldPath}

theorem Waits.kind_of_getLast? {layer : Layer} {word : TokenKind} {left : Option Expr}
    (h : Waits d layer word tokens left) : ∀ t ∈ tokens.getLast?, t.kind = word := by
  cases h with
  | none => simp
  | some _ hword => simpa using hword

theorem Opened.kind_of_getLast? (h : Opened room outer tokens) :
    ∀ t ∈ tokens.getLast?, t.kind = .openParen := by
  cases h with
  | nil => simp
  | cons _ _ _ hkind => simpa using hkind

/-- The path that has just been read is that of all names and dots at the end. -/
theorem Read.exists_path (h : Read room tokens ⟨outer, inner, .path path⟩) :
    ∃ front run, tokens = front ++ run ∧ PathTokens run path ∧
      ∀ t ∈ front.getLast?, t.kind ≠ .name ∧ t.kind ≠ .dot := by
  rcases h.exists_split with ⟨before, waiting, pending, rfl, hopened, hwaiting, hpending⟩
  rcases hwaiting.exists_split with ⟨disjuncts, conjuncts, rfl, hdisjuncts, hconjuncts⟩
  cases hpending with
  | path hpath =>
      refine ⟨before ++ (disjuncts ++ conjuncts), pending, rfl, hpath, ?_⟩
      intro t ht
      simp only [List.getLast?_append, Option.mem_def, Option.or_eq_some_iff] at ht
      have hkind : t.kind = .openParen ∨ t.kind = .orWord ∨ t.kind = .andWord := by
        rcases ht with (hconjunct | ⟨-, hdisjunct⟩) | ⟨-, hbefore⟩
        · exact .inr (.inr (hconjuncts.kind_of_getLast? t hconjunct))
        · exact .inr (.inl (hdisjuncts.kind_of_getLast? t hdisjunct))
        · exact .inl (hopened.kind_of_getLast? t hbefore)
      rcases hkind with hkind | hkind | hkind <;> simp [hkind]

/-- Comparators and parentheses of lists go on with the comparison. -/
theorem Moves.path?_eq (h : Moves room r token r') (hpath : r.awaiting.path? = some path)
    (hkind : token.kind.isComparator = true ∨ token.kind = .inWord ∨ token.kind = .openParen)
    (hagrees : token.agrees = true) : r'.awaiting.path? = some path := by
  have hliteral : token.kind.isLiteral = false := by
    cases hlast : token.kind <;> simp_all [TokenKind.isComparator, TokenKind.comparator?,
      TokenKind.isLiteral]
  cases h with
  | value hvalue | firstItem hvalue | nextItem hvalue =>
      rw [isLiteral_of_literal? hagrees hvalue] at hliteral
      cases hliteral
  | dot hdot | closeList hdot => simp [hdot, TokenKind.isComparator, TokenKind.comparator?] at hkind
  | openGroup | firstSegment | nextSegment | connective | closeGroup => cases hpath
  | _ => exact hpath

theorem path?_of_run (hrun : run limit leaked r tokens = .ok r')
    (hpath : r.awaiting.path? = some path)
    (hkinds : ∀ t ∈ tokens, t.kind.isComparator = true ∨ t.kind = .inWord ∨ t.kind = .openParen)
    (hagrees : ∀ t ∈ tokens, t.agrees = true) : r'.awaiting.path? = some path := by
  induction tokens generalizing r with
  | nil =>
      cases hrun
      exact hpath
  | cons token tokens ih =>
      rcases exists_of_run_cons hrun with ⟨r₁, hmoves, hrun₁⟩
      have hpath₁ := hmoves.path?_eq hpath (hkinds token (by simp)) (hagrees token (by simp))
      exact ih hrun₁ hpath₁ (fun t ht => hkinds t (by simp [ht])) fun t ht => hagrees t (by simp [ht])

end Reading

theorem Behind.kinds {scope : Scope} {back : List Token} (h : Behind scope back) :
    ∀ t ∈ back, t.kind.isComparator = true ∨ t.kind = .inWord ∨ t.kind = .openParen := by
  cases h with
  | comparison => simp
  | value hlast => simpa [← or_assoc] using .inl hlast
  | list hlast hopen => simp [hlast, hopen]

namespace Completion

open Reading

variable {q before : List Char} {name : Token} {rest back tokens : List Token} {gap : Bool}
  {scope : Scope} {path : Option FieldPath}

theorem agrees_of_mem_finished (before : List Char) :
    ∀ token ∈ finished before, token.agrees = true := fun token htoken =>
  TokenStream.agrees_of_mem_ofText before token
    ((finished_isPrefix before).subset (List.mem_reverse.2 htoken))

/-- The path comes from a name, and what stands behind the name is told by the scope. -/
theorem Announced.exists_name (h : Announced gap tokens scope path)
    (hscope : scope = .comparison ∨ scope = .value) :
    ∃ name rest, name.kind = .name ∧ path = pathEnding (name :: rest) ∧ name :: rest <:+ tokens ∧
      ∀ q, Begins q → ReadsAs q tokens.reverse →
        ∃ back, Behind scope back ∧
          (TokenStream.ofText q).tokens = (name :: rest).reverse ++ back := by
  cases h with
  | start | connective | group | logical => simp at hscope
  | @comparison last rest _ hlast =>
      refine ⟨last, rest, hlast, rfl, List.suffix_refl _, ?_⟩
      rintro q hbegins (htokens | ⟨openParen, hkind, htokens⟩)
      · exact ⟨[], .comparison, by simpa using htokens⟩
      · -- no parenthesis follows a name
        rw [List.reverse_cons] at htokens
        have hcases := cases_of_openParen hbegins htokens hkind
        simp [hlast, TokenKind.isConnective, TokenKind.connective?] at hcases
  | @value last name rest _ hlast hname =>
      refine ⟨name, rest, hname, rfl, List.suffix_cons _ _, ?_⟩
      rintro q hbegins (htokens | ⟨openParen, hkind, htokens⟩)
      · exact ⟨[last], .value hlast, by simpa using htokens⟩
      · rw [List.reverse_cons] at htokens
        have hlist : last.kind = .inWord := by
          rcases cases_of_openParen hbegins htokens hkind with hgroup | ⟨hin, -⟩
          · cases hkinds : last.kind <;> simp_all [TokenKind.isComparator, TokenKind.comparator?,
              TokenKind.isConnective, TokenKind.connective?]
          · exact hin
        exact ⟨[last, openParen], .list hlist hkind, by simpa using htokens⟩

/-- Behind a name the machine compares the path of all names and dots that end there. -/
theorem exists_named (hbegins : Begins q) (hname : name.kind = .name)
    (htokens : (TokenStream.ofText q).tokens = (name :: rest).reverse ++ back)
    (hback : Behind scope back) :
    ∃ front run named r, (name :: rest).reverse = front ++ run ∧ PathTokens run named ∧
      (∀ t ∈ front.getLast?, t.kind ≠ .name ∧ t.kind ≠ .dot) ∧
      ReadsTo q r ∧ r.awaiting.path? = some named := by
  rcases Query.begins_iff.1 hbegins with ⟨r, herror, limit, hrun⟩
  have hreads : ReadsTo q r := ⟨herror, limit, hrun⟩
  have hagrees := TokenStream.agrees_of_mem_ofText q
  rw [htokens] at hrun hagrees
  rcases exists_run_of_append hrun with ⟨r₀, hrun₀⟩
  rw [run_append hrun₀] at hrun
  have hbefore : ∀ t ∈ (name :: rest).reverse, t.agrees = true := fun t ht =>
    hagrees t (List.mem_append_left _ ht)
  have hread : Read (limit - 0) ([] ++ (name :: rest).reverse) r₀ := Read.nil.of_run hrun₀ hbefore
  -- behind the name the machine has just read a path
  rw [List.reverse_cons] at hrun₀
  rcases exists_of_run_append_singleton hrun₀ (hbefore name (by simp)) with ⟨_, -, -, hleads⟩
  rw [hname] at hleads
  rcases r₀ with ⟨outer, inner, awaiting⟩
  obtain ⟨named, rfl⟩ := hleads.path_of_name
  rcases hread.exists_path with ⟨front, run, hsplit, hpath, hfront⟩
  exact ⟨front, run, named, r, hsplit, hpath, hfront, hreads,
    path?_of_run hrun rfl hback.kinds fun t ht => hagrees t (List.mem_append_right _ ht)⟩

/-- Behind a path, and behind a path and a comparator, a completion comes with a path.  If the text
without what is being typed begins a query, its tokens end with the names and dots of the path that
the machine compares, and behind them those that the scope tells.  The path of the completion is the
longest end of that path without a gap: the same path exactly if its names and dots stand next to
each other. -/
theorem path_atOffset (source : List Char) (cursor : Nat) (scope : Scope)
    (hreported : (atOffset source cursor).scope = some scope)
    (hscope : scope = .comparison ∨ scope = .value) :
    ∃ path, (atOffset source cursor).path = some path ∧
      ∃ q, q ++ (atOffset source cursor).typed = Text.takeBytes cursor source ∧
        (Begins q → ∃ front run back kept named r,
          (TokenStream.ofText q).tokens = front ++ run ++ back ∧ Behind scope back ∧
          PathTokens run named ∧ (∀ t ∈ front.getLast?, t.kind ≠ .name ∧ t.kind ≠ .dot) ∧
          ReadsTo q r ∧ r.awaiting.path? = some named ∧
          GaplessEnd run kept path ∧ (path = named ↔ run.IsChain Token.Adjoins)) := by
  rw [atOffset] at hreported ⊢
  generalize Text.takeBytes cursor source = before at hreported ⊢
  rcases ofText_eq before with ⟨gapStart, hpath⟩ | hafter
  · -- inside a path only fields are reported
    rw [hpath, (ofPath_cases before (finished before) gapStart).2] at hreported
    rcases Option.map_eq_some_iff.1 hreported with ⟨_, -, rfl⟩
    simp at hscope
  · rcases typedOutside_suffix before with ⟨q, hq⟩
    rw [hafter] at hreported ⊢
    have hannounced : Announced (blanksBehind before) (finished before) scope
        (scopeAfter (finished before) (blanksBehind before) (typedOutside before)).2 :=
      announced_of_scopeAfter (Prod.ext hreported rfl)
    rcases hannounced.exists_name hscope with ⟨name, rest, hname, hending, hsuffix, hbehind⟩
    have hagrees : ∀ t ∈ name :: rest, t.agrees = true := fun t ht =>
      agrees_of_mem_finished before t (hsuffix.subset ht)
    rcases gaplessEnd_pathRun hname hagrees with ⟨path, hpath⟩
    refine ⟨path, hending.trans (pathEnding_eq hname hpath.pathTokens), q, hq, ?_⟩
    intro hbegins
    rcases hbehind q hbegins (readsAs_finished hq hbegins) with ⟨back, hback, htokens⟩
    rcases exists_named hbegins hname htokens hback with
      ⟨front, run, named, r, hsplit, hrun, hfront, hreads, hnamed⟩
    rw [hsplit] at hpath htokens
    have hend := hpath.of_append hfront
    exact ⟨front, run, back, _, named, r, htokens, hback, hrun, hfront, hreads, hnamed, hend,
      hend.eq_iff hrun⟩

/-- Inside a string behind a comparator the path is that of the comparison. -/
theorem path_atOffset_openString :
    let source := "author.name = \"Ja".toList
    let path : FieldPath := ⟨⟨"author", by decide⟩, [⟨"name", by decide⟩]⟩
    (atOffset source 17).scope = some .value ∧ (atOffset source 17).path = some path ∧
      Begins "author.name = ".toList ∧
      ∃ run named r, PathTokens run named ∧ ReadsTo "author.name = ".toList r ∧
        r.awaiting.path? = some named ∧ (path = named ↔ run.IsChain Token.Adjoins) := by
  intro source path
  have hcompletion : atOffset source 17 = ⟨"\"Ja".toList, some .value, some path⟩ := by
    decide +kernel
  have hreads : ReadsTo "author.name = ".toList ⟨[], {}, .value path .equal⟩ :=
    ⟨by decide +kernel, 0, by decide +kernel⟩
  have hbegins : Begins "author.name = ".toList := Query.begins_iff.2 ⟨_, hreads⟩
  have hscope : (atOffset source 17).scope = some .value := congrArg scope hcompletion
  have hpath : (atOffset source 17).path = some path := congrArg Completion.path hcompletion
  rcases path_atOffset source 17 .value hscope (.inr rfl) with ⟨path', hpath', q, hq, htokens⟩
  obtain rfl : path' = path := Option.some.inj (hpath'.symm.trans hpath)
  obtain rfl : q = "author.name = ".toList := by
    have hwhole : Text.takeBytes 17 source = "author.name = ".toList ++ "\"Ja".toList := by
      decide +kernel
    rw [hcompletion, hwhole] at hq
    exact List.append_cancel_right hq
  rcases htokens hbegins with ⟨-, run, -, -, named, r, -, -, hrun, -, hreads', hnamed, -, hiff⟩
  exact ⟨hscope, hpath, hbegins, run, named, r, hrun, hreads', hnamed, hiff⟩

/-- A comparison that is not finished, with blanks around the dot of its path. -/
def spacedPath : List Char :=
  "a . b = ".toList

/-- Behind a path with blanks in it a part of the path is reported, but all of it is compared. -/
theorem path_atOffset_ne_spacedPath :
    let last : FieldPath := .single ⟨"b", by decide⟩
    let path : FieldPath := ⟨⟨"a", by decide⟩, [⟨"b", by decide⟩]⟩
    atOffset spacedPath 8 = ⟨[], some .value, some last⟩ ∧ Begins spacedPath ∧
      ReadsTo spacedPath ⟨[], {}, .value path .equal⟩ ∧
      Query.parse 0 (spacedPath ++ ['1']) = .ok (.comparison path .equal (.single (.int 1))) ∧
      (atOffset spacedPath 8).path ≠ some path := by
  intro last path
  have hreads : ReadsTo spacedPath ⟨[], {}, .value path .equal⟩ :=
    ⟨by decide +kernel, 0, by decide +kernel⟩
  exact ⟨by decide +kernel, Query.begins_iff.2 ⟨_, hreads⟩, hreads, by decide +kernel,
    by decide +kernel⟩

end Completion

end FieldFilter
