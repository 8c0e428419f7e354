import FieldFilter.Proofs.Paths
import Mathlib.Data.List.Forall2
import Mathlib.Data.List.Pairwise

/-!
# The comparisons of a query along its tokens

A tree groups its comparisons by connectives and parentheses, but keeps them in the order in which
the query has them.  So its paths are found in the tokens without parsing: as the longest runs of
names with dots between them, from left to right.

* `Expr.leaves`, `Expr.depth_le_length_paths` — the comparisons of a tree, and its height;
* `Stretch`, `IsPathRun` — stretches of tokens, and those that are names and dots in turn;
* `Mentions` — stretches that hold paths, with all names and dots in them and gaps between them;
* `Mentions.mem_iff` — these are the longest such stretches;
* `Derives.mentions`, `Derives.length_paths` — the tree that the grammar derives from tokens;
* `Query.paths_of_parse` — the tree that a text stands for.
-/

namespace FieldFilter

/-! ## Measures of a tree -/

namespace Expr

/-- The comparisons of a tree, from left to right. -/
def leaves : Expr → List (FieldPath × Comparator × Operand)
  | .comparison path op right => [(path, op, right)]
  | .logical left _ right => left.leaves ++ right.leaves

theorem paths_eq_map_leaves (e : Expr) : e.paths = e.leaves.map Prod.fst := by
  induction e with
  | comparison path op right => rfl
  | logical left op right ihl ihr => rw [paths, leaves, List.map_append, ihl, ihr]

theorem one_le_depth (e : Expr) : 1 ≤ e.depth := by
  cases e with
  | comparison path op right => exact Nat.le_refl 1
  | logical left op right => exact Nat.le_add_right 1 _

/-- A tree is at most as high as a chain of its comparisons. -/
theorem depth_le_length_paths (e : Expr) : e.depth ≤ e.paths.length := by
  induction e with
  | comparison path op right => exact Nat.le_refl 1
  | logical left op right ihl ihr =>
      -- the lower side still has a comparison, which makes up for the connective
      have hleft := left.one_le_depth
      have hright := right.one_le_depth
      rw [depth, paths, List.length_append]
      omega

end Expr

/-! ## Stretches of tokens -/

/-- The places in a list of tokens from `start` up to, not including, `stop`. -/
structure Stretch where
  start : Nat
  stop : Nat
  deriving DecidableEq, Repr

namespace Stretch

/-- The tokens of a stretch. -/
def of (s : Stretch) (tokens : List Token) : List Token :=
  (tokens.take s.stop).drop s.start

/-- The stretch after so many more tokens in front. -/
def behind (n : Nat) (s : Stretch) : Stretch :=
  ⟨n + s.start, n + s.stop⟩

@[simp] theorem start_behind (n : Nat) (s : Stretch) : (s.behind n).start = n + s.start := rfl

@[simp] theorem stop_behind (n : Nat) (s : Stretch) : (s.behind n).stop = n + s.stop := rfl

/-- A stretch is at most another one if it is a part of it. -/
instance : LE Stretch :=
  ⟨fun s t => t.start ≤ s.start ∧ s.stop ≤ t.stop⟩

variable {s t : Stretch} {tokens front back : List Token} {token : Token} {i : Nat}

theorem le_iff : s ≤ t ↔ t.start ≤ s.start ∧ s.stop ≤ t.stop := Iff.rfl

theorem eq_of_le_of_le (h : s ≤ t) (h' : t ≤ s) : s = t := by
  rcases s with ⟨start, stop⟩
  rcases t with ⟨start', stop'⟩
  rw [mk.injEq]
  exact ⟨Nat.le_antisymm h'.1 h.1, Nat.le_antisymm h.2 h'.2⟩

theorem of_whole (tokens : List Token) : (⟨0, tokens.length⟩ : Stretch).of tokens = tokens := by
  simp [of]

theorem of_append_left (h : s.stop ≤ front.length) : s.of (front ++ back) = s.of front := by
  rw [of, List.take_append_of_le_length h, of]

theorem of_append_right (s : Stretch) (front back : List Token) :
    (s.behind front.length).of (front ++ back) = s.of back := by
  rw [of, behind, List.take_length_add_append, List.drop_length_add_append, of]

theorem mem_of (htoken : tokens[i]? = some token) (hstart : s.start ≤ i) (hstop : i < s.stop) :
    token ∈ s.of tokens := by
  refine List.mem_of_getElem? (i := i - s.start) ?_
  rw [of, List.getElem?_drop, Nat.add_sub_cancel' hstart, List.getElem?_take_of_lt hstop, htoken]

theorem subset (s : Stretch) (tokens : List Token) : s.of tokens ⊆ tokens :=
  fun _ h => List.mem_of_mem_take (List.mem_of_mem_drop h)

end Stretch

/-! ## Runs of names and dots -/

/-- A token of the kinds that paths consist of. -/
def Token.InPath (token : Token) : Prop :=
  token.kind = .name ∨ token.kind = .dot

theorem Alternates.inPath {tokens : List Token} (h : Alternates tokens) :
    ∀ token ∈ tokens, token.InPath := by
  rcases h with ⟨n, hn⟩
  intro token htoken
  have hkind : token.kind ∈ TokenKind.name :: (List.replicate n [.dot, .name]).flatten :=
    hn ▸ List.mem_map_of_mem htoken
  rcases List.mem_cons.1 hkind with hkind | hkind
  · exact .inl hkind
  · rcases List.mem_flatten.1 hkind with ⟨pair, hpair, hkind⟩
    rw [List.eq_of_mem_replicate hpair] at hkind
    simpa [Token.InPath, or_comm] using hkind

/-- A stretch of tokens that are names and dots in turn. -/
def IsPathRun (tokens : List Token) (s : Stretch) : Prop :=
  s.stop ≤ tokens.length ∧ Alternates (s.of tokens)

namespace IsPathRun

variable {s : Stretch} {tokens : List Token} {i : Nat}

theorem start_lt_stop (h : IsPathRun tokens s) : s.start < s.stop := by
  rcases h with ⟨hstop, n, hn⟩
  have hlength : 0 < (s.of tokens).length := by
    rw [← List.length_map (f := Token.kind), hn]
    exact Nat.zero_lt_succ _
  rw [Stretch.of, List.length_drop, List.length_take_of_le hstop] at hlength
  omega

theorem exists_token (h : IsPathRun tokens s) (hstart : s.start ≤ i) (hstop : i < s.stop) :
    ∃ token, tokens[i]? = some token ∧ token.InPath := by
  have hi : i < tokens.length := Nat.lt_of_lt_of_le hstop h.1
  have htoken : tokens[i]? = some tokens[i] := List.getElem?_eq_getElem hi
  exact ⟨_, htoken, h.2.inPath _ (Stretch.mem_of htoken hstart hstop)⟩

end IsPathRun

/-! ## Mentioned paths -/

/-- Stretches of tokens that hold the tokens of paths, in order and with a gap between each two of
them.  Every name and every dot stands in one of them. -/
structure Mentions (tokens : List Token) (runs : List Stretch) (paths : List FieldPath) : Prop where
  reads : List.Forall₂ (fun run path => run.stop ≤ tokens.length ∧
    PathTokens (run.of tokens) path) runs paths
  apart : runs.Pairwise fun run next => run.stop < next.start
  covers : ∀ i token, tokens[i]? = some token → token.InPath →
    ∃ run ∈ runs, run.start ≤ i ∧ i < run.stop

namespace Mentions

variable {tokens front back : List Token} {runs runs' : List Stretch}
  {paths paths' : List FieldPath} {path : FieldPath} {word : Token} {run other : Stretch} {i : Nat}

theorem none (h : ∀ token ∈ tokens, ¬ token.InPath) : Mentions tokens [] [] :=
  ⟨.nil, .nil, fun _ token htoken hpath => absurd hpath (h token (List.mem_of_getElem? htoken))⟩

theorem whole (h : PathTokens tokens path) : Mentions tokens [⟨0, tokens.length⟩] [path] := by
  refine ⟨.cons ⟨Nat.le_refl _, ?_⟩ .nil, List.pairwise_singleton _ _, ?_⟩
  · rwa [Stretch.of_whole]
  · intro i token htoken _
    exact ⟨_, List.mem_singleton_self _, Nat.zero_le i, (List.getElem?_eq_some_iff.1 htoken).1⟩

theorem isPathRun (h : Mentions tokens runs paths) (hrun : run ∈ runs) : IsPathRun tokens run := by
  have hall := h.reads
  generalize runs = runs at hall hrun
  generalize paths = paths at hall
  induction hall with
  | nil => cases hrun
  | cons hread _ ih =>
      rcases List.mem_cons.1 hrun with rfl | hrun
      · exact ⟨hread.1, hread.2.alternates⟩
      · exact ih hrun

/-- What two lists of tokens mention is mentioned by both with a token between them that no path
has. -/
theorem append (h : Mentions front runs paths) (hword : ¬ word.InPath)
    (h' : Mentions back runs' paths') :
    Mentions (front ++ [word] ++ back)
      (runs ++ runs'.map (Stretch.behind (front ++ [word]).length)) (paths ++ paths') := by
  constructor
  · refine List.rel_append (h.reads.imp ?_) (List.forall₂_map_left_iff.2 (h'.reads.imp ?_))
    · rintro run path ⟨hstop, hread⟩
      refine ⟨by simp; omega, ?_⟩
      rwa [List.append_assoc, Stretch.of_append_left hstop]
    · rintro run path ⟨hstop, hread⟩
      refine ⟨?_, ?_⟩
      · have hlength : (front ++ [word] ++ back).length = (front ++ [word]).length + back.length :=
          List.length_append
        rw [Stretch.stop_behind, hlength]
        exact Nat.add_le_add_left hstop _
      · rwa [Stretch.of_append_right]
  · refine List.pairwise_append.2 ⟨h.apart, List.pairwise_map.2 (h'.apart.imp ?_), ?_⟩
    · intro run next hlt
      exact Nat.add_lt_add_left hlt _
    · intro run hrun next hnext
      rcases List.mem_map.1 hnext with ⟨next, -, rfl⟩
      have hstop := (h.isPathRun hrun).1
      simp only [Stretch.start_behind, List.length_append, List.length_singleton]
      omega
  · intro i token htoken hpath
    -- the token stands in front, between both lists, or behind
    rcases Nat.lt_trichotomy i front.length with hlt | rfl | hgt
    · rw [List.append_assoc, List.getElem?_append_left hlt] at htoken
      rcases h.covers i token htoken hpath with ⟨run, hrun, hbounds⟩
      exact ⟨run, List.mem_append_left _ hrun, hbounds⟩
    · obtain rfl : word = token := by simpa using htoken
      exact absurd hpath hword
    · have hle : (front ++ [word]).length ≤ i := by
        rw [List.length_append, List.length_singleton]
        exact hgt
      rw [List.getElem?_append_right hle] at htoken
      rcases h'.covers _ token htoken hpath with ⟨run, hrun, hstart, hstop⟩
      refine ⟨run.behind (front ++ [word]).length,
        List.mem_append_right _ (List.mem_map_of_mem hrun), ?_, ?_⟩
      · rw [Stretch.start_behind]
        omega
      · rw [Stretch.stop_behind]
        omega

/-- Two different stretches have a gap between them. -/
theorem eq_or_apart (h : Mentions tokens runs paths) (hrun : run ∈ runs) (hother : other ∈ runs) :
    run = other ∨ run.stop < other.start ∨ other.stop < run.start := by
  by_cases heq : run = other
  · exact .inl heq
  · have hsymm : Std.Symm fun run next : Stretch => run.stop < next.start ∨ next.stop < run.start :=
      ⟨fun _ _ => Or.symm⟩
    have hpairs : runs.Pairwise fun run next => run.stop < next.start ∨ next.stop < run.start :=
      h.apart.imp Or.inl
    exact .inr (hpairs.forall hrun hother heq)

/-- Names and dots in turn that meet a stretch do not go beyond it. -/
theorem le_of_meets (h : Mentions tokens runs paths) (hrun : run ∈ runs)
    (hother : IsPathRun tokens other) (hi : run.start ≤ i ∧ i < run.stop)
    (hi' : other.start ≤ i ∧ i < other.stop) : other ≤ run := by
  -- a name or dot right outside of the stretch would stand in another one without a gap between
  have houtside : ∀ j, other.start ≤ j → j < other.stop → run.start ≤ j + 1 → j ≤ run.stop →
      run.start ≤ j ∧ j < run.stop := by
    intro j hstart hstop hbefore hbehind
    rcases hother.exists_token hstart hstop with ⟨token, htoken, hpath⟩
    rcases h.covers j token htoken hpath with ⟨next, hnext, hj⟩
    rcases h.eq_or_apart hrun hnext with rfl | hapart | hapart
    · exact hj
    · omega
    · omega
  refine Stretch.le_iff.2 ⟨?_, ?_⟩
  · by_contra hlt
    have hj := houtside (run.start - 1) (by omega) (by omega) (by omega) (by omega)
    omega
  · by_contra hlt
    have hj := houtside run.stop (by omega) (by omega) (by omega) (by omega)
    omega

/-- The stretches are the longest ones of names and dots in turn. -/
theorem mem_iff (h : Mentions tokens runs paths) :
    run ∈ runs ↔ Maximal (IsPathRun tokens) run := by
  constructor
  · intro hrun
    have hself := h.isPathRun hrun
    refine ⟨hself, fun other hother hle => ?_⟩
    have hlt := hself.start_lt_stop
    exact h.le_of_meets hrun hother ⟨Nat.le_refl _, hlt⟩ ⟨hle.1, Nat.lt_of_lt_of_le hlt hle.2⟩
  · rintro ⟨hself, hlongest⟩
    have hlt := hself.start_lt_stop
    rcases hself.exists_token (Nat.le_refl _) hlt with ⟨token, htoken, hpath⟩
    rcases h.covers _ token htoken hpath with ⟨longest, hmem, hbounds⟩
    have hle : run ≤ longest := h.le_of_meets hmem hself hbounds ⟨Nat.le_refl _, hlt⟩
    have hge : longest ≤ run := hlongest (h.isPathRun hmem) hle
    exact Stretch.eq_of_le_of_le hle hge ▸ hmem

end Mentions

/-! ## Trees and their tokens -/

section
variable {tokens : List Token} {e : Expr}

theorem ItemTokens.kind_cases {items : LiteralList} (h : ItemTokens tokens items) :
    ∀ token ∈ tokens, token.kind.isLiteral = true ∨ token.kind = .comma := by
  induction h with
  | single hkind _ => simp [hkind]
  | push _ hcomma hkind _ ih =>
      refine List.forall_mem_append.2 ⟨ih, ?_⟩
      simp [hcomma, hkind]

/-- A token of a comparison behind its path: it is no part of a path, and no connective. -/
def Token.BehindPath (token : Token) : Prop :=
  ¬ token.InPath ∧ token.kind.isConnective = false

theorem Token.behindPath_of_kind {token : Token}
    (h : token.kind.isComparator = true ∨ token.kind.isLiteral = true ∨
      token.kind ∈ [.notWord, .inWord, .openParen, .closeParen, .comma]) : token.BehindPath := by
  unfold BehindPath InPath
  generalize token.kind = kind at h ⊢
  revert h
  cases kind <;> decide

theorem Comparator.isLiteral_of_mem_literalKinds (op : Comparator) :
    ∀ kind ∈ op.literalKinds, kind.isLiteral = true := by
  cases op <;> decide

/-- A comparison is the tokens of its path, one that ends the path, and what it is compared with. -/
theorem ComparisonTokens.exists_behind (h : ComparisonTokens tokens e) :
    ∃ run path word behind, tokens = run ++ [word] ++ behind ∧ PathTokens run path ∧
      e.paths = [path] ∧ ∀ token ∈ word :: behind, token.BehindPath := by
  cases h with
  | @single run path word token op value hpath hop hkind _ =>
      have hword : word.BehindPath := by
        refine Token.behindPath_of_kind (.inl ?_)
        rw [TokenKind.isComparator, hop]
        rfl
      have htoken : token.BehindPath :=
        Token.behindPath_of_kind (.inr (.inl (op.isLiteral_of_mem_literalKinds _ hkind)))
      exact ⟨run, path, word, [token], by simp, hpath, rfl, by simp [hword, htoken]⟩
  | @list run words items path openParen closeParen op values hpath hwords hopen hitems hclose =>
      have hlist : ∀ token ∈ [openParen] ++ items ++ [closeParen], token.BehindPath := by
        intro token htoken
        rw [List.append_assoc, List.mem_append, List.mem_append, List.mem_singleton,
          List.mem_singleton] at htoken
        rcases htoken with rfl | htoken | rfl
        · exact Token.behindPath_of_kind (by simp [hopen])
        · rcases hitems.kind_cases token htoken with hkind | hkind
          · exact Token.behindPath_of_kind (.inr (.inl hkind))
          · exact Token.behindPath_of_kind (by simp [hkind])
        · exact Token.behindPath_of_kind (by simp [hclose])
      cases hwords with
      | @memberOf word hword =>
          have hbehind : word.BehindPath := Token.behindPath_of_kind (by simp [hword])
          exact ⟨run, path, word, _, by simp, hpath, rfl, List.forall_mem_cons.2 ⟨hbehind, hlist⟩⟩
      | @notMemberOf negation word hnot hword =>
          have hfirst : negation.BehindPath := Token.behindPath_of_kind (by simp [hnot])
          have hbehind : word.BehindPath := Token.behindPath_of_kind (by simp [hword])
          exact ⟨run, path, negation, word :: ([openParen] ++ items ++ [closeParen]), by simp, hpath,
            rfl, List.forall_mem_cons.2 ⟨hfirst, List.forall_mem_cons.2 ⟨hbehind, hlist⟩⟩⟩

namespace Derives

variable {d : Nat} {layer : Layer}

/-- The paths of a tree are what the tokens mention that it is derived from. -/
theorem mentions (h : Derives d layer tokens e) : ∃ runs, Mentions tokens runs e.paths := by
  induction h with
  | comparison h =>
      rcases h.exists_behind with ⟨run, path, word, behind, rfl, hpath, hpaths, hbehind⟩
      rcases List.forall_mem_cons.1 hbehind with ⟨hword, hbehind⟩
      have hrest : Mentions behind [] [] := .none fun token htoken => (hbehind token htoken).1
      rw [hpaths]
      exact ⟨_, (Mentions.whole hpath).append hword.1 hrest⟩
  | @group d tokens openParen closeParen e hopen _ hclose ih =>
      rcases ih with ⟨runs, hruns⟩
      have hnone : Mentions [] [] [] := .none (by simp)
      have hfront : ¬ openParen.InPath := by simp [Token.InPath, hopen]
      have hbehind : ¬ closeParen.InPath := by simp [Token.InPath, hclose]
      have hgroup := (hnone.append hfront hruns).append hbehind hnone
      rw [List.append_nil, List.append_nil, List.nil_append, List.nil_append] at hgroup
      exact ⟨_, hgroup⟩
  | ofPrimary _ ih => exact ih
  | ofConjunction _ ih => exact ih
  | @and _ _ _ word _ _ _ hword _ ihl ihr | @or _ _ _ word _ _ _ hword _ ihl ihr =>
      rcases ihl with ⟨lefts, hlefts⟩
      rcases ihr with ⟨rights, hrights⟩
      have hbetween : ¬ word.InPath := by simp [Token.InPath, hword]
      exact ⟨_, hlefts.append hbetween hrights⟩

/-- Every connective joins two operands, so there is one comparison more than connectives. -/
theorem length_paths (h : Derives d layer tokens e) :
    e.paths.length = tokens.countP (fun token => token.kind.isConnective) + 1 := by
  induction h with
  | comparison h =>
      rcases h.exists_behind with ⟨run, path, word, behind, rfl, hpath, hpaths, hbehind⟩
      have hnone : (run ++ [word] ++ behind).countP (fun token => token.kind.isConnective) = 0 := by
        rw [List.append_assoc, List.countP_append, Nat.add_eq_zero_iff, List.countP_eq_zero,
          List.countP_eq_zero]
        refine ⟨fun token htoken => ?_, fun token htoken => ?_⟩
        · rcases hpath.kind_cases token htoken with hkind | hkind <;> simp [hkind] <;> decide
        · simpa using (hbehind token htoken).2
      rw [hpaths, hnone]
      rfl
  | @group d tokens openParen closeParen e hopen _ hclose ih =>
      simp [ih, hopen, hclose, TokenKind.isConnective, TokenKind.connective?]
  | ofPrimary _ ih => exact ih
  | ofConjunction _ ih => exact ih
  | and _ hword _ ihl ihr | or _ hword _ ihl ihr =>
      simp [Expr.paths, ihl, ihr, hword, TokenKind.isConnective, TokenKind.connective?]
      omega

end Derives

/-- The words of a path are what its names spell. -/
theorem PathTokens.words_eq_spellings {source : List Char} {run : List Token} {path : FieldPath}
    (h : PathTokens run path) (hrun : run ⊆ (TokenStream.ofText source).tokens) :
    path.words = (run.filter fun token => token.kind = .name).map fun token =>
      String.ofList (token.spelling source) := by
  rw [h.words_eq]
  refine List.map_congr_left fun token htoken => ?_
  rcases List.mem_filter.1 htoken with ⟨hmem, hkind⟩
  exact TokenStream.valueText_of_mem_ofText (hrun hmem) (by simpa using hkind)

/-- The words of what is mentioned are what the names in the stretches spell. -/
theorem Mentions.map_words {source : List Char} {runs : List Stretch} {paths : List FieldPath}
    (h : Mentions tokens runs paths) (htokens : tokens ⊆ (TokenStream.ofText source).tokens) :
    paths.map FieldPath.words = runs.map fun run =>
      ((run.of tokens).filter fun token => token.kind = .name).map fun token =>
        String.ofList (token.spelling source) := by
  have hreads := h.reads
  clear h
  induction hreads with
  | nil => rfl
  | @cons run _ _ _ hread _ ih =>
      have hrun := List.Subset.trans (run.subset tokens) htokens
      rw [List.map_cons, List.map_cons, ih, hread.2.words_eq_spellings hrun]

namespace Query

/-- The paths of a tree that a text stands for are the longest runs of names and dots in turn among
its tokens, in the order of the text and one for each comparison.  There is one more of them than
there are connectives, and the tree is at most as high as there are comparisons. -/
theorem paths_of_parse (limit : Nat) (source : List Char) (e : Expr)
    (h : parse limit source = .ok e) :
    ∃ (tokens : List Token) (runs : List Stretch),
      (TokenStream.ofText source).toExcept = .ok tokens ∧
      (∀ run, run ∈ runs ↔ Maximal (IsPathRun tokens) run) ∧
      (runs.Pairwise fun run next => run.stop < next.start) ∧
      (e.paths.map FieldPath.words = runs.map fun run =>
        ((run.of tokens).filter fun token => token.kind = .name).map fun token =>
          String.ofList (token.spelling source)) ∧
      e.paths = e.leaves.map Prod.fst ∧
      e.paths.length = tokens.countP (fun token => token.kind.isConnective) + 1 ∧
      1 ≤ e.depth ∧ e.depth ≤ e.paths.length := by
  rcases ofText_of_parse h with ⟨tokens, hstream, hread⟩
  have hagrees : ∀ token ∈ tokens, token.agrees = true := by
    simpa [hstream] using TokenStream.agrees_of_mem_ofText source
  have hderives := Reading.derives_of_ofTokens hagrees hread
  rcases hderives.mentions with ⟨runs, hruns⟩
  have hmem : tokens ⊆ (TokenStream.ofText source).tokens := by simp [hstream]
  have hwords := hruns.map_words hmem
  exact ⟨tokens, runs, TokenStream.toExcept_eq_ok_iff.2 hstream, fun run => hruns.mem_iff,
    hruns.apart, hwords, e.paths_eq_map_leaves, hderives.length_paths, e.one_le_depth,
    e.depth_le_length_paths⟩

/-- A field that is mentioned twice, in a group and behind it. -/
theorem paths_of_parse_repeatedField :
    let source := "(a . b=1 or c in ('x.y', 2))and a.b<3".toList
    let field : FieldPath := ⟨⟨"a", by decide⟩, [⟨"b", by decide⟩]⟩
    let list : Operand := .list ⟨.string "x.y", [.int 2]⟩
    let e : Expr := .logical
      (.logical (.comparison field .equal (.single (.int 1))) .or
        (.comparison ⟨⟨"c", by decide⟩, []⟩ .memberOf list)) .and
      (.comparison field .less (.single (.int 3)))
    parse 1 source = .ok e ∧ e.paths.map FieldPath.words = [["a", "b"], ["c"], ["a", "b"]] ∧
      ∃ tokens, (TokenStream.ofText source).toExcept = .ok tokens ∧
        tokens.countP (fun token => token.kind.isConnective) = 2 ∧ e.depth ≤ 3 := by
  intro source field list e
  have hparse : parse 1 source = .ok e := by decide +kernel
  rcases paths_of_parse 1 source e hparse with ⟨tokens, _, htokens, -, -, -, -, hcount, -, hdepth⟩
  exact ⟨hparse, rfl, tokens, htokens, (Nat.succ.inj hcount).symm, hdepth⟩

end Query

end
end FieldFilter
