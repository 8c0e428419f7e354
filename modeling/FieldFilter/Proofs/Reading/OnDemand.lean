import FieldFilter.Proofs.Reading.Completeness
import FieldFilter.Proofs.Reading.Following

/-!
# Recursive descent reads what the machine reads

* `Layer.calls` — how many calls are nested at most to read a layer;
* `Layer.joined_extend` — what has been read of a layer, joined to one more operand;
* `Descent.ReadsIn` — a reader of filters reads a layer as the machine reads it;
* `Descent.reads_layer` — it does if the filters inside groups and behind connectives are read so;
* `Descent.reads_expression` — a layer is read as the machine reads it, on such a budget;
* `Descent.whole_follows` — a whole query is read by a reader that does;
* `Query.descend_eq_parse` — a text is read on demand as it is read from its tokens.
-/

namespace FieldFilter

variable {σ : Type} {next : Supply σ}

/-! ## Layers -/

namespace Layer

/-- The least precedence of the connectives in a layer. -/
def least : Layer → Nat
  | .disjunction => 0
  | .conjunction => Connective.and.precedence
  | .primary => Connective.and.precedence + 1

/-- How many calls are nested at most to read a layer, when so many groups may still be opened. -/
def calls (room : Nat) : Layer → Nat
  | .disjunction => 3 * room + 3
  | .conjunction => 3 * room + 2
  | .primary => 3 * room + 1

/-- The layer of the right operand of a connective. -/
def behind : Connective → Layer
  | .or => .conjunction
  | .and => .primary

theorem least_behind (op : Connective) : (behind op).least = op.precedence + 1 := by
  cases op <;> rfl

/-- The right operand of a connective in a layer belongs to a tighter layer. -/
theorem calls_behind_lt {layer : Layer} {op : Connective} (h : layer.least ≤ op.precedence)
    (room : Nat) : (behind op).calls room < layer.calls room := by
  cases layer <;> cases op <;> simp_all [least, behind, calls, Connective.precedence]

theorem ready_behind (level : Level) (operand : Expr) (op : Connective) :
    (behind op).Ready (level.extend operand op) := by
  cases op
  · trivial
  · rfl

/-- An operand that is all of a layer so far is joined to nothing else of the layer. -/
theorem joined_of_ready {layer : Layer} {level : Level} (h : layer.Ready level) (e : Expr) :
    layer.Joined level level e e := by
  cases layer with
  | disjunction =>
      cases h
      rfl
  | conjunction =>
      have hnone : level.conjunct = none := h
      exact ⟨rfl, by simp [Level.conjoin, hnone]⟩
  | primary => exact ⟨rfl, rfl⟩

/-- In a disjunction no `and` follows when the left side of an `or` waits. -/
def Settled (layer : Layer) (level : Level) (stream : TokenStream) : Prop :=
  layer = .disjunction → level.disjunct ≠ none →
    ∀ token ∈ stream.tokens.head?, token.kind.connective? ≠ some .and

/-- The next token is no connective of the layer. -/
def Over (layer : Layer) (stream : TokenStream) : Prop :=
  ∀ token ∈ stream.tokens.head?, ∀ op, token.kind.connective? = some op →
    op.precedence < layer.least

/-- Behind a disjunction there is no connective at all. -/
theorem Over.connective?_eq_none {stream : TokenStream} (h : Over .disjunction stream)
    {token : Token} (htoken : token ∈ stream.tokens.head?) : token.kind.connective? = none := by
  cases hop : token.kind.connective? with
  | none => rfl
  | some op => exact absurd (h token htoken op hop) (Nat.not_lt_zero _)

/-- What has been read of a layer, joined to the right operand of the next connective. -/
theorem joined_extend {layer : Layer} {before inner after : Level} {operand left operand' right : Expr}
    {op : Connective} (hprec : layer.least ≤ op.precedence)
    (hleft : layer.Joined before inner operand left)
    (hsettled : layer = .disjunction → op = .and → inner.disjunct = none)
    (hright : (behind op).Joined (inner.extend operand op) after operand' right) :
    layer.Joined before after operand' (.logical left op right) := by
  cases op with
  | and =>
      rcases hright with ⟨rfl, rfl⟩
      cases layer with
      | disjunction =>
          have hnone := hsettled rfl rfl
          have hclose : inner.close operand = left := hleft
          simp only [Level.close, hnone] at hclose
          simp [Joined, Level.extend, Level.close, Level.conjoin, hnone, ← hclose]
      | conjunction =>
          rcases hleft with ⟨hdisjunct, hconjoin⟩
          exact ⟨hdisjunct, by simp [Level.extend, Level.conjoin, ← hconjoin]⟩
      | primary => exact absurd hprec (Nat.not_succ_le_self _)
  | or =>
      rcases hright with ⟨hdisjunct, hconjoin⟩
      cases layer with
      | disjunction =>
          have hclose : inner.close operand = left := hleft
          have hwaits : after.disjunct = some left := by rw [hdisjunct, ← hclose]; rfl
          simp [Joined, Level.close, hwaits, hconjoin]
      | conjunction => simp [least, Connective.precedence] at hprec
      | primary => simp [least, Connective.precedence] at hprec

/-- An `and` is followed by no left side of an `or`, and an `or` by no `and`. -/
theorem settled_extend {layer : Layer} {inner after : Level} {operand operand' right : Expr}
    {op : Connective} {stream : TokenStream}
    (hsettled : layer = .disjunction → op = .and → inner.disjunct = none)
    (hright : (behind op).Joined (inner.extend operand op) after operand' right)
    (hover : (behind op).Over stream) : layer.Settled after stream := by
  intro hlayer hwaits token htoken hand
  cases op with
  | and =>
      rcases hright with ⟨rfl, -⟩
      exact hwaits (hsettled hlayer rfl)
  | or => exact absurd (hover token htoken .and hand) (Nat.lt_irrefl _)

end Layer

namespace Descent

variable {target : Except Failure Expr} {s : Descent σ} {limit : Nat} {stream : TokenStream}
  {outer : List Level} {inner : Level} {layer : Layer}

/-! ## Filters -/

/-- Behind a layer: the machine waits for a connective, what waits in the group is joined to the
tree that was read, and fewer tokens are left. -/
def Past (next : Supply σ) (limit : Nat) (target : Except Failure Expr) (layer : Layer)
    (outer : List Level) (before : Level) (stream : TokenStream) (e : Expr) (s : Descent σ) : Prop :=
  ∃ after operand stream', At next limit target s ⟨outer, after, .connective operand⟩ stream' ∧
    layer.Joined before after operand e ∧ layer.Over stream' ∧
      stream'.tokens.length < stream.tokens.length

/-- An action reads a layer inside some groups as the machine does. -/
def ReadsIn (next : Supply σ) (limit : Nat) (target : Except Failure Expr) (steps : Nat)
    (nested : Nat → Action σ Expr) (layer : Layer) (outer : List Level) : Prop :=
  ∀ {inner : Level} {stream : TokenStream} {s : Descent σ}, stream.tokens.length ≤ steps →
    layer.Ready inner → At next limit target s ⟨outer, inner, .operand⟩ stream →
      Follows target (nested layer.least s) (Past next limit target layer outer inner stream)

/-- An action reads the layers for which its budget is enough as the machine does. -/
def Reads (next : Supply σ) (limit : Nat) (target : Except Failure Expr) (steps budget : Nat)
    (nested : Nat → Action σ Expr) : Prop :=
  ∀ {layer : Layer} {outer : List Level} {inner : Level} {stream : TokenStream} {s : Descent σ},
    layer.calls (limit - outer.length) ≤ budget → stream.tokens.length ≤ steps →
      layer.Ready inner → At next limit target s ⟨outer, inner, .operand⟩ stream →
        Follows target (nested layer.least s) (Past next limit target layer outer inner stream)

theorem Reads.readsIn {nested : Nat → Action σ Expr} {steps budget : Nat}
    (h : Reads next limit target steps budget nested)
    (hcalls : layer.calls (limit - outer.length) ≤ budget) :
    ReadsIn next limit target steps nested layer outer :=
  fun hsteps hready hat => h hcalls hsteps hready hat

/-- Where a connective may come, a token that is none and closes no group is refused. -/
theorem step_of_no_connective {operand : Expr} {token : Token}
    (hnone : token.kind.connective? = none) (hclose : token.kind ≠ .closeParen ∨ outer = []) :
    Reading.step limit 0 ⟨outer, inner, .connective operand⟩ token =
      .error (.unexpected (Reading.mk outer inner (.connective operand)).expectation token) := by
  simp only [Reading.step, Reading.joined, hnone]
  split
  · rename_i heq
    cases heq
  · rename_i hkind
    rcases hclose with hne | hnil
    · exact absurd hkind hne
    · cases hnil
  · rfl

theorem group_follows {nested : Nat → Action σ Expr} {steps : Nat} {token : Token}
    (hnested : outer.length < limit →
      ReadsIn next limit target steps nested .disjunction (inner :: outer))
    (hsteps : stream.tokens.length ≤ steps) (hkind : token.kind = .openParen)
    (htook : Took next limit target s ⟨outer, inner, .operand⟩ token stream) :
    Follows target (group next limit nested token s) fun e s' =>
      ∃ stream', At next limit target s' ⟨outer, inner, .connective e⟩ stream' ∧
        stream'.tokens.length ≤ stream.tokens.length := by
  have hdepth : s.depth = outer.length := htook.depth
  refine Follows.get ?_
  by_cases hroom : s.depth < limit
  · rw [if_pos hroom]
    refine Follows.set ?_
    have hstep : Reading.step limit 0 ⟨outer, inner, .operand⟩ token =
        .ok ⟨inner :: outer, {}, .operand⟩ :=
      Reading.step_of_moves (.openGroup hkind (by omega))
    have hinside : At next limit target { s with depth := s.depth + 1 }
        ⟨inner :: outer, {}, .operand⟩ stream :=
      ⟨htook.unread, by simp [Reading.depth, hdepth], htook.target_eq hstep⟩
    refine (hnested (hdepth ▸ hroom) hsteps rfl hinside).bind ?_
    rintro e s₁ ⟨after, operand, stream₁, h₁, hjoined, hover, hlt⟩
    refine (consume_follows .closeParen h₁ (fun _ => rfl) ?_).bind ?_
    · intro other hother hne
      exact step_of_no_connective (hover.connective?_eq_none hother) (.inl hne)
    · rintro close s₂ ⟨hclose, rest, rfl, htook'⟩
      have hafter : after.close operand = e := hjoined
      have hstep' : Reading.step limit 0 ⟨inner :: outer, after, .connective operand⟩ close =
          .ok ⟨outer, inner, .connective e⟩ :=
        hafter ▸ Reading.step_of_moves (.closeGroup hclose)
      have hdepth' : s₂.depth = outer.length + 1 := htook'.depth
      simp only [TokenStream.cons, List.length_cons] at hlt
      exact ⟨rest, ⟨htook'.unread, by simp [Reading.depth, hdepth'], htook'.target_eq hstep'⟩,
        by omega⟩
  · rw [if_neg hroom]
    refine htook.reject ?_
    simp [Reading.step, hkind, Reading.depth, ← hdepth, hroom]

theorem primary_follows {nested : Nat → Action σ Expr} {steps : Nat}
    (hnested : outer.length < limit →
      ReadsIn next limit target steps nested .disjunction (inner :: outer))
    (hsteps : stream.tokens.length ≤ steps)
    (h : At next limit target s ⟨outer, inner, .operand⟩ stream) :
    Follows target (primary next limit nested steps s) fun e s' =>
      ∃ stream', At next limit target s' ⟨outer, inner, .connective e⟩ stream' ∧
        stream'.tokens.length < stream.tokens.length := by
  refine (peek_follows h).bind ?_
  rintro kind s₁ ⟨h₁, hkind, -⟩
  split
  · refine (advance_follows h₁ fun _ => rfl).bind ?_
    rintro token s₂ ⟨rest, rfl, htook⟩
    have hopen : token.kind = .openParen := by simpa [TokenStream.cons, eq_comm] using hkind
    simp only [TokenStream.cons, List.length_cons] at hsteps ⊢
    refine (group_follows hnested (by omega) hopen htook).mono ?_
    rintro e s₃ ⟨stream', h₃, hle⟩
    exact ⟨stream', h₃, by omega⟩
  · exact comparison_follows hsteps h₁ hkind.symm
  · rename_i hopen hname
    refine (advance_follows h₁ fun _ => rfl).bind ?_
    rintro token s₂ ⟨rest, rfl, htook⟩
    simp only [TokenStream.cons, List.head?_cons, Option.map_some] at hkind
    refine htook.reject ?_
    cases hother : token.kind <;> simp_all [Reading.step, Reading.reject, Reading.expectation,
      Awaiting.expectation]

theorem operators_follows {nested : Nat → Action σ Expr} {before : Level} {operand left : Expr}
    {steps : Nat}
    (hnested : ∀ op : Connective, layer.least ≤ op.precedence →
      ReadsIn next limit target steps nested (.behind op) outer) {loops : Nat}
    (hloops : stream.tokens.length < loops) (hsteps : stream.tokens.length ≤ steps)
    (h : At next limit target s ⟨outer, inner, .connective operand⟩ stream)
    (hjoined : layer.Joined before inner operand left) (hsettled : layer.Settled inner stream) :
    Follows target (operators next nested layer.least loops left s) fun e s' =>
      ∃ after operand' stream', At next limit target s' ⟨outer, after, .connective operand'⟩ stream' ∧
        layer.Joined before after operand' e ∧ layer.Over stream' ∧
          stream'.tokens.length ≤ stream.tokens.length := by
  -- on the loops: each connective takes a token, so there are more loops than tokens throughout
  induction loops generalizing inner operand left s stream with
  | zero => omega
  | succ loops ih =>
      refine (peek_follows h).bind ?_
      rintro kind s₁ ⟨h₁, hkind, -⟩
      cases hop : kind.bind TokenKind.connective? with
      | none =>
          refine Follows.pure ⟨inner, operand, stream, h₁, hjoined, ?_, Nat.le_refl _⟩
          intro token htoken op' hop'
          simp [hkind, Option.mem_def.1 htoken, hop'] at hop
      | some op =>
          by_cases hprec : op.precedence < layer.least
          · simp only [hprec, if_true]
            refine Follows.pure ⟨inner, operand, stream, h₁, hjoined, ?_, Nat.le_refl _⟩
            intro token htoken op' hop'
            have heq : op' = op := by simpa [hkind, Option.mem_def.1 htoken, hop'] using hop
            exact heq ▸ hprec
          · simp only [hprec, if_false]
            have hle : layer.least ≤ op.precedence := Nat.le_of_not_lt hprec
            refine (advance_follows h₁ fun hnil => by simp [hkind, hnil] at hop).bind ?_
            rintro token s₂ ⟨rest, rfl, htook⟩
            have hop' : token.kind.connective? = some op := by
              simpa [hkind, TokenStream.cons] using hop
            have h₂ := htook.at (Reading.step_of_moves (.connective hop')) rfl
            simp only [TokenStream.cons, List.length_cons] at hsteps hloops
            rw [← Layer.least_behind]
            refine (hnested op hle (by omega) (Layer.ready_behind inner operand op) h₂).bind ?_
            rintro right s₃ ⟨after, operand', stream₃, h₃, hright, hover, hlt⟩
            -- in a disjunction the operand behind an `or` has taken every `and` that follows
            have hwaits : layer = .disjunction → op = .and → inner.disjunct = none := by
              rintro hlayer rfl
              exact Decidable.byContradiction fun hne => hsettled hlayer hne token rfl hop'
            refine (ih (by omega) (by omega) h₃ (Layer.joined_extend hle hjoined hwaits hright)
              (Layer.settled_extend hwaits hright hover)).mono ?_
            rintro e s₄ ⟨after', operand'', stream₄, h₄, hjoined', hover', hle'⟩
            refine ⟨after', operand'', stream₄, h₄, hjoined', hover', ?_⟩
            simp only [TokenStream.cons, List.length_cons]
            omega

/-- A group or a comparison and the connectives behind it are a layer, if what is nested in them is
read as the machine reads it. -/
theorem reads_layer {inside nested : Nat → Action σ Expr} {steps : Nat}
    (hinside : ∀ inner, outer.length < limit →
      ReadsIn next limit target steps inside .disjunction (inner :: outer))
    (hnested : ∀ op : Connective, layer.least ≤ op.precedence →
      ReadsIn next limit target steps nested (.behind op) outer) :
    ReadsIn next limit target steps (fun least => do
      let left ← primary next limit inside steps
      operators next nested least steps left) layer outer := by
  intro inner stream s hsteps hready h
  refine (primary_follows (hinside inner) hsteps h).bind ?_
  rintro left s₁ ⟨stream₁, h₁, hlt⟩
  have hsettled : layer.Settled inner stream₁ := by
    rintro rfl hwaits
    have hempty : inner = {} := hready
    simp [hempty] at hwaits
  refine (operators_follows hnested (by omega) (by omega) h₁ (Layer.joined_of_ready hready left)
    hsettled).mono ?_
  rintro e s₂ ⟨after, operand, stream₂, h₂, hjoined, hover, hle⟩
  exact ⟨after, operand, stream₂, h₂, hjoined, hover, by omega⟩

/-- A filter is read as the machine reads it, if the budget is enough for its layer. -/
theorem reads_expression (steps budget : Nat) :
    Reads next limit target steps budget (expression next limit steps budget) := by
  -- on the budget: a call inside a group or behind a connective needs less than the one around it
  induction budget with
  | zero =>
      intro layer outer inner stream s hcalls
      cases layer <;> simp [Layer.calls] at hcalls
  | succ budget ih =>
      intro layer outer inner stream s hcalls
      refine reads_layer ?_ ?_
      · intro inner hroom
        refine ih.readsIn ?_
        cases layer <;> simp only [Layer.calls, List.length_cons] at hcalls ⊢ <;> omega
      · intro op hle
        refine ih.readsIn ?_
        have hlt := Layer.calls_behind_lt hle (limit - outer.length)
        omega

/-- Behind a whole filter only the end of the tokens is taken. -/
theorem whole_follows {nested : Nat → Action σ Expr} {steps : Nat}
    (hnested : ReadsIn next limit target steps nested .disjunction [])
    (hsteps : stream.tokens.length ≤ steps) (h : At next limit target s {} stream) :
    Follows target (whole next (nested 0) s) fun e _ => target = .ok e := by
  refine (hnested hsteps rfl h).bind ?_
  rintro e s₁ ⟨after, operand, stream₁, h₁, hjoined, hover, -⟩
  have hclose : after.close operand = e := hjoined
  refine (fill_follows h₁).bind ?_
  rintro ⟨⟩ s₂ ⟨h₂, hbuffer, hend⟩
  refine Follows.get ?_
  cases hbuffered : s₂.buffer with
  | none =>
      refine Follows.pure ?_
      rw [h₂.target, hend hbuffered, Reading.comesTo_end, ← hclose]
      rfl
  | some token =>
      have hhead : stream₁.tokens.head? = some token := hbuffer.symm.trans hbuffered
      have hnone := hover.connective?_eq_none hhead
      rcases List.head?_eq_some_iff.1 hhead with ⟨tokens, htokens⟩
      have hstream : stream₁ = TokenStream.cons token { stream₁ with tokens } := by
        simp [TokenStream.cons, ← htokens]
      have htarget := h₂.target
      rw [hstream, Reading.comesTo_cons, step_of_no_connective hnone (.inr rfl)] at htarget
      exact htarget

/-- A whole query comes to what the machine comes to. -/
theorem query_follows {steps budget : Nat} (hbudget : 3 * (limit + 1) ≤ budget)
    (hsteps : stream.tokens.length ≤ steps) (h : At next limit target s {} stream) :
    Follows target (query next limit steps budget s) fun e _ => target = .ok e := by
  have hcalls : Layer.disjunction.calls (limit - ([] : List Level).length) ≤ budget := by
    simp only [Layer.calls, List.length_nil]
    omega
  exact whole_follows (Reads.readsIn (reads_expression steps budget) hcalls) hsteps h

/-- What follows a target up to its result is the target. -/
theorem Follows.run_eq {result : ExceptT Failure Option (Expr × Descent σ)}
    (h : Follows target result fun e _ => target = .ok e) :
    result.run.map (fun result => result.map Prod.fst) = some target := by
  unfold Follows at h
  cases hresult : result.run with
  | none => simp [hresult] at h
  | some found =>
      rw [hresult] at h
      cases found with
      | error failure =>
          have htarget : target = .error failure := h
          rw [htarget]
          rfl
      | ok found =>
          have htarget : target = .ok found.1 := h
          rw [htarget]
          rfl

end Descent

/-! ## Texts -/

/-- With three nested calls for each group that may be open, and three more, a text is read on demand
as it is read from its tokens. -/
theorem Query.descend_eq_parse {limit budget : Nat} (hbudget : 3 * (limit + 1) ≤ budget)
    (source : List Char) : descend limit budget source = some (parse limit source) := by
  have hlength := TokenStream.length_read_le {} source
  have hstart : Descent.At TokenStream.pull limit (parse limit source) ⟨({}, source), none, 0⟩ {}
      (TokenStream.ofText source) :=
    ⟨TokenStream.produces_pull {} source, rfl, rfl⟩
  exact (Descent.query_follows hbudget (Nat.le_succ_of_le hlength) hstart).run_eq

end FieldFilter
