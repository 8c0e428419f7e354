import FieldFilter.Proofs.Reading.Descent
import FieldFilter.Proofs.Reading.Moves

/-!
# Following the machine by recursive descent

A reader by recursive descent follows the machine when it fails as the machine fails, and otherwise
stands where the machine stands.

* `Produces` — the tokens that a supply gives until it ends or fails;
* `Descent.Follows` — an action fails as a target says, or goes on in a state that meets a condition;
* `Descent.At`, `Descent.Took` — the reader stands where the machine stands, with a token taken or not;
* `Descent.advance_follows` and its kin — looking at tokens and taking them;
* `Descent.comparison_follows` — comparisons.
-/

namespace FieldFilter

variable {σ α β : Type} {next : Supply σ}

/-! ## What a supply gives -/

/-- The tokens that a supply gives one after the other until it ends or fails. -/
inductive Produces (next : Supply σ) : σ → TokenStream → Prop where
  | done {s : σ} (hnext : next s = .ok none) : Produces next s ⟨[], none⟩
  | fault {s : σ} {error : LexError} (hnext : next s = .error error) :
      Produces next s ⟨[], some error⟩
  | token {s s' : σ} {token : Token} {stream : TokenStream}
      (hnext : next s = .ok (some (token, s'))) (hrest : Produces next s' stream) :
      Produces next s (stream.cons token)

/-- A text gives its tokens. -/
theorem TokenStream.produces_pull (place : Place) (cs : List Char) :
    Produces pull (place, cs) (read place cs) := by
  induction place, cs using read.induct_unfolding with
  | case1 place cs hdrop => exact .done (by simp [pull, hdrop])
  | case2 place cs _ c rest hdrop _ _ _ fault houtcome =>
      have houtcome : (Lexeme.start c rest).outcome = .error fault := houtcome
      refine .fault ?_
      simp only [pull, hdrop, houtcome]
      rfl
  | case3 place cs _ c rest hdrop _ _ _ kind value houtcome ih =>
      have houtcome : (Lexeme.start c rest).outcome = .ok (kind, value) := houtcome
      refine .token ?_ ih
      simp only [pull, hdrop, houtcome]
      rfl

theorem TokenStream.length_read_le (place : Place) (cs : List Char) :
    (read place cs).tokens.length ≤ cs.length := by
  induction place, cs using read.induct_unfolding with
  | case1 place cs _ => exact Nat.zero_le _
  | case2 place cs _ c rest _ _ _ _ fault _ => exact Nat.zero_le _
  | case3 place cs _ c rest hdrop lexeme _ _ kind value _ ih =>
      have hle : (c :: rest).length ≤ cs.length := hdrop ▸ (List.dropWhile_sublist _).length_le
      have hpos : 0 < lexeme.text.length := List.length_pos_iff.2 (Lexeme.text_ne_nil c rest)
      simp only [cons, List.length_cons, List.length_drop] at hle ih ⊢
      omega

/-! ## What the machine comes to -/

namespace Reading

/-- What the machine comes to from a state on. -/
def comesTo (limit : Nat) (r : Reading) (stream : TokenStream) : Except Failure Expr :=
  (Session.readFrom limit 0 stream.error r stream.tokens).1

variable {limit : Nat} {r : Reading} {stream : TokenStream}

theorem comesTo_cons (token : Token) :
    r.comesTo limit (stream.cons token) =
      (r.step limit 0 token).bind fun r' => r'.comesTo limit stream := by
  unfold comesTo TokenStream.cons
  rw [Session.readFrom]
  cases r.step limit 0 token <;> rfl

theorem comesTo_fault (error : LexError) :
    r.comesTo limit ⟨[], some error⟩ = .error (.lexical error) := rfl

theorem comesTo_end : r.comesTo limit ⟨[], none⟩ = r.finish := rfl

end Reading

namespace Descent

/-! ## Actions that follow a target -/

/-- An action fails as a target says, or its result and the state behind it meet a condition. -/
def Follows (target : Except Failure Expr) (result : ExceptT Failure Option (α × Descent σ))
    (post : α → Descent σ → Prop) : Prop :=
  match result.run with
  | none => False
  | some (.error failure) => target = .error failure
  | some (.ok (a, s)) => post a s

variable {target : Except Failure Expr} {s s' : Descent σ}

namespace Follows

theorem pure {post : α → Descent σ → Prop} {a : α} (h : post a s) :
    Follows target ((Pure.pure a : Action σ α) s) post := h

theorem get {k : Descent σ → Action σ β} {post : β → Descent σ → Prop}
    (h : Follows target (k s s) post) : Follows target ((MonadState.get >>= k) s) post := h

theorem set {k : PUnit → Action σ β} {post : β → Descent σ → Prop}
    (h : Follows target (k ⟨⟩ s') post) : Follows target ((MonadStateOf.set s' >>= k) s) post := h

theorem mono {result : ExceptT Failure Option (α × Descent σ)} {post post' : α → Descent σ → Prop}
    (h : Follows target result post) (hpost : ∀ a s, post a s → post' a s) :
    Follows target result post' := by
  unfold Follows at h ⊢
  cases hresult : result.run with
  | none => simp [hresult] at h
  | some found =>
      rw [hresult] at h
      cases found with
      | error failure => exact h
      | ok found => exact hpost found.1 found.2 h

theorem bind {m : Action σ α} {k : α → Action σ β} {post : α → Descent σ → Prop}
    {post' : β → Descent σ → Prop} (h : Follows target (m s) post)
    (hk : ∀ a s', post a s' → Follows target (k a s') post') :
    Follows target ((m >>= k) s) post' := by
  have hbind : ((m >>= k) s).run = (m s).run.bind fun result =>
      match result with
      | .error failure => some (.error failure)
      | .ok (a, s') => (k a s').run := by
    simp only [Bind.bind, StateT.bind, ExceptT.bind, ExceptT.mk, ExceptT.run]
    congr 1
    funext result
    cases result <;> rfl
  unfold Follows at h ⊢
  rw [hbind]
  cases hresult : (m s).run with
  | none => simp [hresult] at h
  | some result =>
      rw [hresult] at h
      cases result with
      | error failure => exact h
      | ok found => exact hk found.1 found.2 h

end Follows

/-! ## Where the reader stands -/

/-- The tokens that have not been taken: the one in the buffer and those of the supply. -/
def Unread (next : Supply σ) (s : Descent σ) (stream : TokenStream) : Prop :=
  match s.buffer with
  | none => Produces next s.supply stream
  | some token => ∃ rest, Produces next s.supply rest ∧ stream = rest.cons token

/-- The reader stands where the machine stands in the state `r` with the tokens `stream` left, and
from there the machine comes to the target. -/
structure At (next : Supply σ) (limit : Nat) (target : Except Failure Expr) (s : Descent σ)
    (r : Reading) (stream : TokenStream) : Prop where
  unread : s.Unread next stream
  depth : s.depth = r.depth
  target : target = r.comesTo limit stream

/-- The reader has taken a token that the machine in the state `r` reads next. -/
structure Took (next : Supply σ) (limit : Nat) (target : Except Failure Expr) (s : Descent σ)
    (r : Reading) (token : Token) (rest : TokenStream) : Prop where
  unread : s.Unread next rest
  depth : s.depth = r.depth
  target : target = (r.step limit 0 token).bind fun r' => r'.comesTo limit rest

variable {limit : Nat} {r r' : Reading} {stream : TokenStream} {token : Token}

theorem Took.target_eq (h : Took next limit target s r token stream)
    (hstep : r.step limit 0 token = .ok r') : target = r'.comesTo limit stream := by
  rw [h.target, hstep]
  rfl

/-- A token that the machine reads takes the reader where it takes the machine. -/
theorem Took.at (h : Took next limit target s r token stream)
    (hstep : r.step limit 0 token = .ok r') (hdepth : r'.depth = r.depth) :
    At next limit target s r' stream :=
  ⟨h.unread, h.depth.trans hdepth.symm, h.target_eq hstep⟩

/-- A token that the machine refuses is refused. -/
theorem Took.reject {expected : Expectation} {post : α → Descent σ → Prop}
    (h : Took next limit target s r token stream)
    (hstep : r.step limit 0 token = .error (.unexpected expected token)) :
    Follows target ((Descent.reject expected token : Action σ α) s) post := by
  have htarget := h.target
  rw [hstep] at htarget
  exact htarget

/-- A token whose effect on the machine is a result has that effect on the reader. -/
theorem Took.ofExcept {result : Except Failure α} {f : α → Reading}
    (h : Took next limit target s r token stream)
    (hstep : r.step limit 0 token = result.map f) (hdepth : ∀ a, (f a).depth = r.depth) :
    Follows target ((Descent.ofExcept result : Action σ α) s) fun a s' =>
      At next limit target s' (f a) stream := by
  cases result with
  | error failure =>
      have htarget := h.target
      rw [hstep] at htarget
      exact htarget
  | ok a => exact h.at hstep (hdepth a)

/-! ## Looking at tokens and taking them -/

theorem fill_of_empty (supply : σ) (depth : Nat) :
    fill next ⟨supply, none, depth⟩ =
      (match next supply with
        | .error error => throw (.lexical error)
        | .ok none => return ()
        | .ok (some (token, supply)) => set (Descent.mk supply (some token) depth) :
          Action σ Unit) ⟨supply, none, depth⟩ := rfl

theorem fill_follows (h : At next limit target s r stream) :
    Follows target (fill next s) fun _ s' =>
      At next limit target s' r stream ∧ s'.buffer = stream.tokens.head? ∧
        (s'.buffer = none → stream = ⟨[], none⟩) := by
  rcases s with ⟨supply, buffer, depth⟩
  rcases h with ⟨hunread, hdepth, htarget⟩
  cases buffer with
  | some token =>
      rcases hunread with ⟨rest, hrest, rfl⟩
      exact ⟨⟨⟨rest, hrest, rfl⟩, hdepth, htarget⟩, rfl, by simp⟩
  | none =>
      rw [fill_of_empty]
      cases hunread with
      | done hnext =>
          rw [hnext]
          exact ⟨⟨.done hnext, hdepth, htarget⟩, rfl, fun _ => rfl⟩
      | fault hnext =>
          rw [hnext]
          exact htarget.trans (Reading.comesTo_fault _)
      | @token _ _ token rest hnext hrest =>
          rw [hnext]
          exact ⟨⟨⟨rest, hrest, rfl⟩, hdepth, htarget⟩, rfl, by simp⟩

theorem peek_follows (h : At next limit target s r stream) :
    Follows target (peek next s) fun kind s' =>
      At next limit target s' r stream ∧ kind = stream.tokens.head?.map Token.kind ∧
        (kind = none → stream = ⟨[], none⟩) := by
  refine (fill_follows h).bind ?_
  rintro ⟨⟩ s' ⟨hat, hbuffer, hend⟩
  exact ⟨hat, by rw [← hbuffer], fun hkind => hend (Option.map_eq_none_iff.1 hkind)⟩

theorem advance_follows {expected : Expectation} (h : At next limit target s r stream)
    (hend : stream = ⟨[], none⟩ → r.finish = .error (.grammatical (.unexpectedEnd expected))) :
    Follows target (advance next expected s) fun token s' =>
      ∃ rest, stream = rest.cons token ∧ Took next limit target s' r token rest := by
  refine (fill_follows h).bind ?_
  rintro ⟨⟩ s' ⟨hat, hbuffer, hnone⟩
  rcases s' with ⟨supply, buffer, depth⟩
  cases buffer with
  | none =>
      have htarget := hat.target
      rw [hnone rfl, Reading.comesTo_end, hend (hnone rfl)] at htarget
      exact htarget
  | some token =>
      rcases hat with ⟨⟨rest, hrest, rfl⟩, hdepth, htarget⟩
      rw [Reading.comesTo_cons] at htarget
      exact ⟨rest, rfl, hrest, hdepth, htarget⟩

theorem consume_follows (kind : TokenKind) (h : At next limit target s r stream)
    (hend : stream = ⟨[], none⟩ → r.finish = .error (.grammatical (.unexpectedEnd (.token kind))))
    (hother : ∀ token ∈ stream.tokens.head?, token.kind ≠ kind →
      r.step limit 0 token = .error (.unexpected (.token kind) token)) :
    Follows target (consume next kind s) fun token s' =>
      token.kind = kind ∧ ∃ rest, stream = rest.cons token ∧
        Took next limit target s' r token rest := by
  refine (advance_follows h hend).bind ?_
  rintro token s' ⟨rest, hstream, htook⟩
  by_cases hkind : token.kind = kind
  · rw [if_pos hkind]
    exact ⟨hkind, rest, hstream, htook⟩
  · rw [if_neg hkind]
    exact htook.reject (hother token (by simp [hstream, TokenStream.cons]) hkind)

/-! ## Comparisons -/

variable {outer : List Level} {inner : Level}

theorem segments_follows {path : FieldPath} {steps : Nat} (hsteps : stream.tokens.length < steps)
    (h : At next limit target s ⟨outer, inner, .path path⟩ stream) :
    Follows target (segments next steps path s) fun path' s' =>
      ∃ stream', At next limit target s' ⟨outer, inner, .path path'⟩ stream' ∧
        stream'.tokens.length ≤ stream.tokens.length ∧
        ∀ token ∈ stream'.tokens.head?, token.kind ≠ .dot := by
  induction steps generalizing path s stream with
  | zero => omega
  | succ steps ih =>
      refine (peek_follows h).bind ?_
      rintro kind s₁ ⟨h₁, hkind, -⟩
      by_cases hdot : kind = some .dot
      · rw [if_pos hdot]
        refine (advance_follows h₁ (fun hnil => by simp [hnil, hdot] at hkind)).bind ?_
        rintro dot s₂ ⟨rest, rfl, htook⟩
        have hdotKind : dot.kind = .dot := by
          simpa [hdot, TokenStream.cons, eq_comm] using hkind
        have h₂ : At next limit target s₂ ⟨outer, inner, .segment path⟩ rest := htook.at
          (by simp [Reading.step, hdotKind, Reading.await]) rfl
        refine (consume_follows .name h₂ (fun _ => rfl) ?_).bind ?_
        · intro token _ hne
          simp [Reading.step, hne, Reading.reject, Reading.expectation, Awaiting.expectation]
        · rintro name s₃ ⟨hname, rest', rfl, htook'⟩
          refine (htook'.ofExcept (f := fun segment => ⟨outer, inner, .path (path.push segment)⟩)
            ?_ fun _ => rfl).bind ?_
          · simp only [Reading.step, hname, if_true]
            cases Reading.segmentOf name <;> rfl
          · intro segment s₄ h₄
            simp only [TokenStream.cons, List.length_cons] at hsteps ⊢
            refine (ih (by omega) h₄).mono ?_
            rintro path' s₅ ⟨stream', h₅, hle, hhead⟩
            exact ⟨stream', h₅, by omega, hhead⟩
      · rw [if_neg hdot]
        refine ⟨stream, h₁, Nat.le_refl _, ?_⟩
        intro token htoken heq
        rw [hkind, Option.mem_def.1 htoken] at hdot
        exact hdot (by simp [heq])

/-- A path whose first name is next. -/
theorem path_follows {steps : Nat} (hsteps : stream.tokens.length ≤ steps)
    (h : At next limit target s ⟨outer, inner, .operand⟩ stream)
    (hhead : stream.tokens.head?.map Token.kind = some .name) :
    Follows target (path next steps s) fun path' s' =>
      ∃ stream', At next limit target s' ⟨outer, inner, .path path'⟩ stream' ∧
        stream'.tokens.length < stream.tokens.length ∧
        ∀ token ∈ stream'.tokens.head?, token.kind ≠ .dot := by
  refine (consume_follows .name h (fun hnil => by simp [hnil] at hhead) ?_).bind ?_
  · intro token htoken hne
    rw [Option.mem_def.1 htoken] at hhead
    exact absurd (Option.some.inj hhead) hne
  · rintro name s₁ ⟨hname, rest, rfl, htook⟩
    refine (htook.ofExcept (f := fun segment => ⟨outer, inner, .path (.single segment)⟩)
      ?_ fun _ => rfl).bind ?_
    · simp only [Reading.step, hname]
      cases Reading.segmentOf name <;> rfl
    · intro segment s₂ h₂
      simp only [TokenStream.cons, List.length_cons] at hsteps ⊢
      refine (segments_follows (by omega) h₂).mono ?_
      rintro path' s₃ ⟨stream', h₃, hle, hhead'⟩
      exact ⟨stream', h₃, by omega, hhead'⟩

/-- A literal that meets an expectation is taken, anything else is refused where the machine refuses
it. -/
theorem literal_follows (expected : Expectation) (h : At next limit target s r stream)
    (hend : stream = ⟨[], none⟩ → r.finish = .error (.grammatical (.unexpectedEnd expected)))
    (hother : ∀ token ∈ stream.tokens.head?,
      (∀ value, token.literal? = some value → expected.admits value = false) →
        r.step limit 0 token = .error (.unexpected expected token)) :
    Follows target (literal next expected s) fun value s' =>
      ∃ token rest, stream = rest.cons token ∧ token.literal? = some value ∧
        expected.admits value = true ∧ Took next limit target s' r token rest := by
  refine (advance_follows h hend).bind ?_
  rintro token s' ⟨rest, rfl, htook⟩
  have hother := hother token (by simp [TokenStream.cons])
  cases hvalue : token.literal? with
  | none => exact htook.reject (hother (by simp [hvalue]))
  | some value =>
      by_cases hadmits : expected.admits value = true
      · simp only [hadmits, if_true]
        exact ⟨token, rest, rfl, hvalue, hadmits, htook⟩
      · simp only [hadmits]
        refine htook.reject (hother ?_)
        rintro value' hvalue'
        cases hvalue.symm.trans hvalue'
        simpa using hadmits

/-- Where any literal will do, a token that will not do is none. -/
theorem literal?_eq_none
    (h : ∀ value, token.literal? = some value → Expectation.literal.admits value = false) :
    token.literal? = none := by
  cases hvalue : token.literal? with
  | none => rfl
  | some value => cases h value hvalue

theorem items_follows {path : FieldPath} {op : Comparator} {values : LiteralList} {steps : Nat}
    (hsteps : stream.tokens.length < steps)
    (h : At next limit target s ⟨outer, inner, .separator path op values⟩ stream) :
    Follows target (items next steps values s) fun values' s' =>
      ∃ token rest, rest.tokens.length < stream.tokens.length ∧ token.kind = .closeParen ∧
        Took next limit target s' ⟨outer, inner, .separator path op values'⟩ token rest := by
  induction steps generalizing values s stream with
  | zero => omega
  | succ steps ih =>
      refine (advance_follows h fun _ => rfl).bind ?_
      rintro token s₁ ⟨rest, rfl, htook⟩
      simp only [TokenStream.cons, List.length_cons] at hsteps ⊢
      cases hkind : token.kind with
      | comma =>
          have h₁ : At next limit target s₁ ⟨outer, inner, .nextItem path op values⟩ rest := htook.at
            (by simp [Reading.step, hkind, Reading.await]) rfl
          refine (literal_follows .literal h₁ (fun _ => rfl) ?_).bind ?_
          · intro other _ hnone
            simp [Reading.step, literal?_eq_none hnone, Reading.reject, Reading.expectation,
              Awaiting.expectation]
          · rintro value s₂ ⟨item, rest', rfl, hvalue, -, htook'⟩
            have h₂ : At next limit target s₂
                ⟨outer, inner, .separator path op (values.push value)⟩ rest' := htook'.at
              (by simp [Reading.step, hvalue, Reading.await]) rfl
            simp only [TokenStream.cons, List.length_cons] at hsteps ⊢
            refine (ih (by omega) h₂).mono ?_
            rintro values' s₃ ⟨close, rest'', hlt, hclose, htook''⟩
            exact ⟨close, rest'', by omega, hclose, htook''⟩
      | closeParen => exact ⟨token, rest, by omega, hkind, htook⟩
      | _ => exact htook.reject (by simp [Reading.step, hkind, Reading.reject,
          Reading.expectation, Awaiting.expectation])

theorem list_follows {path : FieldPath} {op : Comparator} {steps : Nat}
    (hsteps : stream.tokens.length ≤ steps)
    (h : At next limit target s ⟨outer, inner, .list path op⟩ stream) :
    Follows target (list next steps s) fun values s' =>
      ∃ token rest, rest.tokens.length < stream.tokens.length ∧ token.kind = .closeParen ∧
        Took next limit target s' ⟨outer, inner, .separator path op values⟩ token rest := by
  refine (consume_follows .openParen h (fun _ => rfl) ?_).bind ?_
  · intro token _ hne
    simp [Reading.step, hne, Reading.reject, Reading.expectation, Awaiting.expectation]
  rintro token s₁ ⟨hopen, rest, rfl, htook⟩
  have h₁ : At next limit target s₁ ⟨outer, inner, .firstItem path op⟩ rest := htook.at
    (by simp [Reading.step, hopen, Reading.await]) rfl
  refine (literal_follows .literal h₁ (fun _ => rfl) ?_).bind ?_
  · intro other _ hnone
    simp [Reading.step, literal?_eq_none hnone, Reading.reject, Reading.expectation,
      Awaiting.expectation]
  rintro value s₂ ⟨item, rest', rfl, hvalue, -, htook'⟩
  have h₂ : At next limit target s₂ ⟨outer, inner, .separator path op (.single value)⟩ rest' :=
    htook'.at (by simp [Reading.step, hvalue, Reading.await]) rfl
  simp only [TokenStream.cons, List.length_cons] at hsteps ⊢
  refine (items_follows (by omega) h₂).mono ?_
  rintro values s₃ ⟨close, rest'', hlt, hclose, htook''⟩
  exact ⟨close, rest'', by omega, hclose, htook''⟩

theorem compared_eq {path : FieldPath} {op : Comparator} {right : Operand} :
    r.compared path op right =
      ((Expr.compare path op right).mapError Failure.broken).map
        fun e => r.await (.connective e) := by
  unfold Reading.compared
  cases Expr.compare path op right <;> rfl

theorem membership_follows {path : FieldPath} {op : Comparator} {steps : Nat}
    (hsteps : stream.tokens.length ≤ steps)
    (h : At next limit target s ⟨outer, inner, .list path op⟩ stream) :
    Follows target (membership next steps path op s) fun e s' =>
      ∃ stream', At next limit target s' ⟨outer, inner, .connective e⟩ stream' ∧
        stream'.tokens.length < stream.tokens.length := by
  refine (list_follows hsteps h).bind ?_
  rintro values s₁ ⟨close, rest, hlt, hclose, htook⟩
  refine (htook.ofExcept (f := fun e => ⟨outer, inner, .connective e⟩) ?_ fun _ => rfl).mono ?_
  · simp only [Reading.step, hclose]
    exact compared_eq
  · intro e s₂ h₂
    exact ⟨rest, h₂, hlt⟩

theorem single_follows {path : FieldPath} {op : Comparator}
    (h : At next limit target s ⟨outer, inner, .value path op⟩ stream) :
    Follows target (single next path op s) fun e s' =>
      ∃ stream', At next limit target s' ⟨outer, inner, .connective e⟩ stream' ∧
        stream'.tokens.length < stream.tokens.length := by
  refine (literal_follows op.expectation h (fun _ => rfl) ?_).bind ?_
  · intro token _ hother
    cases hvalue : token.literal? with
    | none => simp [Reading.step, hvalue, Reading.reject, Reading.expectation, Awaiting.expectation]
    | some value =>
        simp [Reading.step, hvalue, hother value hvalue, Reading.reject, Reading.expectation,
          Awaiting.expectation]
  · rintro value s₁ ⟨token, rest, rfl, hvalue, hadmits, htook⟩
    refine (htook.ofExcept (f := fun e => ⟨outer, inner, .connective e⟩) ?_ fun _ => rfl).mono ?_
    · simp only [Reading.step, hvalue, hadmits, if_true]
      exact compared_eq
    · intro e s₂ h₂
      exact ⟨rest, h₂, by simp [TokenStream.cons]⟩

theorem comparison_follows {steps : Nat} (hsteps : stream.tokens.length ≤ steps)
    (h : At next limit target s ⟨outer, inner, .operand⟩ stream)
    (hhead : stream.tokens.head?.map Token.kind = some .name) :
    Follows target (comparison next steps s) fun e s' =>
      ∃ stream', At next limit target s' ⟨outer, inner, .connective e⟩ stream' ∧
        stream'.tokens.length < stream.tokens.length := by
  refine (path_follows hsteps h hhead).bind ?_
  rintro path s₁ ⟨stream₁, h₁, hlt, hdot⟩
  refine (advance_follows h₁ fun _ => rfl).bind ?_
  rintro token s₂ ⟨rest, rfl, htook⟩
  have hdot : token.kind ≠ .dot := hdot token (by simp [TokenStream.cons])
  simp only [TokenStream.cons, List.length_cons] at hlt
  cases hkind : token.kind with
  | dot => exact absurd hkind hdot
  | inWord =>
      have h₂ : At next limit target s₂ ⟨outer, inner, .list path .memberOf⟩ rest := htook.at
        (by simp [Reading.step, hkind, Reading.await]) rfl
      refine (membership_follows (by omega) h₂).mono ?_
      rintro e s₃ ⟨stream', h₃, hlt'⟩
      exact ⟨stream', h₃, by omega⟩
  | notWord =>
      have h₂ : At next limit target s₂ ⟨outer, inner, .inWord path⟩ rest := htook.at
        (by simp [Reading.step, hkind, Reading.await]) rfl
      refine (consume_follows .inWord h₂ (fun _ => rfl) ?_).bind ?_
      · intro other _ hne
        simp [Reading.step, hne, Reading.reject, Reading.expectation, Awaiting.expectation]
      rintro word s₃ ⟨hword, rest', rfl, htook'⟩
      have h₃ : At next limit target s₃ ⟨outer, inner, .list path .notMemberOf⟩ rest' := htook'.at
        (by simp [Reading.step, hword, Reading.await]) rfl
      simp only [TokenStream.cons, List.length_cons] at hlt
      refine (membership_follows (by omega) h₃).mono ?_
      rintro e s₄ ⟨stream', h₄, hlt'⟩
      exact ⟨stream', h₄, by omega⟩
  | equals | notEquals | greater | greaterEqual | less | lessEqual | contains | notContains =>
      have h₂ := htook.at (Reading.step_of_moves (.comparator (by rw [hkind]; rfl))) rfl
      refine (single_follows h₂).mono ?_
      rintro e s₃ ⟨stream', h₃, hlt'⟩
      exact ⟨stream', h₃, by omega⟩
  | _ => exact htook.reject (by simp [Reading.step, hkind, TokenKind.comparator?, Reading.reject,
      Reading.expectation, Awaiting.expectation])

end Descent

end FieldFilter
