import FieldFilter.Proofs.Reading.Nesting
import FieldFilter.Proofs.Reading.Sessions

/-!
# What failed queries leave behind

A session goes on behind the token that was refused, and the groups that were open there stay
counted.

* `Failure.recap` — a failure with another cap in its wording;
* `Reading.step_shift`, `Session.readFrom_shift` — counted groups are room that is missing;
* `Session.reads`, `Session.taken`, `Session.unclosed` — the tokens that a query reads, those that
  it takes, and the parentheses of groups that it opens and does not close;
* `Session.after_eq` — what several queries leave;
* `Session.next_after` — a session goes on as a new one does on the rest, with less room.
-/

namespace FieldFilter

/-! ## Another cap in the wording -/

/-- An expectation that names the given cap if it names one. -/
def Expectation.recap (limit : Nat) : Expectation → Expectation
  | .nesting _ => .nesting limit
  | expected => expected

/-- An error that names the given cap if it names one. -/
def SyntaxError.recap (limit : Nat) : SyntaxError → SyntaxError
  | .unexpectedToken value expected position span =>
    .unexpectedToken value (expected.recap limit) position span
  | .unexpectedEnd expected => .unexpectedEnd (expected.recap limit)

/-- A failure that names the given cap if it names one. -/
def Failure.recap (limit : Nat) : Failure → Failure
  | .grammatical error => .grammatical (error.recap limit)
  | failure => failure

theorem mapError_eq_self {α : Type} {x : Except Failure α} {f : Failure → Failure}
    (h : ∀ failure, x = .error failure → f failure = failure) : x.mapError f = x := by
  cases x with
  | ok value => rfl
  | error failure => rw [Except.mapError, h failure rfl]

namespace Reading

variable {limit leaked limit' leaked' : Nat} {r r' : Reading} {token : Token} {tokens : List Token}
  {failure : Failure}

theorem recap_expectation (limit : Nat) (r : Reading) :
    r.expectation.recap limit = r.expectation := by
  rcases r with ⟨outer, inner, awaiting⟩
  cases awaiting with
  | value path op => cases op <;> rfl
  | connective operand => cases outer <;> rfl
  | _ => rfl

/-! ## Counted groups are room that is missing -/

/-- Groups that stay counted leave less room under a cap, which goes on to name itself. -/
theorem step_shift (limit leaked : Nat) (r : Reading) (token : Token) :
    r.step limit leaked token =
      (r.step (limit - leaked) 0 token).mapError (Failure.recap limit) := by
  -- nothing but a parenthesis in front of an operand looks at the cap
  by_cases hopen : r.awaiting = .operand ∧ token.kind = .openParen
  · rcases r with ⟨outer, inner, awaiting⟩
    obtain ⟨rfl, hkind⟩ : awaiting = .operand ∧ token.kind = .openParen := hopen
    have hroom : outer.length < limit - leaked ↔ leaked + outer.length < limit := by omega
    by_cases hlt : leaked + outer.length < limit
    · simp [step, hkind, depth, hroom, hlt, Except.mapError]
    · simp [step, hkind, depth, hroom, hlt, Except.mapError, Failure.unexpected,
        SyntaxError.unexpected, Failure.recap, SyntaxError.recap, Expectation.recap]
  · have hne : r.awaiting ≠ .operand ∨ token.kind ≠ .openParen := by
      by_contra hboth
      simp only [not_or, ne_eq, not_not] at hboth
      exact hopen hboth
    rw [mapError_eq_self, step_eq_of_ne hne]
    intro failure hstep
    rcases failure_of_step hstep with rfl | ⟨breach, rfl⟩ | ⟨hawaiting, hkind, -⟩
    · rw [Failure.unexpected, SyntaxError.unexpected, Failure.recap, SyntaxError.recap,
        recap_expectation]
    · rfl
    · exact absurd ⟨hawaiting, hkind⟩ hopen

end Reading

namespace Session

open Reading

variable {session left : Session} {tokens : List Token} {error : Option LexError}
  {limit leaked : Nat} {r r' : Reading} {outcome : Except Failure Expr}

/-- What is left of a session, under another cap and with more groups counted. -/
def counting (limit leaked : Nat) (session : Session) : Session :=
  { session with limit, leaked := leaked + session.leaked }

/-- Groups that stay counted leave less room for a query, and stay counted behind it. -/
theorem readFrom_shift (limit leaked : Nat) (error : Option LexError) (r : Reading)
    (tokens : List Token) :
    readFrom limit leaked error r tokens =
      (((readFrom (limit - leaked) 0 error r tokens).1.mapError (Failure.recap limit)),
        (readFrom (limit - leaked) 0 error r tokens).2.counting limit leaked) := by
  induction tokens generalizing r with
  | nil =>
      -- what is expected at the end never names the cap
      refine Prod.ext ?_ (by simp [readFrom, counting])
      cases error with
      | some error => rfl
      | none =>
          refine (mapError_eq_self ?_).symm
          intro failure hfailure
          rw [failure_of_finish hfailure, Failure.recap, SyntaxError.recap, recap_expectation]
  | cons token tokens ih =>
      simp only [readFrom]
      rw [step_shift]
      cases (r.step (limit - leaked) 0 token) with
      | error failure => simp [Except.mapError, counting]
      | ok r' => exact ih r'

/-- A query is read as from a new session with less room. -/
theorem next_shift (session : Session) :
    session.next.1 =
      (ofStream (session.limit - session.leaked) ⟨session.tokens, session.error⟩).next.1.mapError
        (Failure.recap session.limit) := by
  rw [next, readFrom_shift]
  rfl

/-! ## The tokens of a query -/

/-- The tokens that a query reads from a state on, each with the state that it finds.  A token that
is refused is none of them. -/
def readsFrom (limit leaked : Nat) : Reading → List Token → List (Reading × Token)
  | _, [] => []
  | r, token :: tokens =>
    match r.step limit leaked token with
    | .error _ => []
    | .ok r' => (r, token) :: readsFrom limit leaked r' tokens

/-- The tokens that the next query reads, each with the state that it finds. -/
def reads (session : Session) : List (Reading × Token) :=
  readsFrom session.limit session.leaked {} session.tokens

/-- The tokens that the next query takes: those that it reads, and the one that it refuses. -/
def taken (session : Session) : List Token :=
  session.tokens.take (session.reads.length + 1)

/-- A parenthesis that opens a group: an operand could start where it stands. -/
def opensGroup (r : Reading) (token : Token) : Bool :=
  r.awaiting = .operand && token.kind == .openParen

/-- A parenthesis that closes a group: an operand ends in front of it. -/
def closesGroup (r : Reading) (token : Token) : Bool :=
  match r.awaiting with
  | .connective _ => token.kind == .closeParen
  | _ => false

/-- The parentheses of groups that are open after one more token, the last one first. -/
def openAfter (opened : List Token) (read : Reading × Token) : List Token :=
  if opensGroup read.1 read.2 then read.2 :: opened
  else if closesGroup read.1 read.2 then opened.tail
  else opened

/-- The parentheses of groups that the next query opens and does not close. -/
def unclosed (session : Session) : List Token :=
  session.reads.foldl openAfter []

/-! ### Reading them is a run -/

theorem readsFrom_append {before : List Token} (h : run limit leaked r before = .ok r')
    (rest : List Token) :
    readsFrom limit leaked r (before ++ rest) =
      readsFrom limit leaked r before ++ readsFrom limit leaked r' rest := by
  induction before generalizing r with
  | nil =>
      cases h
      rfl
  | cons token before ih =>
      rcases exists_of_run_cons h with ⟨r₁, hmoves, hrun⟩
      simp only [List.cons_append, readsFrom, step_of_moves hmoves, ih hrun]

theorem map_snd_readsFrom (h : run limit leaked r tokens = .ok r') :
    (readsFrom limit leaked r tokens).map Prod.snd = tokens := by
  induction tokens generalizing r with
  | nil => rfl
  | cons token tokens ih =>
      rcases exists_of_run_cons h with ⟨r₁, hmoves, hrun⟩
      simp only [readsFrom, step_of_moves hmoves, List.map_cons, ih hrun]

theorem length_readsFrom (h : run limit leaked r tokens = .ok r') :
    (readsFrom limit leaked r tokens).length = tokens.length := by
  rw [← List.length_map Prod.snd, map_snd_readsFrom h]

theorem length_openAfter {room : Nat} {token : Token} {opened : List Token}
    (hmoves : Moves room r token r') (hopened : opened.length = r.depth) :
    (openAfter opened (r, token)).length = r'.depth := by
  cases hmoves with
  | openGroup hkind hroom => simpa [openAfter, opensGroup, hkind, depth] using hopened
  | closeGroup hkind =>
      simp only [depth, List.length_cons] at hopened
      simp [openAfter, opensGroup, closesGroup, hkind, depth, hopened]
  | firstSegment hkind hword =>
      simpa [openAfter, opensGroup, closesGroup, hkind, depth] using hopened
  | @connective _ _ _ _ op hop =>
      have hkind : token.kind ≠ .closeParen := by
        intro hkind
        rw [hkind] at hop
        cases hop
      simpa [openAfter, opensGroup, closesGroup, hkind, depth] using hopened
  | _ => simpa [openAfter, opensGroup, closesGroup, depth] using hopened

/-- The machine has as many groups open as there are parentheses that opened one and are not
closed. -/
theorem length_foldl_openAfter {opened : List Token} (h : run limit leaked r tokens = .ok r')
    (hopened : opened.length = r.depth) :
    ((readsFrom limit leaked r tokens).foldl openAfter opened).length = r'.depth := by
  induction tokens generalizing r opened with
  | nil =>
      cases h
      exact hopened
  | cons token tokens ih =>
      rcases exists_of_run_cons h with ⟨r₁, hmoves, hrun⟩
      simp only [readsFrom, step_of_moves hmoves, List.foldl_cons]
      exact ih hrun (length_openAfter hmoves hopened)

/-! ## What a query takes and leaves -/

/-- A fault of the text as an outcome. -/
def isLexical : Except Failure Expr → Bool
  | .error (.lexical _) => true
  | _ => false

theorem isLexical_of_step {token : Token} {failure : Failure}
    (h : r.step limit leaked token = .error failure) : isLexical (.error failure) = false := by
  rcases failure_of_step h with rfl | ⟨breach, rfl⟩ | ⟨-, -, rfl⟩ <;> rfl

theorem isLexical_close (error : Option LexError) (r : Reading) :
    isLexical (close error r) = error.isSome := by
  cases error with
  | some error => rfl
  | none =>
      rw [close]
      cases hfinish : r.finish with
      | ok e => rfl
      | error failure => rw [failure_of_finish hfinish]; rfl

theorem reads_of_refused {before after : List Token} {token : Token} {failure : Failure}
    (htokens : session.tokens = before ++ token :: after)
    (hrun : run session.limit session.leaked {} before = .ok r)
    (hstep : r.step session.limit session.leaked token = .error failure) :
    session.reads = readsFrom session.limit session.leaked {} before := by
  rw [reads, htokens, readsFrom_append hrun]
  simp [readsFrom, hstep]

/-- Of tokens whose values agree with their kinds it can be told without the machine which groups
a query leaves open. -/
theorem length_unclosed_eq_groupsOpen (hagrees : ∀ token ∈ session.tokens, token.agrees = true) :
    session.unclosed.length = groupsOpen (session.reads.map Prod.snd) := by
  -- both ways to count agree with the depth of the machine
  have hcount : ∀ {before r}, run session.limit session.leaked {} before = .ok r →
      session.reads = readsFrom session.limit session.leaked {} before →
        (∀ token ∈ before, token.agrees = true) →
          session.unclosed.length = groupsOpen (session.reads.map Prod.snd) := by
    intro before r hrun hreads hbefore
    rw [unclosed, hreads, map_snd_readsFrom hrun, groupsOpen_eq_depth hrun hbefore]
    exact length_foldl_openAfter hrun rfl
  have hends := ends_next session
  generalize session.next.1 = outcome at hends
  generalize session.next.2 = left at hends
  cases hends with
  | refused htokens hrun hstep =>
      refine hcount hrun (reads_of_refused htokens hrun hstep) ?_
      exact fun t ht => hagrees t (htokens ▸ List.mem_append_left _ ht)
  | exhausted hrun => exact hcount hrun rfl hagrees

/-- What is left of a session is what the query did not take, the fault that it did not report, and
one more counted group for each parenthesis that it left open. -/
theorem Ends.left_eq (h : Ends session outcome left) :
    session.tokens = session.taken ++ left.tokens ∧
      left.error = (if isLexical outcome then none else session.error) ∧
      left.limit = session.limit ∧ left.leaked = session.leaked + session.unclosed.length := by
  cases h with
  | @refused before after token r failure htokens hrun hstep =>
      have hreads := reads_of_refused htokens hrun hstep
      have htaken : session.taken = before ++ [token] := by
        rw [taken, hreads, length_readsFrom hrun, htokens, List.take_length_add_append]
        rfl
      have hunclosed : session.unclosed.length = r.depth := by
        rw [unclosed, hreads]
        exact length_foldl_openAfter hrun rfl
      refine ⟨by simp [htaken, htokens], ?_, rfl, by rw [hunclosed]⟩
      rw [isLexical_of_step hstep]
      rfl
  | @exhausted r hrun =>
      have htaken : session.taken = session.tokens := by
        rw [taken, reads, length_readsFrom hrun]
        exact List.take_of_length_le (Nat.le_succ _)
      have hunclosed : session.unclosed.length = r.depth := length_foldl_openAfter hrun rfl
      refine ⟨by simp [htaken], ?_, rfl, by rw [hunclosed]⟩
      rw [isLexical_close]
      cases session.error <;> rfl

theorem depth_of_close {e : Expr} (h : close error r = .ok e) : r.depth = 0 := by
  rcases r with ⟨outer, inner, awaiting⟩
  cases error with
  | some error => cases h
  | none =>
      cases outer with
      | nil => rfl
      | cons level outer => cases awaiting <;> cases h

/-- A query that succeeds closes every group that it opens. -/
theorem Ends.unclosed_of_ok {e : Expr} (h : Ends session outcome left) (hok : outcome = .ok e) :
    session.unclosed.length = 0 := by
  cases h with
  | refused => cases hok
  | exhausted hrun => exact (length_foldl_openAfter hrun rfl).trans (depth_of_close hok)

/-- Groups are counted only up to the cap. -/
theorem Ends.leaked_le (h : Ends session outcome left) (hle : session.leaked ≤ session.limit) :
    left.leaked ≤ left.limit := by
  have hdepth : ∀ {r before}, run session.limit session.leaked {} before = .ok r →
      session.leaked + r.depth ≤ session.limit := by
    intro r before hrun
    have hroom : r.depth ≤ session.limit - session.leaked := depth_le_of_run hrun (Nat.zero_le _)
    omega
  cases h with
  | refused htokens hrun hstep => exact hdepth hrun
  | exhausted hrun => exact hdepth hrun

/-! ## Several queries -/

/-- The tokens that so many queries take. -/
def takenBy : Nat → Session → List Token
  | 0, _ => []
  | n + 1, session => session.taken ++ takenBy n session.next.2

/-- How many parentheses of groups so many queries open and do not close. -/
def leakedBy : Nat → Session → Nat
  | 0, _ => 0
  | n + 1, session => session.unclosed.length + leakedBy n session.next.2

/-- The stream that so many queries leave: the tokens that they do not take, and the fault of the
text unless one of them reports it. -/
def leftBy (n : Nat) (session : Session) : TokenStream where
  tokens := session.tokens.drop (session.takenBy n).length
  error := if (session.outcomes n).any isLexical then none else session.error

/-- What is left of a session after so many queries. -/
theorem after_eq (n : Nat) (session : Session) :
    session.takenBy n <+: session.tokens ∧
      session.after n = { ofStream session.limit (session.leftBy n) with
        leaked := session.leaked + session.leakedBy n } := by
  induction n generalizing session with
  | zero => exact ⟨List.nil_prefix, rfl⟩
  | succ n ih =>
      rcases (ends_next session).left_eq with ⟨htokens, herror, hlimit, hleaked⟩
      rcases ih session.next.2 with ⟨hstarts, hafter⟩
      refine ⟨?_, ?_⟩
      · rw [htokens, takenBy]
        exact (List.prefix_append_right_inj _).2 hstarts
      · have hleft : session.next.2.leftBy n = session.leftBy (n + 1) := by
          rw [leftBy, leftBy, takenBy, outcomes, htokens, List.length_append, ← List.drop_drop,
            List.drop_left, herror, List.any_cons]
          cases isLexical session.next.1 <;> simp
        rw [after, hafter, hleft, hlimit, hleaked, leakedBy, Nat.add_assoc]

theorem leakedBy_succ (n : Nat) (session : Session) :
    session.leakedBy (n + 1) = session.leakedBy n + (session.after n).unclosed.length := by
  induction n generalizing session with
  | zero => exact Nat.add_comm _ _
  | succ n ih => rw [leakedBy, ih, ← Nat.add_assoc]; rfl

theorem leaked_after_le {session : Session} (n : Nat) (hle : session.leaked ≤ session.limit) :
    (session.after n).leaked ≤ (session.after n).limit := by
  induction n generalizing session with
  | zero => exact hle
  | succ n ih => exact ih ((ends_next session).leaked_le hle)

/-- After any queries of a stream, of which those that failed left parentheses of groups open, the
next query gives what a new session on the rest of the stream gives with so much less room, except
that failures name the full cap.  There is room for what is left open, and a query that succeeds
leaves nothing more open. -/
theorem next_after (limit : Nat) (stream : TokenStream) (n : Nat) :
    (ofStream limit stream).takenBy n <+: stream.tokens ∧
      (ofStream limit stream).leakedBy n ≤ limit ∧
      ((ofStream limit stream).after n).next.1 =
        (ofStream (limit - (ofStream limit stream).leakedBy n)
          ((ofStream limit stream).leftBy n)).next.1.mapError (Failure.recap limit) ∧
      ∀ e, ((ofStream limit stream).after n).next.1 = .ok e →
        (ofStream limit stream).leakedBy (n + 1) = (ofStream limit stream).leakedBy n := by
  rcases after_eq n (ofStream limit stream) with ⟨hstarts, hafter⟩
  have hleaked : ((ofStream limit stream).after n).leaked = (ofStream limit stream).leakedBy n := by
    rw [hafter]
    exact Nat.zero_add _
  have hlimit : ((ofStream limit stream).after n).limit = limit := by rw [hafter]; rfl
  have hrest : (ofStream limit stream).leftBy n = ⟨((ofStream limit stream).after n).tokens,
      ((ofStream limit stream).after n).error⟩ := by rw [hafter]; rfl
  refine ⟨hstarts, ?_, ?_, ?_⟩
  · rw [← hleaked]
    have hle := @leaked_after_le (ofStream limit stream) n (Nat.zero_le limit)
    exact Nat.le_trans hle (Nat.le_of_eq hlimit)
  · rw [next_shift, hlimit, hleaked, hrest]
  · intro e hok
    rw [leakedBy_succ, (ends_next _).unclosed_of_ok hok, Nat.add_zero]

end Session
end FieldFilter
