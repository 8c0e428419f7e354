import FieldFilter.Proofs.Lexing.Agreement
import FieldFilter.Proofs.Reading.OnDemand
import FieldFilter.Proofs.Reading.Viability

/-!
# Which error of a text is reported

Tokens are read from a text on demand, so a fault of the text only counts when reading gets there.

* `Reading.unexpected_of_run` — a run fails only at a token that cannot stand where it does;
* `Query.parse_follows_tokens` — a text comes to what its tokens come to, or to its fault.
-/

namespace FieldFilter

variable {limit : Nat} {tokens : List Token} {failure : Failure}

namespace Reading

/-- A run fails only at a token that cannot stand where it does. -/
theorem unexpected_of_run (hagrees : ∀ token ∈ tokens, token.agrees = true)
    (h : run limit 0 {} tokens = .error failure) :
    ∃ expected token, failure = .unexpected expected token := by
  have hread : Query.ofTokens limit tokens = .error failure := by
    rw [ofTokens_eq, h, Except.bind]
  cases outcome limit hagrees with
  | accepted e hok _ =>
      rw [hread] at hok
      cases hok
  | ended expected _ _ hviable =>
      -- what can still become a query has been read so far
      rcases (viable_iff_exists_run hagrees).1 hviable with ⟨r, hrun⟩
      rw [h] at hrun
      cases hrun
  | refused before token after expected htokens _ _ hrefused =>
      subst htokens
      have heq := hread.symm.trans (hrefused after)
      exact ⟨expected, token, Except.error.inj heq⟩

/-- A run that succeeds ends with a filter or comes to its end too early. -/
theorem finish_cases (r : Reading) :
    (∃ e, r.finish = .ok e) ∨ ∃ expected, r.finish = .error (.grammatical (.unexpectedEnd expected)) := by
  unfold finish
  split
  · exact .inl ⟨_, rfl⟩
  · exact .inr ⟨_, rfl⟩

end Reading

namespace Query

open Reading

/-- Once the tokens of a text are read, its fault decides, or else what has been read of them. -/
theorem parse_eq_run (limit : Nat) (source : List Char) :
    parse limit source =
      (run limit 0 {} (TokenStream.ofText source).tokens).bind fun r =>
        match (TokenStream.ofText source).error with
        | some error => .error (.lexical error)
        | none => r.finish :=
  readFrom_fst _ _

/-- A text without faults comes to what its tokens come to.  Otherwise a token that cannot stand
where it does goes before the fault, and the fault goes before a filter and before the end. -/
theorem parse_follows_tokens (limit : Nat) (source : List Char) :
    descend limit (3 * (limit + 1)) source = some (parse limit source) ∧
      (match (TokenStream.ofText source).toExcept with
        | .ok tokens => parse limit source = ofTokens limit tokens
        | .error fault =>
          match ofTokens limit (TokenStream.ofText source).tokens with
          | .error (.grammatical (.unexpectedToken value expected position span)) =>
            parse limit source =
              .error (.grammatical (.unexpectedToken value expected position span))
          | .error (.grammatical (.unexpectedEnd _)) => parse limit source = .error (.lexical fault)
          | .ok _ => parse limit source = .error (.lexical fault)
          | .error (.lexical _) => False
          | .error (.broken _) => False) ∧
      ((TokenStream.ofText source).error ≠ none →
        ∃ failure, parse limit source = .error failure ∧ failure.isEnd = false) := by
  have hagrees := TokenStream.agrees_of_mem_ofText source
  have hparse := parse_eq_run limit source
  have htokens := ofTokens_eq limit (TokenStream.ofText source).tokens
  refine ⟨descend_eq_parse (Nat.le_refl _) source, ?_, ?_⟩
  · cases herror : (TokenStream.ofText source).error with
    | none =>
        rw [herror] at hparse
        simp only [TokenStream.toExcept, herror]
        rw [hparse, htokens]
    | some fault =>
        rw [herror] at hparse
        simp only [TokenStream.toExcept, herror]
        cases hrun : run limit 0 {} (TokenStream.ofText source).tokens with
        -- the run stops before the fault is reached
        | error failure =>
            rcases unexpected_of_run hagrees hrun with ⟨expected, token, rfl⟩
            rw [hrun] at hparse htokens
            rw [htokens]
            exact hparse
        | ok r =>
            rw [hrun] at hparse htokens
            rw [htokens]
            rcases finish_cases r with ⟨e, hfinish⟩ | ⟨expected, hfinish⟩
            · simpa [Except.bind, hfinish] using hparse
            · simpa [Except.bind, hfinish] using hparse
  · intro herror
    rcases Option.ne_none_iff_exists'.1 herror with ⟨fault, hfault⟩
    rw [hfault] at hparse
    cases hrun : run limit 0 {} (TokenStream.ofText source).tokens with
    | error failure =>
        rcases unexpected_of_run hagrees hrun with ⟨expected, token, rfl⟩
        exact ⟨_, by rw [hparse, hrun, Except.bind], rfl⟩
    | ok r => exact ⟨_, by rw [hparse, hrun, Except.bind], rfl⟩

/-- A query with a character behind it that starts no token. -/
def strayCharacterText : List Char :=
  "price < 2 @".toList

/-- The fault at that character. -/
def strayCharacterFault : LexError :=
  ⟨.unexpectedCharacter, "@", ⟨1, 11⟩, ⟨10, 11⟩⟩

/-- What stands before the fault is a query, and the fault is still reported. -/
theorem parse_strayCharacterText :
    (TokenStream.ofText strayCharacterText).error = some strayCharacterFault ∧
      (∃ e, ofTokens 0 (TokenStream.ofText strayCharacterText).tokens = .ok e) ∧
      descend 0 3 strayCharacterText = some (parse 0 strayCharacterText) ∧
      parse 0 strayCharacterText = .error (.lexical strayCharacterFault) := by
  have hexcept : (TokenStream.ofText strayCharacterText).toExcept = .error strayCharacterFault := by
    decide +kernel
  have htokens : ofTokens 0 (TokenStream.ofText strayCharacterText).tokens =
      .ok (.comparison ⟨⟨"price", by decide⟩, []⟩ .less (.single (.int 2))) := by decide +kernel
  rcases parse_follows_tokens 0 strayCharacterText with ⟨hdescend, houtcome, -⟩
  rw [hexcept] at houtcome
  simp only [htokens] at houtcome
  exact ⟨by decide +kernel, ⟨_, htokens⟩, hdescend, houtcome⟩

end Query
end FieldFilter
