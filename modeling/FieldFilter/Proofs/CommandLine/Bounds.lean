import FieldFilter.Proofs.CommandLine.Checks

/-!
# The bound on the length of queries

Untrusted queries are held to a bound on their bytes, which each way into the program checks on its
own.

* `Report.inOrder` — reports one after the other, as checks and dialogues are made of;
* `Entry`, `Entry.report` — the ways in which a query comes to the program, and what is answered;
* `Entry.KeepsLength` — a query that is too long is refused unread, and no other one for its length;
* `Entry.keepsLength_iff_isBounded` — the ways that keep the bound.
-/

namespace FieldFilter

/-! ## Queries that are too long -/

section
variable {limits : Limits} {query : String}

theorem Text.byteLength_toList (query : String) : byteLength query.toList = query.utf8ByteSize := by
  rw [byteLength_eq_utf8ByteSize, String.ofList_toList]

namespace Limits

theorem checkLength_of_lt (h : limits.length < query.utf8ByteSize) :
    limits.checkLength query.toList = some (limits.lengthMessage query.toList) := by
  rw [checkLength, Text.byteLength_toList, if_pos h]

theorem checkLength_of_le (h : query.utf8ByteSize ≤ limits.length) :
    limits.checkLength query.toList = none := by
  rw [checkLength, Text.byteLength_toList, if_neg (Nat.not_lt.2 h)]

/-- The message of the length tells nothing of a query but its length. -/
theorem lengthMessage_congr {source other : List Char}
    (h : Text.byteLength other = Text.byteLength source) :
    limits.lengthMessage other = limits.lengthMessage source := by
  unfold lengthMessage
  rw [h]

end Limits

namespace Report

variable {answer : List Char → Report}

theorem onQuery_of_lt (input : ByteArray) (h : limits.length < query.utf8ByteSize) :
    onQuery limits input (some query) answer = failed (limits.lengthMessage query.toList) := by
  simp only [onQuery, Limits.checkLength_of_lt h]

theorem onQuery_of_le (input : ByteArray) (h : query.utf8ByteSize ≤ limits.length) :
    onQuery limits input (some query) answer = answer query.toList := by
  simp only [onQuery, Limits.checkLength_of_le h]

end Report

end

/-! ## Reports one after the other -/

namespace Report

/-- One report and then another: all that both print, and the first status that tells of a
failure. -/
def followedBy (report next : Report) : Report where
  output := report.output ++ next.output
  diagnostics := report.diagnostics ++ next.diagnostics
  status := if report.status = 0 then next.status else report.status

/-- Reports one after the other. -/
def inOrder (reports : List Report) : Report :=
  reports.foldr followedBy {}

/-- A check reports on one query after the other. -/
theorem check_eq_inOrder (limits : Limits) (sources : List (List Char)) :
    check limits sources = inOrder (sources.map fun source => check limits [source]) := by
  induction sources with
  | nil => rfl
  | cons source sources ih =>
      rw [List.map_cons, inOrder, List.foldr_cons, ← inOrder, ← ih]
      cases hverdict : verdict limits source <;> simp [check, hverdict, followedBy]

end Report

namespace Dialogue

/-- What a reply prints. -/
def Reply.report : Reply → Report
  | .quit => {}
  | .answer output diagnostics => { output, diagnostics }

/-- A dialogue replies to one line after the other, up to the one that ends it. -/
theorem replies_eq_inOrder (limits : Limits) (lines : List (List Char)) :
    replies limits lines =
      .inOrder (((lines.map (reply limits)).takeWhile (· ≠ .quit)).map Reply.report) := by
  induction lines with
  | nil => rfl
  | cons line lines ih =>
      cases hreply : reply limits line with
      | quit => simp [replies, hreply, Report.inOrder]
      | answer output diagnostics =>
          rw [replies, hreply, List.map_cons, hreply, List.takeWhile_cons_of_pos (by simp),
            List.map_cons, Report.inOrder, List.foldr_cons, ← Report.inOrder, ← ih]
          rfl

variable {limits : Limits} {line text rest : List Char}

/-- A line that starts with no colon is a query. -/
theorem reply_of_query (htext : Text.trim (settled line) = text) (hne : text ≠ [])
    (hcolon : text.head? ≠ some ':') : reply limits line = query limits text := by
  rw [reply, htext, replyTo, if_neg hcolon, if_neg (by simpa using hne)]

/-- A line that starts with the request for a listing lists the rest of the line. -/
theorem reply_of_tokensCommand (htext : Text.trim (settled line) = tokensCommand ++ rest) :
    reply limits line = tokens (Text.trim rest) := by
  have hcolon : (tokensCommand ++ rest).head? = some ':' := rfl
  -- no other command has the same second character
  have hsecond : (tokensCommand ++ rest)[1]? = some 't' := rfl
  have hsecond' : ∀ command ∈ [":quit", ":q", ":help", ":h"], command.toList[1]? ≠ some 't' := by
    decide
  have hother : ∀ command ∈ [":quit", ":q", ":help", ":h"],
      tokensCommand ++ rest ≠ command.toList := by
    intro command hcommand heq
    exact hsecond' command hcommand (heq ▸ hsecond)
  have hquit : ¬ (tokensCommand ++ rest = ":quit".toList ∨ tokensCommand ++ rest = ":q".toList) :=
    not_or.2 ⟨hother _ (by decide), hother _ (by decide)⟩
  have hhelp : ¬ (tokensCommand ++ rest = ":help".toList ∨ tokensCommand ++ rest = ":h".toList) :=
    not_or.2 ⟨hother _ (by decide), hother _ (by decide)⟩
  have hprefix : tokensCommand.isPrefixOf (tokensCommand ++ rest) = true := by
    rw [List.isPrefixOf_iff_prefix]
    exact List.prefix_append _ _
  rw [reply, htext, replyTo, if_pos hcolon, if_neg hquit, if_neg hhelp, if_pos hprefix,
    List.drop_left]

end Dialogue

/-! ## Entries -/

/-- The ways in which a query comes to the program. -/
inductive Entry where
  /-- to be parsed -/
  | parse (pretty : Bool)
  /-- to be listed -/
  | tokens
  /-- as one of the queries to be checked -/
  | check
  /-- to be completed at an offset -/
  | complete (cursor : Option Nat)
  /-- as a line of the dialogue -/
  | typed
  /-- as the rest of a line of the dialogue that asks for a listing -/
  | typedTokens
  deriving DecidableEq, Repr

namespace Entry

open Report (run)

/-- What is answered to a query. -/
def report (entry : Entry) (input : ByteArray) (limits : Limits) (query : String) : Report :=
  match entry with
  | parse pretty => run input ⟨limits, .parse (some query) pretty⟩
  | tokens => run input ⟨limits, .tokens (some query)⟩
  | check => run input ⟨limits, .check [query]⟩
  | complete cursor => run input ⟨limits, .complete query cursor⟩
  | typed => (Dialogue.query limits query.toList).report
  | typedTokens => (Dialogue.tokens query.toList).report

/-- Why a query cannot be read, if it cannot. -/
def failure? (entry : Entry) (depth : Nat) (query : String) : Option Failure :=
  match entry with
  | parse _ | check | typed =>
    match Query.parse depth query.toList with
    | .ok _ => none
    | .error failure => some failure
  | tokens | typedTokens => (TokenStream.ofText query.toList).error.map .lexical
  -- a completion takes a text as far as it can be read
  | complete _ => none

/-- A refusal: a check marks it, and a dialogue goes on after it. -/
def refusal (entry : Entry) (message : List Char) : Report :=
  match entry with
  | check => .failed ("✗ ".toList ++ message)
  | typed | typedTokens => { diagnostics := [message] }
  | parse _ | tokens | complete _ => .failed message

/-- A query that is too long is refused: nothing is printed but the message of its length, whatever
it says.  One that is not too long is not refused for its length: the diagnostics are those of
reading it, and every bound that it keeps gives the same answer. -/
structure KeepsLength (entry : Entry) (input : ByteArray) : Prop where
  refused : ∀ limits query, limits.length < query.utf8ByteSize →
    entry.report input limits query = entry.refusal (limits.lengthMessage query.toList) ∧
      (entry.report input limits query).output = []
  unread : ∀ limits query other, limits.length < query.utf8ByteSize →
    other.utf8ByteSize = query.utf8ByteSize →
      entry.report input limits other = entry.report input limits query
  admitted : ∀ limits query, query.utf8ByteSize ≤ limits.length →
    (entry.report input limits query).diagnostics =
        ((entry.failure? limits.depth query).map Failure.diagnostic).toList ∧
      ∀ length, query.utf8ByteSize ≤ length →
        entry.report input { limits with length } query = entry.report input limits query

/-- Whether a query that comes this way is held to the bound on length. -/
def isBounded : Entry → Bool
  | complete _ | typedTokens => false
  | parse _ | tokens | check | typed => true

variable {entry : Entry} {input : ByteArray} {limits : Limits} {query : String}

theorem report_of_lt (hbounded : entry.isBounded = true) (h : limits.length < query.utf8ByteSize) :
    entry.report input limits query = entry.refusal (limits.lengthMessage query.toList) := by
  have hlength := Limits.checkLength_of_lt h
  cases entry with
  | parse pretty => exact Report.onQuery_of_lt input h
  | tokens => exact Report.onQuery_of_lt input h
  | check => simp [report, run, Report.check, Report.verdict, hlength, refusal, Report.failed]
  | typed => simp [report, Dialogue.query, hlength, Dialogue.Reply.report, refusal]
  | complete cursor => cases hbounded
  | typedTokens => cases hbounded

/-- What is answered to a query that is not too long, where it is parsed and where it is listed. -/
theorem diagnostics_report_of_le (hbounded : entry.isBounded = true)
    (h : query.utf8ByteSize ≤ limits.length) :
    (entry.report input limits query).diagnostics =
      ((entry.failure? limits.depth query).map Failure.diagnostic).toList := by
  have hlength := Limits.checkLength_of_le h
  cases entry with
  | parse pretty =>
      have hreport : (parse pretty).report input limits query = _ :=
        Report.onQuery_of_le input h
      rw [hreport, Report.parse, Limits.parse, failure?]
      cases Query.parse limits.depth query.toList <;> rfl
  | tokens =>
      have hreport : tokens.report input limits query = _ :=
        Report.onQuery_of_le input h
      rw [hreport, Report.tokens, failure?]
      cases (TokenStream.ofText query.toList).error <;> rfl
  | check =>
      simp only [report, run, List.map_cons, List.map_nil, Report.check, Report.verdict, hlength,
        Limits.parse, failure?]
      cases Query.parse limits.depth query.toList <;> rfl
  | typed =>
      simp only [report, Dialogue.query, hlength, Limits.parse, failure?]
      cases Query.parse limits.depth query.toList <;> rfl
  | complete cursor => cases hbounded
  | typedTokens => cases hbounded

theorem report_congr {length : Nat} (h : query.utf8ByteSize ≤ limits.length)
    (h' : query.utf8ByteSize ≤ length) :
    entry.report input { limits with length } query = entry.report input limits query := by
  have hlength := Limits.checkLength_of_le h
  have hlength' : ({ limits with length } : Limits).checkLength query.toList = none :=
    Limits.checkLength_of_le h'
  cases entry with
  | parse pretty => exact (Report.onQuery_of_le input h').trans (Report.onQuery_of_le input h).symm
  | tokens => exact (Report.onQuery_of_le input h').trans (Report.onQuery_of_le input h).symm
  | check => simp [report, run, Report.check, Report.verdict, hlength, hlength', Limits.parse]
  | typed => simp [report, Dialogue.query, hlength, hlength', Limits.parse]
  | complete cursor => rfl
  | typedTokens => rfl

theorem keepsLength_of_isBounded (input : ByteArray) (hbounded : entry.isBounded = true) :
    entry.KeepsLength input where
  refused limits query h := by
    rw [report_of_lt hbounded h]
    exact ⟨rfl, by cases entry <;> rfl⟩
  unread limits query other h hsize := by
    -- the refusal is made of the message alone, which tells nothing of a query but its length
    have hmessage : limits.lengthMessage other.toList = limits.lengthMessage query.toList := by
      refine Limits.lengthMessage_congr ?_
      rw [Text.byteLength_toList, Text.byteLength_toList, hsize]
    rw [report_of_lt hbounded h, report_of_lt hbounded (hsize ▸ h), hmessage]
  admitted limits query h :=
    ⟨diagnostics_report_of_le hbounded h, fun _ h' => report_congr h h'⟩

/-- Where the bound is not looked at, it makes no difference. -/
theorem report_eq_of_not_isBounded (hbounded : entry.isBounded = false) (length : Nat) :
    entry.report input { limits with length } query = entry.report input limits query := by
  cases entry with
  | complete cursor => rfl
  | typedTokens => rfl
  | _ => cases hbounded

theorem not_keepsLength (input : ByteArray) (hbounded : entry.isBounded = false) :
    ¬ entry.KeepsLength input := by
  intro h
  -- one byte is too long under a bound of none, and still there is an answer to it
  have hsilent := (h.refused { length := 0 } "a" (by decide)).2
  cases entry with
  | complete cursor => simp [report, run, Report.complete, line] at hsilent
  | typedTokens =>
      have hlisted : (Dialogue.tokens "a".toList).report.output ≠ [] := by decide +kernel
      exact hlisted hsilent
  | _ => cases hbounded

/-- A query that is parsed or listed, whether it is given or read from standard input, each query of
a check and each query of a dialogue is held to the bound on length.  A completion and a listing of
the dialogue are not: their answer is the same under every bound.  A check reports on its queries
one after the other, and a dialogue on its lines, so what is said of one query is said of each. -/
theorem keepsLength_iff_isBounded (input : ByteArray) :
    (∀ entry : Entry, entry.KeepsLength input ↔ entry.isBounded = true) ∧
      (∀ entry : Entry, entry.isBounded = false → ∀ limits length query,
        entry.report input { limits with length } query = entry.report input limits query) ∧
      (∀ limits query,
        (∀ pretty, run query.toUTF8 ⟨limits, .parse none pretty⟩ =
          (parse pretty).report input limits query) ∧
        run query.toUTF8 ⟨limits, .tokens none⟩ = tokens.report input limits query) ∧
      (∀ limits queries,
        run input ⟨limits, .check queries⟩ = .inOrder (queries.map (check.report input limits))) ∧
      (∀ limits,
        let replies := (Dialogue.lines input.toList).map (Dialogue.reply limits)
        let answers := Report.inOrder ((replies.takeWhile (· ≠ .quit)).map Dialogue.Reply.report)
        run input ⟨limits, .interactive⟩ = { answers with
          output := Dialogue.greeting ++ answers.output ++ Dialogue.farewell }) ∧
      ∀ limits line query,
        (Text.trim (Dialogue.settled line) = query.toList → query ≠ "" →
          query.toList.head? ≠ some ':' →
            (Dialogue.reply limits line).report = typed.report input limits query) ∧
        ∀ rest, Text.trim (Dialogue.settled line) = Dialogue.tokensCommand ++ rest →
          Text.trim rest = query.toList →
            (Dialogue.reply limits line).report = typedTokens.report input limits query := by
  refine ⟨fun entry => ?_, fun entry hbounded limits length query => ?_, fun limits query => ?_,
    fun limits queries => ?_, fun limits => ?_, fun limits line query => ⟨?_, ?_⟩⟩
  · cases hbounded : entry.isBounded with
    | true => exact iff_of_true (keepsLength_of_isBounded input hbounded) rfl
    | false => exact iff_of_false (not_keepsLength input hbounded) Bool.false_ne_true
  · exact report_eq_of_not_isBounded hbounded length
  · have hinput := fun answer => Report.onQuery_toUTF8 limits input query answer
    exact ⟨fun pretty => hinput _, hinput _⟩
  · have hcheck := Report.check_eq_inOrder limits (queries.map String.toList)
    rwa [List.map_map] at hcheck
  · intro replies answers
    rw [run, Report.dialogue, Dialogue.replies_eq_inOrder]
  · intro htext hne hcolon
    rw [Dialogue.reply_of_query htext (by simpa using hne) hcolon]
    rfl
  · intro rest htext hrest
    rw [Dialogue.reply_of_tokensCommand htext, hrest]
    rfl

/-- Four bytes under a bound of three: they are completed as a field, and listed in the dialogue. -/
theorem answered_overlong :
    let limits : Limits := { length := 3 }
    limits.length < "abcd".utf8ByteSize ∧
      run .empty ⟨limits, .complete "abcd" none⟩ =
        { output := line (⟨"abcd".toList, some .field, none⟩ : Completion).toJson.compact } ∧
      Report.dialogue limits [":tokens abcd".toList] =
        { output := Dialogue.greeting ++ line "  1:1\tNAME\tabcd".toList ++ Dialogue.farewell } ∧
      ¬ (complete none).KeepsLength .empty ∧ ¬ typedTokens.KeepsLength .empty := by
  refine ⟨by decide, by decide +kernel, by decide +kernel, ?_, ?_⟩
  · exact not_keepsLength .empty rfl
  · exact not_keepsLength .empty rfl

end Entry

end FieldFilter
