import FieldFilter.CommandLine.Run
import FieldFilter.Proofs.Printing.Controls

/-!
# Checking queries

* `Report.splitOn_lines` — what is printed line by line can be split into its lines again;
* `Limits.accepted?` — the filter of a query that keeps the bounds of an invocation;
* `Report.check_output`, `Report.check_status` — a check judges every query on its own;
* `Report.parse_run` — what is answered to a query that is given;
* `Report.check_agrees_with_parse` — a check accepts what is parsed under the same bounds.
-/

namespace FieldFilter

variable {limits : Limits} {source : List Char} {e : Expr}

/-! ## Lines -/

namespace Report

/-- Lines of output are the texts between line feeds. -/
theorem splitOn_lines {texts : List (List Char)} (h : ∀ text ∈ texts, '\n' ∉ text) :
    (texts.flatMap line).splitOn '\n' = texts ++ [[]] := by
  induction texts with
  | nil => exact List.splitOn_nil '\n'
  | cons text texts ih =>
      have hrest := ih fun t ht => h t (List.mem_cons_of_mem _ ht)
      rw [List.flatMap_cons, line, List.append_assoc, List.singleton_append,
        List.splitOn_append_cons_self_of_not_mem (h text (by simp)), hrest, List.cons_append]

end Report

/-! ## Accepted queries -/

namespace Limits

/-- The filter of a query that keeps both bounds. -/
def accepted? (limits : Limits) (source : List Char) : Option Expr :=
  if Text.byteLength source ≤ limits.length then (limits.parse source).toOption else none

theorem accepted?_eq_some_iff :
    limits.accepted? source = some e ↔
      Text.byteLength source ≤ limits.length ∧ Query.parse limits.depth source = .ok e := by
  by_cases hlength : Text.byteLength source ≤ limits.length
  · rw [accepted?, if_pos hlength, parse]
    cases Query.parse limits.depth source <;> simp [Except.toOption, hlength]
  · simp [accepted?, hlength]

/-- How a query is judged: it is too long, it is no query, or it is accepted. -/
inductive Judged (limits : Limits) (source : List Char) : Option Expr → Prop where
  | tooLong {message : List Char} (h : limits.checkLength source = some message) :
      Judged limits source none
  | failed {failure : Failure} (hlength : limits.checkLength source = none)
      (h : limits.parse source = .error failure) : Judged limits source none
  | accepted {e : Expr} (hlength : limits.checkLength source = none)
      (h : limits.parse source = .ok e) : Judged limits source (some e)

theorem judged_accepted? (limits : Limits) (source : List Char) :
    Judged limits source (limits.accepted? source) := by
  by_cases hlength : Text.byteLength source ≤ limits.length
  · have hnone : limits.checkLength source = none := if_neg (Nat.not_lt.2 hlength)
    rw [accepted?, if_pos hlength]
    cases hparse : limits.parse source with
    | ok e => exact .accepted hnone hparse
    | error failure => exact .failed hnone hparse
  · rw [accepted?, if_neg hlength]
    exact .tooLong (if_pos (Nat.lt_of_not_le hlength))

end Limits

namespace Report

/-! ## Checks -/

/-- What is said about an accepted query. -/
def approval (e : Expr) : List Char :=
  "✓ ".toList ++ e.text

theorem plain_approval (e : Expr) : StringLiteral.Plain (approval e) :=
  StringLiteral.plain_append.2 ⟨by decide, e.plain_text⟩

/-- A query is approved of exactly if it is accepted. -/
theorem verdict_eq (limits : Limits) (source : List Char) :
    (verdict limits source).toOption =
      (limits.accepted? source).map fun e => line (approval e) := by
  have hjudged := limits.judged_accepted? source
  generalize limits.accepted? source = accepted at hjudged
  cases hjudged with
  | tooLong h => simp [verdict, h, Except.toOption]
  | failed hlength h => simp [verdict, hlength, h, Except.toOption]
  | accepted hlength h => simp [verdict, hlength, h, Except.toOption, approval]

/-- One more query in front: what is said about the others stays the same. -/
theorem check_cons (limits : Limits) (source : List Char) (sources : List (List Char)) :
    (check limits (source :: sources)).output =
        (limits.accepted? source).elim [] (fun e => line (approval e)) ++
          (check limits sources).output ∧
      (check limits (source :: sources)).status =
        if (limits.accepted? source).isSome then (check limits sources).status else 1 := by
  have hverdict := verdict_eq limits source
  cases haccepted : limits.accepted? source with
  | none =>
      cases h : verdict limits source with
      | ok output => simp [haccepted, h, Except.toOption] at hverdict
      | error diagnostic => simp [check, h]
  | some e =>
      cases h : verdict limits source with
      | ok output =>
          obtain rfl : output = line (approval e) := by
            simpa [haccepted, h, Except.toOption] using hverdict
          simp [check, h]
      | error diagnostic => simp [haccepted, h, Except.toOption] at hverdict

/-- A check prints one line for each accepted query, in order. -/
theorem check_output (limits : Limits) (sources : List (List Char)) :
    (check limits sources).output =
      ((sources.filterMap limits.accepted?).map approval).flatMap line := by
  induction sources with
  | nil => rfl
  | cons source sources ih =>
      rw [(check_cons limits source sources).1, ih, List.filterMap_cons]
      cases limits.accepted? source <;> simp

/-- A check succeeds if every query is accepted. -/
theorem check_status (limits : Limits) (sources : List (List Char)) :
    (check limits sources).status =
      if sources.all fun source => (limits.accepted? source).isSome then 0 else 1 := by
  induction sources with
  | nil => rfl
  | cons source sources ih =>
      rw [(check_cons limits source sources).2, ih, List.all_cons]
      cases limits.accepted? source <;> simp

/-! ## Queries that are parsed -/

/-- The document of a filter as it is printed. -/
def document (pretty : Bool) (e : Expr) : List Char :=
  if pretty then e.toJson.pretty else e.toJson.compact

/-- A query that is given is answered by its document exactly if it is accepted. -/
theorem parse_run (limits : Limits) (input : ByteArray) (query : String) (pretty : Bool) :
    let report := run input ⟨limits, .parse (some query) pretty⟩
    report.output = (limits.accepted? query.toList).elim [] (fun e => line (document pretty e)) ∧
      report.status = if (limits.accepted? query.toList).isSome then 0 else 1 := by
  have hjudged := limits.judged_accepted? query.toList
  generalize limits.accepted? query.toList = accepted at hjudged
  cases hjudged with
  | tooLong h => simp [run, onQuery, h, failed]
  | failed hlength h => simp [run, onQuery, hlength, parse, h, failed]
  | accepted hlength h => simp [run, onQuery, hlength, parse, h, document]

/-- A query that is read from standard input is held to the bound like one that is given. -/
theorem onQuery_toUTF8 (limits : Limits) (input : ByteArray) (query : String)
    (answer : List Char → Report) :
    onQuery limits query.toUTF8 none answer = onQuery limits input (some query) answer := by
  have hinput : String.fromUTF8? query.toUTF8 = some query := dif_pos query.isValidUTF8
  simp only [onQuery, hinput]

/-- A query that is read from standard input is answered like one that is given. -/
theorem run_parse_of_input (limits : Limits) (input : ByteArray) (query : String) (pretty : Bool) :
    run query.toUTF8 ⟨limits, .parse none pretty⟩ =
      run input ⟨limits, .parse (some query) pretty⟩ :=
  onQuery_toUTF8 limits input query (parse limits pretty)

/-- A check judges every query on its own, by its length in bytes and the filter that it is parsed
to.  What is printed are the canonical texts of the accepted ones, in order and one to a line, for
no canonical text has a control character.  It succeeds if all are accepted.  Under the same bounds
a query is parsed exactly if it is accepted, and the document that is printed is that of the filter
whose text the check prints. -/
theorem check_agrees_with_parse (limits : Limits) (input : ByteArray) (queries : List String) :
    let report := run input ⟨limits, .check queries⟩
    let accepted := queries.filterMap fun query => limits.accepted? query.toList
    let lines := accepted.map fun e => "✓ ".toList ++ e.text
    report.output = lines.flatMap line ∧
    report.output.splitOn '\n' = lines ++ [[]] ∧
    (∀ e ∈ accepted, ∀ c ∈ e.text, StringLiteral.isControl c = false) ∧
    report.status =
      (if queries.all fun query => (limits.accepted? query.toList).isSome then 0 else 1) ∧
    ∀ query : String,
      (∀ e, limits.accepted? query.toList = some e ↔
        query.utf8ByteSize ≤ limits.length ∧ Query.parse limits.depth query.toList = .ok e) ∧
      ∀ pretty,
        let parsed := run input ⟨limits, .parse (some query) pretty⟩
        run query.toUTF8 ⟨limits, .parse none pretty⟩ = parsed ∧
        parsed.status = (run input ⟨limits, .check [query]⟩).status ∧
        parsed.status = (if (limits.accepted? query.toList).isSome then 0 else 1) ∧
        parsed.output = (limits.accepted? query.toList).elim [] fun e =>
          line (if pretty then e.toJson.pretty else e.toJson.compact) := by
  intro report accepted lines
  have hlines : report.output = lines.flatMap line := by
    have houtput := check_output limits (queries.map String.toList)
    rwa [List.filterMap_map] at houtput
  refine ⟨hlines, ?_, fun e _ => e.plain_text, ?_, fun query => ⟨fun e => ?_, fun pretty => ?_⟩⟩
  · rw [hlines]
    refine splitOn_lines fun text htext => ?_
    rcases List.mem_map.1 htext with ⟨e, -, rfl⟩
    exact (plain_approval e).newline_not_mem
  · have hstatus := check_status limits (queries.map String.toList)
    rwa [List.all_map] at hstatus
  · have hbytes : Text.byteLength query.toList = query.utf8ByteSize := by
      rw [Text.byteLength_eq_utf8ByteSize, String.ofList_toList]
    rw [← hbytes]
    exact Limits.accepted?_eq_some_iff
  · rcases parse_run limits input query pretty with ⟨houtput, hstatus⟩
    refine ⟨run_parse_of_input limits input query pretty, ?_, hstatus, houtput⟩
    have hsingle : (run input ⟨limits, .check [query]⟩).status = _ :=
      check_status limits [query.toList]
    rw [hstatus, hsingle]
    simp

/-- One query is accepted between two that are not. -/
example :
    let report := check { length := 8 } ["a =".toList, "a = \"\n".toList, "a=0.5".toList,
      "abc = 100".toList]
    report.output = "✓ a = 0.5\n".toList ∧ report.status = 1 := by
  decide +kernel

end Report
end FieldFilter
