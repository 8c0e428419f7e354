import FieldFilter.Proofs.CommandLine.Bounds
import FieldFilter.Proofs.Lexing.Tiling

/-!
# Listings of tokens

A listing has a line for each token that is read.  No token goes over the end of a line, and only
its spelling, which comes last, may hold a tab: the tokens can be read off their listing.

* `Token.row`, `Report.fields` — a line of a listing, and its fields;
* `Report.fields_row` — the fields of a line are what it is made of;
* `Tiles.exists_gaps` — the spellings and what is skipped between them make up the text;
* `Report.tokens_run` — the listing of a query.
-/

namespace FieldFilter

open StringLiteral (Plain plain_toDigits)
open Text (byteLength slice?)
open TokenStream (Item isSeparator ofText)

/-! ## Lines and fields -/

/-- The line of a token in a listing: its position, its kind and its spelling. -/
def Token.row (source : List Char) (token : Token) : List Char :=
  Nat.toDigits 10 token.position.line ++ [':'] ++ Nat.toDigits 10 token.position.column ++
    ['\t'] ++ token.kind.grammarName.toList ++ ['\t'] ++ token.spelling source

theorem TokenKind.plain_grammarName (kind : TokenKind) : Plain kind.grammarName.toList := by
  cases kind <;> decide

namespace Report

/-- A text cut at the first of some mark. -/
def cutAt (mark : Char) (text : List Char) : List Char × List Char :=
  (text.takeWhile (· ≠ mark), (text.dropWhile (· ≠ mark)).tail)

/-- The fields of a line of a listing: its line number, its column, its kind and its spelling, in
which the marks between the others may come again. -/
def fields (row : List Char) : List (List Char) :=
  let (line, row) := cutAt ':' row
  let (column, row) := cutAt '\t' row
  let (kind, spelling) := cutAt '\t' row
  [line, column, kind, spelling]

theorem cutAt_append {mark : Char} {front : List Char} (rest : List Char) (h : mark ∉ front) :
    cutAt mark (front ++ mark :: rest) = (front, rest) := by
  have hfront : ∀ c ∈ front, decide (c ≠ mark) = true := by
    intro c hc
    have hne : c ≠ mark := fun heq => h (heq ▸ hc)
    simpa using hne
  rw [cutAt, List.takeWhile_append_of_pos hfront, List.dropWhile_append_of_pos hfront,
    List.takeWhile_cons_of_neg (by simp), List.dropWhile_cons_of_neg (by simp), List.append_nil,
    List.tail_cons]

theorem colon_not_mem_toDigits (n : Nat) : ':' ∉ Nat.toDigits 10 n := by
  intro h
  cases Nat.isDigit_of_mem_toDigits (by decide) (by decide) h

theorem tab_not_mem_of_plain {text : List Char} (h : Plain text) : '\t' ∉ text :=
  fun hmem => nomatch h '\t' hmem

theorem fields_row (source : List Char) (token : Token) :
    fields (token.row source) = [Nat.toDigits 10 token.position.line,
      Nat.toDigits 10 token.position.column, token.kind.grammarName.toList,
      token.spelling source] := by
  have hline := colon_not_mem_toDigits token.position.line
  have hcolumn := tab_not_mem_of_plain (plain_toDigits token.position.column)
  have hkind := tab_not_mem_of_plain token.kind.plain_grammarName
  simp only [fields, Token.row, List.append_assoc, List.cons_append, List.nil_append,
    cutAt_append _ hline, cutAt_append _ hcolumn, cutAt_append _ hkind]

end Report

/-! ## What is skipped -/

/-- The spellings of tokens, each with what is skipped in front of it. -/
def Token.joined (source : List Char) (gaps : List (List Char)) (tokens : List Token) : List Char :=
  (List.zipWith (fun gap token => gap ++ token.spelling source) gaps tokens).flatten

theorem Token.joined_cons (source gap : List Char) (token : Token) (gaps : List (List Char))
    (tokens : List Token) :
    joined source (gap :: gaps) (token :: tokens) =
      gap ++ (token.spelling source ++ joined source gaps tokens) := by
  rw [joined, List.zipWith_cons_cons, List.flatten_cons, List.append_assoc, joined]

section
variable {before rest : List Char} {tokens : List Token} {error : Option LexError}

/-- The spelling of a token is the text that it covers. -/
theorem Covers.spelling_eq {text : List Char} {token : Token} (h : Covers before (.ok token) text)
    (behind : List Char) : token.spelling (before ++ (text ++ behind)) = text := by
  have hspan : token.span = ⟨byteLength before, byteLength (before ++ text)⟩ := h.span_eq
  refine Span.slice_eq_of_slice? ?_
  rw [hspan]
  exact Text.slice?_split before text behind

/-- The tokens of a text and what is skipped before each of them and behind the last make up the
text, as far as it is read. -/
theorem Tiles.exists_gaps (h : Tiles before rest (TokenStream.items ⟨tokens, error⟩)) :
    ∃ gaps last behind, gaps.length = tokens.length ∧
      (∀ gap ∈ gaps ++ [last], ∀ c ∈ gap, isSeparator c = true) ∧
      rest = Token.joined (before ++ rest) gaps tokens ++ (last ++ behind) ∧
      error.elim (byteLength (before ++ rest)) (fun error => error.span.start) =
        byteLength (before ++ (Token.joined (before ++ rest) gaps tokens ++ last)) := by
  induction tokens generalizing before rest with
  | nil =>
      -- what is left are separators, up to the end or up to the fault
      cases error with
      | none =>
          cases h with
          | gap hgap => exact ⟨[], rest, [], rfl, by simpa using hgap, by simp [Token.joined], rfl⟩
      | some error =>
          cases h with
          | @fault _ gap text behind _ hgap hcovers =>
              have hspan : error.span = ⟨byteLength (before ++ gap), _⟩ := hcovers.span_eq
              refine ⟨[], gap, text ++ behind, rfl, by simpa using hgap, rfl, ?_⟩
              rw [Option.elim_some, hspan]
              rfl
  | cons token tokens ih =>
      generalize hitems : TokenStream.items ⟨token :: tokens, error⟩ = items at h
      cases h with
      | gap _ => cases hitems
      | fault _ _ => cases hitems
      | @token _ gap text behind _ _ hgap hcovers hbehind =>
          obtain ⟨⟨⟩, rfl⟩ := List.cons.inj hitems
          -- the rest is tiled on its own, but its tokens are slices of the same source
          obtain ⟨gaps, last, unread, hlength, hgaps, hsplit, hstop⟩ := ih hbehind
          have hspelling := hcovers.spelling_eq behind
          simp only [List.append_assoc] at hsplit hstop hspelling
          refine ⟨gap :: gaps, last, unread, congrArg (· + 1) hlength, ?_, ?_, ?_⟩
          · rw [List.cons_append]
            exact List.forall_mem_cons.2 ⟨hgap, hgaps⟩
          · rw [Token.joined_cons, hspelling, List.append_assoc, List.append_assoc, ← hsplit]
          · rw [Token.joined_cons, hspelling, List.append_assoc, List.append_assoc]
            exact hstop

end

/-! ## Listings -/

/-- A token is spelled on one line. -/
theorem TokenStream.spelling_of_mem_tokens {source : List Char} {token : Token}
    (htoken : token ∈ (ofText source).tokens) :
    slice? token.span.start token.span.stop source = some (token.spelling source) ∧
      ∀ c ∈ token.spelling source, c ≠ '\r' ∧ c ≠ '\n' := by
  obtain ⟨-, text, hslice, hspelled⟩ :=
    covered_of_mem_items (mem_items_of_mem_tokens htoken)
  have hspelling : token.spelling source = text := Span.slice_eq_of_slice? hslice
  rw [hspelling]
  exact ⟨hslice, fun c hc => StringLiteral.isLineEnd_eq_false_iff.1 (hspelled.line c hc)⟩

namespace Report

variable {source : List Char} {token : Token}

theorem newline_not_mem_row (htoken : token ∈ (ofText source).tokens) :
    '\n' ∉ token.row source := by
  have hline := (plain_toDigits token.position.line).newline_not_mem
  have hcolumn := (plain_toDigits token.position.column).newline_not_mem
  have hkind := token.kind.plain_grammarName.newline_not_mem
  have hspelling : '\n' ∉ token.spelling source := fun hmem =>
    ((TokenStream.spelling_of_mem_tokens htoken).2 _ hmem).2 rfl
  simp [Token.row, hline, hcolumn, hkind, hspelling]

theorem tokens_output (source : List Char) :
    (tokens source).output = ((ofText source).tokens.map (Token.row source)).flatMap line := by
  rw [List.flatMap_map, tokens]
  cases (ofText source).error <;> rfl

theorem tokens_status (source : List Char) :
    (tokens source).status = if (ofText source).toExcept.isOk then 0 else 1 := by
  rw [tokens, TokenStream.toExcept]
  cases (ofText source).error <;> rfl

/-- The lines of a listing are those of the tokens, in order. -/
theorem splitOn_tokens (source : List Char) :
    (tokens source).output.splitOn '\n' =
      (ofText source).tokens.map (Token.row source) ++ [[]] := by
  rw [tokens_output]
  refine splitOn_lines fun text htext => ?_
  obtain ⟨token, htoken, rfl⟩ := List.mem_map.1 htext
  exact newline_not_mem_row htoken

/-- A text up to its fault, or all of it, is put together from its tokens and what is skipped. -/
theorem joined_ofText (source : List Char) :
    let stream := ofText source
    ∃ gaps last, gaps.length = stream.tokens.length ∧
      (∀ gap ∈ gaps ++ [last], ∀ c ∈ gap, isSeparator c = true) ∧
      slice? 0 (stream.error.elim (byteLength source) fun error => error.span.start) source =
        some (Token.joined source gaps stream.tokens ++ last) := by
  intro stream
  have htiles : Tiles [] source (TokenStream.items ⟨stream.tokens, stream.error⟩) :=
    tiles_read [] source
  obtain ⟨gaps, last, behind, hlength, hgaps, hsplit, hstop⟩ := htiles.exists_gaps
  simp only [List.nil_append] at hsplit hstop
  have hslice := Text.slice?_zero (Token.joined source gaps stream.tokens ++ last) behind
  rw [List.append_assoc, ← hsplit, ← hstop] at hslice
  exact ⟨gaps, last, hlength, hgaps, hslice⟩

/-- A query that is not too long is listed, whether it is given or read from standard input: one
line for each of its tokens, in order, up to its first fault.  The fields can be read off the lines,
for the spellings, which are slices of the query, go over no end of a line.  With what is skipped
they make up the query up to its fault.  It is a failure if there is one. -/
theorem tokens_run (input : ByteArray) {limits : Limits} {query : String}
    (h : query.utf8ByteSize ≤ limits.length) :
    let source := query.toList
    let stream := ofText source
    let report := run input ⟨limits, .tokens (some query)⟩
    run query.toUTF8 ⟨limits, .tokens none⟩ = report ∧
    report.output.splitOn '\n' = stream.tokens.map (Token.row source) ++ [[]] ∧
    ((report.output.splitOn '\n').dropLast.map fields = stream.tokens.map fun token =>
      [Nat.toDigits 10 token.position.line, Nat.toDigits 10 token.position.column,
        token.kind.grammarName.toList, token.spelling source]) ∧
    (∀ token ∈ stream.tokens,
      slice? token.span.start token.span.stop source = some (token.spelling source) ∧
        ∀ c ∈ token.spelling source, c ≠ '\r' ∧ c ≠ '\n') ∧
    (∃ gaps last, gaps.length = stream.tokens.length ∧
      (∀ gap ∈ gaps ++ [last], ∀ c ∈ gap, isSeparator c = true) ∧
      slice? 0 (stream.error.elim (byteLength source) fun error => error.span.start) source =
        some (Token.joined source gaps stream.tokens ++ last)) ∧
    report.status = if stream.toExcept.isOk then 0 else 1 := by
  intro source stream report
  have hreport : report = tokens source := onQuery_of_le input h
  have hlines : report.output.splitOn '\n' = stream.tokens.map (Token.row source) ++ [[]] := by
    rw [hreport]
    exact splitOn_tokens source
  refine ⟨onQuery_toUTF8 limits input query _, hlines, ?_,
    fun _ => TokenStream.spelling_of_mem_tokens, joined_ofText source, ?_⟩
  · rw [hlines, List.dropLast_concat, List.map_map]
    exact List.map_congr_left fun token _ => fields_row source token
  · rw [hreport]
    exact tokens_status source

/-- Tokens on two lines, one with a tab of its own, and a string that is never closed. -/
def unclosedText : String :=
  "a = \"x\ty\"\r\n and 'z"

theorem tokens_run_unclosedText :
    let limits : Limits := { length := 20 }
    let report := run .empty ⟨limits, .tokens (some unclosedText)⟩
    unclosedText.utf8ByteSize ≤ limits.length ∧
    report.output.splitOn '\n' = ["1:1\tNAME\ta", "1:3\tEQUALS\t=",
      "1:5\tSTRING_VALUE\t\"x\ty\"", "2:2\tAND\tand", ""].map String.toList ∧
    report.status = 1 := by
  have hlength : unclosedText.utf8ByteSize ≤ ({ length := 20 } : Limits).length := by decide
  obtain ⟨-, hlines, -, -, -, hstatus⟩ := tokens_run .empty hlength
  refine ⟨hlength, hlines.trans ?_, hstatus.trans ?_⟩
  · decide +kernel
  · decide +kernel

end Report

end FieldFilter
