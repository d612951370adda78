import Cuber.Http.ResponseContext

/-!
# The language of the response parser

An `AnswerHead` is the head of an answer as an upstream server may write it: a
status line with a reason phrase, and header lines.  Every answer that a fresh
response parser accepts starts with one, and the head decides how the bytes
after the blank line are read.
-/

namespace Cuber.UpstreamAnswer

open Cuber.Buffer
open Cuber.Headers
open Cuber.Loop
open Cuber.Maps
open Cuber.Response
open Cuber.ResponseContext
open Cuber.Text

structure AnswerHead where
  version : Bytes
  status : Bytes
  code : ℤ
  phrase : Bytes
  lines : List Bytes
  version_spaces : SP ∉ version
  status_spaces : SP ∉ status
  status_code : stoi status = some code
  phrase_ne_nil : phrase ≠ []
  isLine : IsLine (version ++ SP :: (status ++ SP :: phrase))
  isHeaderLines : ∀ line ∈ lines, IsHeaderLine line

namespace AnswerHead

variable (head : AnswerHead)

def statusLine : Bytes :=
  head.version ++ SP :: (head.status ++ SP :: head.phrase)

def bytes : Bytes :=
  head.statusLine ++ CR :: LF :: (joinLines head.lines ++ [CR, LF])

def headers : HeaderMap := storeLines OrderedMap.empty head.lines

/-- The response stored for a head before its body is read: a status with a
default page has brought it along. -/
def decoded : HttpResponse where
  headers := head.headers
  statusCode := head.code
  version := head.version
  statusMessage := head.phrase
  body := (bodyMessageMap head.code).getD []

theorem isLine_phrase : IsLine head.phrase := by
  have hstatus : IsLine (([SP] ++ head.status) ++ ([SP] ++ head.phrase)) := by
    simpa using head.isLine.right
  exact hstatus.right.right

theorem parseStatusLine_eq :
    parseStatusLine {} head.statusLine =
      (.kParseOK, { head.decoded with headers := OrderedMap.empty }) := by
  rw [parseStatusLine, statusLine, cut_append head.version_spaces]
  simp only [cut_append head.status_spaces, head.status_code]
  rw [if_pos head.phrase_ne_nil]
  rfl

theorem isClean_headers : IsClean head.headers :=
  isClean_storeLines isClean_empty head.isHeaderLines

theorem bytes_append (rest : Bytes) :
    head.bytes ++ rest =
      head.statusLine ++ CR :: LF :: (joinLines head.lines ++ CR :: LF :: rest) := by
  simp [bytes]

theorem isHeadLine_of_mem : ∀ line ∈ head.statusLine :: head.lines, IsHeadLine line := by
  intro line hline
  rcases List.mem_cons.mp hline with rfl | hline
  · exact ⟨head.isLine, by simp [statusLine]⟩
  · obtain ⟨hisLine, hcolon⟩ := head.isHeaderLines line hline
    exact ⟨hisLine, List.ne_nil_of_mem hcolon⟩

/-- The head of an answer is determined by it. -/
theorem bytes_unique {head head' : AnswerHead} {rest rest' : Bytes}
    (heq : head.bytes ++ rest = head'.bytes ++ rest') : head = head' ∧ rest = rest' := by
  rw [head.bytes_append, head'.bytes_append, ← joinLines_cons_append,
    ← joinLines_cons_append] at heq
  obtain ⟨hlines, hrest⟩ := head_unique head.isHeadLine_of_mem head'.isHeadLine_of_mem heq
  obtain ⟨hstatus, hlines⟩ := List.cons.inj hlines
  have hfirst := congrArg (cut SP) hstatus
  rw [statusLine, statusLine, cut_append head.version_spaces,
    cut_append head'.version_spaces] at hfirst
  simp only [Option.some.injEq, Prod.mk.injEq] at hfirst
  obtain ⟨hversion, hafter⟩ := hfirst
  have hsecond := congrArg (cut SP) hafter
  rw [cut_append head.status_spaces, cut_append head'.status_spaces] at hsecond
  simp only [Option.some.injEq, Prod.mk.injEq] at hsecond
  obtain ⟨hstatus, hphrase⟩ := hsecond
  have hcode : head.code = head'.code := by
    apply Option.some.inj
    rw [← head.status_code, ← head'.status_code, hstatus]
  refine ⟨?_, hrest⟩
  cases head
  cases head'
  simp_all

/-- Version, status code and two blanks fit the 64 bytes that
`HttpResponse::appendToBuffer` has for them, with the NUL at their end. -/
def StatusFits : Prop :=
  (cStr head.version).length + (intText head.code).length + 2 ≤ 63

end AnswerHead

/-! ## Reading a head -/

section Reading

variable {context : HttpResponseContext} {bytes left : Bytes} {parsed : ResponseParse}

theorem parseResponse_of_next {context' : HttpResponseContext} {rest : Bytes}
    (hstep : parseResponseStep (context, bytes) = .next (context', rest)) :
    parseResponse context bytes = parseResponse context' rest :=
  parseLoop.exec_of_next hstep

theorem parseResponse_of_done
    (hstep : parseResponseStep (context, bytes) = .done parsed) :
    parseResponse context bytes = some parsed :=
  parseLoop.exec_of_done hstep

theorem parseResponse_headerLines {lines : List Bytes}
    (hlines : ∀ line ∈ lines, IsHeaderLine line) (response : HttpResponse)
    (rest : Bytes) :
    parseResponse ⟨.kExpectHeaders, response⟩ (joinLines lines ++ rest) =
      parseResponse ⟨.kExpectHeaders, { response with
        headers := storeLines response.headers lines }⟩ rest := by
  induction lines generalizing response with
  | nil => rfl
  | cons line lines ih =>
      rw [joinLines_cons_append,
        parseResponse_of_next (step_of_headerLine rfl (hlines line (by simp)) _),
        ih fun other hother => hlines other (List.mem_cons_of_mem line hother)]
      rfl

theorem parseResponse_statusLine (head : AnswerHead) (rest : Bytes) :
    parseResponse {} (head.statusLine ++ CR :: LF :: rest) =
      parseResponse ⟨.kExpectHeaders, { head.decoded with
        headers := OrderedMap.empty }⟩ rest := by
  apply parseResponse_of_next
  have hfind := findCRLF_line head.isLine rest
  rw [show head.version ++ SP :: (head.status ++ SP :: head.phrase) =
    head.statusLine from rfl] at hfind
  simp only [parseResponseStep, hfind, List.take_left, head.parseStatusLine_eq,
    retrieve_line]

/-- After a head the parser is left with the body to read. -/
theorem parseResponse_head (head : AnswerHead) (rest : Bytes) :
    parseResponse {} (head.bytes ++ rest) =
      parseResponse ⟨.kExpectBody, head.decoded⟩ rest := by
  rw [head.bytes_append, parseResponse_statusLine,
    parseResponse_headerLines head.isHeaderLines,
    parseResponse_of_next (step_of_blankLine rfl rest)]
  rfl

/-- Reading the body either completes the answer or finds it malformed. -/
theorem parseResponse_expectBody_cases {response : HttpResponse}
    (hparse : parseResponse ⟨.kExpectBody, response⟩ bytes = some parsed) :
    parsed.verdict = .kParseOK ∧
        parseBody response bytes = (.kParseOK, parsed.context.response, parsed.buffer) ∨
      parsed.verdict = .kBadMessage := by
  by_cases hawaits : AwaitsBody response.headers bytes
  · have hstall := (not_terminates_expectBody_iff response bytes).mpr hawaits
    rw [parseResponse, parseLoop.exec_eq_none_iff.mpr hstall] at hparse
    cases hparse
  · obtain ⟨verdict, response', rest, hbody, hverdict, _⟩ :=
      parseBody_of_not_awaitsBody hawaits
    cases verdict with
    | kParseOK =>
        have hnext : parseResponseStep (⟨.kExpectBody, response⟩, bytes) =
            .next (⟨.kGotAll, response'⟩, rest) := by
          simp [parseResponseStep, hbody]
        rw [parseResponse_of_next hnext, parseResponse_of_done (step_of_gotAll rfl rest)]
          at hparse
        cases hparse
        exact Or.inl ⟨rfl, hbody⟩
    | kParseAgain => exact absurd rfl hverdict
    | kBadMessage | kHeaderEnd =>
        have hdone : parseResponseStep (⟨.kExpectBody, response⟩, bytes) =
            .done ⟨.kBadMessage, ⟨.kExpectBody, response'⟩, rest⟩ := by
          simp [parseResponseStep, hbody]
        rw [parseResponse_of_done hdone] at hparse
        cases hparse
        exact Or.inr rfl

theorem parseResponse_expectBody_ok {response : HttpResponse}
    (hparse : parseResponse ⟨.kExpectBody, response⟩ bytes =
      some ⟨.kParseOK, context, left⟩) :
    parseBody response bytes = (.kParseOK, context.response, left) := by
  rcases parseResponse_expectBody_cases hparse with ⟨_, hbody⟩ | hbad
  · exact hbody
  · cases hbad

theorem parseResponse_expectBody_of_ok {response response' : HttpResponse}
    (hbody : parseBody response bytes = (.kParseOK, response', left)) :
    parseResponse ⟨.kExpectBody, response⟩ bytes =
      some ⟨.kParseOK, ⟨.kGotAll, response'⟩, left⟩ := by
  have hnext : parseResponseStep (⟨.kExpectBody, response⟩, bytes) =
      .next (⟨.kGotAll, response'⟩, left) := by
    simp [parseResponseStep, hbody]
  rw [parseResponse_of_next hnext, parseResponse_of_done (step_of_gotAll rfl left)]

/-- How a body is read off the bytes after the blank line: it is the default
page of the status when no length is stored, and the stored number of bytes
otherwise. -/
theorem parseBody_ok_cases {response response' : HttpResponse}
    (hbody : parseBody response bytes = (.kParseOK, response', left)) :
    (valueOf response.headers contentLength = [] ∧ response' = response ∧ left = bytes) ∨
      ∃ value, valueOf response.headers contentLength ≠ [] ∧
        stoi (valueOf response.headers contentLength) = some value ∧
        toSizeT value ≤ bytes.length ∧
        response' = response.setBody (bytes.take (toSizeT value)) ∧
        left = bytes.drop (toSizeT value) := by
  by_cases htext : valueOf response.headers contentLength = []
  · rw [parseBody, HttpResponse.getHeader, if_neg (not_not.mpr htext)] at hbody
    cases hbody
    exact Or.inl ⟨htext, rfl, rfl⟩
  · right
    rw [parseBody, HttpResponse.getHeader, if_pos htext] at hbody
    cases hvalue : stoi (valueOf response.headers contentLength) with
    | none =>
        simp only [hvalue] at hbody
        cases hbody
    | some value =>
        simp only [hvalue] at hbody
        split_ifs at hbody with hshort
        · cases hbody
        · cases hbody
          exact ⟨value, htext, rfl, not_lt.mp hshort, rfl, rfl⟩

theorem parseBody_of_no_length {response : HttpResponse}
    (htext : valueOf response.headers contentLength = []) :
    parseBody response bytes = (.kParseOK, response, bytes) := by
  rw [parseBody, HttpResponse.getHeader, if_neg (not_not.mpr htext)]

theorem parseBody_of_exact_length {response : HttpResponse} {value : ℤ}
    (htext : valueOf response.headers contentLength ≠ [])
    (hvalue : stoi (valueOf response.headers contentLength) = some value)
    (hlength : toSizeT value = bytes.length) :
    parseBody response bytes = (.kParseOK, response.setBody bytes, []) := by
  rw [parseBody, HttpResponse.getHeader, if_pos htext]
  simp [hvalue, hlength, retrieve]

/-- A body that is complete stays what it is when more bytes follow. -/
theorem parseBody_append {response response' : HttpResponse} {more : Bytes}
    (hbody : parseBody response bytes = (.kParseOK, response', left)) :
    parseBody response (bytes ++ more) = (.kParseOK, response', left ++ more) := by
  rcases parseBody_ok_cases hbody with ⟨htext, rfl, rfl⟩ |
    ⟨value, htext, hvalue, hle, rfl, rfl⟩
  · exact parseBody_of_no_length htext
  · have henough : ¬ toSizeT value > (bytes ++ more).length := by
      rw [List.length_append]
      omega
    rw [parseBody, HttpResponse.getHeader, if_pos htext]
    simp only [hvalue]
    rw [if_neg henough, retrieve, List.take_append_of_le_length hle,
      List.drop_append_of_le_length hle]

theorem eq_of_parseBody_again {response response' : HttpResponse}
    (hbody : parseBody response bytes = (.kParseAgain, response', left)) :
    response' = response ∧ left = bytes := by
  by_cases hawaits : AwaitsBody response.headers bytes
  · rw [parseBody_of_awaitsBody hawaits] at hbody
    cases hbody
    exact ⟨rfl, rfl⟩
  · obtain ⟨verdict, _, _, hother, hverdict, _⟩ := parseBody_of_not_awaitsBody hawaits
    rw [hother] at hbody
    cases hbody
    exact absurd rfl hverdict

end Reading

/-! ## Accepted answers -/

section Accepted

variable {bytes left : Bytes} {context : HttpResponseContext}

/-- A status line is a version, a number and a reason phrase between blanks. -/
theorem exists_answerHead_of_isStatusLine {line : Bytes} (hline : IsLine line)
    (hstatus : IsStatusLine line) {lines : List Bytes}
    (hlines : ∀ line ∈ lines, IsHeaderLine line) :
    ∃ head : AnswerHead, head.statusLine = line ∧ head.lines = lines := by
  obtain ⟨version, afterVersion, status, phrase, hversion, hcut, hcode, hphrase⟩ := hstatus
  obtain ⟨rfl, hfree⟩ := cut_eq_some hversion
  obtain ⟨rfl, hfree'⟩ := cut_eq_some hcut
  obtain ⟨code, hcode⟩ := Option.isSome_iff_exists.mp hcode
  exact ⟨⟨version, status, code, phrase, lines, hfree, hfree', hcode, hphrase, hline,
    hlines⟩, rfl, rfl⟩

theorem not_ok_of_done {start : HttpResponseContext} {result : ResponseParse}
    (hstep : parseResponseStep (start, bytes) = .done result)
    (hverdict : result.verdict ≠ .kParseOK) :
    parseResponse start bytes ≠ some ⟨.kParseOK, context, left⟩ := by
  rw [parseResponse_of_done hstep]
  intro hparse
  cases hparse
  exact hverdict rfl

/-- An answer that a fresh parser accepts starts with a head, and its body is
what the head says. -/
theorem exists_answerHead_of_accepted
    (hparse : parseResponse {} bytes = some ⟨.kParseOK, context, left⟩) :
    ∃ head : AnswerHead, ∃ rest, bytes = head.bytes ++ rest ∧
      parseBody head.decoded rest = (.kParseOK, context.response, left) := by
  rcases line_cases bytes with hline | ⟨line, rest, rfl, hline⟩
  · exact absurd hparse (not_ok_of_done (step_of_unfinished (Or.inl rfl) hline) (by simp))
  by_cases hstatus : IsStatusLine line
  swap
  · rcases parseStatusLine_cases {} line with ⟨_, _, hgood⟩ | ⟨hbad, _⟩
    · exact absurd hgood hstatus
    · have hstep := @step_of_line_of_statusLine {} line rfl hline rest
      rw [hbad] at hstep
      exact absurd hparse (not_ok_of_done hstep (by simp))
  obtain ⟨lines, tail, rfl, hlines, htail⟩ := exists_headerSection rest
  obtain ⟨head, rfl, rfl⟩ := exists_answerHead_of_isStatusLine hline hstatus hlines
  rcases htail with hunfinished | ⟨body, rfl⟩ | ⟨malformed, after, rfl, hmalformed⟩
  · rw [parseResponse_statusLine, parseResponse_headerLines hlines] at hparse
    exact absurd hparse
      (not_ok_of_done (step_of_unfinished (Or.inr rfl) hunfinished) (by simp))
  · rw [← head.bytes_append] at hparse ⊢
    rw [parseResponse_head] at hparse
    exact ⟨head, body, rfl, parseResponse_expectBody_ok hparse⟩
  · rw [parseResponse_statusLine, parseResponse_headerLines hlines] at hparse
    exact absurd hparse
      (not_ok_of_done (step_of_malformedHeader rfl hmalformed after) (by simp))

end Accepted

/-! ## Answers that are not complete -/

/-- Header lines, the last of which has not arrived in full. -/
def IsUnfinishedSection (bytes : Bytes) : Prop :=
  ∃ lines tail, bytes = joinLines lines ++ tail ∧
    (∀ line ∈ lines, IsHeaderLine line) ∧ IsLine tail

/-- Bytes after which the parser waits for more of the head. -/
def CallsForMore (context : HttpResponseContext) (bytes : Bytes) : Prop :=
  match context.state with
  | .kExpectStatusLine =>
      IsLine bytes ∨ ∃ line rest, bytes = line ++ CR :: LF :: rest ∧ IsLine line ∧
        IsStatusLine line ∧ IsUnfinishedSection rest
  | .kExpectHeaders => IsUnfinishedSection bytes
  | .kExpectBody => False
  | .kGotAll => False

section Unfinished

variable {bytes : Bytes} {parsed : ResponseParse}

theorem parseResponse_of_isUnfinishedSection (hbytes : IsUnfinishedSection bytes)
    (response : HttpResponse) :
    ∃ context left, parseResponse ⟨.kExpectHeaders, response⟩ bytes =
      some ⟨.kParseAgain, context, left⟩ := by
  obtain ⟨lines, tail, rfl, hlines, htail⟩ := hbytes
  rw [parseResponse_headerLines hlines,
    parseResponse_of_done (step_of_unfinished (Or.inr rfl) htail)]
  exact ⟨_, _, rfl⟩

/-- Where more is called for, the header section is unfinished. -/
theorem isUnfinishedSection_of_again {response : HttpResponse}
    (hparse : parseResponse ⟨.kExpectHeaders, response⟩ bytes = some parsed)
    (hagain : parsed.verdict = .kParseAgain) : IsUnfinishedSection bytes := by
  obtain ⟨lines, tail, rfl, hlines, htail⟩ := exists_headerSection bytes
  rw [parseResponse_headerLines hlines] at hparse
  rcases htail with hunfinished | ⟨body, rfl⟩ | ⟨malformed, after, rfl, hmalformed⟩
  · exact ⟨lines, tail, rfl, hlines, hunfinished⟩
  · rw [parseResponse_of_next (step_of_blankLine rfl body)] at hparse
    rcases parseResponse_expectBody_cases hparse with ⟨hok, _⟩ | hbad
    · simp [hok] at hagain
    · simp [hbad] at hagain
  · rw [parseResponse_of_done (step_of_malformedHeader rfl hmalformed after)] at hparse
    cases hparse
    cases hagain

/-- An unfinished head makes the parser wait. -/
theorem parseResponse_of_callsForMore {context : HttpResponseContext}
    (hbytes : CallsForMore context bytes) :
    ∃ context' left, parseResponse context bytes = some ⟨.kParseAgain, context', left⟩ := by
  obtain ⟨state, response⟩ := context
  cases state with
  | kExpectStatusLine =>
      rcases hbytes with hline | ⟨line, rest, rfl, hline, hstatus, hrest⟩
      · exact ⟨_, _, parseResponse_of_done (step_of_unfinished (Or.inl rfl) hline)⟩
      · rcases step_of_statusLine ⟨.kExpectStatusLine, response⟩ rfl hline rest with
          ⟨response', _, _, hnext⟩ | ⟨result, hbad, _⟩
        · rw [parseResponse_of_next hnext]
          exact parseResponse_of_isUnfinishedSection hrest response'
        · exact absurd hstatus hbad
  | kExpectHeaders => exact parseResponse_of_isUnfinishedSection hbytes response
  | kExpectBody | kGotAll => exact hbytes.elim

/-- The parser waits only for an unfinished head. -/
theorem callsForMore_of_again {context : HttpResponseContext}
    (hparse : parseResponse context bytes = some parsed)
    (hagain : parsed.verdict = .kParseAgain) : CallsForMore context bytes := by
  obtain ⟨state, response⟩ := context
  cases state with
  | kExpectStatusLine =>
      rcases line_cases bytes with hline | ⟨line, rest, rfl, hline⟩
      · exact Or.inl hline
      · have hstep := @step_of_line_of_statusLine ⟨.kExpectStatusLine, response⟩ line rfl
          hline rest
        rcases parseStatusLine_cases response line with ⟨hok, _, hstatus⟩ | ⟨hbad, _⟩
        · rw [hok] at hstep
          rw [parseResponse_of_next hstep] at hparse
          exact Or.inr ⟨line, rest, rfl, hline, hstatus,
            isUnfinishedSection_of_again hparse hagain⟩
        · rw [hbad] at hstep
          rw [parseResponse_of_done hstep] at hparse
          cases hparse
          cases hagain
  | kExpectHeaders => exact isUnfinishedSection_of_again hparse hagain
  | kExpectBody =>
      rcases parseResponse_expectBody_cases hparse with ⟨hok, _⟩ | hbad
      · simp [hok] at hagain
      · simp [hbad] at hagain
  | kGotAll =>
      rw [parseResponse_of_done (step_of_gotAll rfl bytes)] at hparse
      cases hparse
      cases hagain

end Unfinished

/-! ## Answers that arrive in chunks -/

section Chunks

variable {context context' : HttpResponseContext} {bytes left : Bytes}

/-- An iteration that makes progress is not affected by bytes that arrive
later. -/
theorem step_append {rest : Bytes} (more : Bytes)
    (hstep : parseResponseStep (context, bytes) = .next (context', rest)) :
    (context', rest) = (context, bytes) ∨
      parseResponseStep (context, bytes ++ more) = .next (context', rest ++ more) := by
  cases hstate : context.state with
  | kExpectStatusLine =>
      rcases line_cases bytes with hline | ⟨line, tail, rfl, hline⟩
      · simp [step_of_unfinished (Or.inl hstate) hline] at hstep
      · right
        have hlater := step_of_line_of_statusLine hstate hline (tail ++ more)
        rw [step_of_line_of_statusLine hstate hline] at hstep
        rw [List.append_assoc, List.cons_append, List.cons_append, hlater]
        rcases parseStatusLine_cases context.response line with ⟨hok, _⟩ | ⟨hbad, _⟩
        · rw [hok] at hstep ⊢
          cases hstep
          rfl
        · rw [hbad] at hstep
          cases hstep
  | kExpectHeaders =>
      rcases line_cases bytes with hline | ⟨line, tail, rfl, hline⟩
      · simp [step_of_unfinished (Or.inr hstate) hline] at hstep
      · right
        rw [List.append_assoc, List.cons_append, List.cons_append]
        rcases header_cases hline with hheader | rfl | hmalformed
        · rw [step_of_headerLine hstate hheader] at hstep ⊢
          cases hstep
          rfl
        · rw [List.nil_append, step_of_blankLine hstate] at hstep ⊢
          cases hstep
          rfl
        · simp [step_of_malformedHeader hstate hmalformed] at hstep
  | kExpectBody =>
      obtain ⟨state, response⟩ := context
      cases hstate
      cases hbody : parseBody response bytes with
      | mk verdict after =>
          obtain ⟨response', rest'⟩ := after
          simp only [parseResponseStep, hbody] at hstep
          cases verdict with
          | kParseOK =>
              cases hstep
              right
              simp only [parseResponseStep, parseBody_append hbody]
          | kParseAgain =>
              cases hstep
              obtain ⟨rfl, rfl⟩ := eq_of_parseBody_again hbody
              exact Or.inl rfl
          | kBadMessage | kHeaderEnd => cases hstep
  | kGotAll => simp [step_of_gotAll hstate] at hstep

/-- A parser that asks for more leaves an unfinished line. -/
theorem eq_of_step_again
    (hstep : parseResponseStep (context, bytes) = .done ⟨.kParseAgain, context', left⟩) :
    context' = context ∧ left = bytes := by
  cases hstate : context.state with
  | kExpectStatusLine =>
      rcases line_cases bytes with hline | ⟨line, tail, rfl, hline⟩
      · rw [step_of_unfinished (Or.inl hstate) hline] at hstep
        cases hstep
        exact ⟨rfl, rfl⟩
      · rw [step_of_line_of_statusLine hstate hline] at hstep
        rcases parseStatusLine_cases context.response line with ⟨hok, _⟩ | ⟨hbad, _⟩
        · rw [hok] at hstep
          cases hstep
        · rw [hbad] at hstep
          cases hstep
  | kExpectHeaders =>
      rcases line_cases bytes with hline | ⟨line, tail, rfl, hline⟩
      · rw [step_of_unfinished (Or.inr hstate) hline] at hstep
        cases hstep
        exact ⟨rfl, rfl⟩
      · rcases header_cases hline with hheader | rfl | hmalformed
        · simp [step_of_headerLine hstate hheader] at hstep
        · simp [step_of_blankLine hstate] at hstep
        · rw [step_of_malformedHeader hstate hmalformed] at hstep
          cases hstep
  | kExpectBody =>
      obtain ⟨verdict, response', rest, hbody⟩ :
          ∃ verdict response' rest,
            parseBody context.response bytes = (verdict, response', rest) :=
        ⟨_, _, _, rfl⟩
      cases verdict <;> simp [parseResponseStep, hstate, hbody] at hstep
  | kGotAll => simp [step_of_gotAll hstate] at hstep

/-- Bytes that arrive after the parser has asked for more are parsed as if they
had been there from the beginning. -/
theorem parseResponse_append
    (hparse : parseResponse context bytes = some ⟨.kParseAgain, context', left⟩)
    (more : Bytes) :
    parseResponse context (bytes ++ more) = parseResponse context' (left ++ more) := by
  obtain ⟨rounds, hrun⟩ := parseLoop.exec_eq_some_iff.mp hparse
  clear hparse
  induction rounds generalizing context bytes with
  | zero => simp [run] at hrun
  | succ rounds ih =>
      cases hstep : parseResponseStep (context, bytes) with
      | next after =>
          obtain ⟨middle, rest⟩ := after
          have hrest : run parseResponseStep rounds (middle, rest) =
              some ⟨.kParseAgain, context', left⟩ :=
            (run_succ_of_next hstep rounds).symm.trans hrun
          rcases step_append more hstep with hstall | hprogress
          · cases hstall
            exact ih hrest
          · rw [parseResponse_of_next hprogress]
            exact ih hrest
      | done result =>
          have hresult : some result = some ⟨.kParseAgain, context', left⟩ :=
            (run_succ_of_done hstep rounds).symm.trans hrun
          cases hresult
          obtain ⟨rfl, rfl⟩ := eq_of_step_again hstep
          rfl

/-- The parser of an upstream connection waits for more after these bytes,
which may have come in several chunks. -/
inductive Arrived : Bytes → HttpResponseContext → Bytes → Prop
  | nothing : Arrived [] {} []
  | chunk {bytes left left' : Bytes} {context context' : HttpResponseContext}
      (chunk : Bytes) (hearlier : Arrived bytes context left)
      (hparse : parseResponse context (left ++ chunk) =
        some ⟨.kParseAgain, context', left'⟩) :
      Arrived (bytes ++ chunk) context' left'

/-- How an answer is divided into chunks does not matter. -/
theorem parseResponse_of_arrived (harrived : Arrived bytes context left) (more : Bytes) :
    parseResponse context (left ++ more) = parseResponse {} (bytes ++ more) := by
  induction harrived generalizing more with
  | nothing => rfl
  | chunk chunk _ hparse ih =>
      rw [List.append_assoc, ← ih, ← List.append_assoc]
      exact (parseResponse_append hparse more).symm

end Chunks

end Cuber.UpstreamAnswer
