import Cuber.Core.Loop
import Cuber.Core.Execution
import Cuber.Http.Response

/-!
# The response parser

`HttpResponseContext` reads the answer of an upstream server.  Its loop is the
one of the request parser with one difference: in `kExpectBody` an incomplete
body changes neither the state nor the buffer and does not clear `hasMore`, so
the iteration repeats its own state.  The loop is therefore a `StallingLoop`,
and the second half of this module says on which input it stalls.
-/

namespace Cuber.ResponseContext

open Cuber.Buffer
open Cuber.Execution
open Cuber.Headers
open Cuber.Loop
open Cuber.Response
open Cuber.Text

inductive HttpResponseParseState where
  | kExpectStatusLine
  | kExpectHeaders
  | kExpectBody
  | kGotAll
  deriving DecidableEq

inductive HttpParseState where
  | kParseOK
  | kBadMessage
  | kParseAgain
  | kHeaderEnd
  deriving DecidableEq

structure HttpResponseContext where
  state : HttpResponseParseState := .kExpectStatusLine
  response : HttpResponse := {}
  deriving DecidableEq

structure ResponseParse where
  verdict : HttpParseState
  context : HttpResponseContext
  buffer : Bytes
  deriving DecidableEq

def parseStatusLine (response : HttpResponse) (line : Bytes) :
    HttpParseState × HttpResponse :=
  match cut SP line with
  | none => (.kBadMessage, response)
  | some (version, afterVersion) =>
      let response := response.setVersion version
      match cut SP afterVersion with
      | none => (.kBadMessage, response)
      | some (status, message) =>
          match stoi status with
          | none => (.kBadMessage, response)
          | some code =>
              let response := response.setStatusCode code
              if message ≠ [] then
                (.kParseOK, response.setStatusMessage message)
              else (.kBadMessage, response)

def parseHeaders (response : HttpResponse) (line : Bytes) :
    HttpParseState × HttpResponse :=
  match cut colon line with
  | some (field, value) => (.kParseAgain, response.addHeader field (trim value))
  | none => if line = [] then (.kHeaderEnd, response) else (.kBadMessage, response)

def parseBody (response : HttpResponse) (buffer : Bytes) :
    HttpParseState × HttpResponse × Bytes :=
  let text := response.getHeader contentLength
  if text ≠ [] then
    match stoi text with
    | none => (.kBadMessage, response, buffer)
    | some value =>
        let length := toSizeT value
        if length > buffer.length then (.kParseAgain, response, buffer)
        else
          (.kParseOK, response.setBody (buffer.take length),
            retrieve buffer length)
  else (.kParseOK, response, buffer)

/-- One iteration of the loop of `HttpResponseContext::parseResponse`. -/
def parseResponseStep (loopState : HttpResponseContext × Bytes) :
    Step (HttpResponseContext × Bytes) ResponseParse :=
  let context := loopState.1
  let buffer := loopState.2
  match context.state with
  | .kExpectStatusLine =>
      match findCRLF buffer with
      | none => .done ⟨.kParseAgain, context, buffer⟩
      | some crlf =>
          match parseStatusLine context.response (buffer.take crlf) with
          | (.kParseOK, response) =>
              .next (⟨.kExpectHeaders, response⟩, retrieve buffer (crlf + 2))
          | (.kBadMessage, response) =>
              .done ⟨.kBadMessage, { context with response },
                retrieve buffer (crlf + 2)⟩
          | (_, response) =>
              .done ⟨.kParseAgain, { context with response }, buffer⟩
  | .kExpectHeaders =>
      match findCRLF buffer with
      | none => .done ⟨.kParseAgain, context, buffer⟩
      | some crlf =>
          match parseHeaders context.response (buffer.take crlf) with
          | (.kHeaderEnd, response) =>
              .next (⟨.kExpectBody, response⟩, retrieve buffer (crlf + 2))
          | (.kBadMessage, response) =>
              .done ⟨.kBadMessage, { context with response },
                retrieve buffer (crlf + 2)⟩
          | (_, response) =>
              .next ({ context with response }, retrieve buffer (crlf + 2))
  | .kExpectBody =>
      match parseBody context.response buffer with
      | (.kParseOK, response, buffer) => .next (⟨.kGotAll, response⟩, buffer)
      -- `hasMore` stays true: the loop goes round again with nothing changed
      | (.kParseAgain, response, buffer) => .next ({ context with response }, buffer)
      | (_, response, buffer) =>
          .done ⟨.kBadMessage, { context with response }, buffer⟩
  | .kGotAll => .done ⟨.kParseOK, context, buffer⟩

/-! ## Specifications of the sub-parsers -/

/-- A status line that `parseStatusLine` accepts: a version, a number that
fits an `int`, and a non-empty reason phrase. -/
def IsStatusLine (line : Bytes) : Prop :=
  ∃ version afterVersion status message,
    cut SP line = some (version, afterVersion) ∧
      cut SP afterVersion = some (status, message) ∧
      (stoi status).isSome ∧ message ≠ []

/-- The parser takes the status lines of the grammar, and keeps the headers. -/
theorem parseStatusLine_cases (response : HttpResponse) (line : Bytes) :
    ((parseStatusLine response line).1 = .kParseOK ∧
        (parseStatusLine response line).2.headers = response.headers ∧
        IsStatusLine line) ∨
      ((parseStatusLine response line).1 = .kBadMessage ∧
        ¬ IsStatusLine line) := by
  cases hversion : cut SP line with
  | none => exact Or.inr (by simp [parseStatusLine, IsStatusLine, hversion])
  | some parts =>
      obtain ⟨version, afterVersion⟩ := parts
      cases hstatus : cut SP afterVersion with
      | none =>
          exact Or.inr (by simp [parseStatusLine, IsStatusLine, hversion, hstatus])
      | some parts =>
          obtain ⟨status, message⟩ := parts
          cases hcode : stoi status with
          | none =>
              exact Or.inr (by
                simp [parseStatusLine, IsStatusLine, hversion, hstatus, hcode])
          | some code =>
              by_cases hmessage : message = []
              · exact Or.inr (by
                  simp [parseStatusLine, IsStatusLine, hversion, hstatus, hcode,
                    hmessage])
              · apply Or.inl
                simp only [parseStatusLine, IsStatusLine, hversion, hstatus, hcode]
                rw [if_pos hmessage]
                exact ⟨rfl, rfl, version, afterVersion, status, message, rfl,
                  hstatus, by simp [hcode], hmessage⟩

theorem parseHeaders_of_colon (response : HttpResponse) {line : Bytes}
    (hcolon : colon ∈ line) :
    parseHeaders response line =
      (.kParseAgain,
        { response with headers := storeLine response.headers line }) := by
  obtain ⟨parts, hcut⟩ := Option.isSome_iff_exists.mp (cut_isSome_iff.mpr hcolon)
  simp [parseHeaders, storeLine, hcut, HttpResponse.addHeader]

theorem parseHeaders_nil (response : HttpResponse) :
    parseHeaders response [] = (.kHeaderEnd, response) := rfl

theorem parseHeaders_of_malformed (response : HttpResponse) {line : Bytes}
    (hmalformed : IsMalformedHeader line) :
    parseHeaders response line = (.kBadMessage, response) := by
  obtain ⟨_, hne, hcolon⟩ := hmalformed
  simp [parseHeaders, cut_eq_none_iff.mpr hcolon, hne]

/-- The stored `Content-Length` asks for more bytes than are at hand.  A
negative length counts as the size it wraps to. -/
def AwaitsBody (headers : HeaderMap) (buffer : Bytes) : Prop :=
  valueOf headers contentLength ≠ [] ∧
    ∃ value, stoi (valueOf headers contentLength) = some value ∧
      buffer.length < toSizeT value

theorem parseBody_of_awaitsBody {response : HttpResponse} {buffer : Bytes}
    (hawaits : AwaitsBody response.headers buffer) :
    parseBody response buffer = (.kParseAgain, response, buffer) := by
  obtain ⟨hfield, value, hvalue, hshort⟩ := hawaits
  simp [parseBody, HttpResponse.getHeader, hfield, hvalue, hshort]

/-- A body that is complete, or not announced, ends the parser. -/
theorem parseBody_of_not_awaitsBody {response : HttpResponse} {buffer : Bytes}
    (hawaits : ¬ AwaitsBody response.headers buffer) :
    ∃ verdict response' rest, parseBody response buffer = (verdict, response', rest) ∧
      verdict ≠ .kParseAgain ∧ rest.length ≤ buffer.length := by
  by_cases hfield : valueOf response.headers contentLength = []
  · exact ⟨.kParseOK, response, buffer, by
      simp [parseBody, HttpResponse.getHeader, hfield], by simp, le_rfl⟩
  · cases hvalue : stoi (valueOf response.headers contentLength) with
    | none => exact ⟨.kBadMessage, response, buffer, by
        simp [parseBody, HttpResponse.getHeader, hfield, hvalue], by simp, le_rfl⟩
    | some value =>
        have henough : ¬ buffer.length < toSizeT value := fun hshort =>
          hawaits ⟨hfield, value, hvalue, hshort⟩
        exact ⟨.kParseOK, _, _, by
          simp only [parseBody, HttpResponse.getHeader, hvalue]
          rw [if_pos hfield, if_neg henough], by simp, by simp⟩

/-! ## The loop -/

section Iterations

variable {context : HttpResponseContext} {line : Bytes}

theorem step_of_unfinished
    (hstate : context.state = .kExpectStatusLine ∨
      context.state = .kExpectHeaders) (hline : IsLine line) :
    parseResponseStep (context, line) = .done ⟨.kParseAgain, context, line⟩ := by
  have hfind : findCRLF line = none := hline
  rcases hstate with hstate | hstate <;> simp [parseResponseStep, hstate, hfind]

/-- An iteration on a complete status line. -/
theorem step_of_line_of_statusLine
    (hstate : context.state = .kExpectStatusLine) (hline : IsLine line)
    (rest : Bytes) :
    parseResponseStep (context, line ++ CR :: LF :: rest) =
      match (parseStatusLine context.response line).1 with
      | .kParseOK =>
          .next (⟨.kExpectHeaders, (parseStatusLine context.response line).2⟩, rest)
      | .kBadMessage =>
          .done ⟨.kBadMessage, { context with
            response := (parseStatusLine context.response line).2 }, rest⟩
      | _ =>
          .done ⟨.kParseAgain, { context with
            response := (parseStatusLine context.response line).2 },
            line ++ CR :: LF :: rest⟩ := by
  simp only [parseResponseStep, hstate, findCRLF_line hline, List.take_left,
    retrieve_line]
  rcases parseStatusLine context.response line with ⟨verdict, response⟩
  cases verdict <;> rfl

variable (context) in
/-- A status line is taken, or ends the parser. -/
theorem step_of_statusLine (hstate : context.state = .kExpectStatusLine)
    (hline : IsLine line) (rest : Bytes) :
    (∃ response, response.headers = context.response.headers ∧
        IsStatusLine line ∧
        parseResponseStep (context, line ++ CR :: LF :: rest) =
          .next (⟨.kExpectHeaders, response⟩, rest)) ∨
      ∃ result, ¬ IsStatusLine line ∧
        parseResponseStep (context, line ++ CR :: LF :: rest) = .done result := by
  have hstep := step_of_line_of_statusLine hstate hline rest
  rcases parseStatusLine_cases context.response line with
    ⟨hverdict, hheaders, hstatus⟩ | ⟨hverdict, hstatus⟩
  · exact Or.inl ⟨_, hheaders, hstatus, by rw [hstep, hverdict]⟩
  · exact Or.inr ⟨_, hstatus, by rw [hstep, hverdict]⟩

theorem step_of_headerLine (hstate : context.state = .kExpectHeaders)
    (hline : IsHeaderLine line) (rest : Bytes) :
    parseResponseStep (context, line ++ CR :: LF :: rest) =
      .next ({ context with response := { context.response with
        headers := storeLine context.response.headers line } }, rest) := by
  simp [parseResponseStep, hstate, findCRLF_line hline.1,
    parseHeaders_of_colon _ hline.2]

theorem step_of_blankLine (hstate : context.state = .kExpectHeaders)
    (rest : Bytes) :
    parseResponseStep (context, CR :: LF :: rest) =
      .next (⟨.kExpectBody, context.response⟩, rest) := by
  have hfind : findCRLF (CR :: LF :: rest) = some 0 :=
    findCRLF_line isLine_nil rest
  simp [parseResponseStep, hstate, hfind, parseHeaders_nil, retrieve]

theorem step_of_malformedHeader (hstate : context.state = .kExpectHeaders)
    (hline : IsMalformedHeader line) (rest : Bytes) :
    parseResponseStep (context, line ++ CR :: LF :: rest) =
      .done ⟨.kBadMessage, context, rest⟩ := by
  obtain ⟨state, response⟩ := context
  cases hstate
  simp [parseResponseStep, findCRLF_line hline.1, parseHeaders_of_malformed _ hline]

theorem step_of_awaitsBody (hstate : context.state = .kExpectBody)
    {buffer : Bytes} (hawaits : AwaitsBody context.response.headers buffer) :
    parseResponseStep (context, buffer) = .next (context, buffer) := by
  obtain ⟨state, response⟩ := context
  cases hstate
  simp [parseResponseStep, parseBody_of_awaitsBody hawaits]

variable (context) in
/-- With the body complete the loop gets on. -/
theorem step_of_enoughBody (hstate : context.state = .kExpectBody)
    {buffer : Bytes} (hawaits : ¬ AwaitsBody context.response.headers buffer) :
    (∃ response rest, rest.length ≤ buffer.length ∧
        parseResponseStep (context, buffer) = .next (⟨.kGotAll, response⟩, rest)) ∨
      ∃ result, parseResponseStep (context, buffer) = .done result := by
  obtain ⟨verdict, response, rest, hparse, hverdict, hlength⟩ :=
    parseBody_of_not_awaitsBody hawaits
  cases verdict with
  | kParseOK =>
      exact Or.inl ⟨response, rest, hlength, by
        simp [parseResponseStep, hstate, hparse]⟩
  | kParseAgain => exact absurd rfl hverdict
  | kBadMessage => exact Or.inr ⟨_, by simp [parseResponseStep, hstate, hparse]; rfl⟩
  | kHeaderEnd => exact Or.inr ⟨_, by simp [parseResponseStep, hstate, hparse]; rfl⟩

theorem step_of_gotAll (hstate : context.state = .kGotAll) (buffer : Bytes) :
    parseResponseStep (context, buffer) = .done ⟨.kParseOK, context, buffer⟩ := by
  simp [parseResponseStep, hstate]

end Iterations

def parseMeasure (loopState : HttpResponseContext × Bytes) : ℕ :=
  loopState.2.length + if loopState.1.state = .kExpectBody then 1 else 0

/-- An iteration repeats its state or brings the parser closer to its end. -/
theorem stall_or_parseMeasure_lt {before after : HttpResponseContext × Bytes}
    (hstep : parseResponseStep before = .next after) :
    after = before ∨ parseMeasure after < parseMeasure before := by
  obtain ⟨context, buffer⟩ := before
  cases hstate : context.state with
  | kExpectStatusLine =>
      rcases line_cases buffer with hline | ⟨line, rest, rfl, hline⟩
      · simp [step_of_unfinished (Or.inl hstate) hline] at hstep
      · rcases step_of_statusLine context hstate hline rest with
          ⟨response, _, _, hnext⟩ | ⟨result, _, hdone⟩
        · rw [hnext] at hstep
          cases hstep
          right
          simp [parseMeasure]
          omega
        · simp [hdone] at hstep
  | kExpectHeaders =>
      rcases line_cases buffer with hline | ⟨line, rest, rfl, hline⟩
      · simp [step_of_unfinished (Or.inr hstate) hline] at hstep
      · right
        rcases header_cases hline with hheader | rfl | hmalformed
        · rw [step_of_headerLine hstate hheader] at hstep
          cases hstep
          simp [parseMeasure, hstate]
          omega
        · rw [List.nil_append, step_of_blankLine hstate] at hstep
          cases hstep
          simp [parseMeasure, hstate]
        · simp [step_of_malformedHeader hstate hmalformed] at hstep
  | kExpectBody =>
      by_cases hawaits : AwaitsBody context.response.headers buffer
      · rw [step_of_awaitsBody hstate hawaits] at hstep
        cases hstep
        exact Or.inl rfl
      · rcases step_of_enoughBody context hstate hawaits with
          ⟨response, rest, hlength, hnext⟩ | ⟨result, hdone⟩
        · rw [hnext] at hstep
          cases hstep
          right
          simp [parseMeasure, hstate]
          omega
        · simp [hdone] at hstep
  | kGotAll => simp [step_of_gotAll hstate] at hstep

def parseLoop : StallingLoop (HttpResponseContext × Bytes) ResponseParse where
  body := parseResponseStep
  measure := parseMeasure
  stall_or_lt := stall_or_parseMeasure_lt

/-- `HttpResponseContext::parseResponse`; `none` when the call never returns. -/
def parseResponse (context : HttpResponseContext) (buffer : Bytes) :
    Option ResponseParse :=
  parseLoop.exec (context, buffer)

/-! ## When the loop stalls -/

/-- The bytes complete the header section, and the body it announces is longer
than the bytes that follow the blank line. -/
def HeadAwaitsBody (headers : HeaderMap) (buffer : Bytes) : Prop :=
  ∃ lines rest, buffer = joinLines lines ++ CR :: LF :: rest ∧
    (∀ line ∈ lines, IsHeaderLine line) ∧
    AwaitsBody (storeLines headers lines) rest

/-- The input on which `parseResponse` does not return: the head is complete
or is completed by the buffer, and the announced body is not. -/
def StallsOn (context : HttpResponseContext) (buffer : Bytes) : Prop :=
  match context.state with
  | .kExpectStatusLine =>
      ∃ line rest, buffer = line ++ CR :: LF :: rest ∧ IsLine line ∧
        IsStatusLine line ∧ HeadAwaitsBody context.response.headers rest
  | .kExpectHeaders => HeadAwaitsBody context.response.headers buffer
  | .kExpectBody => AwaitsBody context.response.headers buffer
  | .kGotAll => False

/-- Header lines that are complete do not decide whether the loop ends. -/
theorem terminates_headerLines {lines : List Bytes}
    (hlines : ∀ line ∈ lines, IsHeaderLine line) (response : HttpResponse)
    (rest : Bytes) :
    Terminates parseResponseStep
        (⟨.kExpectHeaders, response⟩, joinLines lines ++ rest) ↔
      Terminates parseResponseStep
        (⟨.kExpectHeaders, { response with
          headers := storeLines response.headers lines }⟩, rest) := by
  induction lines generalizing response with
  | nil => rfl
  | cons line lines ih =>
      rw [joinLines_cons_append,
        terminates_iff_of_next (step_of_headerLine rfl (hlines line (by simp)) _),
        ih fun other hother => hlines other (List.mem_cons_of_mem line hother)]
      rfl

/-- In the body the loop goes on for ever just if bytes are missing. -/
theorem not_terminates_expectBody_iff (response : HttpResponse) (buffer : Bytes) :
    ¬ Terminates parseResponseStep (⟨.kExpectBody, response⟩, buffer) ↔
      AwaitsBody response.headers buffer := by
  constructor
  · intro hterm
    by_contra hawaits
    apply hterm
    rcases step_of_enoughBody ⟨.kExpectBody, response⟩ rfl hawaits with
      ⟨response', rest, _, hnext⟩ | ⟨result, hdone⟩
    · exact (terminates_iff_of_next hnext).mpr
        (terminates_of_done (step_of_gotAll rfl rest))
    · exact terminates_of_done hdone
  · intro hawaits
    exact not_terminates_of_stall (step_of_awaitsBody rfl hawaits)

/-- In the headers the loop goes on for ever just if it comes to an incomplete body. -/
theorem not_terminates_expectHeaders_iff (response : HttpResponse) (buffer : Bytes) :
    ¬ Terminates parseResponseStep (⟨.kExpectHeaders, response⟩, buffer) ↔
      HeadAwaitsBody response.headers buffer := by
  constructor
  · intro hterm
    obtain ⟨lines, rest, rfl, hlines, hrest⟩ := exists_headerSection buffer
    rw [terminates_headerLines hlines] at hterm
    rcases hrest with hline | ⟨tail, rfl⟩ | ⟨line, tail, rfl, hmalformed⟩
    · exact absurd (terminates_of_done (step_of_unfinished (Or.inr rfl) hline)) hterm
    · rw [terminates_iff_of_next (step_of_blankLine rfl tail),
        not_terminates_expectBody_iff] at hterm
      exact ⟨lines, tail, rfl, hlines, hterm⟩
    · exact absurd
        (terminates_of_done (step_of_malformedHeader rfl hmalformed tail)) hterm
  · rintro ⟨lines, rest, rfl, hlines, hawaits⟩
    rw [terminates_headerLines hlines,
      terminates_iff_of_next (step_of_blankLine rfl rest),
      not_terminates_expectBody_iff]
    exact hawaits

/-- From the start the loop goes on for ever just on a head whose body is incomplete. -/
theorem not_terminates_expectStatusLine_iff (response : HttpResponse)
    (buffer : Bytes) :
    ¬ Terminates parseResponseStep (⟨.kExpectStatusLine, response⟩, buffer) ↔
      ∃ line rest, buffer = line ++ CR :: LF :: rest ∧ IsLine line ∧
        IsStatusLine line ∧ HeadAwaitsBody response.headers rest := by
  constructor
  · intro hterm
    rcases line_cases buffer with hline | ⟨line, rest, rfl, hline⟩
    · exact absurd (terminates_of_done (step_of_unfinished (Or.inl rfl) hline)) hterm
    · rcases step_of_statusLine ⟨.kExpectStatusLine, response⟩ rfl hline rest with
        ⟨response', hheaders, hstatus, hnext⟩ | ⟨result, _, hdone⟩
      · rw [terminates_iff_of_next hnext, not_terminates_expectHeaders_iff,
          hheaders] at hterm
        exact ⟨line, rest, rfl, hline, hstatus, hterm⟩
      · exact absurd (terminates_of_done hdone) hterm
  · rintro ⟨line, rest, rfl, hline, hstatus, hawaits⟩
    rcases step_of_statusLine ⟨.kExpectStatusLine, response⟩ rfl hline rest with
      ⟨response', hheaders, _, hnext⟩ | ⟨result, hbad, _⟩
    · rw [terminates_iff_of_next hnext, not_terminates_expectHeaders_iff, hheaders]
      exact hawaits
    · exact absurd hstatus hbad

theorem not_terminates_iff_stallsOn (context : HttpResponseContext)
    (buffer : Bytes) :
    ¬ Terminates parseResponseStep (context, buffer) ↔ StallsOn context buffer := by
  obtain ⟨state, response⟩ := context
  cases state with
  | kExpectStatusLine => exact not_terminates_expectStatusLine_iff response buffer
  | kExpectHeaders => exact not_terminates_expectHeaders_iff response buffer
  | kExpectBody => exact not_terminates_expectBody_iff response buffer
  | kGotAll =>
      simp only [StallsOn, iff_false, not_not]
      exact terminates_of_done (step_of_gotAll rfl buffer)

/-- In every parser state and on every buffer, `parseResponse` returns after
finitely many iterations, none of which repeats its state, exactly when the
input does not complete a head whose announced body is still incomplete. -/
theorem parseResponse_returns_iff (context : HttpResponseContext) (buffer : Bytes) :
    (Terminates parseResponseStep (context, buffer) ∧
        ∀ stuck, Reaches parseResponseStep (context, buffer) stuck →
          parseResponseStep stuck ≠ .next stuck) ↔
      ¬ StallsOn context buffer := by
  rw [← not_terminates_iff_stallsOn, not_not]
  constructor
  · exact fun h => h.1
  · exact fun hterm => ⟨hterm, (parseLoop.terminates_iff _).mp hterm⟩

/-- An upstream answer of which three of five body bytes have arrived. -/
def partialResponse : Bytes :=
  ascii "HTTP/1.1 200 OK\r\nContent-Length: 5\r\n\r\nabc"

theorem parseResponse_partialResponse_not_terminates :
    ¬ Terminates parseResponseStep ({}, partialResponse) :=
  parseLoop.exec_eq_none_iff.mp (by decide)

end Cuber.ResponseContext
