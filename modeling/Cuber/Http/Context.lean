import Cuber.Core.Loop
import Cuber.Net.Buffer
import Cuber.Http.Request

/-!
# The request parser

`HttpContext` reads a request head from the input buffer of a connection.  Its
`parseRequest` is a loop over four states; each iteration looks for the next
CRLF and either consumes a line, changes state, or leaves the loop with a
verdict.  The loop measure is the number of readable bytes, plus one for the
iteration in `kExpectBody` that consumes nothing.

`parseRequest_append` is the law on which everything about chunked delivery
rests: parsing a longer buffer is resuming the parse of its prefix.
-/

namespace Cuber.Context

open Cuber.Buffer
open Cuber.Execution
open Cuber.Headers
open Cuber.Loop
open Cuber.Request
open Cuber.Text

inductive HttpRequestParseState where
  | kExpectRequestLine
  | kExpectHeaders
  | kExpectBody
  | kGotAll
  deriving DecidableEq

inductive HttpParseState where
  | kParseOK
  | kBadMessage
  | kParseAgain
  | kHeaderEnd
  deriving DecidableEq

structure HttpContext where
  state : HttpRequestParseState := .kExpectRequestLine
  request : HttpRequest := {}
  deriving DecidableEq

/-- What a call of `parseRequest` returns and leaves behind. -/
structure RequestParse where
  verdict : HttpParseState
  context : HttpContext
  buffer : Bytes
  deriving DecidableEq

/-- The target of the request line: the path before the first question mark,
and a query that keeps the question mark. -/
def setTarget (request : HttpRequest) (target : Bytes) : HttpRequest :=
  match cut question target with
  | some (path, _) =>
      (request.setPath path).setQuery (target.drop path.length)
  | none => request.setPath target

/-- The version at the end of the request line. -/
def parseVersion (request : HttpRequest) (text : Bytes) : Bool × HttpRequest :=
  if text.length = 8 ∧ text.take 7 = ascii "HTTP/1." then
    if text.getLast? = some digitOne then (true, request.setVersion .kHttp11)
    else if text.getLast? = some digitZero then (true, request.setVersion .kHttp10)
    else (false, request)
  else (false, request)

def parseRequestLine (request : HttpRequest) (line : Bytes) :
    Exec Fault (Bool × HttpRequest) :=
  match cut SP line with
  | none => .ret (false, request)
  | some (name, afterMethod) =>
      (request.setMethod name).bind fun (known, request) =>
        if known then
          match cut SP afterMethod with
          | none => .ret (false, request)
          | some (target, version) =>
              .ret (parseVersion (setTarget request target) version)
        else .ret (false, request)

def parseHeaders (request : HttpRequest) (line : Bytes) :
    HttpParseState × HttpRequest :=
  match cut colon line with
  | some (field, value) => (.kParseAgain, request.addHeader field (trim value))
  | none => if line = [] then (.kHeaderEnd, request) else (.kBadMessage, request)

/-- One iteration of the loop of `HttpContext::parseRequest`. -/
def parseRequestStep (loopState : HttpContext × Bytes) :
    Step (HttpContext × Bytes) (Exec Fault RequestParse) :=
  let context := loopState.1
  let buffer := loopState.2
  match context.state with
  | .kExpectRequestLine =>
      match findCRLF buffer with
      | none => .done (.ret ⟨.kParseAgain, context, buffer⟩)
      | some crlf =>
          match parseRequestLine context.request (buffer.take crlf) with
          | .ret (true, request) =>
              .next (⟨.kExpectHeaders, request⟩, retrieve buffer (crlf + 2))
          -- a malformed request line stays in the buffer
          | .ret (false, request) =>
              .done (.ret ⟨.kBadMessage, { context with request }, buffer⟩)
          | .hang => .done .hang
          | .fault cause => .done (.fault cause)
  | .kExpectHeaders =>
      match findCRLF buffer with
      | none => .done (.ret ⟨.kParseAgain, context, buffer⟩)
      | some crlf =>
          match parseHeaders context.request (buffer.take crlf) with
          | (.kHeaderEnd, request) =>
              .next (⟨.kExpectBody, request⟩, retrieve buffer (crlf + 2))
          -- a malformed header line is consumed and the state is kept
          | (.kBadMessage, request) =>
              .done (.ret ⟨.kBadMessage, { context with request },
                retrieve buffer (crlf + 2)⟩)
          | (_, request) =>
              .next ({ context with request }, retrieve buffer (crlf + 2))
  | .kExpectBody => .next ({ context with state := .kGotAll }, buffer)
  | .kGotAll => .done (.ret ⟨.kParseOK, context, buffer⟩)

/-! ## The iterations, one buffer shape at a time -/

section Iterations

variable {context : HttpContext} {line : Bytes}

theorem step_of_unfinished
    (hstate : context.state = .kExpectRequestLine ∨
      context.state = .kExpectHeaders) (hline : IsLine line) :
    parseRequestStep (context, line) =
      .done (.ret ⟨.kParseAgain, context, line⟩) := by
  have hfind : findCRLF line = none := hline
  rcases hstate with hstate | hstate <;> simp [parseRequestStep, hstate, hfind]

theorem step_of_requestLine (hstate : context.state = .kExpectRequestLine)
    (hline : IsLine line) (rest : Bytes) :
    parseRequestStep (context, line ++ CR :: LF :: rest) =
      match parseRequestLine context.request line with
      | .ret (true, request) => .next (⟨.kExpectHeaders, request⟩, rest)
      | .ret (false, request) =>
          .done (.ret ⟨.kBadMessage, { context with request },
            line ++ CR :: LF :: rest⟩)
      | .hang => .done .hang
      | .fault cause => .done (.fault cause) := by
  simp [parseRequestStep, hstate, findCRLF_line hline]

theorem step_of_headerLine (hstate : context.state = .kExpectHeaders)
    (hline : IsHeaderLine line) (rest : Bytes) :
    parseRequestStep (context, line ++ CR :: LF :: rest) =
      .next ({ context with
        request := { context.request with
          headers := storeLine context.request.headers line } }, rest) := by
  obtain ⟨hline, hcolon⟩ := hline
  obtain ⟨parts, hcut⟩ := Option.isSome_iff_exists.mp (cut_isSome_iff.mpr hcolon)
  simp [parseRequestStep, hstate, findCRLF_line hline, parseHeaders, storeLine, hcut,
    HttpRequest.addHeader]

theorem step_of_blankLine (hstate : context.state = .kExpectHeaders) (rest : Bytes) :
    parseRequestStep (context, CR :: LF :: rest) =
      .next ({ context with state := .kExpectBody }, rest) := by
  have hfind : findCRLF (CR :: LF :: rest) = some 0 := findCRLF_line isLine_nil rest
  simp [parseRequestStep, hstate, hfind, parseHeaders, cut, retrieve]

theorem step_of_malformedHeader (hstate : context.state = .kExpectHeaders)
    (hline : IsMalformedHeader line) (rest : Bytes) :
    parseRequestStep (context, line ++ CR :: LF :: rest) =
      .done (.ret ⟨.kBadMessage, context, rest⟩) := by
  obtain ⟨hline, hblank, hcolon⟩ := hline
  simp only [parseRequestStep, hstate, findCRLF_line hline, parseHeaders,
    List.take_left, cut_eq_none_iff.mpr hcolon, if_neg hblank, retrieve_line]
  rw [← hstate]

theorem step_of_expectBody (hstate : context.state = .kExpectBody)
    (buffer : Bytes) :
    parseRequestStep (context, buffer) =
      .next ({ context with state := .kGotAll }, buffer) := by
  simp [parseRequestStep, hstate]

theorem step_of_gotAll (hstate : context.state = .kGotAll) (buffer : Bytes) :
    parseRequestStep (context, buffer) =
      .done (.ret ⟨.kParseOK, context, buffer⟩) := by
  simp [parseRequestStep, hstate]

end Iterations

/-- What an iteration can do, one constructor for each way through it. -/
inductive Iteration : HttpContext × Bytes →
    Step (HttpContext × Bytes) (Exec Fault RequestParse) → Prop
  | unfinished {context : HttpContext} {line : Bytes}
      (hstate : context.state = .kExpectRequestLine ∨
        context.state = .kExpectHeaders) (hline : IsLine line) :
      Iteration (context, line) (.done (.ret ⟨.kParseAgain, context, line⟩))
  | requestLine {context : HttpContext} {line rest : Bytes} {request : HttpRequest}
      (hstate : context.state = .kExpectRequestLine) (hline : IsLine line)
      (hparse : parseRequestLine context.request line = .ret (true, request)) :
      Iteration (context, line ++ CR :: LF :: rest)
        (.next (⟨.kExpectHeaders, request⟩, rest))
  | badRequestLine {context : HttpContext} {line rest : Bytes} {request : HttpRequest}
      (hstate : context.state = .kExpectRequestLine) (hline : IsLine line)
      (hparse : parseRequestLine context.request line = .ret (false, request)) :
      Iteration (context, line ++ CR :: LF :: rest)
        (.done (.ret ⟨.kBadMessage, { context with request },
          line ++ CR :: LF :: rest⟩))
  | fault {context : HttpContext} {line rest : Bytes} {cause : Fault}
      (hstate : context.state = .kExpectRequestLine) (hline : IsLine line)
      (hparse : parseRequestLine context.request line = .fault cause) :
      Iteration (context, line ++ CR :: LF :: rest) (.done (.fault cause))
  | headerLine {context : HttpContext} {line rest : Bytes}
      (hstate : context.state = .kExpectHeaders) (hline : IsHeaderLine line) :
      Iteration (context, line ++ CR :: LF :: rest)
        (.next ({ context with
          request := { context.request with
            headers := storeLine context.request.headers line } }, rest))
  | blankLine {context : HttpContext} {rest : Bytes}
      (hstate : context.state = .kExpectHeaders) :
      Iteration (context, CR :: LF :: rest)
        (.next ({ context with state := .kExpectBody }, rest))
  | malformedHeader {context : HttpContext} {line rest : Bytes}
      (hstate : context.state = .kExpectHeaders) (hline : IsMalformedHeader line) :
      Iteration (context, line ++ CR :: LF :: rest)
        (.done (.ret ⟨.kBadMessage, context, rest⟩))
  | body {context : HttpContext} {buffer : Bytes}
      (hstate : context.state = .kExpectBody) :
      Iteration (context, buffer) (.next ({ context with state := .kGotAll }, buffer))
  | gotAll {context : HttpContext} {buffer : Bytes}
      (hstate : context.state = .kGotAll) :
      Iteration (context, buffer) (.done (.ret ⟨.kParseOK, context, buffer⟩))

theorem parseRequestLine_ne_hang (request : HttpRequest) (line : Bytes) :
    parseRequestLine request line ≠ .hang := by
  simp only [parseRequestLine, HttpRequest.setMethod]
  cases cut SP line with
  | none => simp
  | some parts =>
      by_cases hfree : request.method = .kInvalid
      · simp only [hfree, if_true, Exec.ret_bind]
        split_ifs
        · cases cut SP parts.2 <;> simp
        · simp
      · simp [hfree]

theorem iteration_of_requestLine {context : HttpContext} {line : Bytes}
    (hstate : context.state = .kExpectRequestLine) (hline : IsLine line) (rest : Bytes) :
    Iteration (context, line ++ CR :: LF :: rest)
      (parseRequestStep (context, line ++ CR :: LF :: rest)) := by
  rw [step_of_requestLine hstate hline]
  cases hparse : parseRequestLine context.request line with
  | ret answer =>
      obtain ⟨success, request⟩ := answer
      cases success with
      | true => exact .requestLine hstate hline hparse
      | false => exact .badRequestLine hstate hline hparse
  | hang => exact absurd hparse (parseRequestLine_ne_hang _ _)
  | fault cause => exact .fault hstate hline hparse

/-- What an iteration of the parser does, by the state and the first line. -/
theorem iteration (before : HttpContext × Bytes) :
    Iteration before (parseRequestStep before) := by
  obtain ⟨context, buffer⟩ := before
  cases hstate : context.state with
  | kExpectRequestLine =>
      rcases line_cases buffer with hline | ⟨line, rest, rfl, hline⟩
      · rw [step_of_unfinished (Or.inl hstate) hline]
        exact .unfinished (Or.inl hstate) hline
      · exact iteration_of_requestLine hstate hline rest
  | kExpectHeaders =>
      rcases line_cases buffer with hline | ⟨line, rest, rfl, hline⟩
      · rw [step_of_unfinished (Or.inr hstate) hline]
        exact .unfinished (Or.inr hstate) hline
      · rcases header_cases hline with hheader | rfl | hbad
        · rw [step_of_headerLine hstate hheader]
          exact .headerLine hstate hheader
        · rw [List.nil_append, step_of_blankLine hstate]
          exact .blankLine hstate
        · rw [step_of_malformedHeader hstate hbad]
          exact .malformedHeader hstate hbad
  | kExpectBody =>
      rw [step_of_expectBody hstate]
      exact .body hstate
  | kGotAll =>
      rw [step_of_gotAll hstate]
      exact .gotAll hstate

theorem iteration_of_step {before : HttpContext × Bytes}
    {outcome : Step (HttpContext × Bytes) (Exec Fault RequestParse)}
    (hstep : parseRequestStep before = outcome) : Iteration before outcome :=
  hstep ▸ iteration before

/-! ## The loop -/

def parseMeasure (loopState : HttpContext × Bytes) : ℕ :=
  loopState.2.length + if loopState.1.state = .kExpectBody then 1 else 0

theorem parseMeasure_lt {before after : HttpContext × Bytes}
    (hstep : parseRequestStep before = .next after) :
    parseMeasure after < parseMeasure before := by
  cases iteration_of_step hstep with
  | requestLine hstate =>
      simp [parseMeasure]
      omega
  | headerLine hstate =>
      simp [parseMeasure, hstate]
      omega
  | blankLine hstate => simp [parseMeasure, hstate]
  | body hstate => simp [parseMeasure, hstate]

def parseLoop : TotalLoop (HttpContext × Bytes) (Exec Fault RequestParse) where
  body := parseRequestStep
  measure := parseMeasure
  measure_lt := parseMeasure_lt

def parseRequest (context : HttpContext) (buffer : Bytes) :
    Exec Fault RequestParse :=
  parseLoop.exec (context, buffer)

theorem parseRequest_of_done {context : HttpContext} {buffer : Bytes}
    {result : Exec Fault RequestParse}
    (hstep : parseRequestStep (context, buffer) = .done result) :
    parseRequest context buffer = result :=
  parseLoop.exec_of_done hstep

theorem parseRequest_of_next {context context' : HttpContext}
    {buffer buffer' : Bytes}
    (hstep : parseRequestStep (context, buffer) = .next (context', buffer')) :
    parseRequest context buffer = parseRequest context' buffer' :=
  parseLoop.exec_of_next hstep

theorem parseRequest_unfinished {context : HttpContext} {line : Bytes}
    (hstate : context.state = .kExpectRequestLine ∨
      context.state = .kExpectHeaders) (hline : IsLine line) :
    parseRequest context line = .ret ⟨.kParseAgain, context, line⟩ :=
  parseRequest_of_done (step_of_unfinished hstate hline)

namespace HttpContext

def reset (context : HttpContext) : HttpContext :=
  { state := .kExpectRequestLine, request := context.request.swapWithNew }

end HttpContext

/-! ## Resuming a parse -/

/-- What a call does once further bytes are known to follow. -/
def resumeParse (more : Bytes) (parsed : RequestParse) : Exec Fault RequestParse :=
  if parsed.verdict = .kParseAgain then
    parseRequest parsed.context (parsed.buffer ++ more)
  else .ret { parsed with buffer := parsed.buffer ++ more }

/-- An iteration that goes on does not look at bytes that follow. -/
theorem step_append_of_next {before after : HttpContext × Bytes}
    (hstep : parseRequestStep before = .next after) (more : Bytes) :
    parseRequestStep (before.1, before.2 ++ more) =
      .next (after.1, after.2 ++ more) := by
  cases iteration_of_step hstep with
  | requestLine hstate hline hparse =>
      simp only [List.append_assoc, List.cons_append]
      rw [step_of_requestLine hstate hline, hparse]
  | headerLine hstate hline =>
      simp only [List.append_assoc, List.cons_append]
      rw [step_of_headerLine hstate hline]
  | blankLine hstate => exact step_of_blankLine hstate _
  | body hstate => exact step_of_expectBody hstate _

/-- A parser that has stopped goes on from where it has, once bytes follow. -/
theorem exec_append_of_done {before : HttpContext × Bytes}
    {result : Exec Fault RequestParse}
    (hstep : parseRequestStep before = .done result) (more : Bytes) :
    parseRequest before.1 (before.2 ++ more) =
      result.bind (resumeParse more) := by
  cases iteration_of_step hstep with
  | unfinished => simp [resumeParse]
  | @badRequestLine context line rest request hstate hline hparse =>
      have hmore := step_of_requestLine hstate hline (rest ++ more)
      rw [hparse] at hmore
      simp [parseRequest_of_done hmore, resumeParse]
  | @fault context line rest cause hstate hline hparse =>
      have hmore := step_of_requestLine hstate hline (rest ++ more)
      rw [hparse] at hmore
      simp [parseRequest_of_done hmore]
  | @malformedHeader context line rest hstate hline =>
      have hmore := step_of_malformedHeader hstate hline (rest ++ more)
      simp [parseRequest_of_done hmore, resumeParse]
  | gotAll hstate =>
      simp [parseRequest_of_done (step_of_gotAll hstate _), resumeParse]

/-- Parsing a longer buffer resumes the parse of its prefix: after
`kParseAgain` the parser goes on from the context and the bytes it kept, and
every other verdict is final and leaves the further bytes unread. -/
theorem parseRequest_append (context : HttpContext) (buffer more : Bytes) :
    parseRequest context (buffer ++ more) =
      (parseRequest context buffer).bind (resumeParse more) := by
  refine parseLoop.exec_induction
    (motive := fun before result =>
      parseRequest before.1 (before.2 ++ more) = result.bind (resumeParse more))
    (fun before result hstep => exec_append_of_done hstep more)
    (fun before after hstep ih => ?_) (context, buffer)
  rw [← ih]
  exact parseRequest_of_next (step_append_of_next hstep more)

end Cuber.Context
