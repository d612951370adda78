import Cuber.Http.Context

/-!
# Chunked delivery to the request parser

Bytes reach the parser in chunks of arbitrary size, and the parser is called
after each of them.  A call that asks for more leaves a settled pair of context
and buffer, so by `parseRequest_append` the calls over all chunks compute what
one call over their concatenation computes.
-/

namespace Cuber.Chunking

open Cuber.Buffer
open Cuber.Context
open Cuber.Execution
open Cuber.Request
open Cuber.Text

/-- Append the chunks one at a time and call `parseRequest` after each, until
the verdict is not `kParseAgain`.  The chunks not delivered are returned. -/
def feed (context : HttpContext) (buffer : Bytes) :
    List Bytes → Exec Fault (RequestParse × List Bytes)
  | [] => .ret (⟨.kParseAgain, context, buffer⟩, [])
  | chunk :: chunks =>
      (parseRequest context (buffer ++ chunk)).bind fun parsed =>
        if parsed.verdict = .kParseAgain then
          feed parsed.context parsed.buffer chunks
        else .ret (parsed, chunks)

/-- The method is unset whenever a request line is still expected. -/
def MethodFree (context : HttpContext) : Prop :=
  context.state = .kExpectRequestLine → context.request.method = .kInvalid

theorem methodFree_new : MethodFree {} := fun _ => rfl

theorem methodFree_reset (old : HttpContext) : MethodFree old.reset := fun _ => rfl

/-- Where the method is unset, no request line fails the assertion. -/
theorem exists_parseRequestLine_eq_ret {request : HttpRequest}
    (hfree : request.method = .kInvalid) (line : Bytes) :
    ∃ success request', parseRequestLine request line = .ret (success, request') := by
  simp only [parseRequestLine]
  cases cut SP line with
  | none => exact ⟨_, _, rfl⟩
  | some parts =>
      simp only [HttpRequest.setMethod, hfree, if_true, Exec.ret_bind]
      split_ifs
      · cases cut SP parts.2 with
        | none => exact ⟨_, _, rfl⟩
        | some target => exact ⟨_, _, rfl⟩
      · exact ⟨_, _, rfl⟩

theorem exists_step_done_eq_ret {before : HttpContext × Bytes}
    {result : Exec Fault RequestParse} (hfree : MethodFree before.1)
    (hstep : parseRequestStep before = .done result) :
    ∃ parsed, result = .ret parsed := by
  cases iteration_of_step hstep with
  | unfinished | badRequestLine | malformedHeader | gotAll => exact ⟨_, rfl⟩
  | @fault context line rest cause hstate hline hparse =>
      obtain ⟨success, request, hret⟩ :=
        exists_parseRequestLine_eq_ret (hfree hstate) line
      simp [hret] at hparse

/-- An iteration that goes round again never expects a request line next. -/
theorem state_ne_of_step_next {before after : HttpContext × Bytes}
    (hstep : parseRequestStep before = .next after) :
    after.1.state ≠ .kExpectRequestLine := by
  cases iteration_of_step hstep with
  | requestLine | blankLine | body => simp
  | headerLine hstate => simp [hstate]

/-- With the method unset the parser always returns. -/
theorem exists_parseRequest_eq_ret {context : HttpContext}
    (hfree : MethodFree context) (buffer : Bytes) :
    ∃ parsed, parseRequest context buffer = .ret parsed :=
  parseLoop.exec_induction
    (motive := fun before result =>
      MethodFree before.1 → ∃ parsed, result = .ret parsed)
    (fun _ _ hstep hfree => exists_step_done_eq_ret hfree hstep)
    (fun _ _ hstep ih _ =>
      ih fun hstate => absurd hstate (state_ne_of_step_next hstep))
    (context, buffer) hfree

/-- After `kParseAgain` nothing more can be parsed from the bytes at hand. -/
theorem parseRequest_settled {context : HttpContext} {buffer : Bytes}
    {parsed : RequestParse} (hparse : parseRequest context buffer = .ret parsed)
    (hagain : parsed.verdict = .kParseAgain) :
    parseRequest parsed.context parsed.buffer = .ret parsed := by
  have happend := parseRequest_append context buffer []
  rw [List.append_nil, hparse, Exec.ret_bind, resumeParse, if_pos hagain,
    List.append_nil] at happend
  exact happend.symm

/-- Feeding chunks to a settled parser gives what one call on all the bytes
gives, as long as that call returns. -/
theorem feed_of_settled {context : HttpContext} {buffer : Bytes}
    (hsettled : parseRequest context buffer =
      .ret ⟨.kParseAgain, context, buffer⟩)
    (chunks : List Bytes) {whole : RequestParse}
    (hwhole : parseRequest context (buffer ++ chunks.flatten) = .ret whole) :
    ∃ parsed undelivered,
      feed context buffer chunks = .ret (parsed, undelivered) ∧
        whole = { parsed with
          buffer := parsed.buffer ++ undelivered.flatten } := by
  induction chunks generalizing context buffer with
  | nil =>
      rw [List.flatten_nil, List.append_nil, hsettled] at hwhole
      cases hwhole
      exact ⟨_, _, rfl, by simp⟩
  | cons chunk chunks ih =>
      rw [List.flatten_cons, ← List.append_assoc, parseRequest_append] at hwhole
      obtain ⟨parsed, hparse, hresume⟩ := Exec.bind_eq_ret_iff.mp hwhole
      rw [feed, hparse, Exec.ret_bind]
      by_cases hagain : parsed.verdict = .kParseAgain
      · rw [if_pos hagain]
        rw [resumeParse, if_pos hagain] at hresume
        have hsettled' := parseRequest_settled hparse hagain
        obtain ⟨verdict, context', buffer'⟩ := parsed
        cases hagain
        exact ih hsettled' hresume
      · rw [if_neg hagain]
        rw [resumeParse, if_neg hagain] at hresume
        cases hresume
        exact ⟨_, _, rfl, rfl⟩

/-- Chunking invariance of the request parser.  From a fresh context and an
empty buffer, the calls made chunk by chunk end with the verdict and the
context (state, method, version, path, location position, query and headers)
of one call on all the bytes, and the bytes left unread followed by the chunks
not delivered are the bytes that call leaves unread. -/
theorem feed_eq_parseRequest_flatten (chunks : List Bytes) :
    ∃ parsed undelivered,
      feed {} [] chunks = .ret (parsed, undelivered) ∧
        parseRequest {} chunks.flatten =
          .ret { parsed with
            buffer := parsed.buffer ++ undelivered.flatten } := by
  obtain ⟨whole, hwhole⟩ :=
    exists_parseRequest_eq_ret methodFree_new chunks.flatten
  have hsettled : parseRequest {} [] = .ret ⟨.kParseAgain, {}, []⟩ :=
    parseRequest_unfinished (Or.inl rfl) isLine_nil
  obtain ⟨parsed, undelivered, hfeed, rfl⟩ :=
    feed_of_settled hsettled chunks hwhole
  exact ⟨parsed, undelivered, hfeed, hwhole⟩

end Cuber.Chunking
