import Cuber.Http.Grammar

/-!
# Requests after a reset

A connection that is kept alive parses its next request in the context of the
last one, which `HttpContext::reset` has put back.  The hand-written `swap` of
`HttpRequest` leaves the location position out.  That position is overwritten
whenever a path is stored and looked at only afterwards, so the parser cannot
tell a context that was reset from a new one.
-/

namespace Cuber.KeepAlive

open Cuber.Buffer
open Cuber.Context
open Cuber.Execution
open Cuber.Grammar
open Cuber.Request
open Cuber.Text

/-- What the caller of `parseRequest` gets to see: the verdict, and the request
once it is complete. -/
def seen (parsed : RequestParse) : HttpParseState × Option HttpRequest :=
  (parsed.verdict,
    if parsed.verdict = .kParseOK then some parsed.context.request else none)

/-- What is seen of the calls made after each of some chunks, up to the first
that does not return. -/
def observe (context : HttpContext) (buffer : Bytes) :
    List Bytes → List (Exec Fault (HttpParseState × Option HttpRequest))
  | [] => []
  | chunk :: chunks =>
      match parseRequest context (buffer ++ chunk) with
      | .ret parsed => .ret (seen parsed) :: observe parsed.context parsed.buffer chunks
      | .hang => [.hang]
      | .fault cause => [.fault cause]

/-- The contexts are the same, or they differ in the location position and no
request line was read yet. -/
inductive SameToParser : HttpContext → HttpContext → Prop
  | refl (context : HttpContext) : SameToParser context context
  | position (request : HttpRequest) (pos pos' : ℕ) :
      SameToParser ⟨.kExpectRequestLine, { request with locationEndPos := pos }⟩
        ⟨.kExpectRequestLine, { request with locationEndPos := pos' }⟩

theorem sameToParser_reset (old : HttpContext) : SameToParser old.reset {} :=
  SameToParser.position {} old.request.locationEndPos 0

/-- A request line is read alike at every location position, which survives only
when no path was found. -/
theorem parseRequestLine_position (request : HttpRequest) (pos pos' : ℕ) (line : Bytes) :
    parseRequestLine { request with locationEndPos := pos } line =
        parseRequestLine { request with locationEndPos := pos' } line ∨
      ∃ request' : HttpRequest,
        parseRequestLine { request with locationEndPos := pos } line =
            .ret (false, { request' with locationEndPos := pos }) ∧
          parseRequestLine { request with locationEndPos := pos' } line =
            .ret (false, { request' with locationEndPos := pos' }) := by
  simp only [parseRequestLine, HttpRequest.setMethod]
  cases cut SP line with
  | none => exact Or.inr ⟨request, rfl, rfl⟩
  | some parts =>
      obtain ⟨name, afterMethod⟩ := parts
      by_cases hfree : request.method = .kInvalid
      · simp only [hfree, if_true, Exec.ret_bind, decide_eq_true_eq]
        by_cases hknown : methodOf name = .kInvalid
        · simp only [hknown]
          exact Or.inr ⟨{ request with method := .kInvalid }, rfl, rfl⟩
        · rw [if_pos hknown, if_pos hknown]
          cases cut SP afterMethod with
          | none => exact Or.inr ⟨{ request with method := methodOf name }, rfl, rfl⟩
          | some parts =>
              -- the target is stored together with its position
              obtain ⟨target, version⟩ := parts
              have hposition := fun pos => setTarget_locationEndPos_irrel
                { request with method := methodOf name } pos target
              exact Or.inl (congrArg (fun request => Exec.ret (parseVersion request version))
                ((hposition pos).trans (hposition pos').symm))
      · exact Or.inl (by simp [hfree])

/-- Both calls are the same, or both return with the same verdict, which is not
that a request was read, and contexts that are the same to the parser. -/
inductive SameCalls : Exec Fault RequestParse → Exec Fault RequestParse → Prop
  | refl (result : Exec Fault RequestParse) : SameCalls result result
  | unfinished {verdict : HttpParseState} (hverdict : verdict ≠ .kParseOK)
      {context context' : HttpContext} (hsame : SameToParser context context')
      (buffer : Bytes) :
      SameCalls (.ret ⟨verdict, context, buffer⟩) (.ret ⟨verdict, context', buffer⟩)

theorem parseRequest_eq_of_step {context context' : HttpContext} {buffer buffer' : Bytes}
    (hstep : parseRequestStep (context, buffer) = parseRequestStep (context', buffer')) :
    parseRequest context buffer = parseRequest context' buffer' := by
  cases hnext : parseRequestStep (context', buffer') with
  | done result =>
      rw [parseRequest_of_done hnext, parseRequest_of_done (hstep.trans hnext)]
  | next after =>
      rw [parseRequest_of_next hnext, parseRequest_of_next (hstep.trans hnext)]

/-- Contexts that look the same to the parser are parsed alike. -/
theorem sameCalls_of_sameToParser {context context' : HttpContext}
    (hsame : SameToParser context context') (buffer : Bytes) :
    SameCalls (parseRequest context buffer) (parseRequest context' buffer) := by
  cases hsame with
  | refl => exact SameCalls.refl _
  | position request pos pos' =>
      rcases line_cases buffer with hline | ⟨line, rest, rfl, hline⟩
      · rw [parseRequest_unfinished (Or.inl rfl) hline, parseRequest_unfinished (Or.inl rfl) hline]
        exact SameCalls.unfinished (by simp) (SameToParser.position request pos pos') _
      · have hstep := fun pos => @step_of_requestLine
          ⟨.kExpectRequestLine, { request with locationEndPos := pos }⟩ line rfl hline rest
        have hleft := hstep pos
        have hright := hstep pos'
        rcases parseRequestLine_position request pos pos' line with heq | ⟨request', heq, heq'⟩
        · simp only [heq] at hleft
          simp only at hright
          rw [parseRequest_eq_of_step (hleft.trans hright.symm)]
          exact SameCalls.refl _
        · simp only [heq] at hleft
          simp only [heq'] at hright
          rw [parseRequest_of_done hleft, parseRequest_of_done hright]
          exact SameCalls.unfinished (by simp) (SameToParser.position request' pos pos') _

/-- Contexts that look the same to the parser cannot be told apart by chunks. -/
theorem observe_eq_of_sameToParser {context context' : HttpContext}
    (hsame : SameToParser context context') (buffer : Bytes) (chunks : List Bytes) :
    observe context buffer chunks = observe context' buffer chunks := by
  induction chunks generalizing context context' buffer with
  | nil => rfl
  | cons chunk chunks ih =>
      have hcalls := sameCalls_of_sameToParser hsame (buffer ++ chunk)
      rw [observe, observe]
      generalize parseRequest context (buffer ++ chunk) = result at hcalls ⊢
      generalize parseRequest context' (buffer ++ chunk) = result' at hcalls ⊢
      cases hcalls with
      | refl => rfl
      | unfinished hverdict hsame buffer =>
          simp only [seen, if_neg hverdict, ih hsame buffer]

/-- A context that was reset cannot be told from a new one: whatever is in the
buffer and whatever arrives, the same verdicts are given and the same requests
are read. -/
theorem observe_reset (old : HttpContext) (buffer : Bytes) (chunks : List Bytes) :
    observe old.reset buffer chunks = observe {} buffer chunks :=
  observe_eq_of_sameToParser (sameToParser_reset old) buffer chunks

end Cuber.KeepAlive
