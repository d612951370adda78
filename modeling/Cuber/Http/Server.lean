import Cuber.Http.Context
import Cuber.Http.Filter
import Cuber.Http.Handler

/-!
# The HTTP server on one connection

`HttpServer::onMessage` runs each time bytes have been read from a client.  It
parses at most one request, hands a complete one to `onRequest`, and resets the
parser when the request was answered locally.  `onRequest` tries the handler
chain until it no longer returns `kHandleAgain`.

The progress of that retry loop is the location position stored in the request:
`onRequest_terminates_iff` shows that it decreases on every pass of a request
with a path, and that a request without one is tried for ever.
-/

namespace Cuber.Server

open Cuber.Config
open Cuber.Context
open Cuber.Execution
open Cuber.Filter
open Cuber.Handlers
open Cuber.Headers
open Cuber.LocationSearch
open Cuber.Loop
open Cuber.Request
open Cuber.Response
open Cuber.Text

variable (env : Environment)

/-- One pass of the loop of `HttpServer::onRequest`; the flag of the result is
`forwarded`. -/
def handlePass (exchange : Exchange) :
    Step Exchange (Exec Fault (Bool × Exchange)) :=
  match httpHandler env exchange with
  | .ret (.kHandleAgain, exchange) => .next exchange
  | .ret (.kForwarded, exchange) => .done (.ret (true, exchange))
  | .ret (_, exchange) => .done (.ret (false, exchange))
  | .hang => .done .hang
  | .fault cause => .done (.fault cause)

theorem handlePass_next {env : Environment} {exchange exchange' : Exchange}
    (hpass : handlePass env exchange = .next exchange') :
    httpHandler env exchange = .ret (.kHandleAgain, exchange') := by
  rw [handlePass] at hpass
  split at hpass <;> cases hpass
  assumption

/-- A pass that is not to be tried again leaves the loop with the exchange that
the chain returned. -/
theorem handlePass_done {env : Environment} {exchange : Exchange}
    (hagain : ∀ exchange', httpHandler env exchange ≠ .ret (.kHandleAgain, exchange')) :
    ∃ result, handlePass env exchange = .done result ∧
      ∀ forwarded final, result = .ret (forwarded, final) →
        ∃ state, httpHandler env exchange = .ret (state, final) := by
  cases hhandle : httpHandler env exchange with
  | ret answer =>
      obtain ⟨state, exchange'⟩ := answer
      cases state with
      | kHandleAgain => exact absurd hhandle (hagain exchange')
      | kForwarded =>
          refine ⟨.ret (true, exchange'), by rw [handlePass, hhandle], ?_⟩
          rintro forwarded final ⟨⟩
          exact ⟨_, rfl⟩
      | kHandleDone | kHandleError | kHandleDecline =>
          refine ⟨.ret (false, exchange'), by rw [handlePass, hhandle], ?_⟩
          rintro forwarded final ⟨⟩
          exact ⟨_, rfl⟩
  | hang => exact ⟨.hang, by rw [handlePass, hhandle], by simp⟩
  | fault cause => exact ⟨.fault cause, by rw [handlePass, hhandle], by simp⟩

theorem handlePass_stall_or_lt {env : Environment} {exchange exchange' : Exchange}
    (hpass : handlePass env exchange = .next exchange') :
    exchange' = exchange ∨
      exchange'.request.locationEndPos < exchange.request.locationEndPos := by
  rcases httpHandler_again (handlePass_next hpass) with
    ⟨_, rfl⟩ | ⟨_, location, hsearch, rfl⟩
  · exact Or.inl rfl
  · obtain ⟨hpos, hle, _⟩ := length_location_le hsearch
    rw [locate_locationEndPos]
    omega

def retryLoop : StallingLoop Exchange (Exec Fault (Bool × Exchange)) where
  body := handlePass env
  measure := fun exchange => exchange.request.locationEndPos
  stall_or_lt := handlePass_stall_or_lt

/-- The request as handled, with the response after `HttpHeadersFilter` when it
was answered locally. -/
structure Handled where
  forwarded : Bool
  exchange : Exchange
  deriving DecidableEq

def finish (forwarded : Bool) (exchange : Exchange) : Handled :=
  if forwarded then ⟨true, exchange⟩
  else
    ⟨false, { exchange with
      response := HttpHeadersFilter.filter env.config exchange.request
        exchange.response }⟩

/-- `HttpServer::onRequest`, which returns the negation of `forwarded`. -/
def onRequest (request : HttpRequest) (input : Bytes) : Exec Fault Handled :=
  (Exec.ofLoop ((retryLoop env).exec { request, input })).bind
    fun (forwarded, exchange) => .ret (finish env forwarded exchange)

section Finish

variable (forwarded : Bool) (exchange : Exchange)

@[simp]
theorem finish_forwarded : (finish env forwarded exchange).forwarded = forwarded := by
  cases forwarded <;> rfl

@[simp]
theorem finish_request :
    (finish env forwarded exchange).exchange.request = exchange.request := by
  cases forwarded <;> rfl

@[simp]
theorem finish_input :
    (finish env forwarded exchange).exchange.input = exchange.input := by
  cases forwarded <;> rfl

@[simp]
theorem finish_log :
    (finish env forwarded exchange).exchange.log = exchange.log := by
  cases forwarded <;> rfl

@[simp]
theorem finish_statusCode :
    (finish env forwarded exchange).exchange.response.statusCode =
      exchange.response.statusCode := by
  cases forwarded <;> simp [finish]

theorem finish_closeConnection :
    (finish env false exchange).exchange.response.closeConnection =
      closesConnection exchange.request := by
  simp [finish]

end Finish

/-! ## Termination of the retry loop -/

theorem path_ne_nil_of_reaches {env : Environment} {start exchange : Exchange}
    (hreach : Reaches (handlePass env) start exchange)
    (hpath : start.request.path ≠ []) : exchange.request.path ≠ [] := by
  induction hreach with
  | refl => exact hpath
  | tail _ hpass ih =>
      rcases httpHandler_again (handlePass_next hpass) with
        ⟨_, rfl⟩ | ⟨_, location, _, rfl⟩
      · exact ih
      · exact ih

theorem handlePass_of_path_nil {env : Environment} {exchange : Exchange}
    (hpath : exchange.request.path = []) :
    handlePass env exchange = .next exchange := by
  simp [handlePass, httpHandler, HttpAccessHandler.handle, hpath]

/-- With a path the retry loop ends, since every retry looks at a shorter prefix. -/
theorem terminates_of_path_ne_nil {env : Environment} {exchange : Exchange}
    (hpath : exchange.request.path ≠ []) :
    Terminates (handlePass env) exchange := by
  apply ((retryLoop env).terminates_iff exchange).mpr
  intro stuck hreach hstall
  have hstuck := path_ne_nil_of_reaches hreach hpath
  rcases httpHandler_again (handlePass_next hstall) with
    ⟨hempty, _⟩ | ⟨_, location, hsearch, hlocate⟩
  · exact hstuck hempty
  · -- a pass that matched a location has lowered the location position
    obtain ⟨hpos, hle, _⟩ := length_location_le hsearch
    have hend := congrArg (fun x : Exchange => x.request.locationEndPos) hlocate
    simp only [locate_locationEndPos] at hend
    omega

/-- The retry loop of `onRequest` terminates on exactly the requests that have
a path, whatever the configuration, the file system and the buffered bytes. -/
theorem onRequest_terminates_iff (request : HttpRequest) (input : Bytes) :
    Terminates (handlePass env) { request, input } ↔ request.path ≠ [] := by
  constructor
  · intro hterm hpath
    exact not_terminates_of_stall (handlePass_of_path_nil hpath) hterm
  · intro hpath
    exact terminates_of_path_ne_nil hpath

theorem onRequest_of_path_nil {request : HttpRequest} (hpath : request.path = [])
    (input : Bytes) : onRequest env request input = .hang := by
  have hnone : (retryLoop env).exec { request, input } = none := by
    rw [StallingLoop.exec_eq_none_iff]
    exact not_terminates_of_stall (handlePass_of_path_nil hpath)
  simp [onRequest, hnone]

theorem path_ne_nil_of_onRequest {env : Environment} {request : HttpRequest} {input : Bytes}
    {handled : Handled} (hrequest : onRequest env request input = .ret handled) :
    request.path ≠ [] := by
  intro hpath
  rw [onRequest_of_path_nil env hpath] at hrequest
  cases hrequest

theorem onRequest_of_returns {env : Environment} {request : HttpRequest}
    {input : Bytes} {result : Exec Fault (Bool × Exchange)}
    (hreturns : Returns (handlePass env) { request, input } result) :
    onRequest env request input =
      result.bind fun (forwarded, exchange) =>
        .ret (finish env forwarded exchange) := by
  rw [onRequest, (retryLoop env).exec_eq_some_iff.mpr hreturns, Exec.ofLoop_some]

theorem returns_of_onRequest {env : Environment} {request : HttpRequest}
    {input : Bytes} {handled : Handled}
    (hrequest : onRequest env request input = .ret handled) :
    ∃ forwarded exchange, handled = finish env forwarded exchange ∧
      Returns (handlePass env) { request, input } (.ret (forwarded, exchange)) := by
  obtain ⟨⟨forwarded, exchange⟩, hloop, hfinish⟩ := Exec.bind_eq_ret_iff.mp hrequest
  cases hexec : (retryLoop env).exec { request, input } with
  | none => simp [hexec] at hloop
  | some result =>
      rw [hexec, Exec.ofLoop_some] at hloop
      subst hloop
      cases hfinish
      exact ⟨forwarded, exchange, rfl, (retryLoop env).exec_eq_some_iff.mp hexec⟩

/-- A request line whose target is only a query. -/
def pathlessRequest : Bytes := ascii "GET ?q HTTP/1.1\r\n\r\n"

theorem pathlessRequest_accepted_and_tried_for_ever :
    ∃ parsed, parseRequest {} pathlessRequest = .ret parsed ∧
      parsed.verdict = .kParseOK ∧
      ¬ Terminates (handlePass {})
        { request := parsed.context.request, input := parsed.buffer } := by
  refine ⟨⟨.kParseOK, ⟨.kGotAll,
    { method := .kGet, version := .kHttp11, query := ascii "?q" }⟩, []⟩,
    by decide, rfl, ?_⟩
  exact not_terminates_of_stall (handlePass_of_path_nil rfl)

/-! ## Receiving bytes -/

/-- The parser context and the unread input of a client connection. -/
structure Connection where
  context : HttpContext := {}
  input : Bytes := []
  deriving DecidableEq

/-- The answer of `HttpServer::onBadMessage`, sent before the connection is
shut down for writing. -/
def badMessageResponse : HttpResponse :=
  (HttpResponse.setStatusCode { closeConnection := true } k400BadRequest).addHeader
    (ascii "Server") (ascii "CuBer")

/-- What one call of `onMessage` does.  A dispatched request is recorded as it
was passed to `onRequest`. -/
inductive Reaction where
  | waiting
  | rejected (response : HttpResponse)
  | answered (request : HttpRequest) (exchange : Exchange)
  | forwarded (request : HttpRequest) (exchange : Exchange)
  deriving DecidableEq

/-- The dispatch of a complete request in `HttpServer::onMessage`.  After a
forwarded request the context is not reset. -/
def dispatch (parsed : RequestParse) : Exec Fault (Reaction × Connection) :=
  (onRequest env parsed.context.request parsed.buffer).bind fun handled =>
    let context := { parsed.context with request := handled.exchange.request }
    if handled.forwarded then
      .ret (.forwarded parsed.context.request handled.exchange,
        ⟨context, handled.exchange.input⟩)
    else
      .ret (.answered parsed.context.request handled.exchange,
        ⟨context.reset, handled.exchange.input⟩)

section Dispatch

variable {env : Environment} {verdict : HttpParseState}
  {state : HttpRequestParseState} {request : HttpRequest} {buffer : Bytes}
  {exchange : Exchange}

theorem dispatch_of_answered
    (hrequest : onRequest env request buffer = .ret (finish env false exchange)) :
    dispatch env ⟨verdict, ⟨state, request⟩, buffer⟩ =
      .ret (.answered request (finish env false exchange).exchange,
        ⟨HttpContext.reset ⟨state, exchange.request⟩, exchange.input⟩) := by
  simp [dispatch, hrequest]

theorem dispatch_of_forwarded
    (hrequest : onRequest env request buffer = .ret (finish env true exchange)) :
    dispatch env ⟨verdict, ⟨state, request⟩, buffer⟩ =
      .ret (.forwarded request exchange,
        ⟨⟨state, exchange.request⟩, exchange.input⟩) := by
  simp [dispatch, hrequest, finish]

end Dispatch

/-- What `HttpServer::onMessage` does with the verdict of the parser. -/
def react (parsed : RequestParse) : Exec Fault (Reaction × Connection) :=
  match parsed.verdict with
  | .kBadMessage =>
      .ret (.rejected badMessageResponse, ⟨parsed.context, parsed.buffer⟩)
  | .kParseOK => dispatch env parsed
  | _ => .ret (.waiting, ⟨parsed.context, parsed.buffer⟩)

/-- `HttpServer::onMessage` for a chunk that was just read into the input
buffer. -/
def onMessage (connection : Connection) (chunk : Bytes) :
    Exec Fault (Reaction × Connection) :=
  (parseRequest connection.context (connection.input ++ chunk)).bind (react env)

/-- How a delivery of chunks ends. -/
inductive Ending where
  | idle (connection : Connection)
  | hung
  | died (cause : Fault)
  deriving DecidableEq

structure Delivery where
  reactions : List Reaction
  ending : Ending
  deriving DecidableEq

/-- The reactions to chunks that arrive one after the other. -/
def deliver (connection : Connection) : List Bytes → Delivery
  | [] => ⟨[], .idle connection⟩
  | chunk :: chunks =>
      match onMessage env connection chunk with
      | .ret (reaction, connection) =>
          ⟨reaction :: (deliver connection chunks).reactions,
            (deliver connection chunks).ending⟩
      | .hang => ⟨[], .hung⟩
      | .fault cause => ⟨[], .died cause⟩

end Cuber.Server
