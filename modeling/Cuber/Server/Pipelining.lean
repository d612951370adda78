import Cuber.Core.Backlog
import Cuber.Server.Delivery

/-!
# Several requests on one connection

A client may send further requests before the first one is answered.  One call
of `onMessage` dispatches at most one request, and what it leaves in the buffer
is looked at when the next bytes arrive.  A chunk that completes several
requests therefore puts the server behind, and `pipeline_iff` says when it has
caught up by the last chunk.
-/

namespace Cuber.Pipelining

open Cuber.Backlog
open Cuber.Buffer
open Cuber.Context
open Cuber.Delivery
open Cuber.Execution
open Cuber.FileUtil
open Cuber.Grammar
open Cuber.Handlers
open Cuber.Loop
open Cuber.Request
open Cuber.Server
open Cuber.Text

variable (env : Environment)

/-! ## The handlers and the input buffer -/

def withInput (input : Bytes) (exchange : Exchange) : Exchange :=
  { exchange with input }

def answerWithInput {A : Type} (input : Bytes) (result : Exec Fault (A × Exchange)) :
    Exec Fault (A × Exchange) :=
  result.bind fun (value, exchange) => .ret (value, withInput input exchange)

/-- A handler that neither reads nor changes the input buffer. -/
def IgnoresInput (handler : Handler) (exchange : Exchange) : Prop :=
  ∀ input, handler (withInput input exchange) =
    answerWithInput input (handler exchange)

section IgnoresInput

variable {env} {exchange : Exchange}

theorem proxyHandler_ignoresInput (exchange : Exchange) :
    IgnoresInput (HttpProxyHandler.handle env HttpDefaultHandler.handle)
      exchange := by
  intro input
  have hlocation : (withInput input exchange).location = exchange.location := rfl
  simp only [HttpProxyHandler.handle, hlocation]
  cases env.config.proxyInfo exchange.location with
  | none => rfl
  | some proxy =>
      simp only [withInput]
      cases decodeAddress (env.config.upstreamInfo proxy.upstreamName).address <;> rfl

theorem bodyAndProxy_ignoresInput (env : Environment)
    (hmethod : exchange.request.method ≠ .kPost) :
    IgnoresInput (bodyAndProxy env) exchange := by
  intro input
  have hpost : ∀ exchange : Exchange, exchange.request.method ≠ .kPost →
      bodyAndProxy env exchange =
        HttpProxyHandler.handle env HttpDefaultHandler.handle exchange := by
    intro exchange hmethod
    simp [bodyAndProxy, HttpPostReadHandler.handle, hmethod]
  rw [hpost _ hmethod, hpost (withInput input exchange) hmethod]
  exact proxyHandler_ignoresInput exchange input

theorem serveFile_ignoresInput (fileDir filePath : Bytes) (exchange : Exchange) :
    IgnoresInput (serveFile env fileDir filePath) exchange := by
  intro input
  by_cases hhead : exchange.request.method = .kHead
  · simp [serveFile, withInput, hhead, answerWithInput, Exchange.record,
      Exchange.location]
  · simp only [serveFile, withInput, hhead, if_false]
    cases openFile env.files filePath with
    | none => rfl
    | some content =>
        cases hcopy : mmapCopy content (statSize env.files env.uninitialised fileDir) <;>
          simp only [hcopy] <;> rfl

theorem staticHandler_ignoresInput (env : Environment)
    (hmethod : exchange.request.method ≠ .kPost) :
    IgnoresInput (HttpStaticHandler.handle env (bodyAndProxy env)) exchange := by
  intro input
  have hnext := bodyAndProxy_ignoresInput env hmethod input
  by_cases hother : exchange.request.method ≠ .kGet ∧ exchange.request.method ≠ .kHead
  · have hskip : ∀ bytes, HttpStaticHandler.handle env (bodyAndProxy env)
        (withInput bytes exchange) = bodyAndProxy env (withInput bytes exchange) :=
      fun bytes => if_pos hother
    rw [hskip]
    exact hnext.trans (congrArg _ (hskip exchange.input).symm)
  · have hrequest : (withInput input exchange).request = exchange.request := rfl
    have hlocation : (withInput input exchange).location = exchange.location := rfl
    simp only [HttpStaticHandler.handle, hrequest, hlocation, if_neg hother]
    cases env.config.staticPath exchange.location with
    | none => exact hnext
    | some aliasDir =>
        simp only
        cases selectFile env (aliasDir ++ exchange.request.path.drop
            (exchange.request.locationEndPos + 1)) with
        | none => rfl
        | some filePath => exact serveFile_ignoresInput _ _ exchange input

/-- Only a POST request looks at the input. -/
theorem httpHandler_ignoresInput (env : Environment)
    (hmethod : exchange.request.method ≠ .kPost) :
    IgnoresInput (httpHandler env) exchange := by
  intro input
  simp only [httpHandler, HttpAccessHandler.handle, withInput]
  by_cases hpath : exchange.request.path = []
  · simp [hpath, answerWithInput, withInput]
  by_cases hreq : exchange.request.path.take exchange.request.locationEndPos = []
  · simp [hpath, hreq, answerWithInput, withInput, Exchange.setStatusCode]
  cases hsearch : LocationSearch.searchLocation env.config.locations
      (exchange.request.path.take exchange.request.locationEndPos) with
  | none =>
      simp [hpath, hreq, answerWithInput, withInput, Exchange.setStatusCode]
  | some location =>
      simp only [hpath, hreq, if_false]
      exact staticHandler_ignoresInput env
        (show (exchange.locate location).request.method ≠ .kPost from hmethod) input

theorem handlePass_withInput (hmethod : exchange.request.method ≠ .kPost)
    (input : Bytes) :
    handlePass env (withInput input exchange) =
      (handlePass env exchange).map (withInput input) (answerWithInput input) := by
  rw [handlePass, httpHandler_ignoresInput env hmethod input, handlePass]
  cases httpHandler env exchange with
  | ret result =>
      obtain ⟨state, exchange'⟩ := result
      cases state <;> rfl
  | hang => rfl
  | fault cause => rfl

theorem handlePass_keeps_method {exchange' : Exchange}
    (hmethod : exchange.request.method ≠ .kPost)
    (hpass : handlePass env exchange = .next exchange') :
    exchange'.request.method ≠ .kPost := by
  rcases httpHandler_again (handlePass_next hpass) with
    ⟨_, rfl⟩ | ⟨_, location, _, rfl⟩
  · exact hmethod
  · exact hmethod

/-- What `onRequest` does with a request that is not a POST does not depend on
the bytes that follow it, and leaves them in the buffer. -/
theorem onRequest_withInput {request : HttpRequest} {handled : Handled}
    (hmethod : request.method ≠ .kPost)
    (hrequest : onRequest env request [] = .ret handled) (input : Bytes) :
    ∃ exchange : Exchange, exchange.input = input ∧
      onRequest env request input = .ret (finish env handled.forwarded exchange) := by
  obtain ⟨forwarded, exchange, rfl, hreturns⟩ := returns_of_onRequest hrequest
  have hcarried := hreturns.map (withInput input) (answerWithInput input)
    (fun _ hmethod => handlePass_withInput hmethod input)
    (fun _ _ hmethod hpass => handlePass_keeps_method hmethod hpass) hmethod
  refine ⟨withInput input exchange, rfl, ?_⟩
  rw [onRequest_of_returns hcarried, finish_forwarded]
  rfl

end IgnoresInput

/-! ## Requests answered locally -/

/-- A GET request without a body, as a client sends it, that the server answers
itself. -/
structure LocalGet where
  text : Bytes
  request : HttpRequest
  accepted : parseRequest {} text = .ret ⟨.kParseOK, ⟨.kGotAll, request⟩, []⟩
  get : request.method = .kGet
  answered : ∃ handled, onRequest env request [] = .ret handled ∧
    handled.forwarded = false

namespace LocalGet

variable {env} (message : LocalGet env)

def size : ℕ := message.text.length

theorem size_pos : 0 < message.size := by
  apply List.length_pos_of_ne_nil
  intro hnil
  have haccepted := message.accepted
  rw [hnil, parseRequest_unfinished (Or.inl rfl) isLine_nil] at haccepted
  cases haccepted

/-- A request that is complete is answered, and the bytes after it stay in the
buffer of a connection that is reset. -/
theorem onMessage_of_complete {connection : Connection} {bytes chunk rest : Bytes}
    (hpending : Pending connection bytes)
    (hbytes : bytes ++ chunk = message.text ++ rest) :
    ∃ exchange connection', Pending connection' rest ∧
      onMessage env connection chunk =
        .ret (.answered message.request exchange, connection') := by
  obtain ⟨handled, hrequest, hforwarded⟩ := message.answered
  have hmethod : message.request.method ≠ .kPost := by simp [message.get]
  obtain ⟨exchange, rfl, hanswer⟩ := onRequest_withInput hmethod hrequest rest
  rw [hforwarded] at hanswer
  refine ⟨(finish env false exchange).exchange, _,
    pending_reset ⟨.kGotAll, exchange.request⟩ exchange.input, ?_⟩
  rw [onMessage_of_head hpending message.accepted hbytes, dispatch_of_answered hanswer]

theorem onMessage_of_missing {connection : Connection} {bytes chunk missing : Bytes}
    (hpending : Pending connection bytes) (hmissing : missing ≠ [])
    (hbytes : message.text = bytes ++ chunk ++ missing) :
    ∃ connection', Pending connection' (bytes ++ chunk) ∧
      onMessage env connection chunk = .ret (.waiting, connection') := by
  have haccepted := message.accepted
  rw [hbytes] at haccepted
  exact onMessage_of_awaitsMore env hpending (awaitsMore_of_accepted haccepted hmissing)

end LocalGet

/-! ## The requests dispatched by a delivery -/

def dispatchedRequest : Reaction → Option HttpRequest
  | .answered request _ => some request
  | .forwarded request _ => some request
  | _ => none

/-- The requests that `onRequest` was called with and returned from. -/
def dispatched (delivery : Delivery) : List HttpRequest :=
  delivery.reactions.filterMap dispatchedRequest

theorem dispatched_of_ret {connection connection' : Connection} {chunk : Bytes}
    {chunks : List Bytes} {reaction : Reaction}
    (hmessage : onMessage env connection chunk = .ret (reaction, connection')) :
    dispatched (deliver env connection (chunk :: chunks)) =
      (dispatchedRequest reaction).toList ++
        dispatched (deliver env connection' chunks) := by
  cases hreaction : dispatchedRequest reaction <;>
    simp [dispatched, deliver, hmessage, hreaction]

/-- The server dispatches the requests in order, one per chunk at most. -/
theorem dispatched_eq_take {connection : Connection} {bytes : Bytes}
    (hpending : Pending connection bytes) (messages : List (LocalGet env))
    {chunks : List Bytes}
    (hbytes : bytes ++ chunks.flatten = (messages.map LocalGet.text).flatten) :
    dispatched (deliver env connection chunks) =
      (messages.take (served (messages.map LocalGet.size) bytes.length
        (chunks.map List.length))).map LocalGet.request := by
  induction chunks generalizing connection bytes messages with
  | nil => simp [dispatched, deliver, served]
  | cons chunk chunks ih =>
      cases messages with
      | nil =>
          simp only [List.flatten_cons, List.map_nil, List.flatten_nil,
            List.append_eq_nil_iff] at hbytes
          obtain ⟨rfl, rfl, hrest⟩ := hbytes
          obtain ⟨connection', hpending', hmessage⟩ :=
            onMessage_of_awaitsMore env hpending (Or.inl isLine_nil)
          rw [dispatched_of_ret env hmessage, ih hpending' [] (by simpa using hrest)]
          simp [dispatchedRequest]
      | cons message messages =>
          rw [List.flatten_cons, ← List.append_assoc, List.map_cons,
            List.flatten_cons] at hbytes
          rcases complete_or_missing hbytes with
            ⟨rest, hcomplete, hrest⟩ | ⟨missing, hmissing, htext⟩
          · obtain ⟨exchange, connection', hpending', hmessage⟩ :=
              message.onMessage_of_complete hpending hcomplete
            have hlength : bytes.length + chunk.length = message.size + rest.length := by
              simpa [LocalGet.size] using congrArg List.length hcomplete
            rw [dispatched_of_ret env hmessage, ih hpending' messages hrest,
              List.map_cons, List.map_cons, served_cons_of_le (by omega), hlength,
              Nat.add_sub_cancel_left, List.take_succ_cons]
            rfl
          · obtain ⟨connection', hpending', hmessage⟩ :=
              message.onMessage_of_missing hpending hmissing htext
            have hlength :
                message.size = bytes.length + chunk.length + missing.length := by
              simpa [LocalGet.size, Nat.add_assoc] using congrArg List.length htext
            have hpos := List.length_pos_of_ne_nil hmissing
            rw [dispatched_of_ret env hmessage,
              ih hpending' (message :: messages) (by simpa using hbytes),
              List.map_cons, List.map_cons, served_cons_of_lt (by omega),
              List.length_append]
            rfl

/-- All requests have been dispatched in their order when the last chunk has
been processed if and only if after any number of chunks the requests that are
still incomplete are no more than the chunks still to come. -/
theorem pipeline_iff (messages : List (LocalGet env)) (old : HttpContext)
    {chunks : List Bytes}
    (hparts : chunks.flatten = (messages.map LocalGet.text).flatten) :
    dispatched (deliver env ⟨old.reset, []⟩ chunks) =
        messages.map LocalGet.request ↔
      ∀ before after, chunks = before ++ after →
        messages.length ≤
          completed (messages.map LocalGet.size) before.flatten.length +
            after.length := by
  have hsizes : ∀ size ∈ messages.map LocalGet.size, 0 < size := by
    intro size hsize
    obtain ⟨message, _, rfl⟩ := List.mem_map.mp hsize
    exact message.size_pos
  rw [dispatched_eq_take env (pending_reset old []) messages (by simpa using hparts),
    List.length_nil]
  have hserved := served_eq_length_iff hsizes (chunks.map List.length)
  rw [List.length_map] at hserved
  constructor
  · intro hall before after hchunks
    have hlengths := congrArg List.length hall
    rw [List.length_map, List.length_map, List.length_take] at hlengths
    have hle := served_le_length (messages.map LocalGet.size) 0 (chunks.map List.length)
    rw [List.length_map] at hle
    have hround := hserved.mp (by omega) (before.map List.length)
      (after.map List.length) (by rw [hchunks, List.map_append])
    rwa [← List.length_flatten, List.length_map] at hround
  · intro hpace
    have hcount := hserved.mpr fun amounts later hsplit => by
      obtain ⟨before, after, hchunks, rfl, rfl⟩ := List.map_eq_append_iff.mp hsplit
      rw [← List.length_flatten, List.length_map]
      exact hpace before after hchunks
    rw [hcount, List.take_length]

/-- A request that is answered 404 when no location is configured. -/
def rootGet : LocalGet {} where
  text := ascii "GET / HTTP/1.1\r\n\r\n"
  request :=
    { method := .kGet, version := .kHttp11, path := ascii "/", locationEndPos := 1 }
  accepted := by decide
  get := rfl
  answered := ⟨_, rfl, rfl⟩

/-- Of two requests that arrive in one chunk only the first is dispatched. -/
theorem rootGet_twice_in_one_chunk :
    dispatched (deliver {} {} [rootGet.text ++ rootGet.text]) ≠
      [rootGet.request, rootGet.request] := by
  decide

theorem rootGet_twice_in_two_chunks :
    dispatched (deliver {} {} [rootGet.text, rootGet.text]) =
      [rootGet.request, rootGet.request] := by
  apply (pipeline_iff {} [rootGet, rootGet] {} (by simp)).mpr
  intro before after hchunks
  rcases before with _ | ⟨first, _ | ⟨second, before⟩⟩
  · rw [List.nil_append] at hchunks
    rw [← hchunks]
    decide
  · obtain ⟨rfl, rfl⟩ := List.cons.inj hchunks
    decide
  · obtain ⟨rfl, hrest⟩ := List.cons.inj hchunks
    obtain ⟨rfl, hnil⟩ := List.cons.inj hrest
    obtain ⟨rfl, rfl⟩ := List.append_eq_nil_iff.mp hnil.symm
    decide

end Cuber.Pipelining
