import Cuber.Http.Grammar
import Cuber.Http.Server

/-!
# Bodies of POST requests

The parser stops at the blank line; the body of a POST request is taken from
the input buffer by `HttpPostReadHandler`, in the middle of the handler chain.
This module works out one pass of the chain on a POST request and what follows
for the bytes that are still in the buffer when the request has been answered.
-/

namespace Cuber.PostBody

open Cuber.Buffer
open Cuber.Config
open Cuber.Context
open Cuber.Execution
open Cuber.Filter
open Cuber.Grammar
open Cuber.Handlers
open Cuber.Headers
open Cuber.LocationSearch
open Cuber.Loop
open Cuber.Maps
open Cuber.Request
open Cuber.Response
open Cuber.Server
open Cuber.Text

variable (env : Environment)

/-- A POST request as a client sends it: a valid head with a decimal
`Content-Length`, and a body of that many bytes. -/
structure PostMessage where
  head : Bytes
  body : Bytes
  /-- The request that the parser reads from the head. -/
  request : HttpRequest
  accepted : parseRequest {} head = .ret ⟨.kParseOK, ⟨.kGotAll, request⟩, []⟩
  post : request.method = .kPost
  decimal : IsDecimal (request.getHeader contentLength)
  length : decimalValue (request.getHeader contentLength) = body.length

/-- Some configured location is the path or a prefix of it ending in a
slash. -/
def HasLocation (path : Bytes) : Prop :=
  ∃ location ∈ env.config.locations, IsCandidate path location

def announcedLength (request : HttpRequest) : ℕ :=
  decimalValue (request.getHeader contentLength)

/-! ## One pass of the chain -/

section Pass

variable {env} {exchange : Exchange}

theorem staticHandler_of_post (next : Handler)
    (hpost : exchange.request.method = .kPost) :
    HttpStaticHandler.handle env next exchange = next exchange := by
  simp [HttpStaticHandler.handle, hpost]

/-- The exchange after the body was taken from the input buffer. -/
def readBody (exchange : Exchange) (length : ℕ) : Exchange :=
  { exchange with
    request := exchange.request.setBody (exchange.input.take length)
    input := retrieve exchange.input length
    log := exchange.log ++ [.bodyRead (exchange.input.take length)] }

theorem stoi_contentLength {request : HttpRequest}
    (hdecimal : IsDecimal (request.getHeader contentLength)) :
    stoi (request.getHeader contentLength) =
      if announcedLength request ≤ intMax then some (announcedLength request : ℤ)
      else none :=
  stoi_of_isDecimal hdecimal

theorem bodyAndProxy_of_too_long (hpost : exchange.request.method = .kPost)
    (hdecimal : IsDecimal (exchange.request.getHeader contentLength))
    (hlong : intMax < announcedLength exchange.request) :
    bodyAndProxy env exchange =
      .ret (.kHandleError, exchange.setStatusCode k400BadRequest) := by
  simp only [bodyAndProxy, HttpPostReadHandler.handle, if_pos hpost,
    if_pos hdecimal.1, stoi_contentLength hdecimal,
    if_neg (Nat.not_le.mpr hlong)]

theorem bodyAndProxy_of_incomplete (hpost : exchange.request.method = .kPost)
    (hdecimal : IsDecimal (exchange.request.getHeader contentLength))
    (hfits : announcedLength exchange.request ≤ intMax)
    (hincomplete : exchange.input.length < announcedLength exchange.request) :
    bodyAndProxy env exchange = .ret (.kHandleAgain, exchange) := by
  simp only [bodyAndProxy, HttpPostReadHandler.handle, if_pos hpost,
    if_pos hdecimal.1, stoi_contentLength hdecimal,
    if_pos hfits, toSizeT_natCast hfits, if_pos hincomplete]

theorem bodyAndProxy_of_complete (hpost : exchange.request.method = .kPost)
    (hdecimal : IsDecimal (exchange.request.getHeader contentLength))
    (hfits : announcedLength exchange.request ≤ intMax)
    (hcomplete : announcedLength exchange.request ≤ exchange.input.length) :
    bodyAndProxy env exchange =
      HttpProxyHandler.handle env HttpDefaultHandler.handle
        (readBody exchange (announcedLength exchange.request)) := by
  simp only [bodyAndProxy, HttpPostReadHandler.handle, if_pos hpost,
    if_pos hdecimal.1, stoi_contentLength hdecimal,
    if_pos hfits, toSizeT_natCast hfits, if_neg (Nat.not_lt.mpr hcomplete)]
  rfl

theorem bodyAndProxy_of_stoi_none (hpost : exchange.request.method = .kPost)
    (htext : exchange.request.getHeader contentLength ≠ [])
    (hvalue : stoi (exchange.request.getHeader contentLength) = none) :
    bodyAndProxy env exchange =
      .ret (.kHandleError, exchange.setStatusCode k400BadRequest) := by
  simp only [bodyAndProxy, HttpPostReadHandler.handle, if_pos hpost, if_pos htext, hvalue]

/-- A length that `stoi` reads is never an error, whatever the text is. -/
theorem bodyAndProxy_ne_error {value : ℤ} (hpost : exchange.request.method = .kPost)
    (htext : exchange.request.getHeader contentLength ≠ [])
    (hvalue : stoi (exchange.request.getHeader contentLength) = some value)
    (final : Exchange) : bodyAndProxy env exchange ≠ .ret (.kHandleError, final) := by
  intro herror
  simp only [bodyAndProxy, HttpPostReadHandler.handle, if_pos hpost, if_pos htext,
    hvalue] at herror
  split_ifs at herror
  · cases herror
  · rcases proxyHandler_cases env (readBody exchange (toSizeT value)) with
      ⟨upstream, request, hhandle⟩ | hhandle | hhandle
    · cases hhandle.symm.trans herror
    · cases hhandle.symm.trans herror
    · cases hhandle.symm.trans herror

end Pass

/-! ## The length of a body -/

/-- A decimal length of an `int` that is available has that many bytes handed on as the
body.  Every other length than a decimal one of an `int` is an error, and leaves body and
buffer alone. -/
structure HandlesLength (exchange : Exchange) : Prop where
  reads : ∀ length, IsDecimal (exchange.request.getHeader contentLength) →
    decimalValue (exchange.request.getHeader contentLength) = length →
    length ≤ intMax → length ≤ exchange.input.length →
      ∃ passed : Exchange, bodyAndProxy env exchange =
          HttpProxyHandler.handle env HttpDefaultHandler.handle passed ∧
        passed.request = exchange.request.setBody (exchange.input.take length) ∧
        passed.input = exchange.input.drop length
  rejects : ¬ (IsDecimal (exchange.request.getHeader contentLength) ∧
      decimalValue (exchange.request.getHeader contentLength) ≤ intMax) →
    ∃ final : Exchange, bodyAndProxy env exchange = .ret (.kHandleError, final) ∧
      final.response.statusCode = k400BadRequest ∧
      final.request.body = exchange.request.body ∧ final.input = exchange.input

/-- Lengths are handled well exactly when the text is a decimal number or one that `stoi`
does not read. -/
theorem handlesLength_iff {exchange : Exchange} (hpost : exchange.request.method = .kPost)
    (htext : exchange.request.getHeader contentLength ≠ []) :
    HandlesLength env exchange ↔
      IsDecimal (exchange.request.getHeader contentLength) ∨
        stoi (exchange.request.getHeader contentLength) = none := by
  constructor
  · intro hhandles
    by_contra hneither
    rw [not_or] at hneither
    obtain ⟨final, herror, _⟩ := hhandles.rejects fun hdecimal => hneither.1 hdecimal.1
    obtain ⟨value, hvalue⟩ := Option.ne_none_iff_exists'.mp hneither.2
    exact bodyAndProxy_ne_error hpost htext hvalue final herror
  · intro hreadable
    constructor
    · rintro length hdecimal rfl hfits hcomplete
      exact ⟨_, bodyAndProxy_of_complete hpost hdecimal hfits hcomplete, rfl, rfl⟩
    · intro hnot
      refine ⟨exchange.setStatusCode k400BadRequest, ?_, rfl, rfl, rfl⟩
      rcases hreadable with hdecimal | hvalue
      · exact bodyAndProxy_of_too_long hpost hdecimal
          (not_le.mp fun hfits => hnot ⟨hdecimal, hfits⟩)
      · exact bodyAndProxy_of_stoi_none hpost htext hvalue

/-- A POST request that announces its length with a text. -/
def postWithLength (text : Bytes) : Exchange where
  request :=
    { method := .kPost, version := .kHttp11, path := ascii "/x", locationEndPos := 2,
      headers := OrderedMap.empty.insert contentLength text }
  input := ascii "hello"

theorem getHeader_postWithLength (text : Bytes) :
    (postWithLength text).request.getHeader contentLength = text := by
  simp [postWithLength, HttpRequest.getHeader, valueOf, OrderedMap.find?_insert]

theorem handlesLength_of_five : HandlesLength {} (postWithLength (ascii "5")) := by
  have htext := getHeader_postWithLength (ascii "5")
  have hdecimal : IsDecimal (ascii "5") := by decide +kernel
  rw [← htext] at hdecimal
  exact (handlesLength_iff {} rfl hdecimal.1).mpr (Or.inl hdecimal)

/-- A number with a letter after it is taken for the number. -/
theorem letter_after_length_is_ignored :
    ¬ HandlesLength {} (postWithLength (ascii "5x")) := by
  intro hhandles
  have htext := getHeader_postWithLength (ascii "5x")
  have hvalue : stoi (ascii "5x") = some 5 := by decide
  have hnot : ¬ IsDecimal (ascii "5x") := by decide +kernel
  have hne : ascii "5x" ≠ [] := by decide
  rw [← htext] at hvalue hnot hne
  obtain ⟨final, herror, _⟩ := hhandles.rejects fun hdecimal => hnot hdecimal.1
  exact bodyAndProxy_ne_error rfl hne hvalue final herror

/-! ## Handling a POST request

The location position of the requests below is the end of the path, as the
parser leaves it. -/

section Handling

variable {env} {request : HttpRequest}

theorem hasLocation_iff (hpath : request.path ≠ []) :
    HasLocation env request.path ↔
      ∃ location, searchLocation env.config.locations request.path =
        some location := by
  rw [← not_iff_not, ← Option.ne_none_iff_exists', not_not,
    searchLocation_eq_none_iff hpath, HasLocation]
  push Not
  rfl

theorem httpHandler_of_not_hasLocation (hpath : request.path ≠ [])
    (hpos : request.locationEndPos = request.path.length)
    (hlocation : ¬ HasLocation env request.path) (input : Bytes) :
    httpHandler env { request, input } =
      .ret (.kHandleDone,
        Exchange.setStatusCode { request, input } k404NotFound) := by
  rw [hasLocation_iff hpath, not_exists] at hlocation
  have hnone := Option.eq_none_iff_forall_ne_some.mpr hlocation
  simp [httpHandler, HttpAccessHandler.handle, hpath, hpos, hnone]

theorem httpHandler_of_location (hpost : request.method = .kPost)
    (hpath : request.path ≠ [])
    (hpos : request.locationEndPos = request.path.length) {location : Bytes}
    (hsearch : searchLocation env.config.locations request.path = some location)
    (input : Bytes) :
    httpHandler env { request, input } =
      bodyAndProxy env (Exchange.locate { request, input } location) := by
  simp [httpHandler, HttpAccessHandler.handle, hpath, hpos, hsearch,
    staticHandler_of_post, hpost]

theorem onRequest_of_done {input : Bytes} {forwarded : Bool} {exchange : Exchange}
    (hdone : handlePass env { request, input } = .done (.ret (forwarded, exchange))) :
    onRequest env request input = .ret (finish env forwarded exchange) :=
  onRequest_of_returns (returns_of_done hdone)

/-- The body is taken from the buffer only when a location is configured for
the path and the length fits an `int`. -/
def ReadsBody (env : Environment) (request : HttpRequest) : Prop :=
  HasLocation env request.path ∧ announcedLength request ≤ intMax

/-- Without reading the body the request is answered in the same way whatever
the buffer holds, and the buffer is left as it is. -/
theorem onRequest_of_not_readsBody (hpost : request.method = .kPost)
    (hdecimal : IsDecimal (request.getHeader contentLength))
    (hpath : request.path ≠ [])
    (hpos : request.locationEndPos = request.path.length)
    (hreads : ¬ ReadsBody env request) :
    ∃ answer : Exchange, answer.request.headers = request.headers ∧
      answer.request.version = request.version ∧
      ∀ input, onRequest env request input =
        .ret (finish env false { answer with input }) := by
  by_cases hlocation : HasLocation env request.path
  · obtain ⟨location, hsearch⟩ := (hasLocation_iff hpath).mp hlocation
    have hlong : intMax < announcedLength request :=
      Nat.lt_of_not_le fun hfits => hreads ⟨hlocation, hfits⟩
    refine ⟨(Exchange.locate { request, input := [] } location).setStatusCode
      k400BadRequest, rfl, rfl, fun input => onRequest_of_done ?_⟩
    rw [handlePass, httpHandler_of_location hpost hpath hpos hsearch,
      bodyAndProxy_of_too_long hpost hdecimal hlong]
    rfl
  · refine ⟨Exchange.setStatusCode { request, input := [] } k404NotFound, rfl, rfl,
      fun input => onRequest_of_done ?_⟩
    rw [handlePass, httpHandler_of_not_hasLocation hpath hpos hlocation]
    rfl

/-- The exchange after a location was matched and the body was taken. -/
def withBody (request : HttpRequest) (location body more : Bytes) : Exchange where
  request := (request.setLocationEndPos (location.length - 1)).setBody body
  input := more
  log := [.located location, .bodyRead body]

theorem httpHandler_of_complete (hpost : request.method = .kPost)
    (hdecimal : IsDecimal (request.getHeader contentLength))
    (hpath : request.path ≠ [])
    (hpos : request.locationEndPos = request.path.length) {location body : Bytes}
    (hsearch : searchLocation env.config.locations request.path = some location)
    (hfits : announcedLength request ≤ intMax)
    (hbody : announcedLength request = body.length) (more : Bytes) :
    httpHandler env { request, input := body ++ more } =
      HttpProxyHandler.handle env HttpDefaultHandler.handle
        (withBody request location body more) := by
  have hcomplete : announcedLength request ≤ (body ++ more).length := by
    rw [hbody, List.length_append]
    exact Nat.le_add_right _ _
  have hannounced : announcedLength
      (Exchange.locate { request, input := body ++ more } location).request =
        body.length := hbody
  rw [httpHandler_of_location hpost hpath hpos hsearch,
    bodyAndProxy_of_complete hpost hdecimal hfits hcomplete, hannounced]
  simp [readBody, Exchange.locate, retrieve, withBody]

/-- A body that is complete in the buffer is taken from it before the request
is forwarded, answered 404, or stopped by an exception. -/
theorem onRequest_of_readsBody (hpost : request.method = .kPost)
    (hdecimal : IsDecimal (request.getHeader contentLength))
    (hpath : request.path ≠ [])
    (hpos : request.locationEndPos = request.path.length)
    (hreads : ReadsBody env request) {body : Bytes}
    (hbody : announcedLength request = body.length) (more : Bytes) :
    ∃ location,
      (∃ upstream request',
          onRequest env request (body ++ more) =
            .ret (finish env true {
              request := request'
              input := more
              log := [.located location, .bodyRead body, .proxied upstream] })) ∨
        (∃ exchange : Exchange, exchange.input = more ∧
          exchange.log = [.located location, .bodyRead body] ∧
          exchange.request.headers = request.headers ∧
          exchange.request.version = request.version ∧
          onRequest env request (body ++ more) = .ret (finish env false exchange)) ∨
        onRequest env request (body ++ more) = .fault .uncaughtException := by
  obtain ⟨location, hsearch⟩ := (hasLocation_iff hpath).mp hreads.1
  refine ⟨location, ?_⟩
  have hpass := httpHandler_of_complete hpost hdecimal hpath hpos hsearch hreads.2 hbody
    more
  rcases proxyHandler_cases env (withBody request location body more) with
    ⟨upstream, request', hproxy⟩ | hproxy | hproxy
  · refine Or.inl ⟨upstream, request', onRequest_of_done ?_⟩
    rw [handlePass, hpass, hproxy]
    rfl
  · refine Or.inr (Or.inl ⟨(withBody request location body more).setStatusCode
      k404NotFound, rfl, rfl, rfl, rfl, onRequest_of_done ?_⟩)
    rw [handlePass, hpass, hproxy]
  · have hdone : handlePass env { request, input := body ++ more } =
        .done (.fault .uncaughtException) := by
      rw [handlePass, hpass, hproxy]
    exact Or.inr (Or.inr (onRequest_of_returns (returns_of_done hdone)))

/-- The decisions recorded while a request is tried again and again are
matched locations. -/
def OnlyLocated (decisions : List Decision) : Prop :=
  ∀ decision ∈ decisions, ∃ location, decision = .located location

/-- The invariant of the retry loop while the body is incomplete. -/
structure AwaitsBody (exchange : Exchange) : Prop where
  post : exchange.request.method = .kPost
  decimal : IsDecimal (exchange.request.getHeader contentLength)
  path : exchange.request.path ≠ []
  fits : announcedLength exchange.request ≤ intMax
  incomplete : exchange.input.length < announcedLength exchange.request
  log : OnlyLocated exchange.log

theorem AwaitsBody.locate {exchange : Exchange} (hawaits : AwaitsBody exchange)
    (location : Bytes) : AwaitsBody (exchange.locate location) where
  post := hawaits.post
  decimal := hawaits.decimal
  path := hawaits.path
  fits := hawaits.fits
  incomplete := hawaits.incomplete
  log := by
    intro decision hdecision
    rcases List.mem_append.mp hdecision with hold | hnew
    · exact hawaits.log decision hold
    · exact ⟨location, List.mem_singleton.mp hnew⟩

/-- While the body is incomplete, a pass ends in 404 or goes on with a shorter prefix. -/
theorem AwaitsBody.pass (env : Environment) {exchange : Exchange}
    (hawaits : AwaitsBody exchange) :
    handlePass env exchange =
        .done (.ret (false, exchange.setStatusCode k404NotFound)) ∨
      ∃ location, handlePass env exchange = .next (exchange.locate location) ∧
        location.length - 1 < exchange.request.locationEndPos := by
  rcases @access_cases env (HttpStaticHandler.handle env (bodyAndProxy env))
    exchange with ⟨hempty, _⟩ | ⟨_, _, hhandle⟩ | ⟨_, location, hsearch, hhandle⟩
  · exact absurd hempty hawaits.path
  · apply Or.inl
    rw [handlePass, httpHandler, hhandle]
  · obtain ⟨hpos, hle, _⟩ := length_location_le hsearch
    have hawaits' := hawaits.locate location
    refine Or.inr ⟨location, ?_, by omega⟩
    rw [handlePass, httpHandler, hhandle, staticHandler_of_post _ hawaits'.post,
      bodyAndProxy_of_incomplete hawaits'.post hawaits'.decimal hawaits'.fits
        hawaits'.incomplete]

/-- As long as the body is incomplete every pass that matches a location is
followed by one that starts from a shorter path, until none is configured. -/
theorem AwaitsBody.returns (env : Environment) {exchange : Exchange}
    (hawaits : AwaitsBody exchange) :
    ∃ answer : Exchange, OnlyLocated answer.log ∧
      Returns (handlePass env) exchange (.ret (false, answer)) := by
  induction hbound : exchange.request.locationEndPos using Nat.strong_induction_on
    generalizing exchange with
  | _ bound ih =>
      rcases hawaits.pass env with hdone | ⟨location, hnext, hshorter⟩
      · exact ⟨exchange.setStatusCode k404NotFound, hawaits.log, returns_of_done hdone⟩
      · rw [hbound] at hshorter
        obtain ⟨answer, hanswer, hreturns⟩ :=
          ih _ hshorter (hawaits.locate location) rfl
        exact ⟨answer, hanswer, (returns_iff_of_next hnext).mpr hreturns⟩

/-- A POST request whose body is incomplete is answered without its body ever
being read. -/
theorem onRequest_of_incomplete (hpost : request.method = .kPost)
    (hdecimal : IsDecimal (request.getHeader contentLength))
    (hpath : request.path ≠ []) (hfits : announcedLength request ≤ intMax)
    {input : Bytes} (hincomplete : input.length < announcedLength request) :
    ∃ answer : Exchange, OnlyLocated answer.log ∧
      onRequest env request input = .ret (finish env false answer) := by
  have hawaits : AwaitsBody { request, input } :=
    ⟨hpost, hdecimal, hpath, hfits, hincomplete, by simp [OnlyLocated]⟩
  obtain ⟨answer, hanswer, hreturns⟩ := hawaits.returns env
  exact ⟨answer, hanswer, onRequest_of_returns hreturns⟩

end Handling

/-! ## Staying in step with the client -/

namespace PostMessage

variable (message : PostMessage)

theorem onMessage_eq (old : HttpContext) {input chunk rest : Bytes}
    (hbuffer : input ++ chunk = message.head ++ rest) :
    onMessage env ⟨old.reset, input⟩ chunk =
      dispatch env ⟨.kParseOK, ⟨.kGotAll, message.request⟩, rest⟩ := by
  rw [onMessage, hbuffer, parseRequest_of_accepted message.accepted]
  rfl

theorem position : message.request.locationEndPos = message.request.path.length :=
  locationEndPos_of_accepted message.accepted

end PostMessage

/-- A request that is answered on a connection kept open leaves exactly the
bytes `more` to be parsed next. -/
def LeavesInput (connection : Connection) (chunk more : Bytes) : Prop :=
  ∀ request exchange connection',
    onMessage env connection chunk = .ret (.answered request exchange, connection') →
      exchange.response.closeConnection = false → connection'.input = more

theorem closesConnection_congr {request request' : HttpRequest}
    (hheaders : request'.headers = request.headers)
    (hversion : request'.version = request.version) :
    closesConnection request' = closesConnection request := by
  unfold closesConnection HttpRequest.getHeader
  rw [hheaders, hversion]

/-- A POST request that is complete in the buffer is answered in step, that is
with exactly its head and its body consumed, if and only if it is never
answered for lack of a path, has no body, ends the connection, or has its body
read: a location is configured for its path and the length fits an `int`. -/
theorem post_leavesInput_iff (message : PostMessage) (old : HttpContext)
    {input chunk more : Bytes}
    (hbuffer : input ++ chunk = message.head ++ (message.body ++ more)) :
    LeavesInput env ⟨old.reset, input⟩ chunk more ↔
      message.request.path = [] ∨ message.body = [] ∨
        closesConnection message.request = true ∨
        ReadsBody env message.request := by
  rw [LeavesInput, message.onMessage_eq env old hbuffer]
  by_cases hpath : message.request.path = []
  · simp [hpath, dispatch, onRequest_of_path_nil env hpath]
  by_cases hreads : ReadsBody env message.request
  · simp only [hreads, or_true, iff_true]
    intro request exchange connection hdispatch _
    obtain ⟨location, ⟨upstream, request', hrequest⟩ |
        ⟨answered, hinput, _, _, _, hrequest⟩ | hrequest⟩ :=
      onRequest_of_readsBody message.post message.decimal hpath message.position
        hreads message.length more
    · simp [dispatch_of_forwarded hrequest] at hdispatch
    · rw [dispatch_of_answered hrequest] at hdispatch
      cases hdispatch
      exact hinput
    · simp [dispatch, hrequest] at hdispatch
  · obtain ⟨answer, hheaders, hversion, hrequest⟩ :=
      onRequest_of_not_readsBody message.post message.decimal hpath
        message.position hreads
    rw [dispatch_of_answered (hrequest _)]
    simp only [hpath, hreads, false_or, or_false]
    constructor
    · intro hleaves
      by_cases hclose : closesConnection message.request = true
      · exact Or.inr hclose
      · apply Or.inl
        have hinput := hleaves _ _ _ rfl (by
          rw [finish_closeConnection, closesConnection_congr hheaders hversion]
          simpa using hclose)
        simpa using congrArg List.length hinput
    · rintro hcond request exchange connection hdispatch hopen
      cases hdispatch
      rw [finish_closeConnection, closesConnection_congr hheaders hversion] at hopen
      simp only [hopen, Bool.false_eq_true, or_false] at hcond
      simp [hcond]

set_option maxRecDepth 2000 in
def smallPost : PostMessage where
  head := ascii "POST /x HTTP/1.1\r\nContent-Length: 2\r\n\r\n"
  body := ascii "hi"
  request :=
    { method := .kPost, version := .kHttp11, path := ascii "/x", locationEndPos := 2,
      headers := OrderedMap.empty.insert contentLength (ascii "2") }
  accepted := by decide
  post := rfl
  decimal := by decide
  length := by decide

/-- With no location configured the body is left in front of the next
request. -/
theorem smallPost_not_leavesInput :
    ¬ LeavesInput {} {} (smallPost.head ++ smallPost.body) [] := by
  have hreads : ¬ ReadsBody {} smallPost.request := by
    rintro ⟨⟨location, hlocation, _⟩, _⟩
    simp at hlocation
  obtain ⟨answer, hheaders, hversion, hrequest⟩ :=
    onRequest_of_not_readsBody smallPost.post smallPost.decimal (by decide)
      smallPost.position hreads
  have hmessage := smallPost.onMessage_eq {} {}
    (List.nil_append (smallPost.head ++ smallPost.body))
  rw [dispatch_of_answered (hrequest _)] at hmessage
  intro hleaves
  have hinput := hleaves _ _ _ hmessage (by
    rw [finish_closeConnection, closesConnection_congr hheaders hversion]
    decide)
  exact List.cons_ne_nil _ _ hinput

theorem smallPost_leavesInput_of_location :
    LeavesInput { config := { locations := {ascii "/"} } } {}
      (smallPost.head ++ (smallPost.body ++ ascii "GET")) (ascii "GET") :=
  (post_leavesInput_iff _ smallPost {} (List.nil_append _)).mpr
    (Or.inr (Or.inr (Or.inr
      ⟨⟨ascii "/", by decide, by decide, ⟨ascii "x", rfl⟩, Or.inr rfl⟩, by decide⟩)))

end Cuber.PostBody
