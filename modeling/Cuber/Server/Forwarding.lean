import Cuber.Http.RoundTrip
import Cuber.Net.ConnectionNames
import Cuber.Server.Outcome

/-!
# What is sent upstream

`HttpProxyHandler` writes the request it was handed into the buffer of the
upstream connection.  Two things are lost on the way from the client to the
upstream server: the query of the target, which is stored apart from the path
and not written, and the length of a body, to which a CRLF is added.
-/

namespace Cuber.Forwarding

open Cuber.Acceptance
open Cuber.Buffer
open Cuber.Config
open Cuber.ConnectionNames
open Cuber.Context
open Cuber.Execution
open Cuber.Handlers
open Cuber.Headers
open Cuber.Maps
open Cuber.Outcome
open Cuber.PostBody
open Cuber.Request
open Cuber.RoundTrip
open Cuber.Server
open Cuber.Text

/-- The bytes that `HttpProxy::forward` has sent to the upstream server. -/
def HttpProxy.forward (request : HttpRequest) : Bytes := request.appendToBuffer

/-! ## The forwarded request -/

/-- A header that `proxy_set_header` may set. -/
def IsProxyHeader (field : Bytes) : Prop :=
  field = ascii "X-Real-IP" ∨ field = ascii "X-Forwarded-For"

/-- Two requests that differ in the headers set by the proxy only. -/
structure SameButProxyHeaders (before after : HttpRequest) : Prop where
  method : after.method = before.method
  version : after.version = before.version
  path : after.path = before.path
  body : after.body = before.body
  headers : ∀ field, ¬ IsProxyHeader field →
    after.headers.find? field = before.headers.find? field

section ProxyHeaders

variable {peerIp : Bytes}

theorem sameButProxyHeaders_addHeader {before after : HttpRequest} {field : Bytes}
    (hsame : SameButProxyHeaders before after) (hfield : IsProxyHeader field) :
    SameButProxyHeaders before (after.addHeader field peerIp) := by
  obtain ⟨hmethod, hversion, hpath, hbody, hheaders⟩ := hsame
  refine ⟨hmethod, hversion, hpath, hbody, fun other hother => ?_⟩
  have hne : other ≠ field := by
    rintro rfl
    exact hother hfield
  rw [← hheaders other hother]
  simp [HttpRequest.addHeader, OrderedMap.find?_insert, hne]

/-- What holds of a request and is kept by each header of the proxy holds after
all of them. -/
theorem addProxyHeaders_induction {motive : HttpRequest → Prop}
    (hstep : ∀ request field, motive request → IsProxyHeader field →
      motive (request.addHeader field peerIp))
    (setHeaders : List Bytes) {request : HttpRequest} (hrequest : motive request) :
    motive (addProxyHeaders peerIp setHeaders request) := by
  rw [addProxyHeaders]
  induction setHeaders generalizing request with
  | nil => exact hrequest
  | cons setHeader setHeaders ih =>
      rw [List.foldl_cons]
      apply ih
      split_ifs
      · exact hstep request _ hrequest (Or.inl rfl)
      · exact hstep request _ hrequest (Or.inr rfl)
      · exact hrequest

theorem sameButProxyHeaders_addProxyHeaders (setHeaders : List Bytes)
    (request : HttpRequest) :
    SameButProxyHeaders request (addProxyHeaders peerIp setHeaders request) := by
  apply addProxyHeaders_induction
  · intro after field hsame hfield
    exact sameButProxyHeaders_addHeader hsame hfield
  · exact ⟨rfl, rfl, rfl, rfl, fun _ _ => rfl⟩

/-- The location of a forwarded exchange is the one its proxy was looked up
by. -/
theorem location_addProxyHeaders (setHeaders : List Bytes) (exchange : Exchange)
    (log : List Decision) :
    Exchange.location { exchange with
      request := addProxyHeaders peerIp setHeaders exchange.request
      log := log } = exchange.location := by
  have hkept : (addProxyHeaders peerIp setHeaders exchange.request).path =
        exchange.request.path ∧
      (addProxyHeaders peerIp setHeaders exchange.request).locationEndPos =
        exchange.request.locationEndPos := by
    apply addProxyHeaders_induction (motive := fun request =>
      request.path = exchange.request.path ∧
        request.locationEndPos = exchange.request.locationEndPos)
    · intro request field hrequest _
      exact hrequest
    · exact ⟨rfl, rfl⟩
  rw [Exchange.location, Exchange.location, hkept.1, hkept.2]

theorem isCleanEntry_of_isIpText (hpeer : IsIpText peerIp) {field : Bytes}
    (hfield : IsProxyHeader field) : IsCleanEntry (field, peerIp) := by
  have hspaces : ∀ byte ∈ ascii "0123456789abcdef.:", isspace byte = false := by
    decide +kernel
  have hpeerSpaces : ∀ byte ∈ peerIp, isspace byte = false := fun byte hbyte =>
    hspaces byte (hpeer byte hbyte)
  rcases hfield with rfl | rfl
  · exact isCleanEntry_of_isspace (by decide) (by decide) hpeerSpaces
  · exact isCleanEntry_of_isspace (by decide) (by decide) hpeerSpaces

theorem isClean_addProxyHeaders (hpeer : IsIpText peerIp) (setHeaders : List Bytes)
    {request : HttpRequest} (hclean : IsClean request.headers) :
    IsClean (addProxyHeaders peerIp setHeaders request).headers := by
  apply addProxyHeaders_induction (motive := fun request => IsClean request.headers)
  · intro request field hrequest hfield
    exact isClean_insert hrequest (isCleanEntry_of_isIpText hpeer hfield)
  · exact hclean

end ProxyHeaders

/-- The body that is buffered for a request: none unless a length is sent with
a POST request, whose body is then at the front of the input. -/
inductive Buffered (request : HttpRequest) (input : Bytes) : Bytes → Prop
  | nothing (hlength : request.method = .kPost → request.getHeader contentLength = []) :
      Buffered request input request.body
  | front (value : ℤ) (htext : request.getHeader contentLength ≠ [])
      (hvalue : stoi (request.getHeader contentLength) = some value)
      (henough : toSizeT value ≤ input.length) :
      Buffered request input (input.take (toSizeT value))

section Forwarded

variable {env : Environment} {request : HttpRequest} {input : Bytes} {handled : Handled}

/-- A forwarded request is the one received, with the headers of the proxy and
with its body. -/
theorem onRequest_forwarded (hrequest : onRequest env request input = .ret handled)
    (hforwarded : handled.forwarded = true) :
    ∃ pos body proxy, Buffered request input body ∧
      env.config.proxyInfo handled.exchange.location = some proxy ∧
      handled.exchange.request = addProxyHeaders env.peerIp proxy.setHeaders
        { request with locationEndPos := pos, body := body } := by
  obtain ⟨last, state, final, hreach, hends, rfl⟩ := onRequest_ends hrequest
  obtain ⟨⟨pos, hlast⟩, _, hinput⟩ := retried_of_reaches hreach
  rw [finish_forwarded, decide_eq_true_eq] at hforwarded
  subst hforwarded
  rw [finish_request]
  cases hends with
  | forwarded location passed proxy upstream _ hpassed hproxy =>
      have hlocation := @location_addProxyHeaders env.peerIp proxy.setHeaders passed
        (passed.log ++ [.proxied upstream])
      rw [← hlocation] at hproxy
      cases hpassed with
      | unread hlength =>
          refine ⟨location.length - 1, request.body, proxy, ?_, hproxy, ?_⟩
          · apply Buffered.nothing
            simpa [hlast, HttpRequest.setLocationEndPos, HttpRequest.getHeader,
              Exchange.locate] using hlength
          · simp [hlast, HttpRequest.setLocationEndPos, Exchange.locate]
      | read value hpost htext hvalue henough =>
          refine ⟨location.length - 1, input.take (toSizeT value), proxy, ?_, hproxy, ?_⟩
          · rw [locate_getHeader, hlast] at htext hvalue
            rw [locate_input, hinput] at henough
            exact Buffered.front value htext hvalue henough
          · simp [hlast, hinput, HttpRequest.setLocationEndPos, Exchange.locate, readBody,
              HttpRequest.setBody]
  | file location fileDir filePath _ _ hserve =>
      exact absurd rfl (serveFile_ends hserve).1

/-- Method, version, path and length header are forwarded as they were
received. -/
theorem sameButProxyHeaders_forwarded (hrequest : onRequest env request input = .ret handled)
    (hforwarded : handled.forwarded = true) :
    ∃ body, Buffered request input body ∧
      SameButProxyHeaders { request with body := body } handled.exchange.request := by
  obtain ⟨pos, body, proxy, hbody, _, heq⟩ := onRequest_forwarded hrequest hforwarded
  obtain ⟨hmethod, hversion, hpath, hsameBody, hheaders⟩ :=
    @sameButProxyHeaders_addProxyHeaders env.peerIp proxy.setHeaders
      { request with locationEndPos := pos, body := body }
  rw [← heq] at hmethod hversion hpath hsameBody hheaders
  exact ⟨body, hbody, hmethod, hversion, hpath, hsameBody, hheaders⟩

end Forwarded

/-! ## The target -/

/-- The target in a request line: the bytes between its first two blanks. -/
def targetOf (bytes : Bytes) : Option Bytes :=
  (cut SP bytes).bind fun parts => (cut SP parts.2).map Prod.fst

theorem targetOf_bytes (head : RequestHead) (rest : Bytes) :
    targetOf (head.bytes ++ rest) = some head.target := by
  have hbytes : head.bytes ++ rest = head.method ++ SP :: (head.target ++ SP ::
      (head.version ++ CR :: LF :: (joinLines head.lines ++ CR :: LF :: rest))) := by
    simp [RequestHead.bytes, RequestHead.requestLine]
  rw [targetOf, hbytes, cut_append head.method_spaces, Option.bind_some,
    cut_append head.target_spaces]
  rfl

theorem targetOf_forward {request : HttpRequest} (hpath : SP ∉ request.path) :
    targetOf (HttpProxy.forward request) = some request.path := by
  have hbytes : HttpProxy.forward request =
      request.methodString ++ SP :: (request.path ++ SP :: (request.versionString ++
        CR :: LF :: (joinLines (request.headers.entries.map formatLine) ++ CR :: LF ::
          request.writtenBody))) := by
    simp [HttpProxy.forward, HttpRequest.appendToBuffer, HttpRequest.requestLine]
  rw [targetOf, hbytes, cut_append (methodString_spaces request), Option.bind_some,
    cut_append hpath]
  rfl

/-- A path is the whole target when there is no question mark in it. -/
theorem path_eq_target_iff (head : RequestHead) :
    head.decoded.path = head.target ↔ question ∉ head.target := by
  change head.target.takeWhile (fun byte => byte ≠ question) = head.target ↔ _
  rw [List.takeWhile_eq_self_iff]
  constructor
  · intro hall hmem
    simpa using hall question hmem
  · intro hfree byte hbyte
    simpa using fun heq : byte = question => hfree (heq ▸ hbyte)

def proxyEnv : Environment where
  config := proxyConfig
  peerIp := ascii "10.0.0.1"

def plainBytes : Bytes := ascii "GET /x HTTP/1.1\r\n\r\n"

def plainRequest : HttpRequest where
  method := .kGet
  version := .kHttp11
  path := ascii "/x"
  locationEndPos := 2

theorem exists_forwarded_plainRequest :
    ∃ handled, onRequest proxyEnv plainRequest [] = .ret handled ∧
      handled.forwarded = true := by
  obtain ⟨handled, hrequest, hforwarded⟩ := Exec.exists_of_returns
    (show (onRequest proxyEnv plainRequest []).returns Handled.forwarded = true by decide)
  exact ⟨handled, hrequest, hforwarded⟩

def queryBytes : Bytes := ascii "GET /x?q HTTP/1.1\r\n\r\n"

/-- A request on the wire with as many bytes after the blank line as its head
announces, which are none when it announces nothing. -/
def IsFramed (bytes : Bytes) : Prop :=
  ∃ head : RequestHead, ∃ after, bytes = head.bytes ++ after ∧
    (head.decoded.headers.find? contentLength = none → after = []) ∧
    ∀ text, head.decoded.headers.find? contentLength = some text →
      IsDecimal text ∧ decimalValue text = after.length

/-- A head is framed by the length that it announces. -/
theorem isFramed_bytes_iff (head : RequestHead) (after : Bytes) :
    IsFramed (head.bytes ++ after) ↔
      (head.decoded.headers.find? contentLength = none → after = []) ∧
        ∀ text, head.decoded.headers.find? contentLength = some text →
          IsDecimal text ∧ decimalValue text = after.length := by
  constructor
  · rintro ⟨other, after', hbytes, hframed⟩
    -- the parser reads only one head and one rest
    have hparse := head.parseRequest_eq {} after
    rw [hbytes, other.parseRequest_eq] at hparse
    simp only [Exec.ret.injEq, RequestParse.mk.injEq, HttpContext.mk.injEq, true_and] at hparse
    obtain ⟨hdecoded, rfl⟩ := hparse
    rwa [hdecoded] at hframed
  · intro hframed
    exact ⟨head, after, rfl, hframed⟩

/-- The request announces no body: it has no `Content-Length`, or one that is
zero. -/
def AnnouncesNothing (request : HttpRequest) : Prop :=
  request.headers.find? contentLength = none ∨
    ∃ text, request.headers.find? contentLength = some text ∧ IsDecimal text ∧
      decimalValue text = 0

section Body

variable {env : Environment} {head : RequestHead} {rest : Bytes} {handled : Handled}

/-- A request is forwarded as one that can be written and read back. -/
theorem isWritable_forwarded (hpeer : IsIpText env.peerIp)
    (hrequest : onRequest env head.decoded rest = .ret handled)
    (hforwarded : handled.forwarded = true) : IsWritable handled.exchange.request := by
  have hwritable := isWritable_decoded head
  obtain ⟨body, _, hsame⟩ := sameButProxyHeaders_forwarded hrequest hforwarded
  have hpath : handled.exchange.request.path = head.decoded.path := hsame.path
  exact {
    method_known := by
      rw [hsame.method]
      exact hwritable.method_known
    version_known := by
      rw [hsame.version]
      exact hwritable.version_known
    path_line := by
      rw [hpath]
      exact hwritable.path_line
    path_spaces := by
      rw [hpath]
      exact hwritable.path_spaces
    path_question := by
      rw [hpath]
      exact hwritable.path_question
    headers_clean := by
      obtain ⟨pos, _, proxy, _, _, heq⟩ := onRequest_forwarded hrequest hforwarded
      rw [heq]
      exact isClean_addProxyHeaders hpeer proxy.setHeaders hwritable.headers_clean }

/-- A decimal length is the number of bytes that are buffered for it. -/
theorem length_take_of_isDecimal {text : Bytes} {value : ℤ} (hdecimal : IsDecimal text)
    (hvalue : stoi text = some value) (henough : toSizeT value ≤ rest.length) :
    (rest.take (toSizeT value)).length = decimalValue text := by
  rw [stoi_of_isDecimal hdecimal] at hvalue
  split_ifs at hvalue with hfits
  cases hvalue
  rw [List.length_take, Nat.min_eq_left henough, toSizeT_natCast hfits]

/-- The body that is written is framed just if none is announced. -/
theorem writtenBody_framed_iff {request : HttpRequest} {body : Bytes}
    (hempty : request.body = []) (hbody : Buffered request rest body)
    {sent : HttpRequest} (hsent : sent.body = body) :
    ((request.headers.find? contentLength = none → sent.writtenBody = []) ∧
        ∀ text, request.headers.find? contentLength = some text →
          IsDecimal text ∧ decimalValue text = sent.writtenBody.length) ↔
      AnnouncesNothing request := by
  have hnothing : body = [] → sent.writtenBody = [] := by
    intro hnil
    rw [HttpRequest.writtenBody, hsent, hnil]
    rfl
  cases hfind : request.headers.find? contentLength with
  | none =>
      have hnil : body = [] := by
        cases hbody with
        | nothing => exact hempty
        | front value htext => simp [HttpRequest.getHeader, valueOf, hfind] at htext
      simp [AnnouncesNothing, hfind, hnothing hnil]
  | some text =>
      have htext : request.getHeader contentLength = text := by
        simp [HttpRequest.getHeader, valueOf, hfind]
      simp only [AnnouncesNothing, hfind, reduceCtorEq, Option.some.injEq, forall_eq',
        exists_eq_left', false_or, false_implies, true_and]
      constructor
      · rintro ⟨hdecimal, hlength⟩
        refine ⟨hdecimal, ?_⟩
        by_cases hnil : body = []
        · rw [hlength, hnothing hnil]
          rfl
        · -- two bytes more than the length are written after the blank line
          cases hbody with
          | nothing => exact absurd hempty hnil
          | front value _ hvalue henough =>
              rw [htext] at hvalue
              have htake := length_take_of_isDecimal hdecimal hvalue henough
              rw [HttpRequest.writtenBody, hsent, if_pos hnil, List.length_append, htake]
                at hlength
              simp at hlength
      · rintro ⟨hdecimal, hzero⟩
        refine ⟨hdecimal, ?_⟩
        have hnil : body = [] := by
          cases hbody with
          | nothing => exact hempty
          | front value _ hvalue henough =>
              rw [htext] at hvalue
              have htake := length_take_of_isDecimal hdecimal hvalue henough
              exact List.eq_nil_of_length_eq_zero (htake.trans hzero)
        rw [hzero, hnothing hnil]
        rfl

end Body

def postBytes : Bytes := ascii "POST / HTTP/1.1\r\nContent-Length: 2\r\n\r\nhi"

def postRequest : HttpRequest where
  method := .kPost
  version := .kHttp11
  path := ascii "/"
  locationEndPos := 1
  headers := OrderedMap.empty.insert contentLength (ascii "2")

end Cuber.Forwarding
