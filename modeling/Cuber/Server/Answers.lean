import Cuber.Http.Delimiting
import Cuber.Http.StaticSearch
import Cuber.Server.Forwarding

/-!
# What is sent to the client

A response comes from the handlers or from an upstream server, or stands in for
one that is malformed or cannot be reached.  This module works out, for each
origin, when the bytes that `HttpWriteFilter` sends state the length of the
body, and when nothing follows the head of the answer to a HEAD request.
-/

namespace Cuber.Answers

open Cuber.Acceptance
open Cuber.Buffer
open Cuber.Config
open Cuber.Context
open Cuber.Delimiting
open Cuber.Execution
open Cuber.Filter
open Cuber.Forwarding
open Cuber.Handlers
open Cuber.Headers
open Cuber.LocationSearch
open Cuber.Loop
open Cuber.Maps
open Cuber.Outcome
open Cuber.PostBody
open Cuber.Request
open Cuber.Response
open Cuber.ResponseContext
open Cuber.RoundTrip
open Cuber.Server
open Cuber.StaticSearch
open Cuber.Text
open Cuber.UpstreamAnswer

/-! ## Responses made by the server -/

def ownCodes : List ℤ :=
  [k200Ok, k400BadRequest, k404NotFound, k500InternalServerError, k503ServiceUnavailable]

/-- A response made by the server: it has one of its own statuses, headers that
read back, and no length stored in them. -/
structure IsOwn (response : HttpResponse) : Prop where
  version : response.version = ascii "HTTP/1.1"
  statusCode : response.statusCode ∈ ownCodes
  statusMessage : response.statusMessage =
    (statusMessageMap response.statusCode).getD []
  headers : IsClean response.headers
  length : response.headers.find? contentLength = none

section Own

variable {response : HttpResponse}

/-- A status of its own makes a response of its own. -/
theorem isOwn_setStatusCode {code : ℤ} (hversion : response.version = ascii "HTTP/1.1")
    (hheaders : IsClean response.headers)
    (hlength : response.headers.find? contentLength = none) (hcode : code ∈ ownCodes) :
    IsOwn (response.setStatusCode code) where
  version := hversion
  statusCode := hcode
  statusMessage := by
    have hknown : (statusMessageMap code).isSome := by
      revert code
      decide
    obtain ⟨message, hmessage⟩ := Option.isSome_iff_exists.mp hknown
    simp [HttpResponse.setStatusCode, hmessage]
  headers := hheaders
  length := hlength

theorem isOwn_setStatusCode_new {code : ℤ} (hcode : code ∈ ownCodes) :
    IsOwn (HttpResponse.setStatusCode {} code) :=
  isOwn_setStatusCode rfl isClean_empty rfl hcode

theorem IsOwn.setErrorMsg (hown : IsOwn response) (message : Bytes) :
    IsOwn (response.setErrorMsg message) :=
  ⟨hown.version, hown.statusCode, hown.statusMessage, hown.headers, hown.length⟩

theorem isOwn_badUpstreamResponse (peer : Bytes) : IsOwn (badUpstreamResponse peer) :=
  (isOwn_setStatusCode_new (show k500InternalServerError ∈ ownCodes by decide)).setErrorMsg _

theorem isOwn_unreachableResponse (peer : Bytes) : IsOwn (unreachableResponse peer) :=
  (isOwn_setStatusCode_new (show k503ServiceUnavailable ∈ ownCodes by decide)).setErrorMsg _

theorem isCleanEntry_mimeOf (filePath : Bytes) :
    IsCleanEntry (ascii "Content-Type", mimeOf filePath) := by
  apply isCleanEntry_of_isspace (by decide) (by decide)
  rw [mimeOf]
  split
  · exact isspace_of_mem_getMime _
  · exact isspace_of_mem_getMime _

theorem isOwn_foundFile (filePath : Bytes) : IsOwn (foundFile filePath {}) := by
  obtain ⟨hversion, hcode, hmessage, hheaders, hlength⟩ :=
    isOwn_setStatusCode_new (show k200Ok ∈ ownCodes by decide)
  refine ⟨hversion, hcode, hmessage, isClean_insert hheaders (isCleanEntry_mimeOf filePath),
    ?_⟩
  change (OrderedMap.insert _ _ _).find? contentLength = none
  rw [OrderedMap.find?_insert, if_neg (by decide)]
  exact hlength

theorem isOwn_filter (config : ServerConfig) {request : HttpRequest} (hown : IsOwn response)
    (hconnection : IsCleanEntry
      (ascii "Connection", request.getHeader (ascii "Connection"))) :
    IsOwn (HttpHeadersFilter.filter config request response) where
  version := by rw [version_filter, hown.version]
  statusCode := by
    rw [statusCode_filter]
    exact hown.statusCode
  statusMessage := by rw [statusMessage_filter, statusCode_filter, hown.statusMessage]
  headers := isClean_filter hown.headers hconnection
  length := by rw [find?_contentLength_filter, hown.length]

/-- The status line of an own response is one line. -/
theorem statusLine_of_isOwn (hown : IsOwn response) :
    IsLine response.statusStart ∧ IsLine response.statusMessage ∧
      [] ∉ statusLines response ∧ (statusLines response).tail = [] := by
  have hstart : response.statusStart =
      (cStr (ascii "HTTP/1.1") ++ SP :: (intText response.statusCode ++ [SP])).take 63 := by
    rw [HttpResponse.statusStart, hown.version]
  have hmessage := hown.statusMessage
  have hcode := hown.statusCode
  rw [statusLines, hmessage, hstart]
  generalize response.statusCode = code at hcode
  revert code
  decide +kernel

theorem selfDelimiting_iff_of_isOwn (hown : IsOwn response)
    (order : EntryOrder response.headers) :
    SelfDelimiting (response.appendToBuffer order) ↔ response.body ≠ [] := by
  obtain ⟨hstart, hmessage, hblank, htail⟩ := statusLine_of_isOwn hown
  rw [selfDelimiting_appendToBuffer_iff hown.headers hstart hmessage, htail]
  simp [hblank, HasLength, hown.length]

theorem endsAtBlankLine_iff_of_isOwn (hown : IsOwn response)
    (order : EntryOrder response.headers) :
    EndsAtBlankLine (response.appendToBuffer order) ↔ response.body = [] := by
  obtain ⟨hstart, hmessage, hblank, _⟩ := statusLine_of_isOwn hown
  exact endsAtBlankLine_appendToBuffer_iff hown.headers hstart hmessage hblank order

end Own

/-! ## Answers of the handlers -/

/-- `HttpPostReadHandler` answers a POST request for a configured location with
400: its length is not a number that fits an `int`. -/
def RejectsLength (env : Environment) (request : HttpRequest) : Prop :=
  request.method = .kPost ∧ request.getHeader contentLength ≠ [] ∧
    stoi (request.getHeader contentLength) = none ∧ HasLocation env request.path

section Handlers

variable {env : Environment} {start last final : Exchange} {state : HttpHandleState}

theorem handsOn_response {exchange passed : Exchange} (hpassed : HandsOn exchange passed) :
    passed.response = exchange.response ∧
      passed.request.headers = exchange.request.headers := by
  cases hpassed with
  | unread => exact ⟨rfl, rfl⟩
  | read => exact ⟨rfl, rfl⟩

/-- The chain ends with an own response, which lacks a body only when a length
was rejected or a file found for a HEAD request. -/
theorem isOwn_of_ends (hresponse : last.response = {}) (hends : Ends env last state final)
    (hstate : state ≠ .kForwarded) :
    IsOwn final.response ∧ final.request.headers = last.request.headers := by
  cases hends with
  | noLocation =>
      refine ⟨?_, rfl⟩
      simp only [Exchange.setStatusCode, hresponse]
      exact isOwn_setStatusCode_new (by decide)
  | file location fileDir filePath _ _ hserve =>
      obtain ⟨_, hrequest, hanswer⟩ := serveFile_ends hserve
      refine ⟨?_, by rw [hrequest]; rfl⟩
      have hfound := isOwn_foundFile filePath
      have hempty : (last.locate location).response = {} := hresponse
      rw [hempty] at hanswer
      rcases hanswer with ⟨_, hfinal⟩ | ⟨_, ⟨body, _, hfinal⟩ | ⟨code, hcode, hfinal⟩⟩
      · rw [hfinal]
        exact hfound
      · rw [hfinal]
        exact ⟨hfound.version, hfound.statusCode, hfound.statusMessage, hfound.headers,
          hfound.length⟩
      · rw [hfinal]
        apply isOwn_setStatusCode hfound.version hfound.headers hfound.length
        rcases hcode with rfl | rfl <;> decide
  | badLength location =>
      refine ⟨?_, rfl⟩
      simp only [Exchange.setStatusCode, Exchange.locate, hresponse]
      exact isOwn_setStatusCode_new (by decide)
  | forwarded => exact absurd rfl hstate
  | notFound location passed _ hpassed =>
      obtain ⟨hsame, hheaders⟩ := handsOn_response hpassed
      have hempty : (last.locate location).response = {} := hresponse
      refine ⟨?_, hheaders⟩
      simp only [Exchange.setStatusCode, hsame, hempty]
      exact isOwn_setStatusCode_new (by decide)

/-- The error pages that the handlers answer with are not empty. -/
theorem body_setStatusCode_ne_nil (response : HttpResponse) {code : ℤ}
    (hcode : (bodyMessageMap code).isSome = true) :
    (response.setStatusCode code).body ≠ [] := by
  obtain ⟨page, hpage⟩ := Option.isSome_iff_exists.mp hcode
  rw [HttpResponse.setStatusCode, hpage]
  exact List.ne_nil_of_length_pos (length_bodyMessageMap hpage).1

/-- An answer that is not to a HEAD request lacks a body exactly when a length
was rejected. -/
theorem body_eq_nil_iff_of_ends (hresponse : last.response = {})
    (hends : Ends env last state final) (hstate : state ≠ .kForwarded)
    (hmethod : last.request.method ≠ .kHead) :
    final.response.body = [] ↔
      (∃ location, Located env last location) ∧ last.request.method = .kPost ∧
        last.request.getHeader contentLength ≠ [] ∧
        stoi (last.request.getHeader contentLength) = none := by
  cases hends with
  | noLocation hnone =>
      have hbody := body_setStatusCode_ne_nil last.response
        (show (bodyMessageMap k404NotFound).isSome = true by decide)
      refine iff_of_false hbody ?_
      rintro ⟨⟨location, hlocated⟩, _⟩
      exact hnone location hlocated
  | file location fileDir filePath _ hasks hserve =>
      obtain ⟨_, _, hanswer⟩ := serveFile_ends hserve
      refine iff_of_false ?_ ?_
      · rcases hanswer with ⟨hhead, _⟩ | ⟨_, ⟨body, hbody, hfinal⟩ | ⟨code, hcode, hfinal⟩⟩
        · exact absurd hhead hmethod
        · rw [hfinal]
          exact hbody
        · rw [hfinal]
          apply body_setStatusCode_ne_nil
          rcases hcode with rfl | rfl <;> decide
      · rintro ⟨_, hpost, _⟩
        rcases hasks with hget | hhead
        · simp [hget] at hpost
        · exact hmethod hhead
  | badLength location hlocated hpost htext hvalue =>
      refine iff_of_true ?_ ⟨⟨location, hlocated⟩, hpost, htext, hvalue⟩
      simp [Exchange.setStatusCode, Exchange.locate, hresponse, HttpResponse.setStatusCode,
        show bodyMessageMap k400BadRequest = none by decide]
  | forwarded => exact absurd rfl hstate
  | notFound location passed _ hpassed =>
      have hbody := body_setStatusCode_ne_nil passed.response
        (show (bodyMessageMap k404NotFound).isSome = true by decide)
      refine iff_of_false hbody ?_
      rintro ⟨_, hpost, htext, hvalue⟩
      cases hpassed with
      | unread hlength => exact htext (hlength hpost)
      | read value _ _ hread =>
          rw [locate_getHeader, hvalue] at hread
          cases hread

/-- A POST request whose length cannot be read is not tried again. -/
theorem eq_of_reaches_of_unreadable (hreach : Reaches (handlePass env) start last)
    (hpost : start.request.method = .kPost)
    (htext : start.request.getHeader contentLength ≠ [])
    (hvalue : stoi (start.request.getHeader contentLength) = none) : last = start := by
  induction hreach with
  | refl => rfl
  | tail _ hpass ih =>
      rw [ih] at hpass
      have hagain := handlePass_next hpass
      rcases @access_cases env (HttpStaticHandler.handle env (bodyAndProxy env)) start with
        ⟨_, haccess⟩ | ⟨_, _, haccess⟩ | ⟨_, location, _, haccess⟩
      · rw [httpHandler, haccess] at hagain
        cases hagain
        rfl
      · rw [httpHandler, haccess] at hagain
        cases hagain
      · have hpost' : (start.locate location).request.method = .kPost := hpost
        rw [httpHandler, haccess, staticHandler_of_post _ hpost'] at hagain
        simp [bodyAndProxy, HttpPostReadHandler.handle, hpost, htext, hvalue] at hagain

/-- A location is matched in the whole path exactly when one is configured for
it. -/
theorem exists_located_iff (hpath : start.request.path ≠ [])
    (hpos : start.request.locationEndPos = start.request.path.length) :
    (∃ location, Located env start location) ↔ HasLocation env start.request.path := by
  have hwhole : start.request.path.take start.request.locationEndPos =
      start.request.path := by rw [hpos, List.take_length]
  simp only [Located, hwhole]
  constructor
  · rintro ⟨location, hmem, hcandidate, _⟩
    exact ⟨location, hmem, hcandidate⟩
  · rintro ⟨location, hmem, hcandidate⟩
    have hspec := searchLocation_spec env.config.locations hpath
    cases hsearch : searchLocation env.config.locations start.request.path with
    | none =>
        rw [hsearch] at hspec
        exact absurd hcandidate (hspec location hmem)
    | some found =>
        rw [hsearch] at hspec
        exact ⟨found, hspec⟩

theorem isCleanEntry_connection {request : HttpRequest} (hclean : IsClean request.headers) :
    IsCleanEntry (ascii "Connection", request.getHeader (ascii "Connection")) := by
  rw [HttpRequest.getHeader, valueOf]
  cases hfind : request.headers.find? (ascii "Connection") with
  | none => exact isCleanEntry_of_isspace (by decide) (by decide) (by simp)
  | some value => exact hclean _ (OrderedMap.find?_eq_some_iff.mp hfind)

variable {head : RequestHead} {rest : Bytes} {handled : Handled}

/-- What the handlers answer to an accepted request passes the filter as an own
response, whose body is the one the chain ended with. -/
theorem exists_ends_of_answered (hrequest : onRequest env head.decoded rest = .ret handled)
    (hlocal : handled.forwarded = false) :
    ∃ last state final,
      Reaches (handlePass env) { request := head.decoded, input := rest } last ∧
      Ends env last state final ∧ state ≠ .kForwarded ∧ last.response = {} ∧
      handled.exchange.response.body = final.response.body ∧
      IsOwn handled.exchange.response := by
  obtain ⟨last, state, final, hreach, hends, rfl⟩ := onRequest_ends hrequest
  rw [finish_forwarded, decide_eq_false_iff_not] at hlocal
  obtain ⟨⟨pos, hlast⟩, hresponse, _⟩ := retried_of_reaches hreach
  obtain ⟨hown, hheaders⟩ := isOwn_of_ends hresponse hends hlocal
  refine ⟨last, state, final, hreach, hends, hlocal, hresponse, ?_, ?_⟩
  · simp [finish, hlocal]
  · simp only [finish, hlocal, decide_false, Bool.false_eq_true, if_false]
    apply isOwn_filter env.config hown
    apply isCleanEntry_connection
    rw [hheaders, hlast]
    exact (isWritable_decoded head).headers_clean

theorem isOwn_of_answered (hrequest : onRequest env head.decoded rest = .ret handled)
    (hlocal : handled.forwarded = false) : IsOwn handled.exchange.response := by
  obtain ⟨_, _, _, _, _, _, _, _, hown⟩ := exists_ends_of_answered hrequest hlocal
  exact hown

theorem body_answered_eq_nil_iff (hmethod : head.decoded.method ≠ .kHead)
    (hrequest : onRequest env head.decoded rest = .ret handled)
    (hlocal : handled.forwarded = false) :
    handled.exchange.response.body = [] ↔ RejectsLength env head.decoded := by
  obtain ⟨last, state, final, hreach, hends, hstate, hresponse, hbody, _⟩ :=
    exists_ends_of_answered hrequest hlocal
  obtain ⟨⟨pos, hlast⟩, _, _⟩ := retried_of_reaches hreach
  have hpath := path_ne_nil_of_onRequest hrequest
  have hsame : last.request.method = head.decoded.method := by rw [hlast]; rfl
  have hheader : last.request.getHeader contentLength =
      head.decoded.getHeader contentLength := by rw [hlast]; rfl
  have hlocated : head.decoded.method = .kPost →
      head.decoded.getHeader contentLength ≠ [] →
      stoi (head.decoded.getHeader contentLength) = none →
      ((∃ location, Located env last location) ↔ HasLocation env head.decoded.path) := by
    intro hpost htext hvalue
    rw [eq_of_reaches_of_unreadable hreach hpost htext hvalue]
    exact exists_located_iff hpath rfl
  rw [hbody, body_eq_nil_iff_of_ends hresponse hends hstate (hsame ▸ hmethod), hsame, hheader,
    RejectsLength]
  constructor
  · rintro ⟨hlocation, hpost, htext, hvalue⟩
    exact ⟨hpost, htext, hvalue, (hlocated hpost htext hvalue).mp hlocation⟩
  · rintro ⟨hpost, htext, hvalue, hlocation⟩
    exact ⟨(hlocated hpost htext hvalue).mpr hlocation, hpost, htext, hvalue⟩

end Handlers

/-! ## Relayed answers -/

/-- The start of the status line with which an answer is relayed. -/
def relayedStart (head : AnswerHead) : Bytes :=
  (cStr head.version ++ SP :: (intText head.code ++ [SP])).take 63

/-- The second line that the relayed status line is broken into, when its start
is cut off behind a CR and the reason phrase begins with LF. -/
def brokenOff (head : AnswerHead) : Option Bytes :=
  if (relayedStart head).getLast? = some CR ∧ head.phrase.head? = some LF then
    some head.phrase.tail
  else none

/-- The head announces a length in decimal digits, or none while its status has
a default page. -/
def AnnouncesLength (head : AnswerHead) : Prop :=
  head.headers.find? contentLength = none ∧ (bodyMessageMap head.code).isSome = true ∨
    ∃ text, head.headers.find? contentLength = some text ∧ IsDecimal text

/-- The body that the response parser reads after a head. -/
def bodyAfter (head : AnswerHead) (rest : Bytes) : Bytes :=
  (parseBody head.decoded rest).2.1.body

/-- An upstream answer that is relayed with its length: no blank line comes
about in its status line, and the length is announced by the upstream server,
or added for a default page, or stands in a line broken off the status line. -/
def RelayStatesLength (bytes : Bytes) : Prop :=
  ∃ head : AnswerHead, ∃ rest, bytes = head.bytes ++ rest ∧ brokenOff head ≠ some [] ∧
    ((∃ line, brokenOff head = some line ∧
        StatesLength (bodyAfter head rest).length line) ∨
      AnnouncesLength head)

section Relayed

variable {head : AnswerHead} {rest left : Bytes} {response : HttpResponse}

theorem statusStart_of_hasHead (hhead : HasHead response head) :
    response.statusStart = relayedStart head := by
  rw [HttpResponse.statusStart, hhead.version, hhead.statusCode, relayedStart]

theorem isLine_relayedStart (head : AnswerHead) : IsLine (relayedStart head) := by
  have hwhole : IsLine (cStr head.version ++ SP :: (intText head.code ++ SP :: [])) :=
    isLine_append_SP (isLine_cStr head.isLine.left)
      (isLine_append_SP (isLine_intText head.code) isLine_nil)
  rw [← List.take_append_drop 63 (cStr head.version ++ SP :: (intText head.code ++ [SP]))]
    at hwhole
  exact hwhole.left

theorem tail_statusLines (hhead : HasHead response head) :
    (statusLines response).tail = (brokenOff head).toList := by
  rw [statusLines, brokenOff, statusStart_of_hasHead hhead, hhead.statusMessage]
  split_ifs <;> rfl

theorem nil_mem_statusLines_iff (hhead : HasHead response head) :
    [] ∈ statusLines response ↔ brokenOff head = some [] := by
  obtain ⟨first, hfirst, hlines⟩ := exists_statusLines_eq_cons response
  rw [hlines, tail_statusLines hhead, List.mem_cons]
  simp [hfirst.symm]

/-- A relayed response has a length just if the upstream head announces one. -/
theorem hasLength_iff (hbody : parseBody head.decoded rest = (.kParseOK, response, left)) :
    HasLength response ↔ AnnouncesLength head := by
  rw [HasLength, AnnouncesLength]
  rcases parseBody_ok_cases hbody with ⟨htext, rfl, _⟩ | ⟨value, htext, hvalue, hle, rfl, _⟩
  · change head.headers.find? contentLength = none ∧ _ ∨ _ ↔ _
    cases hfind : head.headers.find? contentLength with
    | none =>
        cases hpage : bodyMessageMap head.code with
        | none => simp [AnswerHead.decoded, hfind, hpage]
        | some page =>
            have hne := List.ne_nil_of_length_pos (length_bodyMessageMap hpage).1
            simp [AnswerHead.decoded, hpage, hne]
    | some text =>
        have hempty : text = [] := by
          simpa [valueOf, AnswerHead.decoded, hfind] using htext
        simp [AnswerHead.decoded, hfind, hempty, IsDecimal]
  · change head.headers.find? contentLength = none ∧ _ ∨
      (∃ text, head.headers.find? contentLength = some text ∧ _) ↔ _
    change valueOf head.headers contentLength ≠ [] at htext
    change stoi (valueOf head.headers contentLength) = some value at hvalue
    cases hfind : head.headers.find? contentLength with
    | none => simp [valueOf, hfind] at htext
    | some text =>
        rw [valueOf, hfind, Option.getD_some] at hvalue
        simp only [reduceCtorEq, false_and, false_or, Option.some.injEq, exists_eq_left']
        constructor
        · rintro ⟨hdecimal, _⟩
          exact hdecimal
        · intro hdecimal
          exact ⟨hdecimal, (length_take_of_isDecimal hdecimal hvalue hle).symm⟩

/-- A relayed answer states its length exactly when its head and its status
line allow for it. -/
theorem selfDelimiting_relayed_iff {bytes : Bytes} {context : HttpResponseContext}
    {config : ServerConfig} {request : HttpRequest}
    (hparse : parseResponse {} bytes = some ⟨.kParseOK, context, left⟩)
    (hconnection : IsCleanEntry
      (ascii "Connection", request.getHeader (ascii "Connection")))
    (order : EntryOrder
      (HttpHeadersFilter.filter config request context.response).headers) :
    SelfDelimiting ((HttpHeadersFilter.filter config request
        context.response).appendToBuffer order) ↔
      RelayStatesLength bytes := by
  have hexact : ∀ (head : AnswerHead) (rest : Bytes), bytes = head.bytes ++ rest →
      (SelfDelimiting ((HttpHeadersFilter.filter config request
          context.response).appendToBuffer order) ↔
        brokenOff head ≠ some [] ∧
          ((∃ line, brokenOff head = some line ∧
              StatesLength (bodyAfter head rest).length line) ∨
            AnnouncesLength head)) := by
    rintro head rest rfl
    rw [parseResponse_head] at hparse
    have hbody := parseResponse_expectBody_ok hparse
    have hhead := hasHead_of_parseBody hbody
    have hclean : IsClean context.response.headers := by
      rw [hhead.headers]
      exact head.isClean_headers
    have hfiltered : HasLength (HttpHeadersFilter.filter config request context.response) ↔
        AnnouncesLength head := by
      rw [← hasLength_iff hbody]
      simp [HasLength]
    have hlines : statusLines (HttpHeadersFilter.filter config request context.response) =
        statusLines context.response := by
      simp [statusLines]
    have hafter : bodyAfter head rest = context.response.body := by
      rw [bodyAfter, hbody]
    rw [selfDelimiting_appendToBuffer_iff (isClean_filter hclean hconnection)
      (by
        rw [statusStart_filter, statusStart_of_hasHead hhead]
        exact isLine_relayedStart head)
      (by
        rw [statusMessage_filter, hhead.statusMessage]
        exact head.isLine_phrase), hlines, nil_mem_statusLines_iff hhead,
      tail_statusLines hhead, hfiltered, body_filter, hafter]
    simp
  constructor
  · intro hdelimits
    obtain ⟨head, rest, hbytes, _⟩ := exists_answerHead_of_accepted hparse
    exact ⟨head, rest, hbytes, (hexact head rest hbytes).mp hdelimits⟩
  · rintro ⟨head, rest, hbytes, hstates⟩
    exact (hexact head rest hbytes).mpr hstates

end Relayed

/-! ## All origins -/

inductive Origin where
  | handlers
  /-- An upstream answer, of which these bytes were parsed. -/
  | upstream (bytes : Bytes)
  /-- A malformed upstream answer. -/
  | badUpstream
  | unreachable
  deriving DecidableEq

/-- The response to a request as it is given to `HttpWriteFilter`. -/
inductive Answered (env : Environment) (request : HttpRequest) (input : Bytes) :
    Origin → HttpResponse → Prop
  | handlers {handled : Handled}
      (hrequest : onRequest env request input = .ret handled)
      (hlocal : handled.forwarded = false) :
      Answered env request input .handlers handled.exchange.response
  | upstream {handled : Handled} {bytes chunk left left' : Bytes}
      {context context' : HttpResponseContext}
      (hrequest : onRequest env request input = .ret handled)
      (hforwarded : handled.forwarded = true) (harrived : Arrived bytes context left)
      (hparse : parseResponse context (left ++ chunk) =
        some ⟨.kParseOK, context', left'⟩) :
      Answered env request input (.upstream (bytes ++ chunk))
        (HttpHeadersFilter.filter env.config handled.exchange.request context'.response)
  | badUpstream {handled : Handled} (peer : Bytes)
      (hrequest : onRequest env request input = .ret handled)
      (hforwarded : handled.forwarded = true) :
      Answered env request input .badUpstream
        (HttpHeadersFilter.filter env.config handled.exchange.request
          (badUpstreamResponse peer))
  | unreachable {handled : Handled} (peer : Bytes)
      (hrequest : onRequest env request input = .ret handled)
      (hforwarded : handled.forwarded = true) :
      Answered env request input .unreachable
        (HttpHeadersFilter.filter env.config handled.exchange.request
          (unreachableResponse peer))

/-- What is needed for a response to state the length of its body. -/
def IsAnsweredWithLength (env : Environment) (request : HttpRequest) : Origin → Prop
  | .handlers => ¬ RejectsLength env request
  | .upstream bytes => RelayStatesLength bytes
  | .badUpstream => True
  | .unreachable => True

/-- The `Connection` header of a forwarded request is the client's. -/
theorem isCleanEntry_connection_forwarded {env : Environment} {head : RequestHead}
    {rest : Bytes} {handled : Handled}
    (hrequest : onRequest env head.decoded rest = .ret handled)
    (hforwarded : handled.forwarded = true) :
    IsCleanEntry (ascii "Connection",
      handled.exchange.request.getHeader (ascii "Connection")) := by
  obtain ⟨body, _, hsame⟩ := sameButProxyHeaders_forwarded hrequest hforwarded
  have hfind : handled.exchange.request.getHeader (ascii "Connection") =
      head.decoded.getHeader (ascii "Connection") := by
    rw [HttpRequest.getHeader, valueOf, hsame.headers]
    · rfl
    · rintro (h | h) <;> exact absurd h (by decide)
  rw [hfind]
  exact isCleanEntry_connection (isWritable_decoded head).headers_clean

def wordyBytes : Bytes := ascii "POST / HTTP/1.1\r\nContent-Length: x\r\n\r\n"

def wordyRequest : HttpRequest where
  method := .kPost
  version := .kHttp11
  path := ascii "/"
  locationEndPos := 1
  headers := OrderedMap.empty.insert contentLength (ascii "x")

section Head

variable {env : Environment} {exchange final : Exchange}

/-- When the chain ends for a HEAD request, either a file was found and there is
no body, or none was found and the error page is sent. -/
theorem head_ends {state : HttpHandleState} (hhead : exchange.request.method = .kHead)
    (hresponse : exchange.response = {}) (hends : Ends env exchange state final)
    (hstate : state ≠ .kForwarded) :
    (final.response.body = [] ∧
        ∃ location filePath, Decision.served location filePath ∈ final.log) ∨
      final.response.body ≠ [] := by
  cases hends with
  | noLocation =>
      exact Or.inr (body_setStatusCode_ne_nil _ (by decide))
  | file location fileDir filePath _ _ hserve =>
      left
      have hmethod : (exchange.locate location).request.method = .kHead := hhead
      have hempty : (exchange.locate location).response = {} := hresponse
      simp only [serveFile, if_pos hmethod, hempty] at hserve
      cases hserve
      exact ⟨rfl, (exchange.locate location).location, filePath, by simp [Exchange.record]⟩
  | badLength location _ hpost => simp [hhead] at hpost
  | forwarded => exact absurd rfl hstate
  | notFound location passed =>
      exact Or.inr (body_setStatusCode_ne_nil _ (by decide))

/-- The answer to a HEAD request has no body exactly when one of the names that
are tried is a file. -/
theorem head_body_eq_nil_iff (hhead : exchange.request.method = .kHead)
    (hpath : exchange.request.path ≠ []) (hresponse : exchange.response = {})
    (hlog : ∀ location filePath, Decision.served location filePath ∉ exchange.log)
    (hreturns : Returns (handlePass env) exchange (.ret (false, final))) :
    final.response.body = [] ↔ ((remaining env exchange).find? (isFileAt env)).isSome := by
  induction hbound : exchange.request.locationEndPos using Nat.strong_induction_on
    generalizing exchange with
  | _ bound ih =>
      rcases pass_cases env ⟨Or.inr hhead, hpath⟩ with ⟨result, hdone, hnothing, hempty⟩ |
        ⟨location, hnext, hshorter, hfind⟩ |
        ⟨location, fileDir, filePath, hfind, _, hhandle⟩
      · cases (returns_of_done hdone).unique hreturns
        obtain ⟨state, hends, hstate⟩ := ends_of_handlePass hdone
        rw [hempty]
        refine iff_of_false ?_ (by simp)
        rcases head_ends hhead hresponse hends (by simpa using hstate) with
          ⟨_, location, filePath, hserved⟩ | hbody
        · have hold := hnothing false final rfl location filePath hserved
          exact absurd hold (hlog location filePath)
        · exact hbody
      · have hhead' : (exchange.locate location).request.method = .kHead := hhead
        have hlog' : ∀ other filePath,
            Decision.served other filePath ∉ (exchange.locate location).log := by
          intro other filePath hserved
          exact hlog other filePath (by simpa [Exchange.locate] using hserved)
        rw [hfind]
        exact ih _ (hbound ▸ hshorter) hhead' hpath hresponse hlog'
          ((returns_iff_of_next hnext).mp hreturns) rfl
      · have hmethod : (exchange.locate location).request.method = .kHead := hhead
        have hempty : (exchange.locate location).response = {} := hresponse
        obtain ⟨result, hdone, hanswer⟩ := handlePass_done fun exchange' hagain =>
          serveFile_again (hhandle.symm.trans hagain)
        obtain ⟨state, hstate⟩ :=
          hanswer false final ((returns_of_done hdone).unique hreturns)
        rcases (serveFile_ends (hhandle.symm.trans hstate)).2.2 with
          ⟨_, hfinal⟩ | ⟨hother, _⟩
        · rw [hfinal, hempty]
          exact iff_of_true rfl (by rw [hfind]; rfl)
        · exact absurd hmethod hother

end Head

/-- One of the names that the configuration has tried for a path is a file. -/
def FindsFile (env : Environment) (path : Bytes) : Prop :=
  ∃ attempt ∈ attempts env.config env.listenPort path path.length, isFileAt env attempt = true

/-- Nothing follows the head of the local answer to a HEAD request exactly when
the request finds a file. -/
theorem endsAtBlankLine_head_iff {env : Environment} {old context : HttpContext}
    {bytes rest : Bytes} {handled : Handled}
    (hparse : parseRequest old.reset bytes = .ret ⟨.kParseOK, context, rest⟩)
    (hmethod : context.request.method = .kHead)
    (hrequest : onRequest env context.request rest = .ret handled)
    (hlocal : handled.forwarded = false)
    (order : EntryOrder handled.exchange.response.headers) :
    EndsAtBlankLine (handled.exchange.response.appendToBuffer order) ↔
      FindsFile env context.request.path := by
  obtain ⟨head, _, rfl⟩ := exists_requestHead_of_accepted hparse
  have hown := isOwn_of_answered hrequest hlocal
  have hpath := path_ne_nil_of_onRequest hrequest
  obtain ⟨forwarded, final, rfl, hreturns⟩ := returns_of_onRequest hrequest
  rw [finish_forwarded] at hlocal
  subst hlocal
  have hbody : (finish env false final).exchange.response.body = final.response.body := by
    simp [finish]
  rw [endsAtBlankLine_iff_of_isOwn hown, hbody,
    head_body_eq_nil_iff hmethod hpath rfl (by simp) hreturns, List.find?_isSome]
  rfl

def headBytes : Bytes := ascii "HEAD /x HTTP/1.1\r\n\r\n"

def headRequest : HttpRequest := { plainRequest with method := .kHead }

def fileEnv : Environment :=
  soleFile (ServerConfig.addStatic {} { location := ascii "/", aliasDir := ascii "/" })
    httpPort (ascii "/x")

theorem endsAtBlankLine_headRequest :
    ∃ handled, onRequest fileEnv headRequest [] = .ret handled ∧
      EndsAtBlankLine (handled.exchange.response.appendToBuffer
        (keyOrder handled.exchange.response.headers)) := by
  obtain ⟨handled, hrequest, hlocal⟩ := Exec.exists_of_returns
    (show (onRequest fileEnv headRequest []).returns (fun handled => !handled.forwarded) =
      true by decide)
  have hparse : parseRequest ({} : HttpContext).reset headBytes =
      .ret ⟨.kParseOK, ⟨.kGotAll, headRequest⟩, []⟩ := by decide
  refine ⟨handled, hrequest,
    (endsAtBlankLine_head_iff hparse rfl hrequest (by simpa using hlocal) _).mpr ?_⟩
  have hsearch : searchLocation fileEnv.config.locations
      (headRequest.path.take headRequest.path.length) = some (ascii "/") := by decide
  have hstatic : fileEnv.config.staticPath (ascii "/") = some (ascii "/") := by decide
  refine ⟨(ascii "/", ascii "/x"), ?_, by decide⟩
  rw [attempts_of_location (by decide) hsearch, hstatic]
  apply List.mem_append_left
  decide

/-- Without a file, the page of the error follows the head. -/
theorem headRequest_has_body :
    parseRequest {} headBytes = .ret ⟨.kParseOK, ⟨.kGotAll, headRequest⟩, []⟩ ∧
      ∃ handled, onRequest {} headRequest [] = .ret handled ∧ handled.forwarded = false ∧
        ∀ order, ¬ EndsAtBlankLine (handled.exchange.response.appendToBuffer order) := by
  have hparse : parseRequest ({} : HttpContext).reset headBytes =
      .ret ⟨.kParseOK, ⟨.kGotAll, headRequest⟩, []⟩ := by decide
  refine ⟨hparse, ?_⟩
  obtain ⟨head, _, hcontext⟩ := exists_requestHead_of_accepted hparse
  obtain ⟨handled, hrequest, hanswer⟩ := Exec.exists_of_returns
    (show (onRequest {} headRequest []).returns (fun handled =>
      decide (handled.forwarded = false ∧ handled.exchange.response.body ≠ [])) = true by
        decide)
  obtain ⟨hlocal, hbody⟩ := of_decide_eq_true hanswer
  refine ⟨handled, hrequest, hlocal, fun order => ?_⟩
  simp only [HttpContext.mk.injEq, true_and] at hcontext
  rw [hcontext] at hrequest
  have hown := isOwn_of_answered hrequest hlocal
  rw [endsAtBlankLine_iff_of_isOwn hown]
  exact hbody

end Cuber.Answers
