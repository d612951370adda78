import Cuber.Core.Execution
import Cuber.Base.FileUtil
import Cuber.Config.ServerConfig
import Cuber.Http.LocationSearch
import Cuber.Http.Request
import Cuber.Http.Response

/-!
# The handler chain

`HttpServer` builds one chain of handlers: access control, static files,
reading a POST body, proxying, and the default answer.  Each handler answers,
or calls the next one, or returns `kHandleAgain` to have the whole chain tried
again.

What the handlers mutate is the `Exchange`: the request, the response and the
input buffer of the connection.  Its log records the decisions that are
visible from outside the handlers and is not consulted by any of them.
-/

namespace Cuber.Handlers

open Cuber.Buffer
open Cuber.Config
open Cuber.Execution
open Cuber.FileUtil
open Cuber.Headers
open Cuber.LocationSearch
open Cuber.Request
open Cuber.Response
open Cuber.Text

inductive HttpHandleState where
  | kHandleDone
  | kHandleError
  | kHandleAgain
  | kHandleDecline
  | kForwarded
  deriving DecidableEq

/-- The host and the port of an upstream server, as texts of the configuration give them. -/
structure UpstreamAddress where
  ip : Bytes
  port : Port
  deriving DecidableEq

inductive Decision where
  /-- `HttpAccessHandler` matched a location. -/
  | located (location : Bytes)
  /-- `HttpStaticHandler` answers 200 with a file of a location. -/
  | served (location filePath : Bytes)
  /-- `HttpPostReadHandler` hands a body to the next handler. -/
  | bodyRead (body : Bytes)
  /-- `HttpProxyHandler` forwards to an upstream server. -/
  | proxied (upstream : UpstreamAddress)
  deriving DecidableEq

/-- What the handlers read and do not change: the configuration, the file
system, the two ends of the connection, `toIpPort` of the addresses of its
upstream connections, and the contents of a `stat` record that no call has
filled. -/
structure Environment where
  config : ServerConfig := {}
  files : FileSystem := fun _ => none
  listenPort : Port := httpPort
  peerIp : Bytes := []
  upstreamIpPort : ℕ → Bytes := fun _ => []
  uninitialised : ℕ := 0

structure Exchange where
  request : HttpRequest
  response : HttpResponse := {}
  input : Bytes
  log : List Decision := []
  deriving DecidableEq

abbrev HandlerResult := Exec Fault (HttpHandleState × Exchange)
abbrev Handler := Exchange → HandlerResult

namespace Exchange

def record (exchange : Exchange) (decision : Decision) : Exchange :=
  { exchange with log := exchange.log ++ [decision] }

def setStatusCode (exchange : Exchange) (code : ℤ) : Exchange :=
  { exchange with response := exchange.response.setStatusCode code }

def locate (exchange : Exchange) (location : Bytes) : Exchange :=
  { exchange with
    request := exchange.request.setLocationEndPos (location.length - 1)
    log := exchange.log ++ [.located location] }

/-- `path.substr(0, locationEndPos + 1)`, the location as the later handlers
read it off the request. -/
def location (exchange : Exchange) : Bytes :=
  exchange.request.path.take (exchange.request.locationEndPos + 1)

end Exchange

variable (env : Environment)

def HttpAccessHandler.handle (next : Handler) (exchange : Exchange) :
    HandlerResult :=
  let path := exchange.request.path
  if path = [] then .ret (.kHandleAgain, exchange)
  else
    let reqPath := path.take exchange.request.locationEndPos
    if reqPath = [] then
      .ret (.kHandleDone, exchange.setStatusCode k404NotFound)
    else
      match searchLocation env.config.locations reqPath with
      | none => .ret (.kHandleDone, exchange.setStatusCode k404NotFound)
      | some location => next (exchange.locate location)

/-- The suffix looked up in the MIME table. -/
def mimeOf (filePath : Bytes) : Bytes :=
  match rfind dot filePath with
  | none => getMime (ascii "default")
  | some pos => getMime (filePath.drop pos)

/-- The loop over the index files.  Each name is appended to the string built
so far, which is not taken back when the name does not fit. -/
def findIndex (files : FileSystem) (fileDir : Bytes) : List Bytes → Option Bytes
  | [] => none
  | index :: indexes =>
      let filePath := fileDir ++ index
      if isfile files filePath then some filePath
      else findIndex files filePath indexes

/-- The file selected for the string built from the alias and the rest of the
path; `none` is the return of `kHandleAgain`. -/
def selectFile (fileDir : Bytes) : Option Bytes :=
  if isfile env.files fileDir then some fileDir
  else if fileDir.getLast? = some slash then
    findIndex env.files fileDir (env.config.indexFiles env.listenPort)
  else none

/-- The answer from a selected file. -/
def serveFile (fileDir filePath : Bytes) (exchange : Exchange) :
    HandlerResult :=
  let found : Exchange := { exchange with
    response := (exchange.response.setStatusCode k200Ok).setContentType
      (mimeOf filePath) }
  let served := found.record (.served exchange.location filePath)
  if exchange.request.method = .kHead then .ret (.kHandleDone, served)
  else
    match openFile env.files filePath with
    | none => .ret (.kHandleDecline, found.setStatusCode k404NotFound)
    | some content =>
        -- the size is the one of the path first looked at
        match mmapCopy content (statSize env.files env.uninitialised fileDir) with
        | .failed =>
            .ret (.kHandleError, found.setStatusCode k500InternalServerError)
        | .bytes body =>
            .ret (.kHandleDone, { served with
              response := served.response.setBody body })
        | .busError => .fault .busError

def HttpStaticHandler.handle (next : Handler) (exchange : Exchange) :
    HandlerResult :=
  if exchange.request.method ≠ .kGet ∧ exchange.request.method ≠ .kHead then
    next exchange
  else
    match env.config.staticPath exchange.location with
    | none => next exchange
    | some aliasDir =>
        let fileDir := aliasDir ++
          exchange.request.path.drop (exchange.request.locationEndPos + 1)
        match selectFile env fileDir with
        | none => .ret (.kHandleAgain, exchange)
        | some filePath => serveFile env fileDir filePath exchange

def HttpPostReadHandler.handle (next : Handler) (exchange : Exchange) :
    HandlerResult :=
  if exchange.request.method = .kPost then
    let text := exchange.request.getHeader contentLength
    if text ≠ [] then
      match stoi text with
      | none => .ret (.kHandleError, exchange.setStatusCode k400BadRequest)
      | some value =>
          let length := toSizeT value
          if length > exchange.input.length then .ret (.kHandleAgain, exchange)
          else
            let body := exchange.input.take length
            next { exchange with
              request := exchange.request.setBody body
              input := retrieve exchange.input length
              log := exchange.log ++ [.bodyRead body] }
    else next exchange
  else next exchange

/-- The headers named by `proxy_set_header`. -/
def addProxyHeaders (peerIp : Bytes) (setHeaders : List Bytes)
    (request : HttpRequest) : HttpRequest :=
  setHeaders.foldl (fun request setHeader =>
    if setHeader = ascii "X-Real-IP" then
      request.addHeader (ascii "X-Real-IP") peerIp
    else if setHeader = ascii "X-Forwarded-For" then
      request.addHeader (ascii "X-Forwarded-For") peerIp
    else request) request

/-- The upstream address as `HttpProxyHandler` decodes it.  Without a colon
the IP string stays empty; a port that `std::stoi` rejects raises an exception
that nobody catches. -/
def decodeAddress (address : Bytes) : Exec Fault UpstreamAddress :=
  match cut colon address with
  | none => .ret ⟨[], httpPort⟩
  | some (ip, port) =>
      match stoi port with
      | none => .fault .uncaughtException
      | some value => .ret ⟨ip, toPort value⟩

def badUpstreamResponse (peer : Bytes) : HttpResponse :=
  (HttpResponse.setStatusCode {} k500InternalServerError).setErrorMsg
    (ascii "Upstream " ++ peer ++ ascii " response Bad Message.")

def unreachableResponse (peer : Bytes) : HttpResponse :=
  (HttpResponse.setStatusCode {} k503ServiceUnavailable).setErrorMsg
    (ascii "Upstream " ++ peer ++ ascii " is unreachable")

/-- `HttpProxyHandler::handle` up to the connection attempt. -/
def HttpProxyHandler.handle (next : Handler) (exchange : Exchange) :
    HandlerResult :=
  match env.config.proxyInfo exchange.location with
  | none => next exchange
  | some proxy =>
      let request := addProxyHeaders env.peerIp proxy.setHeaders exchange.request
      (decodeAddress (env.config.upstreamInfo proxy.upstreamName).address).bind
        fun upstream =>
          .ret (.kForwarded, { exchange with
            request := request
            log := exchange.log ++ [.proxied upstream] })

def HttpDefaultHandler.handle (exchange : Exchange) : HandlerResult :=
  .ret (.kHandleDone, exchange.setStatusCode k404NotFound)

/-- The handlers after `HttpStaticHandler`. -/
def bodyAndProxy : Handler :=
  HttpPostReadHandler.handle
    (HttpProxyHandler.handle env HttpDefaultHandler.handle)

/-- The chain built by the constructor of `HttpServer`. -/
def httpHandler : Handler :=
  HttpAccessHandler.handle env (HttpStaticHandler.handle env (bodyAndProxy env))

/-! ## What each handler can return -/

section Specifications

variable {env} {exchange exchange' : Exchange}

@[simp]
theorem locate_input (location : Bytes) :
    (exchange.locate location).input = exchange.input := rfl

@[simp]
theorem locate_path (location : Bytes) :
    (exchange.locate location).request.path = exchange.request.path := rfl

@[simp]
theorem locate_method (location : Bytes) :
    (exchange.locate location).request.method = exchange.request.method := rfl

@[simp]
theorem locate_locationEndPos (location : Bytes) :
    (exchange.locate location).request.locationEndPos = location.length - 1 := rfl

/-- The later handlers read a matched location back off the request. -/
theorem location_locate {location : Bytes} (hne : location ≠ [])
    (hbegins : location <+: exchange.request.path) :
    (exchange.locate location).location = location := by
  have hpos := List.length_pos_of_ne_nil hne
  rw [Exchange.location, locate_locationEndPos, Nat.sub_add_cancel hpos]
  exact (List.prefix_iff_eq_take.mp hbegins).symm

@[simp]
theorem locate_getHeader (location field : Bytes) :
    (exchange.locate location).request.getHeader field =
      exchange.request.getHeader field := rfl

/-- The access handler asks for another try of an empty path, answers 404 when
no candidate of the path is configured, and otherwise passes on the longest
configured candidate. -/
theorem access_cases (next : Handler) (exchange : Exchange) :
    (exchange.request.path = [] ∧
        HttpAccessHandler.handle env next exchange = .ret (.kHandleAgain, exchange)) ∨
      (exchange.request.path ≠ [] ∧
        (∀ location ∈ env.config.locations,
          ¬ IsCandidate (exchange.request.path.take
            exchange.request.locationEndPos) location) ∧
        HttpAccessHandler.handle env next exchange =
          .ret (.kHandleDone, exchange.setStatusCode k404NotFound)) ∨
      (exchange.request.path ≠ [] ∧
        ∃ location, IsSearchResult env.config.locations
            (exchange.request.path.take exchange.request.locationEndPos)
            (some location) ∧
          HttpAccessHandler.handle env next exchange =
            next (exchange.locate location)) := by
  by_cases hpath : exchange.request.path = []
  · exact Or.inl ⟨hpath, by simp [HttpAccessHandler.handle, hpath]⟩
  apply Or.inr
  by_cases hreq : exchange.request.path.take exchange.request.locationEndPos = []
  · refine Or.inl ⟨hpath, fun location _ hcandidate => ?_, ?_⟩
    · rw [hreq] at hcandidate
      exact hcandidate.1 (List.prefix_nil.mp hcandidate.2.1)
    · simp only [HttpAccessHandler.handle]
      rw [if_neg hpath, if_pos hreq]
  · have hspec := searchLocation_spec env.config.locations hreq
    cases hsearch : searchLocation env.config.locations
        (exchange.request.path.take exchange.request.locationEndPos) with
    | none =>
        rw [hsearch] at hspec
        refine Or.inl ⟨hpath, hspec, ?_⟩
        simp only [HttpAccessHandler.handle]
        rw [if_neg hpath, if_neg hreq, hsearch]
    | some location =>
        rw [hsearch] at hspec
        refine Or.inr ⟨hpath, location, hspec, ?_⟩
        simp only [HttpAccessHandler.handle]
        rw [if_neg hpath, if_neg hreq, hsearch]

/-- A matched location is at most as long as the part of the path searched. -/
theorem length_location_le {location : Bytes}
    (hsearch : IsSearchResult env.config.locations
      (exchange.request.path.take exchange.request.locationEndPos)
      (some location)) :
    0 < location.length ∧ location.length ≤ exchange.request.locationEndPos ∧
      location <+: exchange.request.path := by
  obtain ⟨_, ⟨hne, hbegins, _⟩, _⟩ := hsearch
  refine ⟨List.length_pos_of_ne_nil hne, ?_,
    hbegins.trans (List.take_prefix _ _)⟩
  exact hbegins.length_le.trans (by simp [List.length_take])

theorem proxyHandler_of_none (hproxy : env.config.proxyInfo exchange.location = none) :
    HttpProxyHandler.handle env HttpDefaultHandler.handle exchange =
      .ret (.kHandleDone, exchange.setStatusCode k404NotFound) := by
  rw [HttpProxyHandler.handle, hproxy, HttpDefaultHandler.handle]

theorem proxyHandler_of_some {proxy : ProxyServer}
    (hproxy : env.config.proxyInfo exchange.location = some proxy) :
    HttpProxyHandler.handle env HttpDefaultHandler.handle exchange =
      (decodeAddress (env.config.upstreamInfo proxy.upstreamName).address).bind
        fun upstream => .ret (.kForwarded, { exchange with
          request := addProxyHeaders env.peerIp proxy.setHeaders exchange.request
          log := exchange.log ++ [.proxied upstream] }) := by
  rw [HttpProxyHandler.handle, hproxy]

/-- What the proxy and default handlers do: forward, answer 404, or raise the
exception for an upstream port that is not a number.  The input buffer is not
touched. -/
theorem proxyHandler_cases (env : Environment) (exchange : Exchange) :
    (∃ upstream request,
        HttpProxyHandler.handle env HttpDefaultHandler.handle exchange =
          .ret (.kForwarded, { exchange with
            request := request
            log := exchange.log ++ [.proxied upstream] })) ∨
      HttpProxyHandler.handle env HttpDefaultHandler.handle exchange =
        .ret (.kHandleDone, exchange.setStatusCode k404NotFound) ∨
      HttpProxyHandler.handle env HttpDefaultHandler.handle exchange =
        .fault .uncaughtException := by
  rw [HttpProxyHandler.handle]
  cases env.config.proxyInfo exchange.location with
  | none => exact Or.inr (Or.inl rfl)
  | some proxy =>
      simp only [decodeAddress]
      cases cut colon (env.config.upstreamInfo proxy.upstreamName).address with
      | none => exact Or.inl ⟨_, _, rfl⟩
      | some parts =>
          cases hport : stoi parts.2 with
          | none => exact Or.inr (Or.inr (by simp [hport]))
          | some value => exact Or.inl ⟨_, _, by simp only [hport]; rfl⟩

theorem proxyHandler_again
    (hagain : HttpProxyHandler.handle env HttpDefaultHandler.handle exchange =
      .ret (.kHandleAgain, exchange')) : False := by
  rcases proxyHandler_cases env exchange with
    ⟨upstream, request, hhandle⟩ | hhandle | hhandle <;>
  · rw [hhandle] at hagain
    cases hagain

/-- Only a body that is missing has the chain tried again, with nothing changed. -/
theorem bodyAndProxy_again
    (hagain : bodyAndProxy env exchange = .ret (.kHandleAgain, exchange')) :
    exchange' = exchange := by
  simp only [bodyAndProxy, HttpPostReadHandler.handle] at hagain
  split_ifs at hagain
  · split at hagain
    · simp at hagain
    · split_ifs at hagain
      · simp only [Exec.ret.injEq, Prod.mk.injEq, true_and] at hagain
        exact hagain.symm
      · exact (proxyHandler_again hagain).elim
  · exact (proxyHandler_again hagain).elim
  · exact (proxyHandler_again hagain).elim

theorem serveFile_again {fileDir filePath : Bytes}
    (hagain : serveFile env fileDir filePath exchange =
      .ret (.kHandleAgain, exchange')) : False := by
  simp only [serveFile] at hagain
  split_ifs at hagain
  · simp at hagain
  · split at hagain
    · simp at hagain
    · split at hagain <;> simp at hagain

theorem staticHandler_again
    (hagain : HttpStaticHandler.handle env (bodyAndProxy env) exchange =
      .ret (.kHandleAgain, exchange')) : exchange' = exchange := by
  simp only [HttpStaticHandler.handle] at hagain
  split_ifs at hagain
  · exact bodyAndProxy_again hagain
  · split at hagain
    · exact bodyAndProxy_again hagain
    · split at hagain
      · simp only [Exec.ret.injEq, Prod.mk.injEq, true_and] at hagain
        exact hagain.symm
      · exact (serveFile_again hagain).elim

/-- The chain asks for another try either of an empty path, changing nothing,
or after matching a location, changing the location position only. -/
theorem httpHandler_again
    (hagain : httpHandler env exchange = .ret (.kHandleAgain, exchange')) :
    (exchange.request.path = [] ∧ exchange' = exchange) ∨
      (exchange.request.path ≠ [] ∧
        ∃ location, IsSearchResult env.config.locations
            (exchange.request.path.take exchange.request.locationEndPos)
            (some location) ∧
          exchange' = exchange.locate location) := by
  rw [httpHandler] at hagain
  rcases access_cases _ exchange with
    ⟨hpath, hhandle⟩ | ⟨_, _, hhandle⟩ | ⟨hpath, location, hsearch, hhandle⟩
  · rw [hhandle] at hagain
    simp only [Exec.ret.injEq, Prod.mk.injEq, true_and] at hagain
    exact Or.inl ⟨hpath, hagain.symm⟩
  · simp [hhandle] at hagain
  · rw [hhandle] at hagain
    exact Or.inr ⟨hpath, location, hsearch, staticHandler_again hagain⟩

end Specifications

end Cuber.Handlers
