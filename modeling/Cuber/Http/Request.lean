import Cuber.Core.Execution
import Cuber.Http.Headers

/-!
# HTTP requests

The request object that the parser fills in and the handlers consult.  The
time of receipt is left out: it is stored with the request line and read by no
part of the model.
-/

namespace Cuber.Request

open Cuber.Buffer
open Cuber.Execution
open Cuber.Headers
open Cuber.Maps
open Cuber.Text

inductive Fault where
  /-- `assert(method_ == kInvalid)` in `HttpRequest::setMethod`. -/
  | methodAssertion
  /-- `assert(clientConnMap.count(requestConnName))` in `HttpProxyHandler`. -/
  | clientConnAssertion
  | uncaughtException
  | busError
  deriving DecidableEq

inductive Method where
  | kInvalid
  | kGet
  | kPost
  | kHead
  | kPut
  | kDelete
  | kTrace
  | kOptions
  deriving DecidableEq

inductive Version where
  | kUnknown
  | kHttp10
  | kHttp11
  deriving DecidableEq

structure HttpRequest where
  method : Method := .kInvalid
  version : Version := .kUnknown
  path : Bytes := []
  locationEndPos : ℕ := 0
  query : Bytes := []
  headers : HeaderMap := OrderedMap.empty
  body : Bytes := []
  deriving DecidableEq

/-- The comparison chain of `HttpRequest::setMethod`. -/
def methodOf (name : Bytes) : Method :=
  if name = ascii "GET" then .kGet
  else if name = ascii "POST" then .kPost
  else if name = ascii "HEAD" then .kHead
  else if name = ascii "PUT" then .kPut
  else if name = ascii "DELETE" then .kDelete
  else if name = ascii "TRACE" then .kTrace
  else if name = ascii "OPTIONS" then .kOptions
  else .kInvalid

namespace HttpRequest

def setMethod (request : HttpRequest) (name : Bytes) :
    Exec Fault (Bool × HttpRequest) :=
  if request.method = .kInvalid then
    .ret (methodOf name ≠ .kInvalid, { request with method := methodOf name })
  else .fault .methodAssertion

def setPath (request : HttpRequest) (path : Bytes) : HttpRequest :=
  { request with path := path, locationEndPos := path.length }

def setLocationEndPos (request : HttpRequest) (pos : ℕ) : HttpRequest :=
  { request with locationEndPos := pos }

def setQuery (request : HttpRequest) (query : Bytes) : HttpRequest :=
  { request with query := query }

def setBody (request : HttpRequest) (body : Bytes) : HttpRequest :=
  { request with body := body }

def setVersion (request : HttpRequest) (version : Version) : HttpRequest :=
  { request with version := version }

def addHeader (request : HttpRequest) (field value : Bytes) : HttpRequest :=
  { request with headers := request.headers.insert field value }

def getHeader (request : HttpRequest) (field : Bytes) : Bytes :=
  valueOf request.headers field

/-- `HttpRequest::swap` with a new request.  The location position is the one
field that `swap` does not exchange. -/
def swapWithNew (request : HttpRequest) : HttpRequest :=
  { ({} : HttpRequest) with locationEndPos := request.locationEndPos }

def methodString (request : HttpRequest) : Bytes :=
  match request.method with
  | .kGet => ascii "GET"
  | .kPost => ascii "POST"
  | .kHead => ascii "HEAD"
  | .kPut => ascii "PUT"
  | .kDelete => ascii "DELETE"
  | .kTrace => ascii "TRACE"
  | .kOptions => ascii "OPTIONS"
  | .kInvalid => ascii "UNKNOWN"

def versionString (request : HttpRequest) : Bytes :=
  match request.version with
  | .kHttp10 => ascii "HTTP/1.0"
  | .kHttp11 => ascii "HTTP/1.1"
  | .kUnknown => ascii "UNKNOWN"

/-- The request line that `appendToBuffer` writes.  Method and version always
fit the 64 bytes that `snprintf` is given for them. -/
def requestLine (request : HttpRequest) : Bytes :=
  request.methodString ++ SP :: (request.path ++ SP :: request.versionString)

/-- What `appendToBuffer` writes after the blank line. -/
def writtenBody (request : HttpRequest) : Bytes :=
  if request.body ≠ [] then request.body ++ [CR, LF] else []

def appendToBuffer (request : HttpRequest) : Bytes :=
  request.requestLine ++ CR :: LF ::
    (joinLines (request.headers.entries.map formatLine) ++ CR :: LF ::
      request.writtenBody)

end HttpRequest

end Cuber.Request
