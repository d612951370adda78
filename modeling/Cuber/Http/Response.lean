import Cuber.Http.Headers

/-!
# HTTP responses

The response object filled in by the handlers, or parsed from an upstream
server.  Its header fields live in an unordered map; the model keeps them in
key order, and an `EntryOrder` says in which order they are written.
-/

namespace Cuber.Response

open Cuber.Buffer
open Cuber.Headers
open Cuber.Maps
open Cuber.Text

def kUnknown : ℤ := 0
def k200Ok : ℤ := 200
def k202NoContent : ℤ := 202
def k206PartialContent : ℤ := 206
def k301MovedPermanently : ℤ := 301
def k302Found : ℤ := 302
def k303SeeOther : ℤ := 303
def k304NotModified : ℤ := 304
def k307TemporaryRedirect : ℤ := 307
def k400BadRequest : ℤ := 400
def k401Unauthorized : ℤ := 401
def k403Forbidden : ℤ := 403
def k404NotFound : ℤ := 404
def k500InternalServerError : ℤ := 500
def k502BadGateway : ℤ := 502
def k503ServiceUnavailable : ℤ := 503

def statusMessageMap (code : ℤ) : Option Bytes :=
  if code = kUnknown then some (ascii "Unknown")
  else if code = k200Ok then some (ascii "OK")
  else if code = k202NoContent then some (ascii "No Content")
  else if code = k206PartialContent then some (ascii "Partial Content")
  else if code = k301MovedPermanently then some (ascii "Moved Permanently")
  else if code = k302Found then some (ascii "Found")
  else if code = k303SeeOther then some (ascii "SeeOther")
  else if code = k304NotModified then some (ascii "Not Modified")
  else if code = k307TemporaryRedirect then some (ascii "Temporary Redirect")
  else if code = k400BadRequest then some (ascii "Bad Request")
  else if code = k401Unauthorized then some (ascii "Unauthorized")
  else if code = k403Forbidden then some (ascii "Forbidden")
  else if code = k404NotFound then some (ascii "Not Found")
  else if code = k500InternalServerError then
    some (ascii "Internal Server Error")
  else if code = k502BadGateway then some (ascii "Bad Gateway")
  else if code = k503ServiceUnavailable then some (ascii "Service Unavailable")
  else none

/-- The page shown for an error, from its title and its heading. -/
def errorPage (title heading : String) : Bytes :=
  ascii "<!DOCTYPE html><html lang=\"en\"><head><meta charset=\"UTF-8\">" ++
    ascii "<title>" ++ ascii title ++ ascii "</title></head><body>" ++
    ascii "<h1>" ++ ascii heading ++ ascii "</h1></body></html>"

def bodyMessageMap (code : ℤ) : Option Bytes :=
  if code = k401Unauthorized then some (errorPage "Unauthorized" "Unauthorized")
  else if code = k403Forbidden then some (errorPage "Forbidden" "Forbidden")
  else if code = k404NotFound then some (errorPage "404 Not Found" "Not Found")
  else if code = k500InternalServerError then
    some (errorPage "Internal Server Error" "500 Internal Server Error")
  else if code = k502BadGateway then
    some (errorPage "Bad Gateway" "502 Bad Gateway")
  else if code = k503ServiceUnavailable then
    some (errorPage "Service Unavailable" "503 Service Unavailable")
  else none

/-- Every default page has a body, which is not long. -/
theorem length_bodyMessageMap {code : ℤ} {page : Bytes}
    (hpage : bodyMessageMap code = some page) : 0 < page.length ∧ page.length ≤ intMax := by
  rw [bodyMessageMap] at hpage
  split_ifs at hpage <;> cases hpage <;> decide +kernel

structure HttpResponse where
  headers : HeaderMap := OrderedMap.empty
  statusCode : ℤ := kUnknown
  version : Bytes := ascii "HTTP/1.1"
  statusMessage : Bytes := []
  closeConnection : Bool := false
  body : Bytes := []
  serverErrorMsg : Bytes := []
  deriving DecidableEq

namespace HttpResponse

def setBody (response : HttpResponse) (body : Bytes) : HttpResponse :=
  { response with body := body }

def setStatusMessage (response : HttpResponse) (message : Bytes) : HttpResponse :=
  { response with statusMessage := message }

def setVersion (response : HttpResponse) (version : Bytes) : HttpResponse :=
  { response with version := version }

/-- `HttpResponse::setStatusCode`: a known code brings its reason phrase, and
an error code its default page. -/
def setStatusCode (response : HttpResponse) (code : ℤ) : HttpResponse :=
  { response with
    statusCode := code
    statusMessage := (statusMessageMap code).getD response.statusMessage
    body := (bodyMessageMap code).getD response.body }

def addHeader (response : HttpResponse) (field value : Bytes) : HttpResponse :=
  { response with headers := response.headers.insert field value }

def getHeader (response : HttpResponse) (field : Bytes) : Bytes :=
  valueOf response.headers field

def setContentType (response : HttpResponse) (contentType : Bytes) : HttpResponse :=
  response.addHeader (ascii "Content-Type") contentType

def setCloseConnection (response : HttpResponse) (on : Bool) : HttpResponse :=
  { response with closeConnection := on }

def setErrorMsg (response : HttpResponse) (message : Bytes) : HttpResponse :=
  { response with serverErrorMsg := message }

/-- The start of the status line, formatted into a buffer of 64 bytes. -/
def statusStart (response : HttpResponse) : Bytes :=
  (cStr response.version ++ SP :: (intText response.statusCode ++ [SP])).take 63

/-- The headers that `appendToBuffer` writes: the length of a body is added
when no length is stored. -/
def writtenHeaders (response : HttpResponse) (order : EntryOrder response.headers) :
    List (Bytes × Bytes) :=
  if response.body ≠ [] ∧ response.headers.find? contentLength = none then
    (contentLength, decimalText response.body.length) :: order.entries
  else order.entries

/-- `HttpResponse::appendToBuffer`.  The order of the headers is the one in
which an unordered map is iterated over. -/
def appendToBuffer (response : HttpResponse) (order : EntryOrder response.headers) :
    Bytes :=
  response.statusStart ++ response.statusMessage ++ CR :: LF ::
    (joinLines ((response.writtenHeaders order).map formatLine) ++ CR :: LF ::
      response.body)

end HttpResponse

def getMime (suffix : Bytes) : Bytes :=
  if suffix = ascii ".html" then ascii "text/html"
  else if suffix = ascii ".avi" then ascii "video/x-msvideo"
  else if suffix = ascii ".bmp" then ascii "image/bmp"
  else if suffix = ascii ".c" then ascii "text/plain"
  else if suffix = ascii ".doc" then ascii "application/msword"
  else if suffix = ascii ".gif" then ascii "image/gif"
  else if suffix = ascii ".gz" then ascii "application/x-gzip"
  else if suffix = ascii ".htm" then ascii "text/html"
  else if suffix = ascii ".ico" then ascii "image/x-icon"
  else if suffix = ascii ".jpg" then ascii "image/jpeg"
  else if suffix = ascii ".png" then ascii "image/png"
  else if suffix = ascii ".txt" then ascii "text/plain"
  else if suffix = ascii ".mp3" then ascii "audio/mp3"
  else if suffix = ascii ".json" then ascii "application/json"
  else if suffix = ascii ".js" then ascii "text/javascript"
  else if suffix = ascii ".css" then ascii "text/css"
  else ascii "text/html"

/-- A content type has no blanks. -/
theorem isspace_of_mem_getMime (suffix : Bytes) :
    ∀ byte ∈ getMime suffix, isspace byte = false := by
  have hchoice : ∀ (test : Prop) [Decidable test] (left right : Bytes),
      (∀ byte ∈ left, isspace byte = false) → (∀ byte ∈ right, isspace byte = false) →
        ∀ byte ∈ (if test then left else right), isspace byte = false := by
    intro test _ left right hleft hright
    split_ifs
    · exact hleft
    · exact hright
  rw [getMime]
  iterate 16
    apply hchoice
    · decide +kernel
  decide +kernel

end Cuber.Response
