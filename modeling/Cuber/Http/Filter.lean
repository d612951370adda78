import Cuber.Config.ServerConfig
import Cuber.Http.Request
import Cuber.Http.Response

/-!
# The response filters

Every response passes `HttpHeadersFilter`, which decides whether the
connection is kept open, before `HttpWriteFilter` sends it.
-/

namespace Cuber.Filter

open Cuber.Buffer
open Cuber.Config
open Cuber.Headers
open Cuber.Maps
open Cuber.Request
open Cuber.Response
open Cuber.Text

def closesConnection (request : HttpRequest) : Bool :=
  request.getHeader (ascii "Connection") = ascii "close" ||
    (request.version = .kHttp10 &&
      request.getHeader (ascii "Connection") ≠ ascii "Keep-Alive")

def announcedTimeout (config : ServerConfig) : ℤ :=
  if config.mainConf.keepAliveTimeout > 10 then
    config.mainConf.keepAliveTimeout - 5
  else 5

def HttpHeadersFilter.filter (config : ServerConfig) (request : HttpRequest)
    (response : HttpResponse) : HttpResponse :=
  let close := closesConnection request
  let marked :=
    ((response.addHeader (ascii "Server") (ascii "Cuber")).setCloseConnection
      close).addHeader (ascii "Connection") (request.getHeader (ascii "Connection"))
  if close then marked
  else
    marked.addHeader (ascii "Keep-Alive")
      (ascii "timeout=" ++ ascii (toString (announcedTimeout config)))

@[simp]
theorem closeConnection_filter (config : ServerConfig) (request : HttpRequest)
    (response : HttpResponse) :
    (HttpHeadersFilter.filter config request response).closeConnection =
      closesConnection request := by
  simp only [HttpHeadersFilter.filter]
  split_ifs <;> rfl

@[simp]
theorem statusCode_filter (config : ServerConfig) (request : HttpRequest)
    (response : HttpResponse) :
    (HttpHeadersFilter.filter config request response).statusCode =
      response.statusCode := by
  simp only [HttpHeadersFilter.filter]
  split_ifs <;> rfl

section Filtered

variable (config : ServerConfig) (request : HttpRequest) (response : HttpResponse)

@[simp]
theorem body_filter :
    (HttpHeadersFilter.filter config request response).body = response.body := by
  simp only [HttpHeadersFilter.filter]
  split_ifs <;> rfl

@[simp]
theorem version_filter :
    (HttpHeadersFilter.filter config request response).version = response.version := by
  simp only [HttpHeadersFilter.filter]
  split_ifs <;> rfl

@[simp]
theorem statusMessage_filter :
    (HttpHeadersFilter.filter config request response).statusMessage =
      response.statusMessage := by
  simp only [HttpHeadersFilter.filter]
  split_ifs <;> rfl

/-- The start of the status line depends on version and code only. -/
@[simp]
theorem statusStart_filter :
    (HttpHeadersFilter.filter config request response).statusStart =
      response.statusStart := by
  simp [HttpResponse.statusStart]

/-- The filter touches no other field than the three that it sets. -/
theorem find?_filter {field : Bytes} (hserver : field ≠ ascii "Server")
    (hconnection : field ≠ ascii "Connection") (halive : field ≠ ascii "Keep-Alive") :
    (HttpHeadersFilter.filter config request response).headers.find? field =
      response.headers.find? field := by
  simp only [HttpHeadersFilter.filter]
  split_ifs <;>
    simp [HttpResponse.addHeader, HttpResponse.setCloseConnection,
      OrderedMap.find?_insert, hserver, hconnection, halive]

@[simp]
theorem find?_contentLength_filter :
    (HttpHeadersFilter.filter config request response).headers.find? contentLength =
      response.headers.find? contentLength :=
  find?_filter config request response (by decide) (by decide) (by decide)

variable {config request response}

/-- The headers that the filter adds read back as they are written. -/
theorem isClean_filter (hclean : IsClean response.headers)
    (hconnection : IsCleanEntry
      (ascii "Connection", request.getHeader (ascii "Connection"))) :
    IsClean (HttpHeadersFilter.filter config request response).headers := by
  have hserver : IsCleanEntry (ascii "Server", ascii "Cuber") :=
    isCleanEntry_of_isspace (by decide) (by decide) (by decide +kernel)
  have halive : IsCleanEntry (ascii "Keep-Alive",
      ascii "timeout=" ++ ascii (toString (announcedTimeout config))) := by
    apply isCleanEntry_of_isspace (by decide) (by decide)
    intro byte hbyte
    rcases List.mem_append.mp hbyte with hname | hnumber
    · have hletters : ∀ byte ∈ ascii "timeout=", isspace byte = false := by
        decide +kernel
      exact hletters byte hname
    · exact isspace_of_mem_toString _ byte hnumber
  have hmarked := isClean_insert (isClean_insert hclean hserver) hconnection
  simp only [HttpHeadersFilter.filter]
  split_ifs
  · exact hmarked
  · exact isClean_insert hmarked halive

end Filtered

end Cuber.Filter
