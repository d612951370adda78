import Cuber.Http.StaticContent
import Cuber.Server.Outcome

/-!
# HEAD requests and GET requests

`HttpStaticHandler` answers a HEAD request as soon as it has found a file.  For
a GET request it goes on to open and to map the file, and either step may turn
the answer into an error.  The two requests take the same passes, so they get
the same answer unless that happens to the first file that they find.
-/

namespace Cuber.HeadRequests

open Cuber.Config
open Cuber.Execution
open Cuber.FileUtil
open Cuber.Filter
open Cuber.Handlers
open Cuber.LocationSearch
open Cuber.Loop
open Cuber.Maps
open Cuber.Outcome
open Cuber.Request
open Cuber.Response
open Cuber.Server
open Cuber.StaticContent
open Cuber.StaticSearch
open Cuber.Text

/-! ## One request with two methods -/

def withMethod (method : Method) (exchange : Exchange) : Exchange :=
  { exchange with request := { exchange.request with method := method } }

def responseOf (result : Exec Fault (Bool × Exchange)) : Exec Fault (Bool × HttpResponse) :=
  result.bind fun answer => .ret (answer.1, answer.2.response)

section Methods

variable {env : Environment} {exchange : Exchange} {method : Method}

@[simp]
theorem withMethod_method : (withMethod method exchange).request.method = method := rfl

theorem asksForFile_withMethod (hmethod : method = .kGet ∨ method = .kHead)
    (hpath : exchange.request.path ≠ []) :
    AsksForFile (withMethod method exchange).request :=
  ⟨hmethod, hpath⟩

/-- The proxy handler answers a request the same whatever its method is. -/
theorem handlePass_of_proxy {located : Exchange}
    (hhandle : ∀ method, method = .kGet ∨ method = .kHead →
      httpHandler env (withMethod method exchange) =
        HttpProxyHandler.handle env HttpDefaultHandler.handle (withMethod method located)) :
    ∃ outcome, ∀ method, method = .kGet ∨ method = .kHead →
      ∃ result, handlePass env (withMethod method exchange) = .done result ∧
        responseOf result = outcome := by
  cases hinfo : env.config.proxyInfo located.location with
  | none =>
      refine ⟨.ret (false, located.response.setStatusCode k404NotFound), fun method hmethod => ?_⟩
      refine ⟨.ret (false, (withMethod method located).setStatusCode k404NotFound), ?_, rfl⟩
      have hproxy := @proxyHandler_of_none env (withMethod method located) hinfo
      rw [handlePass, hhandle method hmethod, hproxy]
  | some proxy =>
      have hproxy := fun method => @proxyHandler_of_some env (withMethod method located) proxy hinfo
      cases hdecode : decodeAddress (env.config.upstreamInfo proxy.upstreamName).address with
      | ret upstream =>
          refine ⟨.ret (true, located.response), fun method hmethod => ?_⟩
          refine ⟨.ret (true, { withMethod method located with
            request := addProxyHeaders env.peerIp proxy.setHeaders
              (withMethod method located).request
            log := (withMethod method located).log ++ [.proxied upstream] }), ?_, rfl⟩
          rw [handlePass, hhandle method hmethod, hproxy, hdecode, Exec.ret_bind]
      | hang =>
          refine ⟨.hang, fun method hmethod => ⟨.hang, ?_, rfl⟩⟩
          rw [handlePass, hhandle method hmethod, hproxy, hdecode, Exec.hang_bind]
      | fault cause =>
          refine ⟨.fault cause, fun method hmethod => ⟨.fault cause, ?_, rfl⟩⟩
          rw [handlePass, hhandle method hmethod, hproxy, hdecode, Exec.fault_bind]

/-- What a pass does with a request for a file, with either method. -/
inductive Pass (env : Environment) (exchange : Exchange) : Prop
  | same (outcome : Exec Fault (Bool × HttpResponse))
      (hdone : ∀ method, method = .kGet ∨ method = .kHead →
        ∃ result, handlePass env (withMethod method exchange) = .done result ∧
          responseOf result = outcome)
      (hfind : remaining env exchange = [])
  | again (location : Bytes)
      (hnext : ∀ method, method = .kGet ∨ method = .kHead →
        handlePass env (withMethod method exchange) =
          .next (withMethod method (exchange.locate location)))
      (hshorter : location.length - 1 < exchange.request.locationEndPos)
      (hfind : (remaining env exchange).find? (isFileAt env) =
        (remaining env (exchange.locate location)).find? (isFileAt env))
  | file (location aliasDir filePath : Bytes)
      (hfind : (remaining env exchange).find? (isFileAt env) = some (location, filePath))
      (hstatic : env.config.staticPath location = some aliasDir)
      (hserve : ∀ method, method = .kGet ∨ method = .kHead →
        httpHandler env (withMethod method exchange) =
          serveFile env (aliasDir ++ exchange.request.path.drop location.length) filePath
            (withMethod method (exchange.locate location)))

/-- A pass over a location does the same for both methods. -/
theorem pass_of_location {location : Bytes} (hpath : exchange.request.path ≠ [])
    (hreq : exchange.request.path.take exchange.request.locationEndPos ≠ [])
    (hsearch : searchLocation env.config.locations
      (exchange.request.path.take exchange.request.locationEndPos) = some location) :
    Pass env exchange := by
  have hfound := fun method =>
    @httpHandler_of_search env (withMethod method exchange) location hpath hreq hsearch
  obtain ⟨hne, _, hlocation, _⟩ := httpHandler_of_search hpath hreq hsearch
  have hhandle : ∀ method, httpHandler env (withMethod method exchange) =
      HttpStaticHandler.handle env (bodyAndProxy env)
        (withMethod method (exchange.locate location)) := by
    intro method
    exact (hfound method).2.2.2
  cases hstatic : env.config.staticPath location with
  | none =>
      have hnot : ∀ method, method = .kGet ∨ method = .kHead →
          httpHandler env (withMethod method exchange) =
            HttpProxyHandler.handle env HttpDefaultHandler.handle
              (withMethod method (exchange.locate location)) := by
        intro method hmethod
        have hlocation' : (withMethod method (exchange.locate location)).location =
            location := hlocation
        rw [hhandle]
        rcases hmethod with rfl | rfl <;>
          simp [HttpStaticHandler.handle, bodyAndProxy, HttpPostReadHandler.handle,
            hlocation', hstatic]
      obtain ⟨outcome, hdone⟩ := handlePass_of_proxy hnot
      have hremaining : remaining env exchange = _ := attempts_of_location hreq hsearch
      rw [hstatic] at hremaining
      exact Pass.same outcome hdone hremaining
  | some aliasDir =>
      have hserves := fun method hmethod =>
        httpHandler_of_static (asksForFile_withMethod hmethod hpath) hne
          (show ((withMethod method exchange).locate location).location = location from
            hlocation) (hhandle method) hstatic rfl
      have hfind := find_remaining_of_static hreq hsearch hstatic
      cases hselect : selectFile env
          (aliasDir ++ exchange.request.path.drop location.length) with
      | none =>
          rw [hselect] at hfind
          refine Pass.again location ?_ (length_sub_one_lt _ _ hreq hsearch) hfind
          intro method hmethod
          rw [handlePass, (hserves method hmethod).1 hselect]
          rfl
      | some filePath =>
          rw [hselect] at hfind
          exact Pass.file location aliasDir filePath hfind hstatic fun method hmethod =>
            (hserves method hmethod).2 filePath hselect

theorem pass (env : Environment) (hpath : exchange.request.path ≠ []) :
    Pass env exchange := by
  by_cases hreq : exchange.request.path.take exchange.request.locationEndPos = []
  · refine Pass.same (.ret (false, exchange.response.setStatusCode k404NotFound)) ?_
      (attempts_of_take_nil hreq)
    intro method _
    refine ⟨.ret (false, (withMethod method exchange).setStatusCode k404NotFound), ?_, rfl⟩
    simp [handlePass, httpHandler, HttpAccessHandler.handle, withMethod, hpath, hreq]
  cases hsearch : searchLocation env.config.locations
      (exchange.request.path.take exchange.request.locationEndPos) with
  | none =>
      refine Pass.same (.ret (false, exchange.response.setStatusCode k404NotFound)) ?_
        (attempts_of_no_location hreq hsearch)
      intro method _
      refine ⟨.ret (false, (withMethod method exchange).setStatusCode k404NotFound), ?_, rfl⟩
      simp [handlePass, httpHandler, HttpAccessHandler.handle, withMethod, hpath, hreq, hsearch]
  | some location => exact pass_of_location hpath hreq hsearch

/-- Together, the passes give both methods the same answer, or find a file for both. -/
theorem passes (env : Environment) (hpath : exchange.request.path ≠ []) :
    ((remaining env exchange).find? (isFileAt env) = none ∧
        ∃ outcome, ∀ method, method = .kGet ∨ method = .kHead →
          ∃ result, Returns (handlePass env) (withMethod method exchange) result ∧
            responseOf result = outcome) ∨
      ∃ location aliasDir filePath found,
        (remaining env exchange).find? (isFileAt env) = some (location, filePath) ∧
        env.config.staticPath location = some aliasDir ∧
        ∀ method, method = .kGet ∨ method = .kHead →
          ∃ last, (∀ result, Returns (handlePass env) (withMethod method exchange) result ↔
              Returns (handlePass env) last result) ∧
            httpHandler env last =
              serveFile env (aliasDir ++ exchange.request.path.drop location.length) filePath
                (withMethod method found) := by
  induction hbound : exchange.request.locationEndPos using Nat.strong_induction_on
    generalizing exchange with
  | _ bound ih =>
      cases pass env hpath with
      | same outcome hdone hfind =>
          refine Or.inl ⟨by rw [hfind]; rfl, outcome, fun method hmethod => ?_⟩
          obtain ⟨result, hresult, houtcome⟩ := hdone method hmethod
          exact ⟨result, returns_of_done hresult, houtcome⟩
      | again location hnext hshorter hfind =>
          have hpath' : (exchange.locate location).request.path ≠ [] := hpath
          rw [hfind]
          rcases ih _ (hbound ▸ hshorter) hpath' rfl with
            ⟨hnone, outcome, hreturns⟩ |
            ⟨matched, aliasDir, filePath, found, hsome, hstatic, hlast⟩
          · refine Or.inl ⟨hnone, outcome, fun method hmethod => ?_⟩
            obtain ⟨result, hresult, houtcome⟩ := hreturns method hmethod
            exact ⟨result, (returns_iff_of_next (hnext method hmethod)).mpr hresult, houtcome⟩
          · refine Or.inr ⟨matched, aliasDir, filePath, found, hsome, hstatic,
              fun method hmethod => ?_⟩
            obtain ⟨last, hsame, hserve⟩ := hlast method hmethod
            exact ⟨last, fun result =>
              (returns_iff_of_next (hnext method hmethod)).trans (hsame result), hserve⟩
      | file location aliasDir filePath hfind hstatic hserve =>
          exact Or.inr ⟨location, aliasDir, filePath, exchange.locate location, hfind, hstatic,
            fun method hmethod => ⟨_, fun _ => Iff.rfl, hserve method hmethod⟩⟩

end Methods

/-! ## The two answers -/

def fileRequest (method : Method) (request : HttpRequest) (path : Bytes) : HttpRequest :=
  { request.setPath path with method := method }

/-- The answer to a HEAD request has the status and the content type of the answer to
the GET request for the same path. -/
def HeadAgrees (env : Environment) (request : HttpRequest) (path input : Bytes) : Prop :=
  ∀ head, onRequest env (fileRequest .kHead request path) input = .ret head →
    head.forwarded = false →
      ∃ get, onRequest env (fileRequest .kGet request path) input = .ret get ∧
        get.forwarded = false ∧
        get.exchange.response.statusCode = head.exchange.response.statusCode ∧
        get.exchange.response.headers.find? (ascii "Content-Type") =
          head.exchange.response.headers.find? (ascii "Content-Type")

/-- A file that can be read, and the size of the name first looked at one with which
it can be mapped. -/
def CanBeMapped (env : Environment) (fileDir filePath : Bytes) : Prop :=
  ∃ content, openFile env.files filePath = some content ∧
    statSize env.files env.uninitialised fileDir ≠ 0 ∧
    statSize env.files env.uninitialised fileDir ≤
      (content.length + pageSize - 1) / pageSize * pageSize

/-- The first file among the names that are tried for a path can be mapped. -/
def FirstFileMapped (env : Environment) (path : Bytes) : Prop :=
  ∀ location aliasDir filePath,
    (attempts env.config env.listenPort path path.length).find? (isFileAt env) =
      some (location, filePath) →
    env.config.staticPath location = some aliasDir →
      CanBeMapped env (aliasDir ++ path.drop location.length) filePath

section Answers

variable {env : Environment} {exchange : Exchange} {fileDir filePath : Bytes}

/-- The field that tells the type of the content is the one of the response before
the filter. -/
theorem find?_contentType_finish (forwarded : Bool) :
    (finish env forwarded exchange).exchange.response.headers.find? (ascii "Content-Type") =
      exchange.response.headers.find? (ascii "Content-Type") := by
  cases forwarded with
  | true => rfl
  | false => exact find?_filter _ _ _ (by decide) (by decide) (by decide)

/-- A file is answered with 200 to a HEAD request, and with the type that goes with its
name. -/
theorem serveFile_head (hhead : exchange.request.method = .kHead) :
    ∃ final, serveFile env fileDir filePath exchange = .ret (.kHandleDone, final) ∧
      final.response = foundFile filePath exchange.response := by
  simp only [serveFile, if_pos hhead]
  exact ⟨_, rfl, rfl⟩

/-- The answer to a GET request is 200 just when the file can be mapped. -/
theorem serveFile_get_iff (hget : exchange.request.method = .kGet) :
    (∃ state final, serveFile env fileDir filePath exchange = .ret (state, final) ∧
      final.response.statusCode = k200Ok) ↔ CanBeMapped env fileDir filePath := by
  cases hopen : openFile env.files filePath with
  | none =>
      have hserve : ∃ final, serveFile env fileDir filePath exchange =
          .ret (.kHandleDecline, final) ∧ final.response.statusCode = k404NotFound := by
        simp only [serveFile, hget, reduceCtorEq, if_false, hopen]
        exact ⟨_, rfl, rfl⟩
      obtain ⟨declined, hserve, hcode⟩ := hserve
      constructor
      · rintro ⟨state, final, hfinal, hstatus⟩
        cases hserve.symm.trans hfinal
        exact absurd (hcode.symm.trans hstatus) (by decide)
      · rintro ⟨content, hcontent, _⟩
        cases hopen.symm.trans hcontent
  | some content =>
      have hmapped : CanBeMapped env fileDir filePath ↔
          ∃ body, mmapCopy content (statSize env.files env.uninitialised fileDir) =
            .bytes body := by
        rw [exists_mmapCopy_iff]
        constructor
        · rintro ⟨content', hcontent, hsize⟩
          cases hopen.symm.trans hcontent
          exact hsize
        · intro hsize
          exact ⟨content, hopen, hsize⟩
      rw [hmapped]
      constructor
      · rintro ⟨state, final, hfinal, hstatus⟩
        exact ⟨final.response.body,
          (serveFile_ok_iff hget hopen _).mp ⟨state, final, hfinal, hstatus, rfl⟩⟩
      · rintro ⟨body, hbody⟩
        obtain ⟨state, final, hfinal, hstatus, _⟩ := (serveFile_ok_iff hget hopen body).mpr hbody
        exact ⟨state, final, hfinal, hstatus⟩

/-- An answer 200 to a GET request has the type that goes with the name of the file. -/
theorem contentType_of_serveFile (hget : exchange.request.method = .kGet)
    {state : HttpHandleState} {final : Exchange}
    (hserve : serveFile env fileDir filePath exchange = .ret (state, final)) :
    final.response.headers.find? (ascii "Content-Type") =
      (foundFile filePath exchange.response).headers.find? (ascii "Content-Type") := by
  rcases (serveFile_ends hserve).2.2 with ⟨hhead, _⟩ | ⟨_, ⟨body, _, hfinal⟩ | ⟨code, _, hfinal⟩⟩
  · simp [hget] at hhead
  · rw [hfinal]
    rfl
  · rw [hfinal]
    rfl

/-- A file ends the retry loop, and the request is not forwarded. -/
theorem handlePass_of_serveFile {last final : Exchange} {state : HttpHandleState}
    (hhandle : httpHandler env last = serveFile env fileDir filePath exchange)
    (hserve : serveFile env fileDir filePath exchange = .ret (state, final)) :
    handlePass env last = .done (.ret (false, final)) := by
  cases state with
  | kHandleAgain => exact (serveFile_again hserve).elim
  | kForwarded => exact absurd rfl (serveFile_ends hserve).1
  | kHandleDone | kHandleError | kHandleDecline => rw [handlePass, hhandle, hserve]

theorem onRequest_of_passes {request : HttpRequest} {input : Bytes} {last final : Exchange}
    {state : HttpHandleState}
    (hsame : ∀ result, Returns (handlePass env) { request, input } result ↔
      Returns (handlePass env) last result)
    (hhandle : httpHandler env last = serveFile env fileDir filePath exchange)
    (hserve : serveFile env fileDir filePath exchange = .ret (state, final)) :
    onRequest env request input = .ret (finish env false final) := by
  have hdone := handlePass_of_serveFile hhandle hserve
  rw [onRequest_of_returns ((hsame _).mpr (returns_of_done hdone))]
  rfl

theorem serveFile_of_onRequest {request : HttpRequest} {input : Bytes} {last : Exchange}
    {handled : Handled}
    (hsame : ∀ result, Returns (handlePass env) { request, input } result ↔
      Returns (handlePass env) last result)
    (hhandle : httpHandler env last = serveFile env fileDir filePath exchange)
    (hrequest : onRequest env request input = .ret handled) :
    ∃ forwarded state final, serveFile env fileDir filePath exchange = .ret (state, final) ∧
      handled = finish env forwarded final := by
  obtain ⟨forwarded, final, rfl, hreturns⟩ := returns_of_onRequest hrequest
  obtain ⟨result, hdone, hanswer⟩ := handlePass_done fun exchange' hagain =>
    serveFile_again (hhandle.symm.trans hagain)
  obtain ⟨state, hstate⟩ := hanswer forwarded final
    ((returns_of_done hdone).unique ((hsame _).mp hreturns))
  exact ⟨forwarded, state, final, hhandle.symm.trans hstate, rfl⟩

end Answers

section Agreement

variable {env : Environment} {request : HttpRequest} {path input : Bytes}

theorem headAgrees_of_no_file
    (hnone : ∃ outcome, ∀ method, method = .kGet ∨ method = .kHead →
      ∃ result, Returns (handlePass env)
          { request := fileRequest method request path, input } result ∧
        responseOf result = outcome) :
    HeadAgrees env request path input := by
  obtain ⟨outcome, hreturns⟩ := hnone
  intro head hrequest hforwarded
  obtain ⟨forwarded, final, rfl, hhead⟩ := returns_of_onRequest hrequest
  rw [finish_forwarded] at hforwarded
  subst hforwarded
  obtain ⟨result, hresult, houtcome⟩ := hreturns .kHead (Or.inr rfl)
  obtain ⟨result', hresult', houtcome'⟩ := hreturns .kGet (Or.inl rfl)
  cases hresult.unique hhead
  rw [← houtcome] at houtcome'
  obtain ⟨⟨forwarded, final'⟩, rfl, hanswer⟩ := Exec.bind_eq_ret_iff.mp houtcome'
  simp only [Exec.ret.injEq, Prod.mk.injEq] at hanswer
  obtain ⟨rfl, hresponse⟩ := hanswer
  refine ⟨finish env false final', ?_, finish_forwarded _ _ _, ?_, ?_⟩
  · rw [onRequest_of_returns hresult']
    rfl
  · rw [finish_statusCode, finish_statusCode, hresponse]
  · rw [find?_contentType_finish, find?_contentType_finish, hresponse]

/-- When a file is found, the answers agree just when it can be mapped. -/
theorem headAgrees_iff_of_file {fileDir filePath : Bytes} {found : Exchange}
    (hlast : ∀ method, method = .kGet ∨ method = .kHead →
      ∃ last, (∀ result, Returns (handlePass env)
            { request := fileRequest method request path, input } result ↔
          Returns (handlePass env) last result) ∧
        httpHandler env last = serveFile env fileDir filePath (withMethod method found)) :
    HeadAgrees env request path input ↔ CanBeMapped env fileDir filePath := by
  obtain ⟨lastHead, hsameHead, hserveHead⟩ := hlast .kHead (Or.inr rfl)
  obtain ⟨lastGet, hsameGet, hserveGet⟩ := hlast .kGet (Or.inl rfl)
  obtain ⟨finalHead, hhead, hresponse⟩ :=
    @serveFile_head env (withMethod .kHead found) fileDir filePath rfl
  have hrequest := onRequest_of_passes hsameHead hserveHead hhead
  have hstatus : finalHead.response.statusCode = k200Ok := by
    rw [hresponse]
    rfl
  rw [← serveFile_get_iff (@withMethod_method found .kGet)]
  constructor
  · intro hagrees
    obtain ⟨get, hget, _, hcode, _⟩ := hagrees _ hrequest (finish_forwarded _ _ _)
    obtain ⟨forwarded, state, final, hserve, rfl⟩ :=
      serveFile_of_onRequest hsameGet hserveGet hget
    rw [finish_statusCode, finish_statusCode, hstatus] at hcode
    exact ⟨state, final, hserve, hcode⟩
  · rintro ⟨state, final, hserve, hcode⟩ head hrequest' _
    cases hrequest.symm.trans hrequest'
    refine ⟨finish env false final, onRequest_of_passes hsameGet hserveGet hserve,
      finish_forwarded _ _ _, ?_, ?_⟩
    · rw [finish_statusCode, finish_statusCode, hstatus, hcode]
    · rw [find?_contentType_finish, find?_contentType_finish, hresponse,
        contentType_of_serveFile rfl hserve]
      rfl

end Agreement

/-- A HEAD request agrees with the GET request for the same path exactly when the first
file that is found for the path can be mapped. -/
theorem headAgrees_iff (env : Environment) (request : HttpRequest) (path input : Bytes) :
    HeadAgrees env request path input ↔ FirstFileMapped env path := by
  by_cases hpath : path = []
  · subst hpath
    refine iff_of_true ?_ ?_
    · intro head hrequest
      rw [onRequest_of_path_nil env rfl] at hrequest
      cases hrequest
    · intro location aliasDir filePath hfind
      rw [attempts_of_take_nil (List.take_nil)] at hfind
      cases hfind
  · rcases @passes { request := request.setPath path, input } env hpath with
      ⟨hnone, hreturns⟩ | ⟨location, aliasDir, filePath, found, hsome, hstatic, hlast⟩
    · refine iff_of_true (headAgrees_of_no_file hreturns) ?_
      intro location aliasDir filePath hfind
      cases hnone.symm.trans hfind
    · rw [headAgrees_iff_of_file hlast]
      constructor
      · intro hmapped location' aliasDir' filePath' hfind hstatic'
        cases hsome.symm.trans hfind
        cases hstatic.symm.trans hstatic'
        exact hmapped
      · intro hmapped
        exact hmapped location aliasDir filePath hsome hstatic

/-- An empty file is there for a HEAD request, and an error for a GET request. -/
theorem head_differs_on_empty_file :
    ¬ HeadAgrees (indexEnv [] (ascii "a.txt") []) {} (ascii "/a.txt") [] := by
  intro hagrees
  have hhead : ∃ head, onRequest (indexEnv [] (ascii "a.txt") [])
      (fileRequest .kHead {} (ascii "/a.txt")) [] = .ret head ∧ head.forwarded = false ∧
        head.exchange.response.statusCode = 200 := ⟨_, rfl, rfl, rfl⟩
  have hget : ∃ get, onRequest (indexEnv [] (ascii "a.txt") [])
      (fileRequest .kGet {} (ascii "/a.txt")) [] = .ret get ∧
        get.exchange.response.statusCode = 500 := ⟨_, rfl, rfl⟩
  obtain ⟨head, hrequest, hforwarded, hstatus⟩ := hhead
  obtain ⟨get, hrequest', hstatus'⟩ := hget
  obtain ⟨get', hget', _, hcode, _⟩ := hagrees head hrequest hforwarded
  cases hrequest'.symm.trans hget'
  rw [hstatus, hstatus'] at hcode
  exact absurd hcode (by decide)

end Cuber.HeadRequests
