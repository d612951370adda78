import Cuber.Server.PostBody

/-!
# How the handling of a request ends

A pass of the handler chain that is not repeated ends in one of five ways, and
the passes before it have changed nothing but the location position.  The two
facts together say what `onRequest` makes of a request.
-/

namespace Cuber.Outcome

open Cuber.Buffer
open Cuber.Config
open Cuber.Execution
open Cuber.FileUtil
open Cuber.Handlers
open Cuber.Headers
open Cuber.LocationSearch
open Cuber.Loop
open Cuber.PostBody
open Cuber.Request
open Cuber.Response
open Cuber.Server
open Cuber.Text

/-- What `HttpPostReadHandler` hands on: the exchange as it is, or with the
body of a POST request taken from the input. -/
inductive HandsOn (exchange : Exchange) : Exchange → Prop
  | unread (hlength : exchange.request.method = .kPost →
      exchange.request.getHeader contentLength = []) : HandsOn exchange exchange
  | read (value : ℤ) (hpost : exchange.request.method = .kPost)
      (htext : exchange.request.getHeader contentLength ≠ [])
      (hvalue : stoi (exchange.request.getHeader contentLength) = some value)
      (henough : toSizeT value ≤ exchange.input.length) :
      HandsOn exchange (readBody exchange (toSizeT value))

def Located (env : Environment) (exchange : Exchange) (location : Bytes) : Prop :=
  IsSearchResult env.config.locations
    (exchange.request.path.take exchange.request.locationEndPos) (some location)

/-- The ways in which the chain ends, with the state and the exchange that it
returns. -/
inductive Ends (env : Environment) (exchange : Exchange) :
    HttpHandleState → Exchange → Prop
  | noLocation (hnone : ∀ location, ¬ Located env exchange location) :
      Ends env exchange .kHandleDone (exchange.setStatusCode k404NotFound)
  | file (location fileDir filePath : Bytes) {state : HttpHandleState} {final : Exchange}
      (hlocated : Located env exchange location)
      (hmethod : exchange.request.method = .kGet ∨ exchange.request.method = .kHead)
      (hserve : serveFile env fileDir filePath (exchange.locate location) =
        .ret (state, final)) :
      Ends env exchange state final
  | badLength (location : Bytes) (hlocated : Located env exchange location)
      (hpost : exchange.request.method = .kPost)
      (htext : exchange.request.getHeader contentLength ≠ [])
      (hvalue : stoi (exchange.request.getHeader contentLength) = none) :
      Ends env exchange .kHandleError
        ((exchange.locate location).setStatusCode k400BadRequest)
  | forwarded (location : Bytes) (passed : Exchange) (proxy : ProxyServer)
      (upstream : UpstreamAddress) (hlocated : Located env exchange location)
      (hpassed : HandsOn (exchange.locate location) passed)
      (hproxy : env.config.proxyInfo passed.location = some proxy) :
      Ends env exchange .kForwarded { passed with
        request := addProxyHeaders env.peerIp proxy.setHeaders passed.request
        log := passed.log ++ [.proxied upstream] }
  | notFound (location : Bytes) (passed : Exchange)
      (hlocated : Located env exchange location)
      (hpassed : HandsOn (exchange.locate location) passed) :
      Ends env exchange .kHandleDone (passed.setStatusCode k404NotFound)

section Chain

variable {env : Environment} {exchange final : Exchange} {state : HttpHandleState}

theorem ne_nil_of_mmapCopy {content body : Bytes} {size : ℕ}
    (hcopy : mmapCopy content size = .bytes body) : body ≠ [] := by
  rw [mmapCopy] at hcopy
  split_ifs at hcopy with hzero hpages
  cases hcopy
  apply List.ne_nil_of_length_pos
  simp only [List.length_append, List.length_take, List.length_replicate]
  omega

/-- The response when a file was found, before its content is set. -/
def foundFile (filePath : Bytes) (response : HttpResponse) : HttpResponse :=
  (response.setStatusCode k200Ok).setContentType (mimeOf filePath)

/-- A file is answered without a body to a HEAD request, and otherwise with a
content that is not empty or with an error. -/
theorem serveFile_ends {fileDir filePath : Bytes}
    (hserve : serveFile env fileDir filePath exchange = .ret (state, final)) :
    state ≠ .kForwarded ∧ final.request = exchange.request ∧
      (exchange.request.method = .kHead ∧
          final.response = foundFile filePath exchange.response ∨
        exchange.request.method ≠ .kHead ∧
          ((∃ body, body ≠ [] ∧
              final.response = (foundFile filePath exchange.response).setBody body) ∨
            ∃ code, (code = k404NotFound ∨ code = k500InternalServerError) ∧
              final.response =
                (foundFile filePath exchange.response).setStatusCode code)) := by
  simp only [serveFile] at hserve
  split_ifs at hserve with hhead
  · cases hserve
    exact ⟨by simp, rfl, Or.inl ⟨hhead, rfl⟩⟩
  · cases hopen : openFile env.files filePath with
    | none =>
        simp only [hopen] at hserve
        cases hserve
        exact ⟨by simp, rfl, Or.inr ⟨hhead, Or.inr ⟨_, Or.inl rfl, rfl⟩⟩⟩
    | some content =>
        simp only [hopen] at hserve
        cases hcopy : mmapCopy content
            (statSize env.files env.uninitialised fileDir) with
        | failed =>
            simp only [hcopy] at hserve
            cases hserve
            exact ⟨by simp, rfl, Or.inr ⟨hhead, Or.inr ⟨_, Or.inr rfl, rfl⟩⟩⟩
        | bytes body =>
            simp only [hcopy] at hserve
            cases hserve
            exact ⟨by simp, rfl,
              Or.inr ⟨hhead, Or.inl ⟨body, ne_nil_of_mmapCopy hcopy, rfl⟩⟩⟩
        | busError =>
            simp only [hcopy] at hserve
            cases hserve

theorem proxyHandler_ends
    (hhandle : HttpProxyHandler.handle env HttpDefaultHandler.handle exchange =
      .ret (state, final)) :
    (∃ (proxy : ProxyServer) (upstream : UpstreamAddress), state = .kForwarded ∧
        final = { exchange with
          request := addProxyHeaders env.peerIp proxy.setHeaders exchange.request
          log := exchange.log ++ [.proxied upstream] } ∧
        env.config.proxyInfo exchange.location = some proxy) ∨
      state = .kHandleDone ∧ final = exchange.setStatusCode k404NotFound := by
  cases hproxy : env.config.proxyInfo exchange.location with
  | none =>
      rw [proxyHandler_of_none hproxy] at hhandle
      cases hhandle
      exact Or.inr ⟨rfl, rfl⟩
  | some proxy =>
      rw [proxyHandler_of_some hproxy] at hhandle
      obtain ⟨upstream, _, hret⟩ := Exec.bind_eq_ret_iff.mp hhandle
      cases hret
      exact Or.inl ⟨proxy, upstream, rfl, rfl, rfl⟩

/-- The two ends of the chain behind `HttpPostReadHandler`. -/
theorem ends_of_handsOn {location : Bytes} {passed : Exchange}
    (hlocated : Located env exchange location)
    (hpassed : HandsOn (exchange.locate location) passed)
    (hhandle : HttpProxyHandler.handle env HttpDefaultHandler.handle passed =
      .ret (state, final)) : Ends env exchange state final := by
  rcases proxyHandler_ends hhandle with ⟨proxy, upstream, rfl, rfl, hproxy⟩ | ⟨rfl, rfl⟩
  · exact Ends.forwarded location passed proxy upstream hlocated hpassed hproxy
  · exact Ends.notFound location passed hlocated hpassed

/-- Behind the static handler the chain ends with a bad length, a proxy or 404. -/
theorem ends_of_bodyAndProxy {location : Bytes}
    (hlocated : Located env exchange location)
    (hhandle : bodyAndProxy env (exchange.locate location) = .ret (state, final))
    (hstate : state ≠ .kHandleAgain) : Ends env exchange state final := by
  simp only [bodyAndProxy, HttpPostReadHandler.handle] at hhandle
  split_ifs at hhandle with hpost htext
  · cases hvalue : stoi ((exchange.locate location).request.getHeader contentLength) with
    | none =>
        simp only [hvalue] at hhandle
        cases hhandle
        exact Ends.badLength location hlocated hpost htext hvalue
    | some value =>
        simp only [hvalue] at hhandle
        split_ifs at hhandle with hshort
        · cases hhandle
          exact absurd rfl hstate
        · exact ends_of_handsOn hlocated
            (HandsOn.read value hpost htext hvalue (not_lt.mp hshort)) hhandle
  · exact ends_of_handsOn hlocated (HandsOn.unread fun _ => not_not.mp htext) hhandle
  · exact ends_of_handsOn hlocated (HandsOn.unread fun h => absurd h hpost) hhandle

/-- The chain ends in one of the ways listed, unless it is tried again. -/
theorem httpHandler_ends (hhandle : httpHandler env exchange = .ret (state, final))
    (hstate : state ≠ .kHandleAgain) : Ends env exchange state final := by
  rw [httpHandler] at hhandle
  rcases access_cases _ exchange with
    ⟨_, haccess⟩ | ⟨_, hnone, haccess⟩ | ⟨_, location, hlocated, haccess⟩
  · rw [haccess] at hhandle
    cases hhandle
    exact absurd rfl hstate
  · rw [haccess] at hhandle
    cases hhandle
    exact Ends.noLocation fun location hlocated => hnone location hlocated.1 hlocated.2.1
  · rw [haccess] at hhandle
    simp only [HttpStaticHandler.handle] at hhandle
    split_ifs at hhandle with hmethod
    · exact ends_of_bodyAndProxy hlocated hhandle hstate
    · have hasks : exchange.request.method = .kGet ∨ exchange.request.method = .kHead := by
        rw [locate_method] at hmethod
        tauto
      split at hhandle
      · exact ends_of_bodyAndProxy hlocated hhandle hstate
      · split at hhandle
        · cases hhandle
          exact absurd rfl hstate
        · exact Ends.file location _ _ hlocated hasks hhandle

/-- A pass that leaves the loop with an exchange has ended the chain. -/
theorem ends_of_handlePass {forwarded : Bool}
    (hdone : handlePass env exchange = .done (.ret (forwarded, final))) :
    ∃ state, Ends env exchange state final ∧ forwarded = decide (state = .kForwarded) := by
  cases hhandle : httpHandler env exchange with
  | ret answer =>
      obtain ⟨state, exchange'⟩ := answer
      cases state with
      | kHandleAgain => simp [handlePass, hhandle] at hdone
      | kHandleDone | kHandleError | kHandleDecline | kForwarded =>
          simp only [handlePass, hhandle, Step.done.injEq, Exec.ret.injEq,
            Prod.mk.injEq] at hdone
          obtain ⟨rfl, rfl⟩ := hdone
          exact ⟨_, httpHandler_ends hhandle (by simp), rfl⟩
  | hang | fault => simp [handlePass, hhandle] at hdone

end Chain

/-! ## The passes before the last one -/

/-- An exchange after some passes: the request differs in its location position
only. -/
structure Retried (start last : Exchange) : Prop where
  request : ∃ pos, last.request = start.request.setLocationEndPos pos
  response : last.response = start.response
  input : last.input = start.input

section Passes

variable {env : Environment} {start last : Exchange}

theorem retried_of_reaches (hreach : Reaches (handlePass env) start last) :
    Retried start last := by
  induction hreach with
  | refl => exact ⟨⟨start.request.locationEndPos, rfl⟩, rfl, rfl⟩
  | tail _ hpass ih =>
      rcases httpHandler_again (handlePass_next hpass) with
        ⟨_, rfl⟩ | ⟨_, location, _, rfl⟩
      · exact ih
      · obtain ⟨⟨pos, hrequest⟩, hresponse, hinput⟩ := ih
        refine ⟨⟨location.length - 1, ?_⟩, hresponse, hinput⟩
        simp [Exchange.locate, hrequest, HttpRequest.setLocationEndPos]

/-- A request that is handled went through passes that only moved the location
position, and one last pass that ended the chain. -/
theorem onRequest_ends {request : HttpRequest} {input : Bytes} {handled : Handled}
    (hrequest : onRequest env request input = .ret handled) :
    ∃ last state final, Reaches (handlePass env) { request, input } last ∧
      Ends env last state final ∧
      handled = finish env (decide (state = .kForwarded)) final := by
  obtain ⟨forwarded, final, rfl, hreturns⟩ := returns_of_onRequest hrequest
  obtain ⟨last, hreach, hdone⟩ := hreturns.exists_last
  obtain ⟨state, hends, rfl⟩ := ends_of_handlePass hdone
  exact ⟨last, state, final, hreach, hends, rfl⟩

end Passes

end Cuber.Outcome
