import Cuber.Http.RoundTrip
import Cuber.Http.StaticSearch

/-!
# Routing by tables that agree

All servers of a process route by the same tables, which are keyed by location
and not by port.  A request is routed alike under two configurations whose
tables agree at the locations that a path can match; the index files need to
agree only where some name that is tried ends in a slash.
-/

namespace Cuber.Routing

open Cuber.Acceptance
open Cuber.Buffer
open Cuber.Config
open Cuber.Context
open Cuber.Execution
open Cuber.FileUtil
open Cuber.Handlers
open Cuber.Headers
open Cuber.LocationSearch
open Cuber.Loop
open Cuber.Request
open Cuber.Response
open Cuber.RoundTrip
open Cuber.Server
open Cuber.StaticSearch
open Cuber.Text

/-! ## Routing -/

/-- Where a request is routed: the names of files tried for it as long as none of
them is a file, each with its location, and then the decisions of the handlers,
whether it was forwarded, and the status. -/
structure Outcome where
  tried : List (Bytes × Bytes)
  result : Exec Fault (List Decision × Bool × ℤ)
  deriving DecidableEq

def routeOf (handled : Handled) : List Decision × Bool × ℤ :=
  (handled.exchange.log, handled.forwarded, handled.exchange.response.statusCode)

def routing (env : Environment) (request : HttpRequest) (input : Bytes) : Outcome where
  tried :=
    if request.method = .kGet ∨ request.method = .kHead then
      attempts env.config env.listenPort request.path request.locationEndPos
    else []
  result := (onRequest env request input).bind fun handled => .ret (routeOf handled)

/-- Every accepted GET, HEAD or POST request on a port is routed alike under two
configurations, whatever files there are. -/
def SameRouting (full own : ServerConfig) (listenPort : Port) : Prop :=
  ∀ (old context : HttpContext) (bytes rest : Bytes),
    parseRequest old.reset bytes = .ret ⟨.kParseOK, context, rest⟩ →
    (context.request.method = .kGet ∨ context.request.method = .kHead ∨
      context.request.method = .kPost) →
    ∀ files peerIp peers uninitialised,
      routing ⟨full, files, listenPort, peerIp, peers, uninitialised⟩ context.request rest =
        routing ⟨own, files, listenPort, peerIp, peers, uninitialised⟩ context.request rest

/-- A location that the path of an accepted request can match. -/
structure IsMatchable (location : Bytes) : Prop where
  ne_nil : location ≠ []
  spaces : SP ∉ location
  questions : question ∉ location
  isLine : IsLine location

/-- The upstream to which requests are forwarded from a location, or the exception
that is thrown when its address is decoded. -/
def chosenUpstream (config : ServerConfig) (location : Bytes) :
    Option (Exec Fault UpstreamAddress) :=
  (config.proxyInfo location).map fun proxy =>
    decodeAddress (config.upstreamInfo proxy.upstreamName).address

/-- A static location of which a target can end in a slash, so that index files are
tried. -/
def TriesIndex (config : ServerConfig) : Prop :=
  ∃ location aliasDir, IsMatchable location ∧ config.staticPath location = some aliasDir ∧
    (location.getLast? = some slash ∨ aliasDir.getLast? = some slash)

/-- The tables of two configurations agree in all that requests on a port can come
across. -/
structure Agrees (full own : ServerConfig) (listenPort : Port) : Prop where
  locations : ∀ location, IsMatchable location →
    (location ∈ full.locations ↔ location ∈ own.locations)
  aliases : ∀ location, IsMatchable location →
    full.staticPath location = own.staticPath location
  upstreams : ∀ location, IsMatchable location →
    chosenUpstream full location = chosenUpstream own location
  indexes : TriesIndex own → full.indexFiles listenPort = own.indexFiles listenPort

theorem IsMatchable.of_prefix {location path : Bytes} (hpath : IsMatchable path)
    (hne : location ≠ []) (hbegins : location <+: path) : IsMatchable location := by
  refine ⟨hne, fun h => hpath.spaces (hbegins.subset h),
    fun h => hpath.questions (hbegins.subset h), ?_⟩
  obtain ⟨rest, rfl⟩ := hbegins
  exact hpath.isLine.left

theorem IsMatchable.append {rest : Bytes} (hlocation : IsMatchable location)
    (hrest : ∀ byte ∈ rest, byte ∉ [SP, question, CR, LF]) :
    IsMatchable (location ++ rest) := by
  have hfree : ∀ byte ∈ [SP, question, CR, LF], byte ∉ rest :=
    fun byte hbyte hmem => hrest byte hmem hbyte
  refine ⟨by simp [hlocation.ne_nil], ?_, ?_, ?_⟩
  · rw [List.mem_append, not_or]
    exact ⟨hlocation.spaces, hfree SP (by simp)⟩
  · rw [List.mem_append, not_or]
    exact ⟨hlocation.questions, hfree question (by simp)⟩
  · rw [isLine_append_iff]
    refine ⟨hlocation.isLine, isLine_of_CR_not_mem (hfree CR (by simp)), ?_⟩
    rintro ⟨_, hhead⟩
    exact hfree LF (by simp) (List.mem_of_mem_head? hhead)

theorem isMatchable_decoded {head : RequestHead} (hne : head.decoded.path ≠ []) :
    IsMatchable head.decoded.path := by
  have hwritable := isWritable_decoded head
  exact ⟨hne, hwritable.path_spaces, hwritable.path_question, hwritable.path_line⟩

/-! ## Agreement is enough -/

section Agreement

variable {full own : ServerConfig} {listenPort : Port} {files : FileSystem}
  {peerIp : Bytes} {peers : ℕ → Bytes} {uninitialised : ℕ} {path location aliasDir : Bytes}
  {pos : ℕ}

/-- Before the second location is tried for a path that ends in a slash, the index
files are known to be the same. -/
def FirstOrSame (full own : ServerConfig) (listenPort : Port) (path : Bytes) (pos : ℕ) :
    Prop :=
  path.getLast? = some slash →
    pos = path.length ∨ full.indexFiles listenPort = own.indexFiles listenPort

/-- A static location matched first in a path that ends in a slash does so itself. -/
theorem FirstOrSame.indexFiles_eq (hagrees : Agrees full own listenPort)
    (hfirst : FirstOrSame full own listenPort path pos) (hmatchable : IsMatchable location)
    (hcandidate : IsCandidate (path.take pos) location)
    (hstatic : own.staticPath location = some aliasDir)
    (hslash : path.getLast? = some slash) :
    full.indexFiles listenPort = own.indexFiles listenPort := by
  rcases hfirst hslash with rfl | hsame
  · apply hagrees.indexes
    refine ⟨location, aliasDir, hmatchable, hstatic, Or.inl ?_⟩
    obtain ⟨_, _, rfl | hlast⟩ := hcandidate
    · rw [List.take_length]
      exact hslash
    · exact hlast
  · exact hsame

/-- The index files are the same wherever they are tried. -/
theorem FirstOrSame.indexFiles_of_target (hagrees : Agrees full own listenPort)
    (hfirst : FirstOrSame full own listenPort path pos) (hmatchable : IsMatchable location)
    (hcandidate : IsCandidate (path.take pos) location)
    (hstatic : own.staticPath location = some aliasDir) {rest : Bytes}
    (hrest : rest <:+ path) (htarget : (aliasDir ++ rest).getLast? = some slash) :
    full.indexFiles listenPort = own.indexFiles listenPort := by
  rcases List.eq_nil_or_concat' rest with rfl | ⟨front, last, rfl⟩
  · apply hagrees.indexes
    rw [List.append_nil] at htarget
    exact ⟨location, aliasDir, hmatchable, hstatic, Or.inr htarget⟩
  · apply hfirst.indexFiles_eq hagrees hmatchable hcandidate hstatic
    obtain ⟨before, rfl⟩ := hrest
    rw [← List.append_assoc, List.getLast?_append_of_ne_nil _ (by simp)]
    rw [← List.append_assoc, List.getLast?_append_of_ne_nil _ (by simp)] at htarget
    exact htarget

theorem targetPaths_congr {indexes indexes' : List Bytes} {fileDir : Bytes}
    (hsame : fileDir.getLast? = some slash → indexes = indexes') :
    targetPaths indexes fileDir = targetPaths indexes' fileDir := by
  rw [targetPaths, targetPaths]
  split_ifs with hslash
  · rw [hsame hslash]
  · rfl

/-- Candidates of a path searched are matchable when the whole path is. -/
theorem isMatchable_of_isCandidate (hpath : IsMatchable path)
    (hcandidate : IsCandidate (path.take pos) location) : IsMatchable location :=
  hpath.of_prefix hcandidate.1 (hcandidate.2.1.trans (List.take_prefix _ _))

theorem searchLocation_eq (hagrees : Agrees full own listenPort) (hpath : IsMatchable path)
    (hne : path.take pos ≠ []) :
    searchLocation full.locations (path.take pos) =
      searchLocation own.locations (path.take pos) := by
  apply searchLocation_congr hne
  intro location hcandidate
  exact hagrees.locations location (isMatchable_of_isCandidate hpath hcandidate)

/-- Servers that agree try the same names. -/
theorem attempts_eq (hagrees : Agrees full own listenPort) (hpath : IsMatchable path)
    (hfirst : FirstOrSame full own listenPort path pos) :
    attempts full listenPort path pos = attempts own listenPort path pos := by
  induction pos using Nat.strong_induction_on with
  | _ pos ih =>
      by_cases hne : path.take pos = []
      · rw [attempts_of_take_nil hne, attempts_of_take_nil hne]
      have hsearch := searchLocation_eq hagrees hpath hne
      cases hown : searchLocation own.locations (path.take pos) with
      | none =>
          rw [attempts_of_no_location hne (hsearch.trans hown),
            attempts_of_no_location hne hown]
      | some location =>
          have hspec := searchLocation_spec own.locations hne
          rw [hown] at hspec
          have hcandidate := hspec.2.1
          have hmatchable := isMatchable_of_isCandidate hpath hcandidate
          rw [attempts_of_location hne (hsearch.trans hown), attempts_of_location hne hown,
            hagrees.aliases location hmatchable]
          cases hstatic : own.staticPath location with
          | none => rfl
          | some aliasDir =>
              have hnext : FirstOrSame full own listenPort path (location.length - 1) :=
                fun hslash => Or.inr
                  (hfirst.indexFiles_eq hagrees hmatchable hcandidate hstatic hslash)
              have htargets := targetPaths_congr
                (hfirst.indexFiles_of_target hagrees hmatchable hcandidate hstatic
                  (List.drop_suffix location.length path))
              simp only [htargets, ih _ (length_sub_one_lt own path hne hown) hnext]

/-- Two answers of the chain are the same, but for the headers that a proxy has
added. -/
inductive SameAnswer : HandlerResult → HandlerResult → Prop
  | same (answer : HandlerResult) : SameAnswer answer answer
  | forwarded {left right : Exchange} (hlog : left.log = right.log)
      (hresponse : left.response = right.response) :
      SameAnswer (.ret (.kForwarded, left)) (.ret (.kForwarded, right))

variable {exchange : Exchange}

theorem sameAnswer_proxy
    (hupstream : chosenUpstream full exchange.location =
      chosenUpstream own exchange.location) :
    SameAnswer
      (HttpProxyHandler.handle ⟨full, files, listenPort, peerIp, peers, uninitialised⟩
        HttpDefaultHandler.handle exchange)
      (HttpProxyHandler.handle ⟨own, files, listenPort, peerIp, peers, uninitialised⟩
        HttpDefaultHandler.handle exchange) := by
  simp only [chosenUpstream] at hupstream
  simp only [HttpProxyHandler.handle]
  cases hfull : full.proxyInfo exchange.location with
  | none =>
      rw [hfull, Option.map_none, eq_comm, Option.map_eq_none_iff] at hupstream
      rw [hupstream]
      exact SameAnswer.same _
  | some proxy =>
      rw [hfull, Option.map_some, eq_comm, Option.map_eq_some_iff] at hupstream
      obtain ⟨proxy', hown, hdecode⟩ := hupstream
      simp only [hown, hdecode]
      cases decodeAddress (full.upstreamInfo proxy.upstreamName).address with
      | ret upstream => exact SameAnswer.forwarded rfl rfl
      | hang => exact SameAnswer.same _
      | fault cause => exact SameAnswer.same _

theorem sameAnswer_bodyAndProxy
    (hupstream : chosenUpstream full exchange.location =
      chosenUpstream own exchange.location) :
    SameAnswer
      (bodyAndProxy ⟨full, files, listenPort, peerIp, peers, uninitialised⟩ exchange)
      (bodyAndProxy ⟨own, files, listenPort, peerIp, peers, uninitialised⟩ exchange) := by
  simp only [bodyAndProxy, HttpPostReadHandler.handle]
  split_ifs with hpost htext
  · cases hvalue : stoi (exchange.request.getHeader contentLength) with
    | none => exact SameAnswer.same _
    | some value =>
        simp only
        split_ifs
        · exact SameAnswer.same _
        · exact sameAnswer_proxy hupstream
  · exact sameAnswer_proxy hupstream
  · exact sameAnswer_proxy hupstream

/-- An exchange whose path is clean, with what is known of the index files. -/
structure IsRoutable (full own : ServerConfig) (listenPort : Port) (exchange : Exchange) :
    Prop where
  path : IsMatchable exchange.request.path
  first : exchange.request.method = .kGet ∨ exchange.request.method = .kHead →
    FirstOrSame full own listenPort exchange.request.path exchange.request.locationEndPos

theorem selectFile_congr {fileDir : Bytes}
    (hsame : fileDir.getLast? = some slash →
      full.indexFiles listenPort = own.indexFiles listenPort) :
    selectFile ⟨full, files, listenPort, peerIp, peers, uninitialised⟩ fileDir =
      selectFile ⟨own, files, listenPort, peerIp, peers, uninitialised⟩ fileDir := by
  rw [selectFile_eq_find, selectFile_eq_find]
  exact congrArg (List.find? (isfile files)) (targetPaths_congr hsame)

/-- Servers that agree answer alike. -/
theorem sameAnswer_httpHandler (hagrees : Agrees full own listenPort)
    (hroutable : IsRoutable full own listenPort exchange) :
    SameAnswer
      (httpHandler ⟨full, files, listenPort, peerIp, peers, uninitialised⟩ exchange)
      (httpHandler ⟨own, files, listenPort, peerIp, peers, uninitialised⟩ exchange) := by
  simp only [httpHandler, HttpAccessHandler.handle, if_neg hroutable.path.ne_nil]
  by_cases hne : exchange.request.path.take exchange.request.locationEndPos = []
  · rw [if_pos hne, if_pos hne]
    exact SameAnswer.same _
  rw [if_neg hne, if_neg hne, searchLocation_eq hagrees hroutable.path hne]
  cases hsearch : searchLocation own.locations
      (exchange.request.path.take exchange.request.locationEndPos) with
  | none => exact SameAnswer.same _
  | some location =>
      have hspec := searchLocation_spec own.locations hne
      rw [hsearch] at hspec
      have hcandidate := hspec.2.1
      have hmatchable := isMatchable_of_isCandidate hroutable.path hcandidate
      have hlocation : (exchange.locate location).location = location :=
        location_locate hcandidate.1 (hcandidate.2.1.trans (List.take_prefix _ _))
      have hbody := @sameAnswer_bodyAndProxy full own listenPort files peerIp peers uninitialised
        (exchange.locate location) (by rw [hlocation, hagrees.upstreams location hmatchable])
      simp only [HttpStaticHandler.handle, hlocation]
      split_ifs with hmethod
      · exact hbody
      · rw [hagrees.aliases location hmatchable]
        cases hstatic : own.staticPath location with
        | none => exact hbody
        | some aliasDir =>
            have hasks : exchange.request.method = .kGet ∨
                exchange.request.method = .kHead := by
              rw [locate_method] at hmethod
              tauto
            have hselect := @selectFile_congr full own listenPort files peerIp peers uninitialised _
              ((hroutable.first hasks).indexFiles_of_target hagrees hmatchable hcandidate
                hstatic (List.drop_suffix (location.length - 1 + 1) exchange.request.path))
            simp only [locate_path, locate_locationEndPos, hselect]
            exact SameAnswer.same _

/-- A pass that is repeated leaves an exchange that is still routable. -/
theorem isRoutable_of_again {exchange' : Exchange} (hagrees : Agrees full own listenPort)
    (hroutable : IsRoutable full own listenPort exchange)
    (hagain : httpHandler ⟨own, files, listenPort, peerIp, peers, uninitialised⟩ exchange =
      .ret (.kHandleAgain, exchange')) : IsRoutable full own listenPort exchange' := by
  rcases access_cases (HttpStaticHandler.handle
      ⟨own, files, listenPort, peerIp, peers, uninitialised⟩
      (bodyAndProxy ⟨own, files, listenPort, peerIp, peers, uninitialised⟩)) exchange with
    ⟨hpath, _⟩ | ⟨_, _, haccess⟩ | ⟨_, location, hresult, haccess⟩
  · exact absurd hpath hroutable.path.ne_nil
  · rw [httpHandler, haccess] at hagain
    cases hagain
  · rw [httpHandler, haccess] at hagain
    obtain rfl := staticHandler_again hagain
    refine ⟨hroutable.path, fun hasks hslash => Or.inr ?_⟩
    have hmatchable := isMatchable_of_isCandidate hroutable.path hresult.2.1
    have hlocation : (exchange.locate location).location = location :=
      location_locate hresult.2.1.1 (hresult.2.1.2.1.trans (List.take_prefix _ _))
    cases hstatic : own.staticPath location with
    | none =>
        -- what is not static is not tried again for a request without a body
        have hproxy : HttpProxyHandler.handle
            ⟨own, files, listenPort, peerIp, peers, uninitialised⟩ HttpDefaultHandler.handle
            (exchange.locate location) = .ret (.kHandleAgain, exchange.locate location) := by
          rw [← hagain]
          rw [locate_method] at hasks
          rcases hasks with hmethod | hmethod <;>
            simp [HttpStaticHandler.handle, bodyAndProxy, HttpPostReadHandler.handle,
              hlocation, hstatic, hmethod]
        exact (proxyHandler_again hproxy).elim
    | some aliasDir =>
        exact (hroutable.first hasks).indexFiles_eq hagrees hmatchable hresult.2.1 hstatic
          hslash

def viewOf (result : Exec Fault (Bool × Exchange)) : Exec Fault (List Decision × Bool × ℤ) :=
  result.bind fun (forwarded, exchange) =>
    .ret (exchange.log, forwarded, exchange.response.statusCode)

/-- A pass is repeated in the same way under both configurations, or it ends with the
same route. -/
theorem handlePass_cases (hagrees : Agrees full own listenPort)
    (hroutable : IsRoutable full own listenPort exchange) :
    (∃ next, handlePass ⟨full, files, listenPort, peerIp, peers, uninitialised⟩ exchange =
          .next next ∧
        handlePass ⟨own, files, listenPort, peerIp, peers, uninitialised⟩ exchange = .next next ∧
        IsRoutable full own listenPort next) ∨
      ∃ result result',
        handlePass ⟨full, files, listenPort, peerIp, peers, uninitialised⟩ exchange =
          .done result ∧
        handlePass ⟨own, files, listenPort, peerIp, peers, uninitialised⟩ exchange =
          .done result' ∧
        viewOf result = viewOf result' := by
  have hanswer := @sameAnswer_httpHandler full own listenPort files peerIp peers uninitialised
    exchange hagrees hroutable
  have hagain := fun exchange' => @isRoutable_of_again full own listenPort files peerIp peers
    uninitialised exchange exchange' hagrees hroutable
  simp only [handlePass]
  generalize httpHandler ⟨full, files, listenPort, peerIp, peers, uninitialised⟩ exchange =
    left at hanswer ⊢
  generalize httpHandler ⟨own, files, listenPort, peerIp, peers, uninitialised⟩ exchange =
    right at hanswer hagain ⊢
  cases hanswer with
  | same =>
      cases left with
      | ret answer =>
          obtain ⟨state, next⟩ := answer
          cases state with
          | kHandleAgain => exact Or.inl ⟨next, rfl, rfl, hagain next rfl⟩
          | kHandleDone | kHandleError | kHandleDecline | kForwarded =>
              exact Or.inr ⟨_, _, rfl, rfl, rfl⟩
      | hang => exact Or.inr ⟨_, _, rfl, rfl, rfl⟩
      | fault cause => exact Or.inr ⟨_, _, rfl, rfl, rfl⟩
  | forwarded hlog hresponse =>
      exact Or.inr ⟨_, _, rfl, rfl, by simp [viewOf, hlog, hresponse]⟩

/-- Servers that agree come to the same result after the same passes. -/
theorem exists_run_eq (hagrees : Agrees full own listenPort)
    (hroutable : IsRoutable full own listenPort exchange) {rounds : ℕ}
    {result : Exec Fault (Bool × Exchange)}
    (hrun : run (handlePass ⟨full, files, listenPort, peerIp, peers, uninitialised⟩) rounds
      exchange = some result) :
    ∃ result', Returns (handlePass ⟨own, files, listenPort, peerIp, peers, uninitialised⟩)
      exchange result' ∧ viewOf result = viewOf result' := by
  induction rounds generalizing exchange with
  | zero => cases hrun
  | succ rounds ih =>
      rcases @handlePass_cases full own listenPort files peerIp peers uninitialised exchange hagrees
          hroutable with
        ⟨next, hleft, hright, hnext⟩ | ⟨left, right, hleft, hright, hview⟩
      · rw [run_succ_of_next hleft] at hrun
        obtain ⟨result', hreturns, hview⟩ := ih hnext hrun
        exact ⟨result', (returns_iff_of_next hright).mpr hreturns, hview⟩
      · rw [run_succ_of_done hleft] at hrun
        cases hrun
        exact ⟨right, returns_of_done hright, hview⟩

theorem routing_result_of_returns {env : Environment} {request : HttpRequest} {input : Bytes}
    {result : Exec Fault (Bool × Exchange)}
    (hreturns : Returns (handlePass env) { request, input } result) :
    (routing env request input).result = viewOf result := by
  simp only [routing, onRequest_of_returns hreturns]
  cases result with
  | ret answer => simp [viewOf, routeOf]
  | hang | fault => rfl

/-- A request with a path is routed alike under configurations that agree. -/
theorem routing_eq (hagrees : Agrees full own listenPort) {request : HttpRequest}
    (hpath : IsMatchable request.path) (hpos : request.locationEndPos = request.path.length)
    (input : Bytes) :
    routing ⟨full, files, listenPort, peerIp, peers, uninitialised⟩ request input =
      routing ⟨own, files, listenPort, peerIp, peers, uninitialised⟩ request input := by
  have hfirst : FirstOrSame full own listenPort request.path request.locationEndPos :=
    fun _ => Or.inl hpos
  have htried :
      (routing ⟨full, files, listenPort, peerIp, peers, uninitialised⟩ request input).tried =
      (routing ⟨own, files, listenPort, peerIp, peers, uninitialised⟩ request input).tried := by
    simp only [routing, attempts_eq hagrees hpath hfirst]
  obtain ⟨result, rounds, hrun⟩ := terminates_of_path_ne_nil
    (show (Exchange.mk request {} input []).request.path ≠ [] from hpath.ne_nil)
  obtain ⟨result', hreturns, hview⟩ := exists_run_eq hagrees ⟨hpath, fun _ => hfirst⟩ hrun
  have hresult := (routing_result_of_returns ⟨rounds, hrun⟩).trans
    (hview.trans (routing_result_of_returns hreturns).symm)
  calc
    routing ⟨full, files, listenPort, peerIp, peers, uninitialised⟩ request input =
        ⟨(routing ⟨full, files, listenPort, peerIp, peers, uninitialised⟩ request input).tried,
          (routing ⟨full, files, listenPort, peerIp, peers, uninitialised⟩ request input).result⟩ :=
      rfl
    _ = routing ⟨own, files, listenPort, peerIp, peers, uninitialised⟩ request input := by
      rw [htried, hresult]

theorem sameRouting_of_agrees (hagrees : Agrees full own listenPort) :
    SameRouting full own listenPort := by
  intro old context bytes rest hparse _ files peerIp peers uninitialised
  obtain ⟨head, _, rfl⟩ := exists_requestHead_of_accepted hparse
  by_cases hne : head.decoded.path = []
  · have hpos : head.decoded.path.take head.decoded.locationEndPos = [] := by
      rw [hne, List.take_nil]
    simp only [routing, onRequest_of_path_nil _ hne, attempts_of_take_nil hpos]
  · exact routing_eq hagrees (isMatchable_decoded hne) rfl rest

end Agreement

end Cuber.Routing
