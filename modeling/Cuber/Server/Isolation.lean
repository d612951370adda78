import Cuber.Config.Merging
import Cuber.Server.Routing

/-!
# The ports of a configuration

All servers of a process route by the same tables, and the entries for all ports
are merged into them.  This module works out for which entries this makes no
difference to a port: when a request on it is routed as if the entry for the port
had been the only one.
-/

namespace Cuber.Isolation

open Cuber.Acceptance
open Cuber.Buffer
open Cuber.Config
open Cuber.Context
open Cuber.Execution
open Cuber.FileUtil
open Cuber.Handlers
open Cuber.Headers
open Cuber.Loading
open Cuber.LocationSearch
open Cuber.Loop
open Cuber.Maps
open Cuber.Merging
open Cuber.Request
open Cuber.Response
open Cuber.RoundTrip
open Cuber.Routing
open Cuber.Server
open Cuber.StaticSearch
open Cuber.Text

/-! ## Probes -/

theorem isLine_probe {name path : Bytes} (hline : IsLine name) (hpath : IsMatchable path) :
    IsLine (name ++ SP :: (path ++ SP :: ascii "HTTP/1.1")) :=
  isLine_append_SP hline (isLine_append_SP hpath.isLine (by decide))

theorem isVersion_probe :
    ascii "HTTP/1.1" = ascii "HTTP/1.1" ∨ ascii "HTTP/1.1" = ascii "HTTP/1.0" :=
  Or.inl rfl

/-- A request for a path that is a location, or begins with one. -/
def probeHead (name path : Bytes) (lines : List Bytes) (hname : methodOf name ≠ .kInvalid)
    (hline : IsLine name) (hpath : IsMatchable path)
    (hlines : ∀ line ∈ lines, IsHeaderLine line) : RequestHead where
  method := name
  target := path
  version := ascii "HTTP/1.1"
  lines := lines
  method_known := hname
  target_spaces := hpath.spaces
  version_known := isVersion_probe
  isLine := isLine_probe hline hpath
  isHeaderLines := hlines

def probe (name path : Bytes) (lines : List Bytes) : HttpRequest where
  method := methodOf name
  version := .kHttp11
  path := path
  locationEndPos := path.length
  headers := storeLines OrderedMap.empty lines

theorem decoded_probeHead {name path : Bytes} {lines : List Bytes}
    {hname : methodOf name ≠ .kInvalid} {hline : IsLine name} (hpath : IsMatchable path)
    {hlines : ∀ line ∈ lines, IsHeaderLine line} :
    (probeHead name path lines hname hline hpath hlines).decoded = probe name path lines := by
  have hfree : ∀ byte ∈ path, decide (byte ≠ question) = true := fun byte hbyte =>
    decide_eq_true fun heq => hpath.questions (heq ▸ hbyte)
  have htake : path.takeWhile (fun byte => decide (byte ≠ question)) = path :=
    List.takeWhile_eq_self_iff.mpr hfree
  have hdrop : path.dropWhile (fun byte => decide (byte ≠ question)) = [] :=
    List.dropWhile_eq_nil_iff.mpr hfree
  simp only [RequestHead.decoded, probeHead, probe, htake, hdrop, if_pos]

def bareEnv (config : ServerConfig) (listenPort : Port) : Environment where
  config := config
  listenPort := listenPort

section Probes

variable {full own config : ServerConfig} {listenPort : Port} {path location : Bytes}
  {lines : List Bytes}

theorem routing_probe_eq (hsame : SameRouting full own listenPort) {name : Bytes}
    (hname : name = ascii "GET" ∨ name = ascii "POST") (hpath : IsMatchable path)
    (hlines : ∀ line ∈ lines, IsHeaderLine line) :
    routing (bareEnv full listenPort) (probe name path lines) [] =
      routing (bareEnv own listenPort) (probe name path lines) [] := by
  have hmethod : methodOf name ≠ .kInvalid ∧ IsLine name ∧
      (methodOf name = .kGet ∨ methodOf name = .kHead ∨ methodOf name = .kPost) := by
    rcases hname with rfl | rfl <;> decide
  let head := probeHead name path lines hmethod.1 hmethod.2.1 hpath hlines
  have hroute := hsame {} _ _ [] (head.parseRequest_eq {} []) hmethod.2.2 (fun _ => none) []
    (fun _ => []) 0
  rw [decoded_probeHead] at hroute
  exact hroute

/-- A POST request goes from the location search to the body and the proxy. -/
theorem httpHandler_post {env : Environment} {request : HttpRequest} {input : Bytes}
    (hpost : request.method = .kPost) (hne : request.path ≠ [])
    (hpos : request.locationEndPos = request.path.length) :
    httpHandler env { request, input } =
      match searchLocation env.config.locations request.path with
      | none => .ret (.kHandleDone, Exchange.setStatusCode { request, input } k404NotFound)
      | some location => bodyAndProxy env (Exchange.locate { request, input } location) := by
  have htake : request.path.take request.locationEndPos = request.path := by
    rw [hpos, List.take_length]
  simp only [httpHandler, HttpAccessHandler.handle, if_neg hne, htake]
  cases searchLocation env.config.locations request.path with
  | none => rfl
  | some location =>
      simp [HttpStaticHandler.handle, hpost]

/-- A pass that is not repeated decides the route. -/
theorem routing_result_of_httpHandler {env : Environment} {request : HttpRequest}
    {input : Bytes} {answer : HandlerResult}
    (hhandle : httpHandler env { request, input } = answer)
    (hsettled : ∀ exchange, answer ≠ .ret (.kHandleAgain, exchange)) :
    (routing env request input).result = answer.bind fun (state, exchange) =>
      .ret (exchange.log, decide (state = .kForwarded), exchange.response.statusCode) := by
  obtain ⟨result, hpass, hview⟩ : ∃ result,
      handlePass env { request, input } = .done result ∧
        viewOf result = answer.bind fun (state, exchange) =>
          .ret (exchange.log, decide (state = .kForwarded),
            exchange.response.statusCode) := by
    simp only [handlePass, hhandle]
    cases answer with
    | ret answer =>
        obtain ⟨state, exchange⟩ := answer
        cases state with
        | kHandleAgain => exact absurd rfl (hsettled exchange)
        | kHandleDone | kHandleError | kHandleDecline | kForwarded => exact ⟨_, rfl, rfl⟩
    | hang | fault => exact ⟨_, rfl, rfl⟩
  rw [routing_result_of_returns (returns_of_done hpass), hview]

def badLength : List Bytes := [ascii "Content-Length: x"]

/-- A body of unknown length is refused at the location found, before the proxy is
consulted. -/
theorem routing_badLength (hne : path ≠ []) :
    (routing (bareEnv config listenPort) (probe (ascii "POST") path badLength) []).result =
      match searchLocation config.locations path with
      | none => .ret ([], false, k404NotFound)
      | some location => .ret ([.located location], false, k400BadRequest) := by
  have hmethod : (probe (ascii "POST") path badLength).method = .kPost := by
    show methodOf (ascii "POST") = .kPost
    decide
  have hheader : (probe (ascii "POST") path badLength).getHeader contentLength = ascii "x" := by
    show valueOf (storeLines OrderedMap.empty badLength) contentLength = ascii "x"
    decide
  have hvalue : stoi (ascii "x") = none := by decide
  have hhandle := @httpHandler_post (bareEnv config listenPort)
    (probe (ascii "POST") path badLength) [] hmethod hne rfl
  rw [show (bareEnv config listenPort).config = config from rfl,
    show (probe (ascii "POST") path badLength).path = path from rfl] at hhandle
  cases hsearch : searchLocation config.locations path with
  | none =>
      rw [hsearch] at hhandle
      rw [routing_result_of_httpHandler hhandle fun _ => by simp]
      rfl
  | some location =>
      have hrefused : bodyAndProxy (bareEnv config listenPort)
          (Exchange.locate ⟨probe (ascii "POST") path badLength, {}, [], []⟩ location) =
            .ret (.kHandleError, (Exchange.locate ⟨probe (ascii "POST") path badLength, {}, [],
              []⟩ location).setStatusCode k400BadRequest) := by
        simp only [bodyAndProxy, HttpPostReadHandler.handle, locate_method, hmethod,
          locate_getHeader, hheader, hvalue, if_true]
        rw [if_pos (by decide)]
      rw [hsearch] at hhandle
      rw [routing_result_of_httpHandler (hhandle.trans hrefused) fun _ => by simp]
      rfl

/-- A POST request without a body is forwarded from the location found, or answered
where there is no proxy. -/
theorem routing_noBody (hne : path ≠ []) (hpath : path ∈ config.locations) :
    (routing (bareEnv config listenPort) (probe (ascii "POST") path []) []).result =
      match chosenUpstream config path with
      | none => .ret ([.located path], false, k404NotFound)
      | some decoded => decoded.bind fun upstream =>
          .ret ([.located path, .proxied upstream], true, kUnknown) := by
  have hmethod : (probe (ascii "POST") path []).method = .kPost := by
    show methodOf (ascii "POST") = .kPost
    decide
  have hheader : (probe (ascii "POST") path []).getHeader contentLength = [] := rfl
  have hlocation : (Exchange.locate ⟨probe (ascii "POST") path [], {}, [], []⟩ path).location =
      path := location_locate hne List.prefix_rfl
  have hhandle := @httpHandler_post (bareEnv config listenPort)
    (probe (ascii "POST") path []) [] hmethod hne rfl
  rw [show (bareEnv config listenPort).config.locations = config.locations from rfl,
    show (probe (ascii "POST") path []).path = path from rfl,
    (searchLocation_self_iff hne).mpr hpath] at hhandle
  simp only [bodyAndProxy, HttpPostReadHandler.handle, locate_method, hmethod,
    locate_getHeader, hheader, if_true, ne_eq, not_true_eq_false, if_false,
    HttpProxyHandler.handle, hlocation] at hhandle
  rw [show (bareEnv config listenPort).config = config from rfl] at hhandle
  rw [chosenUpstream]
  cases hproxy : config.proxyInfo path with
  | none =>
      rw [hproxy] at hhandle
      rw [routing_result_of_httpHandler hhandle fun _ => by simp [HttpDefaultHandler.handle]]
      rfl
  | some proxy =>
      simp only [hproxy] at hhandle
      rw [Option.map_some]
      cases hdecode : decodeAddress (config.upstreamInfo proxy.upstreamName).address with
      | ret upstream =>
          simp only [hdecode, Exec.ret_bind] at hhandle
          rw [routing_result_of_httpHandler hhandle fun _ => by simp]
          rfl
      | hang | fault =>
          rw [hdecode] at hhandle
          rw [routing_result_of_httpHandler hhandle fun _ => by simp [Exec.bind]]
          rfl

/-- A probe tries the names of its location first. -/
theorem tried_get (hne : path ≠ []) (hsearch : searchLocation config.locations path =
      some location) :
    (routing (bareEnv config listenPort) (probe (ascii "GET") path []) []).tried =
      match config.staticPath location with
      | none => []
      | some aliasDir =>
          (targetPaths (config.indexFiles listenPort)
              (aliasDir ++ path.drop location.length)).map (location, ·) ++
            attempts config listenPort path (location.length - 1) := by
  have hmethod : (probe (ascii "GET") path []).method = .kGet := by
    show methodOf (ascii "GET") = .kGet
    decide
  have htake : path.take path.length = path := List.take_length
  calc
    (routing (bareEnv config listenPort) (probe (ascii "GET") path []) []).tried =
        attempts config listenPort path path.length := by
      rw [routing, if_pos (Or.inl hmethod)]
      rfl
    _ = _ := by
      apply attempts_of_location
      · rwa [htake]
      · rwa [htake]

/-- The names tried at a location are those with it, since the later ones come with
shorter locations. -/
theorem filter_tried_get (hne : path ≠ [])
    (hsearch : searchLocation config.locations path = some location) {aliasDir : Bytes}
    (hstatic : config.staticPath location = some aliasDir) :
    ((routing (bareEnv config listenPort) (probe (ascii "GET") path []) []).tried.filter
        fun attempt => attempt.1 = location) =
      (targetPaths (config.indexFiles listenPort)
        (aliasDir ++ path.drop location.length)).map (location, ·) := by
  have hspec := searchLocation_spec config.locations hne
  rw [hsearch] at hspec
  have hpos := List.length_pos_of_ne_nil hspec.2.1.1
  have hlater : (attempts config listenPort path (location.length - 1)).filter
      (fun attempt => attempt.1 = location) = [] := by
    apply List.filter_eq_nil_iff.mpr
    rintro ⟨other, name⟩ hmem hother
    have hle := length_le_of_mem_attempts hmem
    rw [decide_eq_true_eq] at hother
    rw [show other = location from hother] at hle
    omega
  have hhere : ((targetPaths (config.indexFiles listenPort)
      (aliasDir ++ path.drop location.length)).map (location, ·)).filter
        (fun attempt => attempt.1 = location) =
      (targetPaths (config.indexFiles listenPort)
        (aliasDir ++ path.drop location.length)).map (location, ·) := by
    apply List.filter_eq_self.mpr
    intro attempt hmem
    obtain ⟨name, _, rfl⟩ := List.mem_map.mp hmem
    exact decide_eq_true rfl
  rw [tried_get hne hsearch, hstatic, List.filter_append, hhere, hlater, List.append_nil]

theorem indexPaths_injective {indexes indexes' : List Bytes} {fileDir : Bytes}
    (hpaths : indexPaths fileDir indexes = indexPaths fileDir indexes') :
    indexes = indexes' := by
  induction indexes generalizing fileDir indexes' with
  | nil =>
      cases indexes' with
      | nil => rfl
      | cons => cases hpaths
  | cons index indexes ih =>
      cases indexes' with
      | nil => cases hpaths
      | cons index' indexes' =>
          rw [indexPaths, indexPaths, List.cons.injEq] at hpaths
          obtain rfl := List.append_cancel_left hpaths.1
          rw [ih hpaths.2]

/-- A path that goes on behind a location up to a further slash, and at which the
location is found although it is not the whole path. -/
theorem exists_fresh_extension (known : Finset Bytes) (hlocation : IsMatchable location)
    (hslash : location.getLast? = some slash) :
    ∃ rest, IsMatchable (location ++ rest) ∧ rest.getLast? = some slash ∧
      ∀ locations ⊆ known, location ∈ locations →
        searchLocation locations (location ++ rest) = some location := by
  obtain ⟨before, rfl⟩ := List.getLast?_eq_some_iff.mp hslash
  let extension (count : ℕ) : Bytes :=
    before ++ slash :: (List.replicate count dot ++ [slash])
  have hinjective : Function.Injective extension := by
    intro count count' heq
    have hlength := congrArg List.length heq
    simpa [extension] using hlength
  obtain ⟨_, ⟨count, rfl⟩, hfresh⟩ :=
    (Set.infinite_range_of_injective hinjective).exists_notMem_finset known
  have hpath : before ++ [slash] ++ (List.replicate count dot ++ [slash]) =
      extension count := by
    simp [extension]
  refine ⟨List.replicate count dot ++ [slash], ?_, by simp, ?_⟩
  · apply hlocation.append
    intro byte hbyte
    rcases List.mem_append.mp hbyte with hdot | hlast
    · rw [List.eq_of_mem_replicate hdot]
      decide
    · rw [List.mem_singleton.mp hlast]
      decide
  · intro locations hknown hmem
    have hafter : slash ∉ List.replicate count dot := by
      intro hslash
      exact absurd (List.eq_of_mem_replicate hslash) (by decide)
    rw [hpath]
    apply searchLocation_eq_of_isSearchResult (by simp [extension])
    refine ⟨hmem, ?_, ?_⟩
    · apply (isCandidate_iff_of_slash hafter _).mpr
      exact Or.inr ⟨by simp, List.prefix_rfl, Or.inl rfl⟩
    · intro other hother hcandidate
      rcases (isCandidate_iff_of_slash hafter other).mp hcandidate with rfl | hshorter
      · exact absurd (hknown hother) hfresh
      · exact hshorter.2.1.length_le

end Probes

/-! ## Routed alike, the tables agree -/

section Necessity

variable {full own : ServerConfig} {listenPort : Port} {location : Bytes}

theorem isHeaderLine_badLength : ∀ line ∈ badLength, IsHeaderLine line := by
  decide

/-- Servers that route alike have the same locations. -/
theorem locations_of_sameRouting (hsame : SameRouting full own listenPort)
    (hlocation : IsMatchable location) :
    location ∈ full.locations ↔ location ∈ own.locations := by
  have hresult := congrArg Outcome.result
    (routing_probe_eq hsame (Or.inr rfl) hlocation isHeaderLine_badLength)
  rw [routing_badLength hlocation.ne_nil, routing_badLength hlocation.ne_nil] at hresult
  rw [← searchLocation_self_iff hlocation.ne_nil, ← searchLocation_self_iff hlocation.ne_nil]
  have hsearch : searchLocation full.locations location =
      searchLocation own.locations location := by
    cases hfull : searchLocation full.locations location with
    | none =>
        rw [hfull] at hresult
        cases hown : searchLocation own.locations location with
        | none => rfl
        | some other =>
            rw [hown] at hresult
            cases hresult
    | some matched =>
        rw [hfull] at hresult
        cases hown : searchLocation own.locations location with
        | none =>
            rw [hown] at hresult
            cases hresult
        | some other =>
            rw [hown] at hresult
            cases hresult
            rfl
  rw [hsearch]

/-- Without a proxy at a location nothing is forwarded from it. -/
theorem chosenUpstream_of_not_mem {config : ServerConfig} (hconsistent : Consistent config)
    (hlocation : location ∉ config.locations) : chosenUpstream config location = none := by
  rw [chosenUpstream, Option.map_eq_none_iff]
  apply Option.eq_none_iff_forall_ne_some.mpr
  intro proxy hproxy
  apply hlocation
  rw [hconsistent.locations, Finset.mem_union]
  exact Or.inl (OrderedMap.mem_keys_iff.mpr ⟨proxy, hproxy⟩)

theorem staticPath_of_not_mem {config : ServerConfig} (hconsistent : Consistent config)
    (hlocation : location ∉ config.locations) : config.staticPath location = none := by
  rw [ServerConfig.staticPath, Option.map_eq_none_iff]
  apply Option.eq_none_iff_forall_ne_some.mpr
  intro info hstatic
  apply hlocation
  rw [hconsistent.locations, Finset.mem_union]
  exact Or.inr (OrderedMap.mem_keys_iff.mpr ⟨info, hstatic⟩)

/-- Servers that route alike have the same upstreams. -/
theorem upstreams_of_sameRouting (hfull : Consistent full) (hown : Consistent own)
    (hsame : SameRouting full own listenPort) (hlocation : IsMatchable location) :
    chosenUpstream full location = chosenUpstream own location := by
  have hlocations := locations_of_sameRouting hsame hlocation
  by_cases hmem : location ∈ own.locations
  · have hresult := congrArg Outcome.result
      (routing_probe_eq hsame (Or.inr rfl) hlocation (List.forall_mem_nil _))
    rw [routing_noBody hlocation.ne_nil (hlocations.mpr hmem),
      routing_noBody hlocation.ne_nil hmem] at hresult
    cases hleft : chosenUpstream full location with
    | none =>
        cases hright : chosenUpstream own location with
        | none => rfl
        | some decoded => cases decoded <;> simp [hleft, hright] at hresult
    | some decoded =>
        cases hright : chosenUpstream own location with
        | none => cases decoded <;> simp [hleft, hright] at hresult
        | some decoded' =>
            cases decoded <;> cases decoded' <;> simp_all
  · rw [chosenUpstream_of_not_mem hown hmem,
      chosenUpstream_of_not_mem hfull fun h => hmem (hlocations.mp h)]

theorem head_tried_get (hlocation : IsMatchable location) {config : ServerConfig}
    (hmem : location ∈ config.locations) :
    (routing (bareEnv config listenPort) (probe (ascii "GET") location []) []).tried.head? =
      (config.staticPath location).map fun aliasDir => (location, aliasDir) := by
  rw [tried_get hlocation.ne_nil ((searchLocation_self_iff hlocation.ne_nil).mpr hmem)]
  cases config.staticPath location with
  | none => rfl
  | some aliasDir => simp [targetPaths]

/-- Servers that route alike have the same directories. -/
theorem aliases_of_sameRouting (hfull : Consistent full) (hown : Consistent own)
    (hsame : SameRouting full own listenPort) (hlocation : IsMatchable location) :
    full.staticPath location = own.staticPath location := by
  have hlocations := locations_of_sameRouting hsame hlocation
  by_cases hmem : location ∈ own.locations
  · have htried := congrArg (fun outcome => outcome.tried.head?)
      (routing_probe_eq hsame (Or.inl rfl) hlocation (List.forall_mem_nil _))
    simp only [head_tried_get hlocation hmem,
      head_tried_get hlocation (hlocations.mpr hmem)] at htried
    apply Option.map_injective _ htried
    intro aliasDir aliasDir' heq
    exact congrArg Prod.snd heq
  · rw [staticPath_of_not_mem hown hmem,
      staticPath_of_not_mem hfull fun h => hmem (hlocations.mp h)]

/-- The index files show where the name tried first ends in a slash. -/
theorem indexFiles_eq_of_search (hsame : SameRouting full own listenPort) {path : Bytes}
    (hpath : IsMatchable path) (hfull : searchLocation full.locations path = some location)
    (hown : searchLocation own.locations path = some location) {aliasDir : Bytes}
    (haliasFull : full.staticPath location = some aliasDir)
    (haliasOwn : own.staticPath location = some aliasDir)
    (hslash : (aliasDir ++ path.drop location.length).getLast? = some slash) :
    full.indexFiles listenPort = own.indexFiles listenPort := by
  have htried := congrArg (fun outcome => outcome.tried.filter
      fun attempt => attempt.1 = location)
    (routing_probe_eq hsame (Or.inl rfl) hpath (List.forall_mem_nil _))
  simp only [filter_tried_get hpath.ne_nil hfull haliasFull,
    filter_tried_get hpath.ne_nil hown haliasOwn] at htried
  have htargets := List.map_injective_iff.mpr (Prod.mk_right_injective location) htried
  rw [targetPaths, targetPaths, if_pos hslash, if_pos hslash, List.cons.injEq] at htargets
  exact indexPaths_injective htargets.2

/-- Servers that route alike have the same index files, if they look for one. -/
theorem indexes_of_sameRouting (hfull : Consistent full) (hown : Consistent own)
    (hsame : SameRouting full own listenPort) (htries : TriesIndex own) :
    full.indexFiles listenPort = own.indexFiles listenPort := by
  obtain ⟨location, aliasDir, hlocation, halias, hslash⟩ := htries
  have haliasFull := (aliases_of_sameRouting hfull hown hsame hlocation).trans halias
  have hmem : location ∈ own.locations := by
    by_contra hmem
    rw [staticPath_of_not_mem hown hmem] at halias
    cases halias
  have hmemFull := (locations_of_sameRouting hsame hlocation).mpr hmem
  rcases hslash with hslash | hslash
  · obtain ⟨rest, hpath, hlast, hfound⟩ :=
      exists_fresh_extension (full.locations ∪ own.locations) hlocation hslash
    apply indexFiles_eq_of_search hsame hpath
      (hfound _ Finset.subset_union_left hmemFull)
      (hfound _ Finset.subset_union_right hmem) haliasFull halias
    obtain ⟨front, rfl⟩ := List.getLast?_eq_some_iff.mp hlast
    rw [List.drop_left, ← List.append_assoc]
    exact List.getLast?_concat
  · apply indexFiles_eq_of_search hsame hlocation
      ((searchLocation_self_iff hlocation.ne_nil).mpr hmemFull)
      ((searchLocation_self_iff hlocation.ne_nil).mpr hmem) haliasFull halias
    rw [List.drop_length, List.append_nil]
    exact hslash

/-- Two configurations route the requests on a port alike exactly when their tables
agree in what these requests can come across. -/
theorem sameRouting_iff_agrees (hfull : Consistent full) (hown : Consistent own) :
    SameRouting full own listenPort ↔ Agrees full own listenPort := by
  constructor
  · intro hsame
    exact {
      locations := fun _ hlocation => locations_of_sameRouting hsame hlocation
      aliases := fun _ hlocation => aliases_of_sameRouting hfull hown hsame hlocation
      upstreams := fun _ hlocation => upstreams_of_sameRouting hfull hown hsame hlocation
      indexes := fun htries => indexes_of_sameRouting hfull hown hsame htries }
  · exact sameRouting_of_agrees

end Necessity

/-! ## The entries of a configuration -/

/-- The upstream to which some entries forward from a location, or the exception that
is thrown when its address is decoded. -/
def upstreamIn (upstreams : List Upstream) (entries : List ServerEntry) (location : Bytes) :
    Option (Exec Fault UpstreamAddress) :=
  (proxyIn entries location).map fun proxy =>
    decodeAddress ((lastValue (upstreams.map fun upstream => (upstream.name, upstream))
      proxy.upstreamName).getD {}).address

/-- The entries before and after one for a port do not disturb it: no other entry has a
further location, or has the last word on what a location is, and no index files
are taken over where index files are tried. -/
structure Isolated (upstreams : List Upstream) (before : List ServerEntry)
    (entry : ServerEntry) (after : List ServerEntry) : Prop where
  locations : ∀ other ∈ before ++ after, ∀ location ∈ locationsOf other,
    IsMatchable location → location ∈ locationsOf entry
  aliases : ∀ location, IsMatchable location →
    aliasIn (before ++ entry :: after) location = aliasIn [entry] location
  upstreams : ∀ location, IsMatchable location →
    upstreamIn upstreams (before ++ entry :: after) location =
      upstreamIn upstreams [entry] location
  indexes : (∃ location aliasDir, IsMatchable location ∧
      aliasIn [entry] location = some aliasDir ∧
      (location.getLast? = some slash ∨ aliasDir.getLast? = some slash)) →
    entry.index.getD (inheritedIndex before) = entry.index.getD []

section Entries

variable {base base' full own config : ServerConfig} {upstreams : List Upstream}
  {entries before after : List ServerEntry} {entry : ServerEntry} {location : Bytes}

theorem chosenUpstream_eq (hmerged : IsMerged upstreams entries config) (location : Bytes) :
    chosenUpstream config location = upstreamIn upstreams entries location := by
  rw [chosenUpstream, upstreamIn, hmerged.proxies]
  congr 1
  funext proxy
  rw [ServerConfig.upstreamInfo, hmerged.upstreams, OrderedMap.find?_insertAll,
    OrderedMap.find?_empty, Option.or_none]

theorem mem_locations_iff (hown : IsMerged upstreams [entry] own) :
    location ∈ own.locations ↔ location ∈ locationsOf entry := by
  rw [hown.locations]
  simp

/-- The entries besides one are among all entries. -/
theorem mem_entries_of_mem_others {other : ServerEntry} (hother : other ∈ before ++ after) :
    other ∈ before ++ entry :: after := by
  rcases List.mem_append.mp hother with hbefore | hafter
  · exact List.mem_append_left _ hbefore
  · exact List.mem_append_right _ (List.mem_cons_of_mem _ hafter)

theorem mem_others_or_eq {other : ServerEntry} (hother : other ∈ before ++ entry :: after) :
    other = entry ∨ other ∈ before ++ after := by
  rcases List.mem_append.mp hother with hbefore | hrest
  · exact Or.inr (List.mem_append_left _ hbefore)
  · rcases List.mem_cons.mp hrest with heq | hafter
    · exact Or.inl heq
    · exact Or.inr (List.mem_append_right _ hafter)

/-- Servers that agree are isolated. -/
theorem isolated_of_agrees (hfull : IsMerged upstreams (before ++ entry :: after) full)
    (hown : IsMerged upstreams [entry] own)
    (hindexFull : full.indexFiles entry.listenPort = entry.index.getD (inheritedIndex before))
    (hindexOwn : own.indexFiles entry.listenPort = entry.index.getD [])
    (hagrees : Agrees full own entry.listenPort) :
    Isolated upstreams before entry after where
  locations other hother location hnamed hmatchable := by
    rw [← mem_locations_iff hown, ← hagrees.locations location hmatchable, hfull.locations]
    exact ⟨other, mem_entries_of_mem_others hother, hnamed⟩
  aliases location hmatchable := by
    rw [← hfull.aliases, ← hown.aliases]
    exact hagrees.aliases location hmatchable
  upstreams location hmatchable := by
    rw [← chosenUpstream_eq hfull, ← chosenUpstream_eq hown]
    exact hagrees.upstreams location hmatchable
  indexes hslashed := by
    obtain ⟨location, aliasDir, hmatchable, halias, hslash⟩ := hslashed
    rw [← hindexFull, hagrees.indexes ⟨location, aliasDir, hmatchable,
      (hown.aliases location).trans halias, hslash⟩]
    exact hindexOwn

/-- Isolated servers agree. -/
theorem agrees_of_isolated (hfull : IsMerged upstreams (before ++ entry :: after) full)
    (hown : IsMerged upstreams [entry] own)
    (hindexFull : full.indexFiles entry.listenPort = entry.index.getD (inheritedIndex before))
    (hindexOwn : own.indexFiles entry.listenPort = entry.index.getD [])
    (hisolated : Isolated upstreams before entry after) :
    Agrees full own entry.listenPort where
  locations location hmatchable := by
    rw [mem_locations_iff hown, hfull.locations]
    constructor
    · intro hlocation
      obtain ⟨other, hother, hnamed⟩ := hlocation
      rcases mem_others_or_eq hother with rfl | hothers
      · exact hnamed
      · exact hisolated.locations other hothers location hnamed hmatchable
    · intro hnamed
      exact ⟨entry, by simp, hnamed⟩
  aliases location hmatchable := by
    rw [hfull.aliases, hown.aliases]
    exact hisolated.aliases location hmatchable
  upstreams location hmatchable := by
    rw [chosenUpstream_eq hfull, chosenUpstream_eq hown]
    exact hisolated.upstreams location hmatchable
  indexes hslashed := by
    obtain ⟨location, aliasDir, hmatchable, hstatic, hslash⟩ := hslashed
    rw [hindexFull, hindexOwn]
    exact hisolated.indexes ⟨location, aliasDir, hmatchable,
      (hown.aliases location).symm.trans hstatic, hslash⟩

theorem agrees_iff_isolated
    (hports : ((before ++ entry :: after).map ServerEntry.listenPort).Nodup)
    (hbase : IsMainOnly base) (hbase' : IsMainOnly base')
    (hfull : configure base upstreams (before ++ entry :: after) = .ret full)
    (hown : configure base' upstreams [entry] = .ret own) :
    Agrees full own entry.listenPort ↔ Isolated upstreams before entry after := by
  have hmergedFull := isMerged_of_configure hbase hfull
  have hmergedOwn := isMerged_of_configure hbase' hown
  have hindexFull := indexFiles_of_configure hports hfull
  have hindexOwn := @indexFiles_of_configure base' own upstreams [] [] entry (by simp) hown
  constructor
  · exact isolated_of_agrees hmergedFull hmergedOwn hindexFull hindexOwn
  · exact agrees_of_isolated hmergedFull hmergedOwn hindexFull hindexOwn

/-- For the configuration loaded from any document, and an entry of it for a port of its
own: requests on the port are routed as under the entry alone, with the upstream
section and whatever main section, exactly when the other entries do not disturb it. -/
theorem sameRouting_iff {Document Node : Type} {reader : YamlReader Document Node}
    {document : Document} {root : Node} (hload : loadConfig reader document root = .ret full)
    (hread : readConfig reader document root = .ret (upstreams, before ++ entry :: after))
    (hports : ((before ++ entry :: after).map ServerEntry.listenPort).Nodup)
    (hbase : IsMainOnly base) :
    ∃ own, configure base upstreams [entry] = .ret own ∧
      (SameRouting full own entry.listenPort ↔ Isolated upstreams before entry after) := by
  obtain ⟨upstreams', entries', hread', base', hbase', hfull⟩ := configure_of_loadConfig hload
  cases hread.symm.trans hread'
  obtain ⟨own, hown⟩ := exists_configure_single hbase' hbase hfull
  refine ⟨own, hown, ?_⟩
  calc
    SameRouting full own entry.listenPort ↔ Agrees full own entry.listenPort :=
      sameRouting_iff_agrees (consistent_of_configure hbase' hfull).1
        (consistent_of_configure hbase hown).1
    _ ↔ Isolated upstreams before entry after :=
      agrees_iff_isolated hports hbase' hbase hfull hown

end Entries

/-! ## Two servers -/

/-- Two servers that each proxy everything to an upstream. -/
def twoServers (first second : Bytes) : List YamlNode :=
  [.mapping [(ascii "main", 1), (ascii "upstream", 2), (ascii "server", 3)],
    .mapping [(ascii "max_workers", 8), (ascii "keepalive_timeout", 8),
      (ascii "worker_connections", 8)],
    .sequence [4, 5], .sequence [6, 7],
    .mapping [(ascii "name", 9), (ascii "server", 10), (ascii "max_fails", 8),
      (ascii "fail_timeout", 8)],
    .mapping [(ascii "name", 11), (ascii "server", 12), (ascii "max_fails", 8),
      (ascii "fail_timeout", 8)],
    .mapping [(ascii "listen", 13), (ascii "workers", 8), (ascii "root_path", 15),
      (ascii "proxy", 16)],
    .mapping [(ascii "listen", 14), (ascii "workers", 8), (ascii "root_path", 15),
      (ascii "proxy", 17)],
    .scalar (ascii "1"), .scalar (ascii "a"), .scalar (ascii "10.0.0.1:80"),
    .scalar (ascii "b"), .scalar (ascii "10.0.0.2:80"), .scalar (ascii "80"),
    .scalar (ascii "81"), .scalar (ascii "/"), .sequence [18], .sequence [19],
    .mapping [(ascii "location", 15), (ascii "proxy_pass", 20)],
    .mapping [(ascii "location", 15), (ascii "proxy_pass", 21)],
    .scalar first, .scalar second]

def twoUpstreams : List Upstream :=
  [⟨ascii "a", ascii "10.0.0.1:80", 1, 1⟩, ⟨ascii "b", ascii "10.0.0.2:80", 1, 1⟩]

def rootEntry (listenPort : Port) (upstreamName : Bytes) : ServerEntry where
  listenPort := listenPort
  workers := 1
  rootPath := ascii "/"
  proxies := [⟨ascii "/", upstreamName, []⟩]

def mainOnly : ServerConfig := { mainConf := ⟨1, 1, 1, OrderedMap.empty⟩ }

def configOf (entries : List ServerEntry) : ServerConfig :=
  match configure mainOnly twoUpstreams entries with
  | .ret config => config
  | _ => {}

theorem sameRouting_twoServers :
    SameRouting (configOf [rootEntry httpPort (ascii "a"), rootEntry (toPort 81) (ascii "a")])
      (configOf [rootEntry httpPort (ascii "a")]) httpPort := by
  have hload : loadConfig tableReader (twoServers (ascii "a") (ascii "a")) 0 =
      .ret (configOf [rootEntry httpPort (ascii "a"),
        rootEntry (toPort 81) (ascii "a")]) := by
    decide +kernel
  have hread : readConfig tableReader (twoServers (ascii "a") (ascii "a")) 0 =
      .ret (twoUpstreams, [] ++ rootEntry httpPort (ascii "a") ::
        [rootEntry (toPort 81) (ascii "a")]) := by
    decide +kernel
  have hown : configure mainOnly twoUpstreams [rootEntry httpPort (ascii "a")] =
      .ret (configOf [rootEntry httpPort (ascii "a")]) := by
    decide +kernel
  obtain ⟨own, hconfigure, hiff⟩ := sameRouting_iff hload hread (by decide)
    (show IsMainOnly mainOnly from ⟨_, _, rfl⟩)
  cases hown.symm.trans hconfigure
  apply hiff.mpr
  refine ⟨?_, fun _ _ => rfl, ?_, ?_⟩
  · intro other hother location hnamed _
    rw [List.mem_singleton.mp hother] at hnamed
    exact hnamed
  · intro location _
    have hproxy : proxyIn ([] ++ rootEntry httpPort (ascii "a") ::
          [rootEntry (toPort 81) (ascii "a")]) location =
        proxyIn [rootEntry httpPort (ascii "a")] location := by
      by_cases hlocation : ascii "/" = location
      · simp [proxyIn, proxyPairs, rootEntry, lastValue, hlocation]
      · simp [proxyIn, proxyPairs, rootEntry, lastValue, hlocation]
    rw [upstreamIn, upstreamIn, hproxy]
  · rintro ⟨location, aliasDir, _, halias, _⟩
    cases halias

/-- A later entry for another port takes the root over: a POST request on the first
port goes to the upstream of the second. -/
theorem later_entry_takes_root :
    loadConfig tableReader (twoServers (ascii "a") (ascii "b")) 0 =
        .ret (configOf [rootEntry httpPort (ascii "a"), rootEntry (toPort 81) (ascii "b")]) ∧
      readConfig tableReader (twoServers (ascii "a") (ascii "b")) 0 =
        .ret (twoUpstreams, [rootEntry httpPort (ascii "a"),
          rootEntry (toPort 81) (ascii "b")]) ∧
      (routing (bareEnv (configOf [rootEntry httpPort (ascii "a"),
          rootEntry (toPort 81) (ascii "b")]) httpPort)
        (probe (ascii "POST") (ascii "/") []) []).result =
          .ret ([.located (ascii "/"), .proxied ⟨ascii "10.0.0.2", httpPort⟩], true,
            kUnknown) ∧
      (routing (bareEnv (configOf [rootEntry httpPort (ascii "a")]) httpPort)
        (probe (ascii "POST") (ascii "/") []) []).result =
          .ret ([.located (ascii "/"), .proxied ⟨ascii "10.0.0.1", httpPort⟩], true,
            kUnknown) ∧
      ¬ SameRouting (configOf [rootEntry httpPort (ascii "a"),
          rootEntry (toPort 81) (ascii "b")])
        (configOf [rootEntry httpPort (ascii "a")]) httpPort := by
  have hroot : IsMatchable (ascii "/") := ⟨by decide, by decide, by decide, by decide⟩
  have hfull : chosenUpstream (configOf [rootEntry httpPort (ascii "a"),
      rootEntry (toPort 81) (ascii "b")]) (ascii "/") =
        some (.ret ⟨ascii "10.0.0.2", httpPort⟩) := by
    decide +kernel
  have hown : chosenUpstream (configOf [rootEntry httpPort (ascii "a")]) (ascii "/") =
      some (.ret ⟨ascii "10.0.0.1", httpPort⟩) := by
    decide +kernel
  have hroutedFull := @routing_noBody (configOf [rootEntry httpPort (ascii "a"),
    rootEntry (toPort 81) (ascii "b")]) httpPort (ascii "/") hroot.ne_nil (by decide +kernel)
  have hroutedOwn := @routing_noBody (configOf [rootEntry httpPort (ascii "a")]) httpPort
    (ascii "/") hroot.ne_nil (by decide +kernel)
  rw [hfull] at hroutedFull
  rw [hown] at hroutedOwn
  refine ⟨by decide +kernel, by decide +kernel, hroutedFull, hroutedOwn, fun hsame => ?_⟩
  have hprobe := congrArg Outcome.result
    (routing_probe_eq hsame (Or.inr rfl) hroot (List.forall_mem_nil _))
  rw [hroutedFull, hroutedOwn] at hprobe
  exact absurd hprobe (by decide)

end Cuber.Isolation
