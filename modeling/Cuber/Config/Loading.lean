import Cuber.Config.ServerConfig
import Cuber.Core.Runs

/-!
# Loading the configuration

`ServerConfig::loadConfig` walks through a YAML document and fills the tables of
the configuration.  A missing entry that is required, or a proxy for an unknown
upstream, ends the process, and a value of the wrong type throws.  One `Server`
is filled for all the server entries, so that an entry without index files has
those of the entry before.

The YAML library is a parameter of the model: `YamlReader` has the operations
that the loader uses, and nothing is assumed of them.  An assignment to a node
makes the node that it referred to an alias of the other, which is why the
document is a state of its own.
-/

namespace Cuber.Loading

open Cuber.Config
open Cuber.Execution
open Cuber.Maps
open Cuber.Runs
open Cuber.Text

inductive LoadFault where
  /-- `exit(EXIT_FAILURE)` -/
  | exitFailure
  | uncaughtException
  deriving DecidableEq

/-- What the loader uses of `YAML::Node`. -/
structure YamlReader (Document Node : Type) where
  /-- `node[key]`, which is none where it is not defined. -/
  subscript : Document → Node → Bytes → Exec LoadFault (Option Node)
  /-- What a loop over a node goes through. -/
  elements : Document → Node → List Node
  /-- `node == other`, the identity of nodes. -/
  same : Document → Node → Node → Bool
  /-- `node = other`. -/
  assign : Document → Node → Node → Document
  asInt : Document → Node → Exec LoadFault ℤ
  asLongLong : Document → Node → Exec LoadFault ℤ
  asUint16 : Document → Node → Exec LoadFault Port
  asString : Document → Node → Exec LoadFault Bytes
  asStrings : Document → Node → Exec LoadFault (List Bytes)

/-! ## Reading -/

section Reading

variable {Document Node : Type} (reader : YamlReader Document Node)
  (document : Document)

def getNode (node : Node) (name : Bytes) (exitOnUndefined : Bool) : Exec LoadFault Node :=
  (reader.subscript document node name).bind fun
    | some child => .ret child
    | none => if exitOnUndefined then .fault .exitFailure else .ret node

/-- `YamlLoader::getVal`, which keeps the value of an optional property that is not
defined. -/
def getVal {A : Type} (as : Document → Node → Exec LoadFault A) (node : Node)
    (property : Bytes) (val : A) (exitOnUndefined : Bool) : Exec LoadFault A :=
  (reader.subscript document node property).bind fun
    | some child => as document child
    | none => if exitOnUndefined then .fault .exitFailure else .ret val

/-- The nodes of an optional section, which are none where `getNode` returns the
node that it was asked about. -/
def sectionNodes (node : Node) (name : Bytes) : Exec LoadFault (List Node) :=
  (getNode reader document node name false).bind fun child =>
    .ret (if reader.same document child node then []
      else reader.elements document child)

def readLogger (node : Node) : Exec LoadFault LoggerConfig :=
  let loggerInfo : LoggerConfig := {}
  (getVal reader document reader.asString node (ascii "name") loggerInfo.loggerName true).bind
    fun loggerName =>
  (getVal reader document reader.asString node (ascii "path") loggerInfo.logSavePath true).bind
    fun logSavePath =>
  (getVal reader document reader.asLongLong node (ascii "roll_size") loggerInfo.rollFileSize
    false).bind fun rollFileSize =>
  .ret { loggerName, logSavePath, rollFileSize }

def readUpstream (node : Node) : Exec LoadFault Upstream :=
  let upstreamInfo : Upstream := {}
  (getVal reader document reader.asString node (ascii "name") upstreamInfo.name true).bind
    fun name =>
  (getVal reader document reader.asString node (ascii "server") upstreamInfo.address true).bind
    fun address =>
  (getVal reader document reader.asInt node (ascii "max_fails") upstreamInfo.maxFails true).bind
    fun maxFails =>
  (getVal reader document reader.asInt node (ascii "fail_timeout")
    upstreamInfo.failTimeSecond true).bind fun failTimeSecond =>
  .ret { name, address, maxFails, failTimeSecond }

def readProxy (node : Node) : Exec LoadFault ProxyServer :=
  let proxyInfo : ProxyServer := {}
  (getVal reader document reader.asString node (ascii "location") proxyInfo.location true).bind
    fun location =>
  (getVal reader document reader.asString node (ascii "proxy_pass") proxyInfo.upstreamName
    true).bind fun upstreamName =>
  (getVal reader document reader.asStrings node (ascii "proxy_set_header")
    proxyInfo.setHeaders false).bind fun setHeaders =>
  .ret { location, upstreamName, setHeaders }

def readStatic (node : Node) : Exec LoadFault StaticInfo :=
  let staticInfo : StaticInfo := {}
  (getVal reader document reader.asString node (ascii "location") staticInfo.location true).bind
    fun location =>
  (getVal reader document reader.asString node (ascii "alias") staticInfo.aliasDir true).bind
    fun aliasDir =>
  .ret { location, aliasDir }

end Reading

/-! ## Storing -/

/-- What is done with a proxy that was read: it is added before its upstream is
looked for. -/
def storeProxy (config : ServerConfig) (proxy : ProxyServer) : Exec LoadFault ServerConfig :=
  if (config.addProxy proxy).existUpstreamInfo proxy.upstreamName then
    .ret (config.addProxy proxy)
  else .fault .exitFailure

def storeStatic (config : ServerConfig) (info : StaticInfo) : Exec LoadFault ServerConfig :=
  .ret (config.addStatic info)

structure ServerEntry where
  listenPort : Port
  workers : ℤ
  rootPath : Bytes
  /-- The index files, where there are any in the entry. -/
  index : Option (List Bytes) := none
  proxies : List ProxyServer := []
  statics : List StaticInfo := []
  deriving DecidableEq

/-- The configuration, and the `Server` that the next entry is read into. -/
structure Loaded where
  config : ServerConfig
  server : Server
  deriving DecidableEq

/-- The numbers of a new `Server` are not initialised; they are read before they
are used. -/
def newServer : Server where
  listenPort := httpPort
  workers := 0
  rootPath := []
  indexFiles := []
  proxyLocations := []
  staticLocations := []

/-- The server that an entry configures, after the one before it. -/
def ServerEntry.toServer (entry : ServerEntry) (before : Server) : Server where
  listenPort := entry.listenPort
  workers := entry.workers
  rootPath := entry.rootPath
  indexFiles := entry.index.getD before.indexFiles
  proxyLocations := entry.proxies.map ProxyServer.location
  staticLocations := entry.statics.map StaticInfo.location

/-- What the entry of a server does to the configuration. -/
def storeEntry (loaded : Loaded) (entry : ServerEntry) : Exec LoadFault Loaded :=
  (runFrom storeProxy loaded.config entry.proxies).bind fun config =>
    .ret ⟨(entry.statics.foldl ServerConfig.addStatic config).addServer
      (entry.toServer loaded.server), entry.toServer loaded.server⟩

/-- What the upstream section and the server section do to a configuration. -/
def configure (config : ServerConfig) (upstreams : List Upstream)
    (entries : List ServerEntry) : Exec LoadFault ServerConfig :=
  (runFrom storeEntry ⟨upstreams.foldl ServerConfig.addUpstream config, newServer⟩
    entries).bind fun loaded => .ret loaded.config

/-! ## The loader -/

section Loader

variable {Document Node : Type} (reader : YamlReader Document Node)
  (document : Document)

def loadLogger (config : ServerConfig) (node : Node) : Exec LoadFault ServerConfig :=
  (readLogger reader document node).bind fun loggerInfo =>
    .ret (config.addLoggerInfo loggerInfo.loggerName loggerInfo)

def loadMain (config : ServerConfig) (node : Node) : Exec LoadFault ServerConfig :=
  let main : MainConfig := {}
  (getVal reader document reader.asInt node (ascii "max_workers") main.maxWorker true).bind
    fun maxWorker =>
  (getVal reader document reader.asInt node (ascii "keepalive_timeout") main.keepAliveTimeout
    true).bind fun keepAliveTimeout =>
  (getVal reader document reader.asInt node (ascii "worker_connections")
    main.maxWorkerConnections true).bind fun maxWorkerConnections =>
  (getNode reader document node (ascii "log") false).bind fun logNode =>
  if reader.same document logNode node then
    .ret (config.setMainConf { maxWorker, keepAliveTimeout, maxWorkerConnections })
  else
    (runFrom (loadLogger reader document) config (reader.elements document logNode)).bind
      fun config => .ret (config.setMainConf
        { maxWorker, keepAliveTimeout, maxWorkerConnections, loggers := config.loggersConfig })

def loadUpstream (config : ServerConfig) (node : Node) : Exec LoadFault ServerConfig :=
  (readUpstream reader document node).bind fun upstream => .ret (config.addUpstream upstream)

def loadProxy (loaded : ServerConfig × List Bytes) (node : Node) :
    Exec LoadFault (ServerConfig × List Bytes) :=
  (readProxy reader document node).bind fun proxy =>
    (storeProxy loaded.1 proxy).bind fun config =>
      .ret (config, loaded.2 ++ [proxy.location])

def loadStatic (loaded : ServerConfig × List Bytes) (node : Node) :
    Exec LoadFault (ServerConfig × List Bytes) :=
  (readStatic reader document node).bind fun info =>
    (storeStatic loaded.1 info).bind fun config =>
      .ret (config, loaded.2 ++ [info.location])

def loadServer (loaded : Loaded) (node : Node) : Exec LoadFault Loaded :=
  (getVal reader document reader.asUint16 node (ascii "listen") loaded.server.listenPort
    true).bind fun listenPort =>
  (getVal reader document reader.asInt node (ascii "workers") loaded.server.workers true).bind
    fun workers =>
  (getVal reader document reader.asString node (ascii "root_path") loaded.server.rootPath
    true).bind fun rootPath =>
  (getVal reader document reader.asStrings node (ascii "index") loaded.server.indexFiles
    false).bind fun indexFiles =>
  (sectionNodes reader document node (ascii "proxy")).bind fun proxyNodes =>
  (runFrom (loadProxy reader document) (loaded.config, []) proxyNodes).bind
    fun (config, proxyLocations) =>
  (sectionNodes reader document node (ascii "static")).bind fun staticNodes =>
  (runFrom (loadStatic reader document) (config, []) staticNodes).bind
    fun (config, staticLocations) =>
  let server : Server :=
    { listenPort, workers, rootPath, indexFiles, proxyLocations, staticLocations }
  .ret ⟨config.addServer server, server⟩

/-- `ServerConfig::loadConfig` of a new configuration, from the root of a
document. -/
def loadConfig (root : Node) : Exec LoadFault ServerConfig :=
  (getNode reader document root (ascii "main") true).bind fun mainNode =>
  (loadMain reader document {} mainNode).bind fun config =>
  (getNode reader document root (ascii "upstream") false).bind fun upstreamNode =>
  let document := reader.assign document mainNode upstreamNode
  (runFrom (loadUpstream reader document) config
    (if reader.same document upstreamNode root then []
      else reader.elements document upstreamNode)).bind fun config =>
  (getNode reader document root (ascii "server") true).bind fun serverNode =>
  let document := reader.assign document upstreamNode serverNode
  (runFrom (loadServer reader document) ⟨config, newServer⟩
    (reader.elements document serverNode)).bind fun loaded => .ret loaded.config

end Loader

/-! ## Loading is reading and storing -/

section Entries

variable {Document Node : Type} (reader : YamlReader Document Node)
  (document : Document)

def readEntry (node : Node) : Exec LoadFault ServerEntry :=
  (getVal reader document reader.asUint16 node (ascii "listen") newServer.listenPort
    true).bind fun listenPort =>
  (getVal reader document reader.asInt node (ascii "workers") newServer.workers true).bind
    fun workers =>
  (getVal reader document reader.asString node (ascii "root_path") newServer.rootPath
    true).bind fun rootPath =>
  (getVal reader document (fun document child => (reader.asStrings document child).bind
    fun names => .ret (some names)) node (ascii "index") none false).bind fun index =>
  (sectionNodes reader document node (ascii "proxy")).bind fun proxyNodes =>
  (readAll (readProxy reader document) proxyNodes).bind fun proxies =>
  (sectionNodes reader document node (ascii "static")).bind fun staticNodes =>
  (readAll (readStatic reader document) staticNodes).bind fun statics =>
  .ret { listenPort, workers, rootPath, index, proxies, statics }

/-- The upstream section and the server section of a document. -/
def readConfig (root : Node) : Exec LoadFault (List Upstream × List ServerEntry) :=
  (getNode reader document root (ascii "main") true).bind fun mainNode =>
  (getNode reader document root (ascii "upstream") false).bind fun upstreamNode =>
  let document := reader.assign document mainNode upstreamNode
  (readAll (readUpstream reader document)
    (if reader.same document upstreamNode root then []
      else reader.elements document upstreamNode)).bind fun upstreams =>
  (getNode reader document root (ascii "server") true).bind fun serverNode =>
  let document := reader.assign document upstreamNode serverNode
  (readAll (readEntry reader document) (reader.elements document serverNode)).bind
    fun entries => .ret (upstreams, entries)

variable {reader document} {node : Node} {property : Bytes}

theorem getVal_required {A : Type} {as : Document → Node → Exec LoadFault A} (val val' : A) :
    getVal reader document as node property val true =
      getVal reader document as node property val' true := rfl

/-- An optional value that is kept where there is none. -/
theorem exists_getVal_optional {A : Type} {as : Document → Node → Exec LoadFault A}
    {val value : A} (hval : getVal reader document as node property val false = .ret value) :
    ∃ read : Option A, getVal reader document (fun document child =>
        (as document child).bind fun value => .ret (some value)) node property none false =
          .ret read ∧
      value = read.getD val := by
  rw [getVal] at hval ⊢
  obtain ⟨child, hchild, hread⟩ := Exec.bind_eq_ret_iff.mp hval
  rw [hchild, Exec.ret_bind]
  cases child with
  | none =>
      cases hread
      exact ⟨none, rfl, rfl⟩
  | some child =>
      refine ⟨some value, ?_, rfl⟩
      exact Exec.bind_eq_ret_iff.mpr ⟨value, hread, rfl⟩

/-- A section whose values are stored one by one, with their locations noted. -/
theorem readAll_of_section {A : Type} {read : Node → Exec LoadFault A}
    {store : ServerConfig → A → Exec LoadFault ServerConfig} {location : A → Bytes}
    {config config' : ServerConfig} {nodes : List Node} {locations : List Bytes}
    (hload : runFrom (fun (loaded : ServerConfig × List Bytes) node =>
      (read node).bind fun value => (store loaded.1 value).bind fun config =>
        .ret (config, loaded.2 ++ [location value])) (config, []) nodes =
      .ret (config', locations)) :
    ∃ values, readAll read nodes = .ret values ∧
      runFrom store config values = .ret config' ∧ locations = values.map location := by
  obtain ⟨values, hread, hstore⟩ := runFrom_of_read hload
  exact ⟨values, hread, runFrom_collect hstore⟩

/-- A server entry that is loaded is read and then stored. -/
theorem readEntry_of_loadServer {loaded loaded' : Loaded}
    (hload : loadServer reader document loaded node = .ret loaded') :
    ∃ entry, readEntry reader document node = .ret entry ∧
      storeEntry loaded entry = .ret loaded' := by
  obtain ⟨listenPort, hlisten, hload⟩ := Exec.bind_eq_ret_iff.mp hload
  obtain ⟨workers, hworkers, hload⟩ := Exec.bind_eq_ret_iff.mp hload
  obtain ⟨rootPath, hroot, hload⟩ := Exec.bind_eq_ret_iff.mp hload
  obtain ⟨indexFiles, hindex, hload⟩ := Exec.bind_eq_ret_iff.mp hload
  obtain ⟨proxyNodes, hproxyNodes, hload⟩ := Exec.bind_eq_ret_iff.mp hload
  obtain ⟨⟨config, proxyLocations⟩, hproxies, hload⟩ := Exec.bind_eq_ret_iff.mp hload
  obtain ⟨staticNodes, hstaticNodes, hload⟩ := Exec.bind_eq_ret_iff.mp hload
  obtain ⟨⟨config', staticLocations⟩, hstatics, hload⟩ := Exec.bind_eq_ret_iff.mp hload
  obtain ⟨index, hreadIndex, rfl⟩ := exists_getVal_optional hindex
  obtain ⟨proxies, hreadProxies, hstoreProxies, rfl⟩ := readAll_of_section hproxies
  obtain ⟨statics, hreadStatics, hstoreStatics, rfl⟩ := readAll_of_section hstatics
  cases hload
  have hfold := hstoreStatics.symm.trans (runFrom_ret ServerConfig.addStatic config statics)
  cases hfold
  refine ⟨{ listenPort, workers, rootPath, index, proxies, statics }, ?_, ?_⟩
  · rw [readEntry, getVal_required _ loaded.server.listenPort, hlisten, Exec.ret_bind,
      getVal_required _ loaded.server.workers, hworkers, Exec.ret_bind,
      getVal_required _ loaded.server.rootPath, hroot, Exec.ret_bind, hreadIndex,
      Exec.ret_bind, hproxyNodes, Exec.ret_bind, hreadProxies, Exec.ret_bind, hstaticNodes,
      Exec.ret_bind, hreadStatics, Exec.ret_bind]
  · rw [storeEntry, hstoreProxies, Exec.ret_bind]
    rfl

theorem readAll_of_loadServer {nodes : List Node} {loaded loaded' : Loaded}
    (hload : runFrom (loadServer reader document) loaded nodes = .ret loaded') :
    ∃ entries, readAll (readEntry reader document) nodes = .ret entries ∧
      runFrom storeEntry loaded entries = .ret loaded' := by
  induction nodes generalizing loaded with
  | nil => exact ⟨[], rfl, hload⟩
  | cons node nodes ih =>
      obtain ⟨middle, hfirst, hrest⟩ := runFrom_cons_eq_ret_iff.mp hload
      obtain ⟨entry, hread, hstore⟩ := readEntry_of_loadServer hfirst
      obtain ⟨entries, hreads, hstores⟩ := ih hrest
      refine ⟨entry :: entries, ?_, runFrom_cons_eq_ret_iff.mpr ⟨middle, hstore, hstores⟩⟩
      rw [readAll, hread, Exec.ret_bind, hreads, Exec.ret_bind]

/-- The main section fills none of the tables by which requests are routed. -/
def IsMainOnly (config : ServerConfig) : Prop :=
  ∃ mainConf loggersConfig, config = { mainConf, loggersConfig }

/-- The main section configures no locations. -/
theorem isMainOnly_of_loadMain {config : ServerConfig}
    (hload : loadMain reader document {} node = .ret config) : IsMainOnly config := by
  obtain ⟨maxWorker, _, hload⟩ := Exec.bind_eq_ret_iff.mp hload
  obtain ⟨keepAliveTimeout, _, hload⟩ := Exec.bind_eq_ret_iff.mp hload
  obtain ⟨maxWorkerConnections, _, hload⟩ := Exec.bind_eq_ret_iff.mp hload
  obtain ⟨logNode, _, hload⟩ := Exec.bind_eq_ret_iff.mp hload
  split_ifs at hload
  · cases hload
    exact ⟨_, _, rfl⟩
  · obtain ⟨logged, hloggers, hload⟩ := Exec.bind_eq_ret_iff.mp hload
    have hlogged : IsMainOnly logged := by
      apply invariant_of_run IsMainOnly _ ⟨{}, OrderedMap.empty, rfl⟩ hloggers
      rintro _ loggerNode config' ⟨mainConf, loggersConfig, rfl⟩ hlogger
      obtain ⟨loggerInfo, _, hret⟩ := Exec.bind_eq_ret_iff.mp hlogger
      cases hret
      exact ⟨_, _, rfl⟩
    obtain ⟨_, _, rfl⟩ := hlogged
    cases hload
    exact ⟨_, _, rfl⟩

/-- A document that is loaded is read, and its sections configure what is loaded. -/
theorem configure_of_loadConfig {root : Node} {config : ServerConfig}
    (hload : loadConfig reader document root = .ret config) :
    ∃ upstreams entries, readConfig reader document root = .ret (upstreams, entries) ∧
      ∃ base, IsMainOnly base ∧ configure base upstreams entries = .ret config := by
  obtain ⟨mainNode, hmainNode, hload⟩ := Exec.bind_eq_ret_iff.mp hload
  obtain ⟨base, hbase, hload⟩ := Exec.bind_eq_ret_iff.mp hload
  obtain ⟨upstreamNode, hupstreamNode, hload⟩ := Exec.bind_eq_ret_iff.mp hload
  obtain ⟨config', hupstreams, hload⟩ := Exec.bind_eq_ret_iff.mp hload
  obtain ⟨serverNode, hserverNode, hload⟩ := Exec.bind_eq_ret_iff.mp hload
  obtain ⟨loaded, hservers, hload⟩ := Exec.bind_eq_ret_iff.mp hload
  cases hload
  obtain ⟨upstreams, hreadUpstreams, hstoreUpstreams⟩ := runFrom_of_read hupstreams
  have hfold := hstoreUpstreams.symm.trans (runFrom_ret ServerConfig.addUpstream base upstreams)
  cases hfold
  obtain ⟨entries, hreadEntries, hstoreEntries⟩ := readAll_of_loadServer hservers
  refine ⟨upstreams, entries, ?_, base, isMainOnly_of_loadMain hbase, ?_⟩
  · simp only [readConfig, hmainNode, hupstreamNode, hreadUpstreams, hserverNode,
      hreadEntries, Exec.ret_bind]
  · rw [configure, hstoreEntries, Exec.ret_bind]

end Entries

/-! ## The tables -/

/-- The tables agree with each other: the locations are those of the proxies and
the static files, the ports are those of the servers, and each proxy has its
upstream. -/
structure Consistent (config : ServerConfig) : Prop where
  locations : config.locations = config.proxies.keys ∪ config.statics.keys
  listenedPorts : config.listenedPorts = config.servers.keys
  upstreams : ∀ location proxy, config.proxies.find? location = some proxy →
    proxy.upstreamName ∈ config.upstreams.keys

section Tables

variable {config config' : ServerConfig}

theorem consistent_addStatic (hconsistent : Consistent config) (info : StaticInfo) :
    Consistent (config.addStatic info) where
  locations := by
    ext location
    simp only [ServerConfig.addStatic, OrderedMap.keys_insert, hconsistent.locations,
      Finset.mem_insert, Finset.mem_union]
    exact or_left_comm
  listenedPorts := hconsistent.listenedPorts
  upstreams := hconsistent.upstreams

theorem consistent_addServer (hconsistent : Consistent config) (server : Server) :
    Consistent (config.addServer server) where
  locations := hconsistent.locations
  listenedPorts := by
    simp only [ServerConfig.addServer, OrderedMap.keys_insert]
    rw [hconsistent.listenedPorts]
  upstreams := hconsistent.upstreams

/-- A proxy that is stored has its upstream, as the configuration is given up
otherwise. -/
theorem consistent_storeProxy (hconsistent : Consistent config) {proxy : ProxyServer}
    (hstore : storeProxy config proxy = .ret config') :
    Consistent config' ∧ config'.upstreams = config.upstreams := by
  rw [storeProxy] at hstore
  split_ifs at hstore with hexists
  cases hstore
  refine ⟨⟨?_, hconsistent.listenedPorts, ?_⟩, rfl⟩
  · ext location
    simp only [ServerConfig.addProxy, OrderedMap.keys_insert, hconsistent.locations,
      Finset.mem_insert, Finset.mem_union]
    exact or_assoc.symm
  · intro location other hfind
    simp only [ServerConfig.addProxy, OrderedMap.find?_insert] at hfind ⊢
    split_ifs at hfind
    · cases hfind
      exact OrderedMap.mem_keys_iff.mpr (Option.isSome_iff_exists.mp hexists)
    · exact hconsistent.upstreams location other hfind

theorem consistent_addStatics (hconsistent : Consistent config) (statics : List StaticInfo) :
    Consistent (statics.foldl ServerConfig.addStatic config) ∧
      (statics.foldl ServerConfig.addStatic config).upstreams = config.upstreams := by
  induction statics generalizing config with
  | nil => exact ⟨hconsistent, rfl⟩
  | cons info statics ih => exact ih (consistent_addStatic hconsistent info)

/-- Storing the entry of a server keeps the containers consistent. -/
theorem consistent_storeEntry {loaded loaded' : Loaded} {entry : ServerEntry}
    (hconsistent : Consistent loaded.config)
    (hstore : storeEntry loaded entry = .ret loaded') :
    Consistent loaded'.config ∧ loaded'.config.upstreams = loaded.config.upstreams := by
  obtain ⟨config, hproxies, hret⟩ := Exec.bind_eq_ret_iff.mp hstore
  cases hret
  have hstored : Consistent config ∧ config.upstreams = loaded.config.upstreams := by
    apply invariant_of_run (fun config => Consistent config ∧
      config.upstreams = loaded.config.upstreams) _ ⟨hconsistent, rfl⟩ hproxies
    rintro before proxy after ⟨hbefore, hsame⟩ hproxy
    obtain ⟨hafter, hkept⟩ := consistent_storeProxy hbefore hproxy
    exact ⟨hafter, hkept.trans hsame⟩
  obtain ⟨hstatics, hkept⟩ := consistent_addStatics hstored.1 entry.statics
  exact ⟨consistent_addServer hstatics _, hkept.trans hstored.2⟩

theorem foldl_addUpstream (config : ServerConfig) (upstreams : List Upstream) :
    upstreams.foldl ServerConfig.addUpstream config =
      { config with
        upstreams := config.upstreams.insertAll
          (upstreams.map fun upstream => (upstream.name, upstream)) } := by
  induction upstreams generalizing config with
  | nil => rfl
  | cons upstream upstreams ih =>
      rw [List.foldl_cons, ih]
      rfl

/-- What the sections configure is consistent, and has the upstreams of the upstream
section. -/
theorem consistent_of_configure {base : ServerConfig} {upstreams : List Upstream}
    {entries : List ServerEntry} (hbase : IsMainOnly base)
    (hconfigure : configure base upstreams entries = .ret config) :
    Consistent config ∧ config.upstreams = OrderedMap.empty.insertAll
      (upstreams.map fun upstream => (upstream.name, upstream)) := by
  obtain ⟨mainConf, loggersConfig, rfl⟩ := hbase
  obtain ⟨loaded, hrun, hret⟩ := Exec.bind_eq_ret_iff.mp hconfigure
  cases hret
  rw [foldl_addUpstream] at hrun
  apply invariant_of_run (fun loaded : Loaded => Consistent loaded.config ∧
    loaded.config.upstreams = OrderedMap.empty.insertAll
      (upstreams.map fun upstream => (upstream.name, upstream))) _ _ hrun
  · rintro before entry after ⟨hbefore, hsame⟩ hentry
    obtain ⟨hafter, hkept⟩ := consistent_storeEntry hbefore hentry
    exact ⟨hafter, hkept.trans hsame⟩
  · refine ⟨⟨rfl, rfl, ?_⟩, rfl⟩
    intro location proxy hfind
    cases hfind

/-- An upstream that is found was configured. -/
theorem mem_of_mem_keys {upstreams : List Upstream} {name : Bytes}
    (hupstreams : config.upstreams = OrderedMap.empty.insertAll
      (upstreams.map fun upstream => (upstream.name, upstream)))
    (hname : name ∈ config.upstreams.keys) : config.upstreamInfo name ∈ upstreams := by
  obtain ⟨upstream, hfind⟩ := OrderedMap.mem_keys_iff.mp hname
  rw [ServerConfig.upstreamInfo, hfind, Option.getD_some]
  rw [hupstreams, OrderedMap.find?_insertAll, OrderedMap.find?_empty, Option.or_none] at hfind
  obtain ⟨other, hother, hentry⟩ := List.mem_map.mp (mem_of_lastValue hfind)
  cases hentry
  exact hother

end Tables

/-! ## The accessors -/

/-- The calls that handlers and filters make of a loaded configuration. -/
inductive AccessorCall where
  | existStatic (location : Bytes)
  | staticPath (location : Bytes)
  | existProxy (location : Bytes)
  | proxyInfo (location : Bytes)
  | upstreamInfo (name : Bytes)
  | indexFiles (listenPort : Port)
  | listenedLocations
  deriving DecidableEq

/-- The assertion in an accessor has failed. -/
inductive AccessFault where
  | assertionFailed
  deriving DecidableEq

/-- The configuration after a call.  The accessors look entries up with
`operator[]`. -/
def access (config : ServerConfig) : AccessorCall → Exec AccessFault ServerConfig
  | .existStatic _ | .existProxy _ | .listenedLocations => .ret config
  | .staticPath location =>
      if location ∈ config.statics.keys then
        .ret { config with statics := config.statics.touch location {} }
      else .fault .assertionFailed
  | .proxyInfo location =>
      if location ∈ config.proxies.keys then
        .ret { config with proxies := config.proxies.touch location {} }
      else .fault .assertionFailed
  -- nothing is asserted here
  | .upstreamInfo name => .ret { config with upstreams := config.upstreams.touch name {} }
  | .indexFiles listenPort =>
      if listenPort ∈ config.servers.keys then
        .ret { config with servers := config.servers.touch listenPort newServer }
      else .ret config

/-- Upstreams are asked for under the names that proxies have for them. -/
def IsHandlerCall (config : ServerConfig) : AccessorCall → Prop
  | .upstreamInfo name =>
      ∃ location proxy, config.proxies.find? location = some proxy ∧ proxy.upstreamName = name
  | _ => True

/-- No call of a handler changes a consistent configuration. -/
theorem access_eq {config config' : ServerConfig} {call : AccessorCall}
    (hconsistent : Consistent config) (hcall : IsHandlerCall config call)
    (haccess : access config call = .ret config') : config' = config := by
  cases call with
  | existStatic | existProxy | listenedLocations =>
      cases haccess
      rfl
  | staticPath location =>
      rw [access] at haccess
      split_ifs at haccess with hkey
      rw [OrderedMap.touch_of_mem hkey] at haccess
      cases haccess
      rfl
  | proxyInfo location =>
      rw [access] at haccess
      split_ifs at haccess with hkey
      rw [OrderedMap.touch_of_mem hkey] at haccess
      cases haccess
      rfl
  | upstreamInfo name =>
      obtain ⟨location, proxy, hfind, rfl⟩ := hcall
      have hkey := hconsistent.upstreams location proxy hfind
      rw [access, OrderedMap.touch_of_mem hkey] at haccess
      cases haccess
      rfl
  | indexFiles listenPort =>
      rw [access] at haccess
      split_ifs at haccess with hkey
      · rw [OrderedMap.touch_of_mem hkey] at haccess
        cases haccess
        rfl
      · cases haccess
        rfl

theorem access_run_eq {config config' : ServerConfig} {calls : List AccessorCall}
    (hconsistent : Consistent config) (hcalls : Meets access IsHandlerCall config calls)
    (hrun : runFrom access config calls = .ret config') : config' = config := by
  induction calls with
  | nil =>
      cases hrun
      rfl
  | cons call calls ih =>
      obtain ⟨middle, haccess, hrest⟩ := runFrom_cons_eq_ret_iff.mp hrun
      obtain rfl := access_eq hconsistent hcalls.1 haccess
      exact ih (hcalls.2 _ haccess) hrest

/-- Whatever document was loaded and whichever calls the handlers have made since, the
tables of the configuration agree, and every proxy has an upstream of the upstream
section. -/
theorem consistent_of_access {Document Node : Type} {reader : YamlReader Document Node}
    {document : Document} {root : Node} {config config' : ServerConfig}
    {calls : List AccessorCall} (hload : loadConfig reader document root = .ret config)
    (hcalls : Meets access IsHandlerCall config calls)
    (hrun : runFrom access config calls = .ret config') :
    Consistent config' ∧
      ∃ upstreams entries, readConfig reader document root = .ret (upstreams, entries) ∧
        ∀ location proxy, config'.proxyInfo location = some proxy →
          config'.upstreamInfo proxy.upstreamName ∈ upstreams := by
  obtain ⟨upstreams, entries, hread, base, hbase, hconfigure⟩ := configure_of_loadConfig hload
  obtain ⟨hconsistent, hupstreams⟩ := consistent_of_configure hbase hconfigure
  obtain rfl := access_run_eq hconsistent hcalls hrun
  refine ⟨hconsistent, upstreams, entries, hread, fun location proxy hproxy => ?_⟩
  exact mem_of_mem_keys hupstreams (hconsistent.upstreams location proxy hproxy)

/-! ## A document -/

/-- A node of a document without tags and anchors, with the indices of its
children. -/
inductive YamlNode where
  | scalar (text : Bytes)
  | sequence (items : List ℕ)
  | mapping (entries : List (Bytes × ℕ))

def scalarText (document : List YamlNode) (node : ℕ) : Exec LoadFault Bytes :=
  match document[node]? with
  | some (.scalar text) => .ret text
  | _ => .fault .uncaughtException

def scalarInt (document : List YamlNode) (node : ℕ) : Exec LoadFault ℤ :=
  (scalarText document node).bind fun text =>
    match stoi text with
    | some value => .ret value
    | none => .fault .uncaughtException

/-- The nodes of a document in a table, which an assignment overwrites. -/
def tableReader : YamlReader (List YamlNode) ℕ where
  subscript document node key :=
    match document[node]? with
    | some (.mapping entries) =>
        .ret ((entries.find? fun entry => entry.1 = key).map Prod.snd)
    | some (.sequence _) => .ret none
    | _ => .fault .uncaughtException
  elements document node :=
    match document[node]? with
    | some (.sequence items) => items
    | _ => []
  same _ node other := node = other
  assign document node other :=
    match document[other]? with
    | some content => document.set node content
    | none => document
  asInt := scalarInt
  asLongLong := scalarInt
  asUint16 document node := (scalarInt document node).bind fun value => .ret (toPort value)
  asString := scalarText
  asStrings document node :=
    match document[node]? with
    | some (.sequence items) => readAll (scalarText document) items
    | _ => .fault .uncaughtException

/-- One server that proxies everything to one upstream. -/
def proxyDocument : List YamlNode :=
  [.mapping [(ascii "main", 1), (ascii "upstream", 2), (ascii "server", 3)],
    .mapping [(ascii "max_workers", 7), (ascii "keepalive_timeout", 7),
      (ascii "worker_connections", 7)],
    .sequence [4], .sequence [5],
    .mapping [(ascii "name", 8), (ascii "server", 9), (ascii "max_fails", 7),
      (ascii "fail_timeout", 7)],
    .mapping [(ascii "listen", 10), (ascii "workers", 7), (ascii "root_path", 11),
      (ascii "proxy", 6)],
    .sequence [12], .scalar (ascii "1"), .scalar (ascii "up"),
    .scalar (ascii "127.0.0.1:8080"), .scalar (ascii "80"), .scalar (ascii "/"),
    .mapping [(ascii "location", 11), (ascii "proxy_pass", 8)]]

def proxyDocumentConfig : ServerConfig :=
  ((ServerConfig.addUpstream { mainConf := ⟨1, 1, 1, OrderedMap.empty⟩ }
      ⟨ascii "up", ascii "127.0.0.1:8080", 1, 1⟩).addProxy
    ⟨ascii "/", ascii "up", []⟩).addServer ⟨httpPort, 1, ascii "/", [], [ascii "/"], []⟩

/-- The configuration of one proxying server is consistent. -/
theorem consistent_proxyDocument :
    loadConfig tableReader proxyDocument 0 = .ret proxyDocumentConfig ∧
      Consistent proxyDocumentConfig := by
  have hload : loadConfig tableReader proxyDocument 0 = .ret proxyDocumentConfig := by
    decide +kernel
  refine ⟨hload, ?_⟩
  let calls : List AccessorCall := [.existProxy (ascii "/"), .proxyInfo (ascii "/"),
    .upstreamInfo (ascii "up"), .indexFiles httpPort]
  have hcalls : Meets access IsHandlerCall proxyDocumentConfig calls := by
    have hsame : ∀ call ∈ calls,
        access proxyDocumentConfig call = .ret proxyDocumentConfig := by decide +kernel
    have hproxy : proxyDocumentConfig.proxies.find? (ascii "/") =
        some ⟨ascii "/", ascii "up", []⟩ := by decide +kernel
    apply (meets_cons_iff (hsame _ (by simp [calls]))).mpr ⟨trivial, _⟩
    apply (meets_cons_iff (hsame _ (by simp [calls]))).mpr ⟨trivial, _⟩
    apply (meets_cons_iff (hsame _ (by simp [calls]))).mpr ⟨⟨_, _, hproxy, rfl⟩, _⟩
    exact (meets_cons_iff (hsame _ (by simp [calls]))).mpr ⟨trivial, trivial⟩
  have hrun : runFrom access proxyDocumentConfig calls = .ret proxyDocumentConfig := by
    decide +kernel
  exact (consistent_of_access hload hcalls hrun).1

end Cuber.Loading
