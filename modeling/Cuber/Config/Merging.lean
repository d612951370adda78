import Cuber.Config.Loading

/-!
# What server entries merge into

The proxies and the static files of all server entries go into one table each,
keyed by location, and an entry that comes later overwrites what an earlier one
has stored for the location.  Index files stay with the server of the entry, but
an entry without any takes over those of the entry before.
-/

namespace Cuber.Merging

open Cuber.Config
open Cuber.Execution
open Cuber.Loading
open Cuber.Maps
open Cuber.Runs
open Cuber.Text

def proxyPairs (proxies : List ProxyServer) : List (Bytes × ProxyServer) :=
  proxies.map fun proxy => (proxy.location, proxy)

def staticPairs (statics : List StaticInfo) : List (Bytes × StaticInfo) :=
  statics.map fun info => (info.location, info)

def locationsOf (entry : ServerEntry) : List Bytes :=
  entry.proxies.map ProxyServer.location ++ entry.statics.map StaticInfo.location

/-- The last of the proxies that some entries have for a location. -/
def proxyIn (entries : List ServerEntry) (location : Bytes) : Option ProxyServer :=
  lastValue (proxyPairs (entries.flatMap ServerEntry.proxies)) location

/-- The last of the aliases that some entries have for a location. -/
def aliasIn (entries : List ServerEntry) (location : Bytes) : Option Bytes :=
  (lastValue (staticPairs (entries.flatMap ServerEntry.statics)) location).map
    StaticInfo.aliasDir

/-- The index files that an entry after some others takes over. -/
def inheritedIndex (entries : List ServerEntry) : List Bytes :=
  entries.foldl (fun names entry => entry.index.getD names) []

/-- One configuration is another with proxies and static files added to it. -/
structure Adds (proxies : List ProxyServer) (statics : List StaticInfo)
    (before after : ServerConfig) : Prop where
  proxyTable : after.proxies = before.proxies.insertAll (proxyPairs proxies)
  staticTable : after.statics = before.statics.insertAll (staticPairs statics)
  locationSet : ∀ location, location ∈ after.locations ↔
    location ∈ before.locations ∨ location ∈ proxies.map ProxyServer.location ∨
      location ∈ statics.map StaticInfo.location

section Adding

variable {before middle after : ServerConfig} {proxies proxies' : List ProxyServer}
  {statics statics' : List StaticInfo}

theorem Adds.refl (config : ServerConfig) : Adds [] [] config config :=
  ⟨rfl, rfl, by simp⟩

/-- What two entries add is added up. -/
theorem Adds.trans (hfirst : Adds proxies statics before middle)
    (hsecond : Adds proxies' statics' middle after) :
    Adds (proxies ++ proxies') (statics ++ statics') before after where
  proxyTable := by
    rw [hsecond.proxyTable, hfirst.proxyTable, ← OrderedMap.insertAll_append, proxyPairs,
      proxyPairs, proxyPairs, List.map_append]
  staticTable := by
    rw [hsecond.staticTable, hfirst.staticTable, ← OrderedMap.insertAll_append, staticPairs,
      staticPairs, staticPairs, List.map_append]
  locationSet := by
    intro location
    rw [hsecond.locationSet, hfirst.locationSet, List.map_append, List.map_append,
      List.mem_append, List.mem_append]
    tauto

theorem adds_storeProxy {proxy : ProxyServer} (hstore : storeProxy before proxy = .ret after) :
    Adds [proxy] [] before after := by
  rw [storeProxy] at hstore
  split_ifs at hstore
  cases hstore
  exact ⟨rfl, rfl, by simp [ServerConfig.addProxy, or_comm]⟩

theorem adds_storeProxies (hrun : runFrom storeProxy before proxies = .ret after) :
    Adds proxies [] before after := by
  induction proxies generalizing before with
  | nil =>
      cases hrun
      exact Adds.refl _
  | cons proxy proxies ih =>
      obtain ⟨middle, hfirst, hrest⟩ := runFrom_cons_eq_ret_iff.mp hrun
      exact (adds_storeProxy hfirst).trans (ih hrest)

theorem adds_addStatics (config : ServerConfig) (statics : List StaticInfo) :
    Adds [] statics config (statics.foldl ServerConfig.addStatic config) := by
  induction statics generalizing config with
  | nil => exact Adds.refl _
  | cons info statics ih =>
      have hfirst : Adds [] [info] config (config.addStatic info) :=
        ⟨rfl, rfl, by simp [ServerConfig.addStatic, or_comm]⟩
      exact hfirst.trans (ih _)

theorem servers_storeProxies (hrun : runFrom storeProxy before proxies = .ret after) :
    after.servers = before.servers := by
  apply invariant_of_run (fun config => config.servers = before.servers) _ rfl hrun
  intro config proxy config' hconfig hstore
  rw [storeProxy] at hstore
  split_ifs at hstore
  cases hstore
  exact hconfig

theorem servers_addStatics (config : ServerConfig) (statics : List StaticInfo) :
    (statics.foldl ServerConfig.addStatic config).servers = config.servers := by
  induction statics generalizing config with
  | nil => rfl
  | cons info statics ih => exact ih (config.addStatic info)

end Adding

section Entries

variable {loaded loaded' : Loaded} {entry : ServerEntry} {entries : List ServerEntry}

/-- What one entry adds: its proxies, its static files and one server. -/
theorem storeEntry_spec (hstore : storeEntry loaded entry = .ret loaded') :
    Adds entry.proxies entry.statics loaded.config loaded'.config ∧
      loaded'.server = entry.toServer loaded.server ∧
      loaded'.config.servers = loaded.config.servers.insert entry.listenPort
        (entry.toServer loaded.server) := by
  obtain ⟨config, hproxies, hret⟩ := Exec.bind_eq_ret_iff.mp hstore
  cases hret
  have hadded := (adds_storeProxies hproxies).trans (adds_addStatics config entry.statics)
  rw [List.append_nil, List.nil_append] at hadded
  have hservers := (servers_addStatics config entry.statics).trans
    (servers_storeProxies hproxies)
  refine ⟨⟨hadded.proxyTable, hadded.staticTable, hadded.locationSet⟩, rfl, ?_⟩
  rw [← hservers]
  rfl

theorem adds_storeEntries (hrun : runFrom storeEntry loaded entries = .ret loaded') :
    Adds (entries.flatMap ServerEntry.proxies) (entries.flatMap ServerEntry.statics)
      loaded.config loaded'.config := by
  induction entries generalizing loaded with
  | nil =>
      cases hrun
      exact Adds.refl _
  | cons entry entries ih =>
      obtain ⟨middle, hfirst, hrest⟩ := runFrom_cons_eq_ret_iff.mp hrun
      exact (storeEntry_spec hfirst).1.trans (ih hrest)

/-- Index files pass from entry to entry. -/
theorem indexFiles_storeEntries (hrun : runFrom storeEntry loaded entries = .ret loaded') :
    loaded'.server.indexFiles =
      entries.foldl (fun names entry => entry.index.getD names) loaded.server.indexFiles := by
  induction entries generalizing loaded with
  | nil =>
      cases hrun
      rfl
  | cons entry entries ih =>
      obtain ⟨middle, hfirst, hrest⟩ := runFrom_cons_eq_ret_iff.mp hrun
      rw [ih hrest, (storeEntry_spec hfirst).2.1]
      rfl

/-- Entries for other ports leave a server as it is. -/
theorem servers_storeEntries {listenPort : Port}
    (hports : listenPort ∉ entries.map ServerEntry.listenPort)
    (hrun : runFrom storeEntry loaded entries = .ret loaded') :
    loaded'.config.servers.find? listenPort = loaded.config.servers.find? listenPort := by
  induction entries generalizing loaded with
  | nil =>
      cases hrun
      rfl
  | cons entry entries ih =>
      obtain ⟨middle, hfirst, hrest⟩ := runFrom_cons_eq_ret_iff.mp hrun
      rw [List.map_cons, List.mem_cons, not_or] at hports
      rw [ih hports.2 hrest, (storeEntry_spec hfirst).2.2, OrderedMap.find?_insert,
        if_neg hports.1]

/-- Proxies are stored when the upstreams of all of them are known. -/
theorem exists_storeProxies_iff {config : ServerConfig} {proxies : List ProxyServer} :
    (∃ config', runFrom storeProxy config proxies = .ret config') ↔
      ∀ proxy ∈ proxies, config.existUpstreamInfo proxy.upstreamName = true := by
  induction proxies generalizing config with
  | nil => exact iff_of_true ⟨config, rfl⟩ (List.forall_mem_nil _)
  | cons proxy proxies ih =>
      rw [List.forall_mem_cons]
      constructor
      · rintro ⟨config', hrun⟩
        obtain ⟨middle, hstore, hrest⟩ := runFrom_cons_eq_ret_iff.mp hrun
        rw [storeProxy] at hstore
        split_ifs at hstore with hknown
        cases hstore
        exact ⟨hknown, (@ih (config.addProxy proxy)).mp ⟨config', hrest⟩⟩
      · rintro ⟨hknown, hall⟩
        obtain ⟨config', hrest⟩ := (@ih (config.addProxy proxy)).mpr hall
        exact ⟨config', runFrom_cons_eq_ret_iff.mpr ⟨_, if_pos hknown, hrest⟩⟩

end Entries

/-! ## The tables of a configuration -/

/-- The tables by which requests are routed, as the sections of a configuration
determine them. -/
structure IsMerged (upstreams : List Upstream) (entries : List ServerEntry)
    (config : ServerConfig) : Prop where
  locations : ∀ location, location ∈ config.locations ↔
    ∃ entry ∈ entries, location ∈ locationsOf entry
  aliases : ∀ location, config.staticPath location = aliasIn entries location
  proxies : ∀ location, config.proxyInfo location = proxyIn entries location
  upstreams : config.upstreams = OrderedMap.empty.insertAll
    (upstreams.map fun upstream => (upstream.name, upstream))

section Tables

variable {base config : ServerConfig} {upstreams : List Upstream}
  {entries : List ServerEntry}

/-- A configuration has what its entries name, and of several of a kind the last. -/
theorem isMerged_of_configure (hbase : IsMainOnly base)
    (hconfigure : configure base upstreams entries = .ret config) :
    IsMerged upstreams entries config := by
  have hupstreams := (consistent_of_configure hbase hconfigure).2
  obtain ⟨loaded, hrun, hret⟩ := Exec.bind_eq_ret_iff.mp hconfigure
  cases hret
  obtain ⟨hproxies, hstatics, hlocations⟩ := adds_storeEntries hrun
  obtain ⟨mainConf, loggersConfig, rfl⟩ := hbase
  rw [foldl_addUpstream] at hproxies hstatics hlocations
  refine ⟨fun location => ?_, fun location => ?_, fun location => ?_, hupstreams⟩
  · rw [hlocations]
    constructor
    · rintro (hnone | hproxy | hstatic)
      · cases hnone
      · obtain ⟨proxy, hmem, rfl⟩ := List.mem_map.mp hproxy
        obtain ⟨entry, hentry, hmem⟩ := List.mem_flatMap.mp hmem
        exact ⟨entry, hentry, List.mem_append_left _ (List.mem_map_of_mem hmem)⟩
      · obtain ⟨info, hmem, rfl⟩ := List.mem_map.mp hstatic
        obtain ⟨entry, hentry, hmem⟩ := List.mem_flatMap.mp hmem
        exact ⟨entry, hentry, List.mem_append_right _ (List.mem_map_of_mem hmem)⟩
    · rintro ⟨entry, hentry, hnamed⟩
      rcases List.mem_append.mp hnamed with hproxy | hstatic
      · obtain ⟨proxy, hmem, rfl⟩ := List.mem_map.mp hproxy
        exact Or.inr (Or.inl (List.mem_map_of_mem (List.mem_flatMap.mpr ⟨entry, hentry, hmem⟩)))
      · obtain ⟨info, hmem, rfl⟩ := List.mem_map.mp hstatic
        exact Or.inr (Or.inr (List.mem_map_of_mem (List.mem_flatMap.mpr ⟨entry, hentry, hmem⟩)))
  · rw [ServerConfig.staticPath, hstatics, OrderedMap.find?_insertAll, OrderedMap.find?_empty,
      Option.or_none]
    rfl
  · rw [ServerConfig.proxyInfo, hproxies, OrderedMap.find?_insertAll, OrderedMap.find?_empty,
      Option.or_none]
    rfl

/-- The server of a port is the one of its last entry, after the entries before. -/
theorem exists_server_of_configure {before after : List ServerEntry} {entry : ServerEntry}
    (hlast : entry.listenPort ∉ after.map ServerEntry.listenPort)
    (hconfigure : configure base upstreams (before ++ entry :: after) = .ret config) :
    ∃ earlier : Server, earlier.indexFiles = inheritedIndex before ∧
      config.servers.find? entry.listenPort = some (entry.toServer earlier) := by
  obtain ⟨loaded, hrun, hret⟩ := Exec.bind_eq_ret_iff.mp hconfigure
  cases hret
  obtain ⟨earlier, hbefore, hrest⟩ := runFrom_append_eq_ret_iff.mp hrun
  obtain ⟨stored, hstore, hafter⟩ := runFrom_cons_eq_ret_iff.mp hrest
  refine ⟨earlier.server, indexFiles_storeEntries hbefore, ?_⟩
  rw [servers_storeEntries hlast hafter, (storeEntry_spec hstore).2.2,
    OrderedMap.find?_insert, if_pos rfl]

/-- The index files of a port are those of its entry, or those that it takes over. -/
theorem indexFiles_of_configure {before after : List ServerEntry} {entry : ServerEntry}
    (hports : ((before ++ entry :: after).map ServerEntry.listenPort).Nodup)
    (hconfigure : configure base upstreams (before ++ entry :: after) = .ret config) :
    config.indexFiles entry.listenPort = entry.index.getD (inheritedIndex before) := by
  have hlast : entry.listenPort ∉ after.map ServerEntry.listenPort := by
    rw [List.map_append, List.nodup_append, List.map_cons, List.nodup_cons] at hports
    exact hports.2.1.1
  obtain ⟨earlier, hindex, hserver⟩ := exists_server_of_configure hlast hconfigure
  rw [ServerConfig.indexFiles, hserver]
  exact congrArg entry.index.getD hindex

/-- An entry that is loaded among others is loaded alone, whatever the main section. -/
theorem exists_configure_single {base' : ServerConfig} {before after : List ServerEntry}
    {entry : ServerEntry} (hbase : IsMainOnly base) (hbase' : IsMainOnly base')
    (hconfigure : configure base upstreams (before ++ entry :: after) = .ret config) :
    ∃ own, configure base' upstreams [entry] = .ret own := by
  obtain ⟨loaded, hrun, _⟩ := Exec.bind_eq_ret_iff.mp hconfigure
  obtain ⟨earlier, hbefore, hrest⟩ := runFrom_append_eq_ret_iff.mp hrun
  obtain ⟨stored, hstore, _⟩ := runFrom_cons_eq_ret_iff.mp hrest
  obtain ⟨config', hproxies, _⟩ := Exec.bind_eq_ret_iff.mp hstore
  have hknown := exists_storeProxies_iff.mp ⟨config', hproxies⟩
  -- the upstreams are those of the upstream section in both cases
  have hearlier : configure base upstreams before = .ret earlier.config := by
    rw [configure, hbefore, Exec.ret_bind]
  have hnone : configure base' upstreams [] =
      .ret (upstreams.foldl ServerConfig.addUpstream base') := rfl
  have hsame := (consistent_of_configure hbase hearlier).2.trans
    (consistent_of_configure hbase' hnone).2.symm
  obtain ⟨own, hown⟩ := (@exists_storeProxies_iff
    (upstreams.foldl ServerConfig.addUpstream base') entry.proxies).mpr (by
      intro proxy hproxy
      rw [ServerConfig.existUpstreamInfo, ← hsame]
      exact hknown proxy hproxy)
  refine ⟨(entry.statics.foldl ServerConfig.addStatic own).addServer
    (entry.toServer newServer), ?_⟩
  simp only [configure, runFrom, storeEntry, hown, Exec.ret_bind]

end Tables

end Cuber.Merging
