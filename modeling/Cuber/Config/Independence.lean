import Cuber.Config.Merging

/-!
# What the server of a port depends on

A server entry is read into the `Server` that the entry before it was read into.
All fields are read again, except for index files that are not there.  This
module compares what different configurations store for the same entry.
-/

namespace Cuber.Independence

open Cuber.Config
open Cuber.Execution
open Cuber.Loading
open Cuber.Maps
open Cuber.Merging
open Cuber.Runs
open Cuber.Text

/-- Whatever the other sections and the other entries are, as long as none for its port
comes later, the entry has the same server stored. -/
def IsIndependent (config : ServerConfig) (entry : ServerEntry) : Prop :=
  ∀ (base : ServerConfig) (upstreams : List Upstream) (before after : List ServerEntry)
    (config' : ServerConfig), IsMainOnly base →
    entry.listenPort ∉ after.map ServerEntry.listenPort →
    configure base upstreams (before ++ entry :: after) = .ret config' →
      config'.servers.find? entry.listenPort = config.servers.find? entry.listenPort

section Entries

variable {entry : ServerEntry}

theorem toServer_of_index (hindex : entry.index.isSome) (earlier earlier' : Server) :
    entry.toServer earlier = entry.toServer earlier' := by
  obtain ⟨names, hnames⟩ := Option.isSome_iff_exists.mp hindex
  simp only [ServerEntry.toServer, hnames, Option.getD_some]

theorem indexFiles_toServer_of_none (hindex : entry.index = none) (earlier : Server) :
    (entry.toServer earlier).indexFiles = earlier.indexFiles := by
  simp only [ServerEntry.toServer, hindex, Option.getD_none]

def indexEntry (listenPort : Port) (names : List Bytes) : ServerEntry where
  listenPort := listenPort
  workers := 1
  rootPath := []
  index := some names

/-- An entry that is loaded among others is also loaded after an entry that only has index
files. -/
theorem exists_configure_after_index {base config : ServerConfig} {upstreams : List Upstream}
    {before after : List ServerEntry} (hbase : IsMainOnly base)
    (hconfigure : configure base upstreams (before ++ entry :: after) = .ret config)
    (listenPort : Port) (names : List Bytes) :
    ∃ config', configure base upstreams ([indexEntry listenPort names] ++ [entry]) =
      .ret config' := by
  obtain ⟨own, hown⟩ := exists_configure_single hbase hbase hconfigure
  obtain ⟨loaded, hrun, _⟩ := Exec.bind_eq_ret_iff.mp hown
  obtain ⟨_, hstore, _⟩ := runFrom_cons_eq_ret_iff.mp hrun
  obtain ⟨_, hproxies, _⟩ := Exec.bind_eq_ret_iff.mp hstore
  have hknown := exists_storeProxies_iff.mp ⟨_, hproxies⟩
  -- storing the entry with index files leaves the upstreams as they are
  obtain ⟨config', hproxies'⟩ := (@exists_storeProxies_iff
    ((upstreams.foldl ServerConfig.addUpstream base).addServer
      ((indexEntry listenPort names).toServer newServer)) entry.proxies).mpr hknown
  have hfirst : storeEntry ⟨upstreams.foldl ServerConfig.addUpstream base, newServer⟩
      (indexEntry listenPort names) =
        .ret ⟨(upstreams.foldl ServerConfig.addUpstream base).addServer
          ((indexEntry listenPort names).toServer newServer),
          (indexEntry listenPort names).toServer newServer⟩ := rfl
  have hsecond : ∃ stored, storeEntry ⟨(upstreams.foldl ServerConfig.addUpstream base).addServer
      ((indexEntry listenPort names).toServer newServer),
      (indexEntry listenPort names).toServer newServer⟩ entry = .ret stored :=
    ⟨_, Exec.bind_eq_ret_iff.mpr ⟨config', hproxies', rfl⟩⟩
  obtain ⟨stored, hsecond⟩ := hsecond
  have hboth : runFrom storeEntry ⟨upstreams.foldl ServerConfig.addUpstream base, newServer⟩
      ([indexEntry listenPort names] ++ [entry]) = .ret stored :=
    runFrom_cons_eq_ret_iff.mpr ⟨_, hfirst, runFrom_cons_eq_ret_iff.mpr ⟨_, hsecond, rfl⟩⟩
  exact ⟨_, Exec.bind_eq_ret_iff.mpr ⟨_, hboth, rfl⟩⟩

end Entries

/-- The server of a port is determined by the last entry for the port alone exactly when
that entry has index files of its own. -/
theorem isIndependent_iff {Document Node : Type} {reader : YamlReader Document Node}
    {document : Document} {root : Node} {config : ServerConfig} {upstreams : List Upstream}
    {before after : List ServerEntry} {entry : ServerEntry}
    (hload : loadConfig reader document root = .ret config)
    (hread : readConfig reader document root = .ret (upstreams, before ++ entry :: after))
    (hlast : entry.listenPort ∉ after.map ServerEntry.listenPort) :
    IsIndependent config entry ↔ entry.index.isSome := by
  obtain ⟨upstreams', entries, hread', base, hbase, hconfigure⟩ := configure_of_loadConfig hload
  cases hread.symm.trans hread'
  obtain ⟨earlier, hearlier, hserver⟩ := exists_server_of_configure hlast hconfigure
  constructor
  · intro hindependent
    by_contra hnone
    rw [Bool.not_eq_true, Option.isSome_eq_false_iff, Option.isNone_iff_eq_none] at hnone
    -- with other index files before it the entry gets another server
    let names := [] :: inheritedIndex before
    obtain ⟨config', hother⟩ :=
      exists_configure_after_index hbase hconfigure entry.listenPort names
    obtain ⟨earlier', hearlier', hserver'⟩ :=
      exists_server_of_configure (List.not_mem_nil) hother
    have hsame := hindependent base upstreams _ [] config' hbase List.not_mem_nil hother
    rw [hserver, hserver', Option.some.injEq] at hsame
    have hindex := congrArg Server.indexFiles hsame
    rw [indexFiles_toServer_of_none hnone, indexFiles_toServer_of_none hnone, hearlier,
      hearlier'] at hindex
    exact absurd (congrArg List.length hindex) (by simp [inheritedIndex, indexEntry, names])
  · intro hindex base' upstreams' before' after' config' _ hlast' hconfigure'
    obtain ⟨earlier', _, hserver'⟩ := exists_server_of_configure hlast' hconfigure'
    rw [hserver, hserver', toServer_of_index hindex earlier' earlier]

/-- Two servers, of which only the first one has an index file. -/
def indexDocument : List YamlNode :=
  [.mapping [(ascii "main", 1), (ascii "server", 2)],
    .mapping [(ascii "max_workers", 5), (ascii "keepalive_timeout", 5),
      (ascii "worker_connections", 5)],
    .sequence [3, 4],
    .mapping [(ascii "listen", 6), (ascii "workers", 5), (ascii "root_path", 8),
      (ascii "index", 9)],
    .mapping [(ascii "listen", 7), (ascii "workers", 5), (ascii "root_path", 8)],
    .scalar (ascii "1"), .scalar (ascii "80"), .scalar (ascii "81"), .scalar (ascii "/"),
    .sequence [10], .scalar (ascii "a.html")]

def plainEntry (listenPort : Port) (index : Option (List Bytes)) : ServerEntry where
  listenPort := listenPort
  workers := 1
  rootPath := ascii "/"
  index := index

def indexDocumentConfig : ServerConfig :=
  (ServerConfig.addServer { mainConf := ⟨1, 1, 1, OrderedMap.empty⟩ }
      ⟨toPort 80, 1, ascii "/", [ascii "a.html"], [], []⟩).addServer
    ⟨toPort 81, 1, ascii "/", [ascii "a.html"], [], []⟩

theorem isIndependent_indexDocument :
    loadConfig tableReader indexDocument 0 = .ret indexDocumentConfig ∧
      IsIndependent indexDocumentConfig (plainEntry (toPort 80) (some [ascii "a.html"])) := by
  have hload : loadConfig tableReader indexDocument 0 = .ret indexDocumentConfig := by
    decide +kernel
  have hread : readConfig tableReader indexDocument 0 =
      .ret ([], [] ++ plainEntry (toPort 80) (some [ascii "a.html"]) ::
        [plainEntry (toPort 81) none]) := by
    decide +kernel
  exact ⟨hload, (isIndependent_iff hload hread (by decide)).mpr rfl⟩

/-- The second server has the index file of the first one. -/
theorem index_of_other_server_is_kept :
    loadConfig tableReader indexDocument 0 = .ret indexDocumentConfig ∧
      readConfig tableReader indexDocument 0 =
        .ret ([], [plainEntry (toPort 80) (some [ascii "a.html"]),
          plainEntry (toPort 81) none]) ∧
      ¬ IsIndependent indexDocumentConfig (plainEntry (toPort 81) none) := by
  refine ⟨by decide +kernel, by decide +kernel, fun hindependent => ?_⟩
  have halone := hindependent {} [] [] [] _ ⟨_, _, rfl⟩ List.not_mem_nil rfl
  exact absurd halone (by decide +kernel)

end Cuber.Independence
