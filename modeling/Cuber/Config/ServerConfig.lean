import Cuber.Base.Text
import Cuber.Core.Maps

/-!
# The server configuration

The tables that `ServerConfig::loadConfig` fills from the YAML file and the
accessors by which the handlers and filters consult them.  All tables are
shared by every listening port; only the index files are kept per port.

The accessor `upstreamInfo` indexes a map with `operator[]`, which stores a
default upstream under a missing name.  Reading that name again returns the
same default upstream, so the model reads the default without storing it.
-/

namespace Cuber.Config

open Cuber.Maps
open Cuber.Text

abbrev Port := Fin 65536

def httpPort : Port := 80

/-- `static_cast<uint16_t>`. -/
def toPort (value : ℤ) : Port := Fin.ofNat 65536 (value % 65536).toNat

structure ProxyServer where
  location : Bytes := []
  upstreamName : Bytes := []
  setHeaders : List Bytes := []
  deriving DecidableEq

structure Upstream where
  name : Bytes := []
  address : Bytes := []
  maxFails : ℤ := 3
  failTimeSecond : ℤ := 30
  deriving DecidableEq

structure StaticInfo where
  location : Bytes := []
  aliasDir : Bytes := []
  deriving DecidableEq

structure Server where
  listenPort : Port
  workers : ℤ
  rootPath : Bytes
  indexFiles : List Bytes
  proxyLocations : List Bytes
  staticLocations : List Bytes
  deriving DecidableEq

structure LoggerConfig where
  loggerName : Bytes := ascii "default"
  logSavePath : Bytes := ascii "defaultLog"
  rollFileSize : ℤ := 0
  deriving DecidableEq

structure MainConfig where
  maxWorker : ℤ := 4
  keepAliveTimeout : ℤ := 65
  maxWorkerConnections : ℤ := 768
  loggers : OrderedMap Bytes LoggerConfig := OrderedMap.empty
  deriving DecidableEq

structure ServerConfig where
  listenedPorts : Finset Port := ∅
  locations : Finset Bytes := ∅
  mainConf : MainConfig := {}
  loggersConfig : OrderedMap Bytes LoggerConfig := OrderedMap.empty
  servers : OrderedMap Port Server := OrderedMap.empty
  statics : OrderedMap Bytes StaticInfo := OrderedMap.empty
  proxies : OrderedMap Bytes ProxyServer := OrderedMap.empty
  upstreams : OrderedMap Bytes Upstream := OrderedMap.empty
  deriving DecidableEq

namespace ServerConfig

def addStatic (config : ServerConfig) (info : StaticInfo) : ServerConfig :=
  { config with
    statics := config.statics.insert info.location info
    locations := insert info.location config.locations }

def addProxy (config : ServerConfig) (proxy : ProxyServer) : ServerConfig :=
  { config with
    proxies := config.proxies.insert proxy.location proxy
    locations := insert proxy.location config.locations }

def addUpstream (config : ServerConfig) (upstream : Upstream) : ServerConfig :=
  { config with upstreams := config.upstreams.insert upstream.name upstream }

def addServer (config : ServerConfig) (server : Server) : ServerConfig :=
  { config with
    servers := config.servers.insert server.listenPort server
    listenedPorts := insert server.listenPort config.listenedPorts }

def setMainConf (config : ServerConfig) (conf : MainConfig) : ServerConfig :=
  { config with mainConf := conf }

def addLoggerInfo (config : ServerConfig) (name : Bytes) (logger : LoggerConfig) :
    ServerConfig :=
  { config with loggersConfig := config.loggersConfig.insert name logger }

def existUpstreamInfo (config : ServerConfig) (name : Bytes) : Bool :=
  (config.upstreams.find? name).isSome

/-- `existProxy` together with `proxyInfo`. -/
def proxyInfo (config : ServerConfig) (location : Bytes) : Option ProxyServer :=
  config.proxies.find? location

def upstreamInfo (config : ServerConfig) (name : Bytes) : Upstream :=
  (config.upstreams.find? name).getD {}

/-- `existStatic` together with `staticPath`. -/
def staticPath (config : ServerConfig) (location : Bytes) : Option Bytes :=
  (config.statics.find? location).map StaticInfo.aliasDir

def indexFiles (config : ServerConfig) (listenPort : Port) : List Bytes :=
  match config.servers.find? listenPort with
  | some server => server.indexFiles
  | none => []

end ServerConfig

/-- A configuration that proxies every path to one upstream. -/
def proxyConfig : ServerConfig :=
  (ServerConfig.addProxy {}
    { location := ascii "/", upstreamName := ascii "up" }).addUpstream
      { name := ascii "up", address := ascii "127.0.0.1:8080" }

end Cuber.Config
