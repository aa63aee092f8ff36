import Umm.Client.CisRouter
import Umm.Protocol.Mem

/-! `umm_init` and `umm_deinit`: the objects of the library, built one after another, with the
way back from every point where building can fail. An object is what it was built from. -/
namespace Umm

structure SsdDevicePath where
  path : CString
  size : UInt64
  deriving DecidableEq

/-- The fields of `UMMConfig` that `umm_init` reads. -/
structure InitConfig where
  transport : CString
  memorySize : UInt64
  metaServerAddr : CString
  memServerAddr : CString
  myNodeId : UInt8
  ssdDevices : List SsdDevicePath
  peerNodes : CString
  rpcToken : CString
  ssdOwnerNode : UInt8
  localMemAsDram : Bool
  dataMaxIo : UInt32
  deriving DecidableEq

def emptyString : CString := CString.ofBytes []

def CString.isEmpty (s : CString) : Bool := s.bytes = []

namespace InitConfig

def zero : InitConfig where
  transport := emptyString
  memorySize := 0
  metaServerAddr := emptyString
  memServerAddr := emptyString
  myNodeId := 0
  ssdDevices := []
  peerNodes := emptyString
  rpcToken := emptyString
  ssdOwnerNode := 0
  localMemAsDram := false
  dataMaxIo := 0

def isTierAware (cfg : InitConfig) : Bool := cfg.transport.isEmpty

def isDirect (cfg : InitConfig) : Bool := cfg.metaServerAddr.isEmpty && cfg.memServerAddr.isEmpty

def isRpc (cfg : InitConfig) : Bool := !cfg.metaServerAddr.isEmpty || !cfg.memServerAddr.isEmpty

def token (cfg : InitConfig) : Option CString :=
  if cfg.rpcToken.isEmpty then none else some cfg.rpcToken

end InitConfig

/-- A topology with all its slots, also those that are offline. -/
structure InitTopology where
  numResources : ℕ
  slots : List Proto.StorageResource

inductive SsdTransport
  | single (path : CString) (capacity : UInt64)
  | multi (devices : List SsdDevicePath)
  deriving DecidableEq

structure RemoteTransport where
  myNode : UInt8
  dataMaxIo : UInt32
  token : Option CString
  fallback : Option (UInt8 × CString)
  deriving DecidableEq

structure TierRouter where
  cxl : InitConfig
  ssd : Option SsdTransport
  dram : Bool
  unsupported : Option CString
  remote : Option RemoteTransport
  deriving DecidableEq

inductive Transport
  | router (router : TierRouter)
  | legacy (cfg : InitConfig)
  deriving DecidableEq

structure RpcClient where
  host : List UInt8
  port : ℕ
  token : Option CString
  deriving DecidableEq

/-- `g_state` and `g_router`. -/
structure UmmState where
  initialized : Bool
  config : InitConfig
  transport : Option Transport
  memClient : Option RpcClient
  metaClient : Option RpcClient
  localMem : Option (UInt8 × UInt64)
  localMeta : Bool
  tierRouter : Option TierRouter
  ssdTransport : Option SsdTransport
  remoteTransport : Option RemoteTransport
  memServerNode : UInt8
  cis : CisRouterState
  deriving DecidableEq

/-- What the parts answer that `configure_transports_from_topology` builds. -/
structure TransportEnv where
  localInit : Bool
  ssdTopology : Bool
  ssdSingle : Bool
  ssdConfig : Bool
  router : Bool
  remote : Bool

/-- What the parts answer during one call of `umm_init`. A topology is `none` where the query
fails. -/
structure InitEnv where
  peerDup : Bool
  memService : Bool
  metaService : Bool
  localTopology : Option InitTopology
  transports : TransportEnv
  legacy : Except Error Unit
  metaBuf : Bool
  metaClient : Except Error Unit
  rpcTopology : Option InitTopology
  reconfigured : TransportEnv
  memBuf : Bool
  memClient : Except Error Unit

/-- `atoi`: the `long` cut to 32 bits. -/
def atoi (bytes : List UInt8) : ℤ :=
  Int.bmod (strtol bytes) (2 ^ 32)

/-- The host before the last colon, in a buffer of 256 bytes, and the port after it. -/
def parseHostPort (addr : CString) : Except Error (List UInt8 × ℕ) :=
  if colon ∈ addr.bytes then
    let tail := addr.bytes.reverse.takeWhile (· ≠ colon)
    let port := atoi tail.reverse
    if port ≤ 0 || 65535 < port then .error .invalidArg
    else .ok ((addr.bytes.take (addr.bytes.length - tail.length - 1)).take 255, port.toNat)
  else .error .invalidArg

namespace UmmState

/-- All zero. -/
def fresh : UmmState where
  initialized := false
  config := .zero
  transport := none
  memClient := none
  metaClient := none
  localMem := none
  localMeta := false
  tierRouter := none
  ssdTransport := none
  remoteTransport := none
  memServerNode := 0
  cis := .zero

/-- `memset(&g_state, 0, sizeof(g_state))`; the router of the peer nodes is not in `g_state`. -/
def cleared (s : UmmState) : UmmState :=
  { fresh with cis := s.cis }

def deinit (s : UmmState) : UmmState :=
  if s.initialized then { fresh with cis := s.cis.deinit } else s

end UmmState

def isNds (path : CString) : Bool :=
  path.bytes.take 4 = [110, 100, 115, 58]

def Proto.StorageResource.isOnlineSsd (res : Proto.StorageResource) : Bool :=
  res.online ≠ 0 && res.tier = 2

/-- The SSDs of the topology up to the first one that NDS drives. -/
def topologyDevices : List Proto.StorageResource → List SsdDevicePath →
    Except Error (List SsdDevicePath × Option CString)
  | [], devices => .ok (devices, none)
  | res :: rest, devices =>
    if !res.isOnlineSsd then topologyDevices rest devices
    else if isNds res.devicePath then .ok (devices, some res.devicePath)
    else if 16 ≤ devices.length then .error .invalidArg
    else topologyDevices rest (devices ++ [⟨res.devicePath, res.capacity⟩])

def scanTopology (cfg : InitConfig) (topo : Option InitTopology) :
    Except Error (List SsdDevicePath × Option CString) :=
  match topo with
  | some topo => if cfg.ssdDevices = [] then topologyDevices topo.slots [] else .ok ([], none)
  | none => .ok ([], none)

/-- The one SSD of the topology: a device path that NDS drives, or a transport of its own. -/
def singleSsd (cfg : InitConfig) (topo : Option InitTopology) (env : TransportEnv) :
    Option SsdTransport × Option CString :=
  match topo with
  | none => (none, none)
  | some topo =>
    if topo.numResources = 0 then (none, none)
    else match (topo.slots.take 4).find? (·.isOnlineSsd) with
      | none => (none, none)
      | some res =>
        if cfg.ssdDevices ≠ [] then (none, none)
        else if isNds res.devicePath then (none, some res.devicePath)
        else if env.ssdSingle then (some (.single res.devicePath res.capacity), none)
        else (none, none)

/-- The SSD transport, and the path of a device that has none here. -/
def configureSsd (cfg : InitConfig) (topo : Option InitTopology) (env : TransportEnv) :
    Except Error (Option SsdTransport × Option CString) :=
  match scanTopology cfg topo with
  | .error e => .error e
  | .ok (_, some path) => .ok (none, some path)
  | .ok (devices, none) =>
    if 1 < devices.length then
      if env.ssdTopology then .ok (some (.multi devices), none) else .error .transportError
    else match singleSsd cfg topo env with
      | (none, none) =>
        if cfg.ssdDevices = [] then .ok (none, none)
        else if env.ssdConfig then .ok (some (.multi cfg.ssdDevices), none)
        else .error .transportError
      | found => .ok found

def remoteWanted (cfg : InitConfig) : Bool :=
  !cfg.memServerAddr.isEmpty && (!cfg.peerNodes.isEmpty || cfg.ssdOwnerNode ≠ nodeUnknown)

def remoteFallback (cfg : InitConfig) (memServerNode : UInt8) : Option (UInt8 × CString) :=
  let node := if memServerNode ≠ nodeUnknown then memServerNode else cfg.ssdOwnerNode
  if node ≠ nodeUnknown then some (node, cfg.memServerAddr) else none

def configureTransports (cfg : InitConfig) (topo : Option InitTopology) (env : TransportEnv)
    (s : UmmState) : Except Error Unit × UmmState :=
  let s := { s with remoteTransport := none }
  if !env.localInit then (.error .unknown, s)
  else match configureSsd cfg topo env with
    | .error e => (.error e, s)
    | .ok (ssd, skipped) =>
      if !env.router then (.error .unknown, s)
      else
        let remote := if remoteWanted cfg && env.remote then
          some ⟨cfg.myNodeId, cfg.dataMaxIo, cfg.token, remoteFallback cfg s.memServerNode⟩
          else none
        let router : TierRouter := ⟨cfg, ssd, cfg.localMemAsDram, skipped, remote⟩
        (.ok (), { s with
          remoteTransport := remote
          tierRouter := some router
          ssdTransport := ssd
          transport := some (.router router) })

def initTransportLegacy (cfg : InitConfig) (env : InitEnv) (s : UmmState) :
    Except Error Unit × UmmState :=
  match env.legacy with
  | .error e => (.error e, s)
  | .ok () => (.ok (), { s with
      transport := some (.legacy cfg)
      tierRouter := none
      ssdTransport := none })

/-- The services of the direct mode, with the topology the memory service reports. -/
def createServices (cfg : InitConfig) (env : InitEnv) (s : UmmState) :
    Except Error (Option InitTopology) × UmmState :=
  if !cfg.isDirect then (.ok none, s)
  else if !env.memService then (.error .noMemory, s.cleared)
  else if !env.metaService then (.error .noMemory, s.cleared)
  else
    let size := if cfg.memorySize = 0 then 64 * 1024 * 1024 else cfg.memorySize
    let topo := if cfg.isTierAware then env.localTopology.filter (0 < ·.numResources) else none
    (.ok topo, { s with localMem := some (cfg.myNodeId, size), localMeta := true })

def initTransport (cfg : InitConfig) (topo : Option InitTopology) (env : InitEnv) (s : UmmState) :
    Except Error Unit × UmmState :=
  let r := if cfg.isTierAware then configureTransports cfg topo env.transports s
    else initTransportLegacy cfg env s
  match r.1 with
  | .error e => (.error e, r.2.cleared)
  | .ok () => r

/-- With a topology from the metadata server the transports are built again. -/
def reconfigure (cfg : InitConfig) (env : InitEnv) (s : UmmState) : Except Error Unit × UmmState :=
  match if cfg.isTierAware then env.rpcTopology.filter (0 < ·.numResources) else none with
  | none => (.ok (), s)
  | some topo =>
    let s := if s.tierRouter.isSome then { s with tierRouter := none, transport := none } else s
    configureTransports cfg (some topo) env.reconfigured { s with ssdTransport := none }

def initMetaClient (cfg : InitConfig) (env : InitEnv) (s : UmmState) :
    Except Error Unit × UmmState :=
  if cfg.metaServerAddr.isEmpty then (.ok (), s)
  else match parseHostPort cfg.metaServerAddr with
    | .error e => (.error e, s)
    | .ok (host, port) =>
      if !env.metaBuf then (.error .noMemory, { s with metaClient := none })
      else match env.metaClient with
        | .error e => (.error e, { s with metaClient := none })
        | .ok () => reconfigure cfg env { s with metaClient := some ⟨host, port, none⟩ }

def initMemClient (cfg : InitConfig) (env : InitEnv) (s : UmmState) :
    Except Error Unit × UmmState :=
  if cfg.memServerAddr.isEmpty then (.ok (), s)
  else match parseHostPort cfg.memServerAddr with
    | .error e => (.error e, s)
    | .ok (host, port) =>
      if !env.memBuf then (.error .noMemory, { s with memClient := none })
      else match env.memClient with
        | .error e => (.error e, { s with memClient := none })
        | .ok () => (.ok (), { s with memClient := some ⟨host, port, cfg.token⟩ })

/-- The RPC clients; an error goes to `fail`, which calls `umm_deinit`. -/
def initClients (cfg : InitConfig) (env : InitEnv) (s : UmmState) : Except Error Unit × UmmState :=
  if !cfg.isRpc then (.ok (), s)
  else match initMetaClient cfg env s with
    | (.error e, s) => (.error e, s.deinit)
    | (.ok (), s) =>
      match initMemClient cfg env s with
      | (.error e, s) => (.error e, s.deinit)
      | (.ok (), s) => (.ok (), s)

/-- `none` is a null pointer. The check for an empty transport in the legacy mode never fails: an
empty transport is the tier-aware mode. -/
def ummInit (cfg : Option InitConfig) (env : InitEnv) (s : UmmState) :
    Except Error Unit × UmmState :=
  match cfg with
  | none => (.error .invalidArg, s)
  | some cfg =>
    let s := s.deinit
    if !cfg.isTierAware && cfg.transport.isEmpty then (.error .invalidArg, s)
    else
      let s := { s with
        config := cfg
        memServerNode := cfg.ssdOwnerNode
        cis := (s.cis.init cfg.myNodeId cfg.peerNodes env.peerDup).2 }
      match createServices cfg env s with
      | (.error e, s) => (.error e, s)
      | (.ok topo, s) =>
        match initTransport cfg topo env s with
        | (.error e, s) => (.error e, s)
        | (.ok (), s) =>
          match initClients cfg env s with
          | (.error e, s) => (.error e, s)
          | (.ok (), s) => (.ok (), { s with initialized := true })

end Umm
