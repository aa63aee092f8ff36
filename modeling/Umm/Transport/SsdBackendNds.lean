import Umm.Common.CNumber
import Umm.Common.CString

/-! The device registry of `ssd_backend_nds.c`. All backends that are open on one device share an
entry: the first one initialises the device, the last one gives it back. -/
namespace Umm

abbrev ndsMaxDevices : ℕ := 4
def ndsMaxRegions : ℕ := 16
def ndsDefaultQueueDepth : UInt64 := 64
def ndsDefaultCoreNum : UInt64 := 1
def ndsDefaultPageSize : UInt64 := 4096
def ndsDefaultMaxPageNum : UInt64 := 7 * 1024 * 1024
def ndsDefaultMaxIo : UInt64 := 1024 * 1024

/-- Base and size of memory of the accelerator. -/
structure NdsRegion where
  base : UInt64
  size : UInt64
  deriving DecidableEq, Repr

structure NdsDeviceEntry where
  used : Bool
  deviceId : UInt32
  refcount : UInt32
  /-- The first `n_regions` places of the table. -/
  regions : List NdsRegion
  pageSize : UInt64
  maxPageNum : UInt64
  rpcCtx : Option UInt64
  /-- Whether `nvm_host_rpc_disconnect` was found. -/
  rpcDisconnect : Bool
  deriving DecidableEq, Repr

def NdsDeviceEntry.zero : NdsDeviceEntry := ⟨false, 0, 0, [], 0, 0, none, false⟩

/-- `g_devs` -/
abbrev NdsDevices : Type := Fin ndsMaxDevices → NdsDeviceEntry

structure SsdNdsBackend where
  nds : UInt64
  dev : Fin ndsMaxDevices
  maxIo : UInt64
  pageSize : UInt64
  baseOff : UInt64
  deviceId : UInt32
  batchWriteEmulate : Bool
  batchReadEmulate : Bool
  deriving DecidableEq, Repr

/-- The calls into the libraries of the vendor that change something there. -/
inductive NdsCall where
  | setRpcContext (ctx : UInt64)
  | init (nds : UInt64) (deviceId : UInt32) (queueDepth coreNum pageSize maxPageNum : UInt64)
  | register (nds : UInt64) (region : NdsRegion)
  | uninit (nds : UInt64)
  | rpcDisconnect (ctx : UInt64)
  deriving DecidableEq, Repr

/-- What one `ssd_nds_open` meets: the environment variables, and how the loader, the libraries
and the heap answer. -/
structure NdsOpenEnv where
  queueDepth : Option CString
  coreNum : Option CString
  pageSize : Option CString
  maxPageNum : Option CString
  maxIo : Option CString
  batchWriteEmulate : Option CString
  batchReadEmulate : Option CString
  rpcSocket : Option CString
  preload : Bool
  dlopen : Bool
  symbols : Bool
  singleton : Option UInt64
  calloc : Bool
  /-- Whether `nvm_host_bind_remote` and `nvm_host_set_rpc_context` are found. -/
  rpcSymbols : Bool
  disconnectSymbol : Bool
  /-- The context of the first attempt within the waiting time that succeeds. -/
  bindRemote : Option UInt64

/-- `env_u64` -/
def envU64 (value : Option CString) (dflt : UInt64) : UInt64 :=
  match value with
  | none => dflt
  | some e =>
    if e.bytes = [] then dflt
    else if strtoull (digitsIn 10) e.bytes = 0 then dflt
    else strtoull (digitsIn 10) e.bytes

def plus : UInt8 := 43

/-- A device number with an optional `+<base_off>` behind it. -/
def ndsSpec (spec : CString) : Option (UInt32 × UInt64) :=
  if 64 ≤ spec.length then none
  else
    let tail := spec.bytes.reverse.takeWhile (· ≠ plus)
    let (device, baseOff) :=
      if plus ∈ spec.bytes then
        (spec.bytes.take (spec.length - tail.length - 1), strtoull prefixed tail.reverse)
      else (spec.bytes, 0)
    if device = [] then none
    else some ((strtoull (digitsIn 10) device).toUInt32, baseOff)

/-- `nds_rpc_bootstrap`: the context, and whether it can be disconnected later. -/
def ndsRpcBootstrap (env : NdsOpenEnv) : Except Error (UInt64 × Bool) :=
  if env.rpcSymbols then
    match env.bindRemote with
    | none => .error .transportError
    | some ctx => .ok (ctx, env.disconnectSymbol)
  else .error .notFound

/-- The RPC part of a first open, which is skipped when no socket is named. -/
def ndsRpcContext (env : NdsOpenEnv) : Except Error (Option UInt64 × Bool) :=
  match env.rpcSocket with
  | none => .ok (none, false)
  | some socket =>
    if socket.bytes = [] then .ok (none, false)
    else (ndsRpcBootstrap env).map fun r => (some r.1, r.2)

namespace NdsDevices

/-- The first entry that meets the condition. -/
def findEntry (devs : NdsDevices) (p : NdsDeviceEntry → Bool) : Option (Fin ndsMaxDevices) :=
  (List.finRange ndsMaxDevices).find? fun i => p (devs i)

/-- The entry for a device: the one in use for it, or a free one that is set up. -/
def acquire (devs : NdsDevices) (env : NdsOpenEnv) (nds : UInt64) (deviceId : UInt32) :
    Except Error (Fin ndsMaxDevices) × List NdsCall × NdsDevices :=
  match devs.findEntry fun e => e.used && e.deviceId = deviceId with
  | some i =>
    (.ok i, [], Function.update devs i { devs i with refcount := (devs i).refcount + 1 })
  | none =>
    match devs.findEntry fun e => !e.used with
    | none => (.error .noMemory, [], devs)
    | some i =>
      match ndsRpcContext env with
      | .error e => (.error e, [], devs)
      | .ok (rpcCtx, rpcDisconnect) =>
        let pageSize := envU64 env.pageSize ndsDefaultPageSize
        let maxPageNum := envU64 env.maxPageNum ndsDefaultMaxPageNum
        (.ok i,
          rpcCtx.toList.map NdsCall.setRpcContext ++
            [.init nds deviceId (envU64 env.queueDepth ndsDefaultQueueDepth)
              (envU64 env.coreNum ndsDefaultCoreNum) pageSize maxPageNum],
          Function.update devs i
            ⟨true, deviceId, 1, [], pageSize, maxPageNum, rpcCtx, rpcDisconnect⟩)

end NdsDevices

def ssdNdsOpen (spec : CString) (env : NdsOpenEnv) (devs : NdsDevices) :
    Except Error SsdNdsBackend × List NdsCall × NdsDevices :=
  match ndsSpec spec with
  | none => (.error .invalidArg, [], devs)
  | some (deviceId, baseOff) =>
    if !env.preload || !env.dlopen || !env.symbols then (.error .notFound, [], devs)
    else
      match env.singleton with
      | none => (.error .transportError, [], devs)
      | some nds =>
        if !env.calloc then (.error .noMemory, [], devs)
        else
          match devs.acquire env nds deviceId with
          | (.error e, calls, devs') => (.error e, calls, devs')
          | (.ok i, calls, devs') =>
            (.ok {
              nds := nds
              dev := i
              maxIo := envU64 env.maxIo ndsDefaultMaxIo
              -- A second backend works with the page size of the first one.
              pageSize := (devs' i).pageSize
              baseOff := baseOff
              deviceId := deviceId
              batchWriteEmulate := envU64 env.batchWriteEmulate 0 ≠ 0
              batchReadEmulate := envU64 env.batchReadEmulate 0 ≠ 0 }, calls, devs')

def ssdNdsRegisterMem (b : SsdNdsBackend) (devMem alignedSize : UInt64) (devs : NdsDevices) :
    Except Error Unit × List NdsCall × NdsDevices :=
  if devMem = 0 ∨ alignedSize = 0 then (.error .invalidArg, [], devs)
  else if alignedSize % b.pageSize ≠ 0 then (.error .invalidArg, [], devs)
  else if ⟨devMem, alignedSize⟩ ∈ (devs b.dev).regions then (.ok (), [], devs)
  else if ndsMaxRegions ≤ (devs b.dev).regions.length then (.error .noMemory, [], devs)
  else
    (.ok (), [.register b.nds ⟨devMem, alignedSize⟩],
      Function.update devs b.dev
        { devs b.dev with regions := (devs b.dev).regions ++ [⟨devMem, alignedSize⟩] })

/-- The context that can be disconnected. -/
def NdsDeviceEntry.bound (e : NdsDeviceEntry) : Option UInt64 :=
  if e.rpcDisconnect then e.rpcCtx else none

/-- The calls that give a device back. -/
def NdsDeviceEntry.lastCalls (e : NdsDeviceEntry) (nds : UInt64) : List NdsCall :=
  .uninit nds :: e.bound.toList.map NdsCall.rpcDisconnect

def ssdNdsClose (b : SsdNdsBackend) (devs : NdsDevices) : List NdsCall × NdsDevices :=
  if (devs b.dev).used then
    if (devs b.dev).refcount - 1 = 0 then
      ((devs b.dev).lastCalls b.nds,
        Function.update devs b.dev { devs b.dev with
          used := false
          refcount := 0
          regions := []
          rpcCtx := none
          rpcDisconnect := false })
    else ([], Function.update devs b.dev { devs b.dev with refcount := (devs b.dev).refcount - 1 })
  else ([], devs)

end Umm
