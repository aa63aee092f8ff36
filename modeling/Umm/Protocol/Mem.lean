import Umm.Protocol.Common
import Umm.Common.Gpa

/-! The messages of `mem_protocol.c`, and the replies that `mem_service_rpc_server.c` packs. -/
namespace Umm.Proto
open Umm.Lib

structure MemAllocReq where
  size : UInt64
  flags : UInt32
deriving DecidableEq

structure MemAllocResp where
  status : Int32
  offset : UInt64
deriving DecidableEq

structure MemFreeReq where
  offset : UInt64
  size : UInt64
deriving DecidableEq

structure MemFreeResp where
  status : Int32
deriving DecidableEq

structure MemStatsResp where
  total : UInt64
  used : UInt64
  free : UInt64
deriving DecidableEq

structure MemAllocOnDeviceReq where
  tier : UInt8
  deviceIdx : UInt32
  size : UInt64
  flags : UInt32
deriving DecidableEq

structure MemAllocTieredReq where
  tier : UInt8
  size : UInt64
  flags : UInt32
deriving DecidableEq

structure MemAllocTieredResp where
  status : Int32
  offset : UInt64
deriving DecidableEq

structure MemFreeTieredReq where
  tier : UInt8
  offset : UInt64
  size : UInt64
deriving DecidableEq

structure MemGetTierStatsReq where
  tier : UInt8
deriving DecidableEq

structure MemGetTierStatsResp where
  status : Int32
  total : UInt64
  used : UInt64
  free : UInt64
deriving DecidableEq

structure StorageResource where
  tier : UInt8
  devicePath : CString
  capacity : UInt64
  baseOffset : UInt64
  online : Int32
deriving DecidableEq

/-- A topology; `num_resources` is the length of the list. -/
structure StorageTopology where
  nodeId : UInt8
  resources : List StorageResource
deriving DecidableEq

structure MemDataReq where
  gpa : UInt64
  len : UInt64
deriving DecidableEq

structure MemDataReadResp where
  status : Int32
  len : UInt64
deriving DecidableEq

def memPackAlloc (m : MemAllocReq) : Option UmmProtoBody :=
  packBody [protoWriteU64 m.size, protoWriteU32 m.flags]

def memUnpackAlloc : UmmProtoBody → Except Error MemAllocReq :=
  unpackAtLeast 12 do
    let size ← protoReadU64
    let flags ← protoReadU32
    pure ⟨size, flags⟩

def packAllocResp (m : MemAllocResp) : Option UmmProtoBody :=
  packBody [protoWriteI32 m.status, protoWriteU64 m.offset]

def memUnpackAllocResp : UmmProtoBody → Except Error MemAllocResp :=
  unpackAtLeast 12 do
    let status ← protoReadI32
    let offset ← protoReadU64
    pure ⟨status, offset⟩

def memPackFree (m : MemFreeReq) : Option UmmProtoBody :=
  packBody [protoWriteU64 m.offset, protoWriteU64 m.size]

def memUnpackFree : UmmProtoBody → Except Error MemFreeReq :=
  unpackAtLeast 16 do
    let offset ← protoReadU64
    let size ← protoReadU64
    pure ⟨offset, size⟩

def packFreeResp (m : MemFreeResp) : Option UmmProtoBody :=
  packBody [protoWriteI32 m.status]

def memUnpackFreeResp : UmmProtoBody → Except Error MemFreeResp :=
  unpackAtLeast 4 do
    let status ← protoReadI32
    pure ⟨status⟩

/-- `mem_pack_get_stats`, `mem_pack_heartbeat` and `pack_heartbeat_resp`: no payload. -/
def packEmpty : Option UmmProtoBody := packBody []

def packStatsResp (m : MemStatsResp) : Option UmmProtoBody :=
  packBody [protoWriteU64 m.total, protoWriteU64 m.used, protoWriteU64 m.free]

def memUnpackStatsResp : UmmProtoBody → Except Error MemStatsResp :=
  unpackAtLeast 24 do
    let total ← protoReadU64
    let used ← protoReadU64
    let free ← protoReadU64
    pure ⟨total, used, free⟩

def packStorageResource (r : StorageResource) : List UInt8 :=
  [protoWriteU8 r.tier, protoWriteStr r.devicePath 256, protoWriteU64 r.capacity,
    protoWriteU64 r.baseOffset, protoWriteU8 r.online.toUInt32.toUInt8].flatten

def unpackStorageResource : Decoder StorageResource := do
  let tier ← protoReadU8
  let devicePath ← protoReadStr 256
  let capacity ← protoReadU64
  let baseOffset ← protoReadU64
  let online ← protoReadU8
  pure ⟨tier, devicePath, capacity, baseOffset, online.toUInt32.toInt32⟩

def memPackAllocOnDevice (m : MemAllocOnDeviceReq) : Option UmmProtoBody :=
  packBody [protoWriteU8 m.tier, protoWriteU32 m.deviceIdx, protoWriteU64 m.size,
    protoWriteU32 m.flags]

/-- The only request whose length is checked for equality. -/
def memUnpackAllocOnDevice (body : UmmProtoBody) : Except Error MemAllocOnDeviceReq :=
  if body.len.toNat ≠ 17 then .error .invalidArg
  else
    body |> unpackAtLeast 17 do
      let tier ← protoReadU8
      let deviceIdx ← protoReadU32
      let size ← protoReadU64
      let flags ← protoReadU32
      pure ⟨tier, deviceIdx, size, flags⟩

def memPackAllocTiered (m : MemAllocTieredReq) : Option UmmProtoBody :=
  packBody [protoWriteU8 m.tier, protoWriteU64 m.size, protoWriteU32 m.flags]

def memUnpackAllocTiered : UmmProtoBody → Except Error MemAllocTieredReq :=
  unpackAtLeast 13 do
    let tier ← protoReadU8
    let size ← protoReadU64
    let flags ← protoReadU32
    pure ⟨tier, size, flags⟩

/-- `pack_alloc_resp2`: the reply with the owner. -/
def packAllocResp2 (m : MemAllocTieredResp) (owner : UInt8) : Option UmmProtoBody :=
  packBody [protoWriteI32 m.status, protoWriteU64 m.offset, protoWriteU8 owner]

def readAllocTieredResp : Decoder MemAllocTieredResp := do
  let status ← protoReadI32
  let offset ← protoReadU64
  pure ⟨status, offset⟩

/-- The owner stands in the thirteenth byte of newer replies. -/
def memUnpackAllocTieredResp2 (body : UmmProtoBody) :
    Except Error (MemAllocTieredResp × UInt8) :=
  if 13 ≤ body.len.toNat then
    body |> unpackAtLeast 12 do
      let resp ← readAllocTieredResp
      let owner ← protoReadU8
      pure (resp, owner)
  else
    body |> unpackAtLeast 12 do
      let resp ← readAllocTieredResp
      pure (resp, UInt8.ofNat ummNodeUnknown)

/-- Without a place for the owner. -/
def memUnpackAllocTieredResp : UmmProtoBody → Except Error MemAllocTieredResp :=
  unpackAtLeast 12 readAllocTieredResp

def memPackFreeTiered (m : MemFreeTieredReq) : Option UmmProtoBody :=
  packBody [protoWriteU8 m.tier, protoWriteU64 m.offset, protoWriteU64 m.size]

def memUnpackFreeTiered : UmmProtoBody → Except Error MemFreeTieredReq :=
  unpackAtLeast 17 do
    let tier ← protoReadU8
    let offset ← protoReadU64
    let size ← protoReadU64
    pure ⟨tier, offset, size⟩

def memPackGetTierStats (m : MemGetTierStatsReq) : Option UmmProtoBody :=
  packBody [protoWriteU8 m.tier]

def memUnpackGetTierStats : UmmProtoBody → Except Error MemGetTierStatsReq :=
  unpackAtLeast 1 do
    let tier ← protoReadU8
    pure ⟨tier⟩

/-- No server packs this reply. -/
def memUnpackGetTierStatsResp : UmmProtoBody → Except Error MemGetTierStatsResp :=
  unpackAtLeast 28 do
    let status ← protoReadI32
    let total ← protoReadU64
    let used ← protoReadU64
    let free ← protoReadU64
    pure ⟨status, total, used, free⟩

def storageResourceSerializedSize : ℕ := 274

def storageTopologyHeaderSize : ℕ := 12

def ummMaxTopologyResources : ℕ := 20

def memPackRegisterStorage (res : StorageResource) : Option UmmProtoBody :=
  packBody [packStorageResource res]

def memUnpackRegisterStorage : UmmProtoBody → Except Error StorageResource :=
  unpackAtLeast storageResourceSerializedSize unpackStorageResource

/-- The first page is asked for by an empty request, the others by their start. -/
def memPackGetTopology (start : UInt32) : Option UmmProtoBody :=
  if start = 0 then packEmpty else packBody [protoWriteU32 start]

/-- The start as `mem_service_rpc_handle` reads it. -/
def memReadTopologyStart (body : UmmProtoBody) : Except Error UInt32 :=
  if body.len.toNat = 0 then .ok 0
  else if body.len.toNat ≠ 4 then .error .invalidArg
  else .ok (protoReadU32 body.data).1

def topologyMaxFit : ℕ :=
  (ummProtoMaxBody - storageTopologyHeaderSize) / storageResourceSerializedSize

/-- Status, node, count, and as many resources as fit. -/
def packTopology (topo : StorageTopology) : Option UmmProtoBody :=
  let resources := topo.resources.take topologyMaxFit
  packBody [protoWriteI32 0, protoWriteU32 topo.nodeId.toUInt32,
    protoWriteU32 (UInt32.ofNat resources.length), resources.flatMap packStorageResource]

def memPackGetTopologyResp (topo : StorageTopology) : Except Error (Option UmmProtoBody) :=
  if ummMaxTopologyResources < topo.resources.length then .error .invalidArg
  else .ok (packTopology topo)

/-- Status, node and count. -/
def readTopologyHeader : Decoder (Int32 × UInt32 × UInt32) := do
  let status ← protoReadI32
  let nodeId ← protoReadU32
  let count ← protoReadU32
  pure (status, nodeId, count)

/-- The resources that have room in the message. -/
def topologyAvail (body : UmmProtoBody) : ℕ :=
  (body.len.toNat - storageTopologyHeaderSize) / storageResourceSerializedSize

/-- A header and `count` resources after it. -/
def readTopology (count : ℕ) : Decoder StorageTopology := do
  let header ← readTopologyHeader
  let resources ← Decoder.many unpackStorageResource count
  pure ⟨header.2.1.toUInt8, resources⟩

def memUnpackGetTopologyResp (body : UmmProtoBody) : Except Error StorageTopology :=
  if body.len.toNat < storageTopologyHeaderSize then .error .invalidArg
  else
    let header := (readTopologyHeader body.data).1
    if header.1 ≠ 0 then .error .rpcError
    else
      let count := header.2.2.toNat
      if topologyAvail body < count ∨ ummMaxTopologyResources < count then .error .invalidArg
      else .ok (readTopology count body.data).1

def memPackDataReq (m : MemDataReq) : Option UmmProtoBody :=
  packBody [protoWriteU64 m.gpa, protoWriteU64 m.len]

def memUnpackDataReq : UmmProtoBody → Except Error MemDataReq :=
  unpackAtLeast 16 do
    let gpa ← protoReadU64
    let len ← protoReadU64
    pure ⟨gpa, len⟩

/-- The reply that `handle_data_read` packs. -/
def packDataReadResp (m : MemDataReadResp) : Option UmmProtoBody :=
  packBody [protoWriteI32 m.status, protoWriteU64 m.len]

def memUnpackDataReadResp : UmmProtoBody → Except Error MemDataReadResp :=
  unpackAtLeast 12 do
    let status ← protoReadI32
    let len ← protoReadU64
    pure ⟨status, len⟩

end Umm.Proto
