import Umm.Protocol.Meta

/-! The whole wire format: every unpacker, and every message that is packed for one of them. -/
namespace Umm.Proto

/-- One kind for each unpacker, and one for the start that the server reads from a topology
request. -/
inductive MessageKind where
  | memAlloc
  | memAllocResp
  | memFree
  | memFreeResp
  | memStatsResp
  | memAllocOnDevice
  | memAllocTiered
  | memAllocTieredResp
  | memAllocTieredResp2
  | memFreeTiered
  | memGetTierStats
  | memGetTierStatsResp
  | memRegisterStorage
  | memGetTopology
  | memGetTopologyResp
  | memDataReq
  | memDataReadResp
  | metaRegisterChunk
  | metaRegisterChunkResp
  | metaLookupChunk
  | metaLookupChunkResp
  | metaLookupChunkById
  | metaLookupChunkByIdResp
  | metaUnregisterChunk
  | metaUnregisterChunkResp
  | metaAddRef
  | metaAddRefResp
  | metaReleaseRef
  | metaReleaseRefResp
  | metaListChunks
  | metaListChunksResp (maxCount : UInt32) (wanted : Bool)
  | metaRegisterStorageResource
  | metaGetStorageTopology
  | metaGetStorageTopologyResp
deriving DecidableEq

/-- What the unpacker of the kind fills in. -/
def MessageKind.Out : MessageKind → Type
  | .memAlloc => MemAllocReq
  | .memAllocResp => MemAllocResp
  | .memFree => MemFreeReq
  | .memFreeResp => MemFreeResp
  | .memStatsResp => MemStatsResp
  | .memAllocOnDevice => MemAllocOnDeviceReq
  | .memAllocTiered => MemAllocTieredReq
  | .memAllocTieredResp => MemAllocTieredResp
  | .memAllocTieredResp2 => MemAllocTieredResp × UInt8
  | .memFreeTiered => MemFreeTieredReq
  | .memGetTierStats => MemGetTierStatsReq
  | .memGetTierStatsResp => MemGetTierStatsResp
  | .memRegisterStorage => StorageResource
  | .memGetTopology => UInt32
  | .memGetTopologyResp => StorageTopology
  | .memDataReq => MemDataReq
  | .memDataReadResp => MemDataReadResp
  | .metaRegisterChunk => MetaRegisterChunkReq
  | .metaRegisterChunkResp => MetaRegisterChunkResp
  | .metaLookupChunk => MetaLookupChunkReq
  | .metaLookupChunkResp => MetaLookupChunkResp
  | .metaLookupChunkById => UInt64
  | .metaLookupChunkByIdResp => MetaLookupChunkResp
  | .metaUnregisterChunk => UInt64
  | .metaUnregisterChunkResp => Int32
  | .metaAddRef => UInt64
  | .metaAddRefResp => MetaRefResp
  | .metaReleaseRef => UInt64
  | .metaReleaseRefResp => MetaRefResp
  | .metaListChunks => UInt8
  | .metaListChunksResp _ _ => ℕ × List ChunkMetadata
  | .metaRegisterStorageResource => MetaRegisterStorageReq
  | .metaGetStorageTopology => UInt32
  | .metaGetStorageTopologyResp => StorageTopology

def MessageKind.unpack : (kind : MessageKind) → UmmProtoBody → Except Error kind.Out
  | .memAlloc => memUnpackAlloc
  | .memAllocResp => memUnpackAllocResp
  | .memFree => memUnpackFree
  | .memFreeResp => memUnpackFreeResp
  | .memStatsResp => memUnpackStatsResp
  | .memAllocOnDevice => memUnpackAllocOnDevice
  | .memAllocTiered => memUnpackAllocTiered
  | .memAllocTieredResp => memUnpackAllocTieredResp
  | .memAllocTieredResp2 => memUnpackAllocTieredResp2
  | .memFreeTiered => memUnpackFreeTiered
  | .memGetTierStats => memUnpackGetTierStats
  | .memGetTierStatsResp => memUnpackGetTierStatsResp
  | .memRegisterStorage => memUnpackRegisterStorage
  | .memGetTopology => memReadTopologyStart
  | .memGetTopologyResp => memUnpackGetTopologyResp
  | .memDataReq => memUnpackDataReq
  | .memDataReadResp => memUnpackDataReadResp
  | .metaRegisterChunk => metaUnpackRegisterChunk
  | .metaRegisterChunkResp => metaUnpackRegisterChunkResp
  | .metaLookupChunk => metaUnpackLookupChunk
  | .metaLookupChunkResp => metaUnpackLookupChunkResp
  | .metaLookupChunkById => metaUnpackLookupChunkById
  | .metaLookupChunkByIdResp => metaUnpackLookupChunkByIdResp
  | .metaUnregisterChunk => metaUnpackUnregisterChunk
  | .metaUnregisterChunkResp => metaUnpackUnregisterChunkResp
  | .metaAddRef => metaUnpackAddRef
  | .metaAddRefResp => metaUnpackAddRefResp
  | .metaReleaseRef => metaUnpackReleaseRef
  | .metaReleaseRefResp => metaUnpackReleaseRefResp
  | .metaListChunks => metaUnpackListChunks
  | .metaListChunksResp maxCount wanted => metaUnpackListChunksResp maxCount wanted
  | .metaRegisterStorageResource => metaUnpackRegisterStorageResource
  | .metaGetStorageTopology => metaUnpackGetStorageTopology
  | .metaGetStorageTopologyResp => metaUnpackGetStorageTopologyResp

/-- The messages that have a packer, each with what its packer is given. A list of chunks also
has the room for it at its receiver. -/
inductive WireMessage where
  | memAlloc (req : MemAllocReq)
  | memAllocResp (resp : MemAllocResp)
  | memFree (req : MemFreeReq)
  | memFreeResp (resp : MemFreeResp)
  | memStatsResp (resp : MemStatsResp)
  | memAllocOnDevice (req : MemAllocOnDeviceReq)
  | memAllocTiered (req : MemAllocTieredReq)
  | memAllocTieredResp (resp : MemAllocTieredResp) (owner : UInt8)
  | memAllocTieredResp2 (resp : MemAllocTieredResp) (owner : UInt8)
  | memFreeTiered (req : MemFreeTieredReq)
  | memGetTierStats (req : MemGetTierStatsReq)
  | memRegisterStorage (res : StorageResource)
  | memGetTopology (start : UInt32)
  | memGetTopologyResp (topo : StorageTopology)
  | memDataReq (req : MemDataReq)
  | memDataReadResp (resp : MemDataReadResp)
  | metaRegisterChunk (req : MetaRegisterChunkReq)
  | metaRegisterChunkResp (resp : MetaRegisterChunkResp)
  | metaLookupChunk (req : MetaLookupChunkReq)
  | metaLookupChunkResp (resp : MetaLookupChunkResp)
  | metaLookupChunkById (chunkId : UInt64)
  | metaLookupChunkByIdResp (resp : MetaLookupChunkResp)
  | metaUnregisterChunk (chunkId : UInt64)
  | metaUnregisterChunkResp (status : Int32)
  | metaAddRef (chunkId : UInt64)
  | metaAddRefResp (resp : MetaRefResp)
  | metaReleaseRef (chunkId : UInt64)
  | metaReleaseRefResp (resp : MetaRefResp)
  | metaListChunks (node : UInt8)
  | metaListChunksResp (maxCount : UInt32) (metas : List ChunkMetadata)
  | metaRegisterStorageResource (node : UInt8) (res : StorageResource)
  | metaGetStorageTopology (node : UInt8)
  | metaGetStorageTopologyResp (topo : StorageTopology)

namespace WireMessage

/-- The unpacker that the receiver calls. -/
def kind : WireMessage → MessageKind
  | memAlloc _ => .memAlloc
  | memAllocResp _ => .memAllocResp
  | memFree _ => .memFree
  | memFreeResp _ => .memFreeResp
  | memStatsResp _ => .memStatsResp
  | memAllocOnDevice _ => .memAllocOnDevice
  | memAllocTiered _ => .memAllocTiered
  | memAllocTieredResp _ _ => .memAllocTieredResp
  | memAllocTieredResp2 _ _ => .memAllocTieredResp2
  | memFreeTiered _ => .memFreeTiered
  | memGetTierStats _ => .memGetTierStats
  | memRegisterStorage _ => .memRegisterStorage
  | memGetTopology _ => .memGetTopology
  | memGetTopologyResp _ => .memGetTopologyResp
  | memDataReq _ => .memDataReq
  | memDataReadResp _ => .memDataReadResp
  | metaRegisterChunk _ => .metaRegisterChunk
  | metaRegisterChunkResp _ => .metaRegisterChunkResp
  | metaLookupChunk _ => .metaLookupChunk
  | metaLookupChunkResp _ => .metaLookupChunkResp
  | metaLookupChunkById _ => .metaLookupChunkById
  | metaLookupChunkByIdResp _ => .metaLookupChunkByIdResp
  | metaUnregisterChunk _ => .metaUnregisterChunk
  | metaUnregisterChunkResp _ => .metaUnregisterChunkResp
  | metaAddRef _ => .metaAddRef
  | metaAddRefResp _ => .metaAddRefResp
  | metaReleaseRef _ => .metaReleaseRef
  | metaReleaseRefResp _ => .metaReleaseRefResp
  | metaListChunks _ => .metaListChunks
  | metaListChunksResp maxCount _ => .metaListChunksResp maxCount true
  | metaRegisterStorageResource _ _ => .metaRegisterStorageResource
  | metaGetStorageTopology _ => .metaGetStorageTopology
  | metaGetStorageTopologyResp _ => .metaGetStorageTopologyResp

/-- `none` is a write past the end of the body, or an error of the packer. -/
def pack : WireMessage → Option UmmProtoBody
  | memAlloc req => memPackAlloc req
  | memAllocResp resp => packAllocResp resp
  | memFree req => memPackFree req
  | memFreeResp resp => packFreeResp resp
  | memStatsResp resp => packStatsResp resp
  | memAllocOnDevice req => memPackAllocOnDevice req
  | memAllocTiered req => memPackAllocTiered req
  | memAllocTieredResp resp owner => packAllocResp2 resp owner
  | memAllocTieredResp2 resp owner => packAllocResp2 resp owner
  | memFreeTiered req => memPackFreeTiered req
  | memGetTierStats req => memPackGetTierStats req
  | memRegisterStorage res => memPackRegisterStorage res
  | memGetTopology start => memPackGetTopology start
  | memGetTopologyResp topo => (memPackGetTopologyResp topo).toOption.join
  | memDataReq req => memPackDataReq req
  | memDataReadResp resp => packDataReadResp resp
  | metaRegisterChunk req => metaPackRegisterChunk req
  | metaRegisterChunkResp resp => packRegisterChunkResp resp
  | metaLookupChunk req => metaPackLookupChunk req
  | metaLookupChunkResp resp => packLookupChunkResp resp
  | metaLookupChunkById chunkId => metaPackLookupChunkById chunkId
  | metaLookupChunkByIdResp resp => packLookupChunkResp resp
  | metaUnregisterChunk chunkId => metaPackUnregisterChunk chunkId
  | metaUnregisterChunkResp status => packStatusBody status
  | metaAddRef chunkId => metaPackAddRef chunkId
  | metaAddRefResp resp => packRefResp resp
  | metaReleaseRef chunkId => metaPackReleaseRef chunkId
  | metaReleaseRefResp resp => packRefResp resp
  | metaListChunks node => metaPackListChunks node
  | metaListChunksResp _ metas => metaPackListChunksResp metas
  | metaRegisterStorageResource node res => metaPackRegisterStorageResource node res
  | metaGetStorageTopology node => metaPackGetStorageTopology node
  | metaGetStorageTopologyResp topo => metaPackGetStorageTopologyResp topo

/-- The message in the structure of its receiver. Two requests keep their node in a wider field
there, and the older reader of the tiered reply has no field for the owner. -/
def out : (m : WireMessage) → m.kind.Out
  | memAlloc req => req
  | memAllocResp resp => resp
  | memFree req => req
  | memFreeResp resp => resp
  | memStatsResp resp => resp
  | memAllocOnDevice req => req
  | memAllocTiered req => req
  | memAllocTieredResp resp _ => resp
  | memAllocTieredResp2 resp owner => (resp, owner)
  | memFreeTiered req => req
  | memGetTierStats req => req
  | memRegisterStorage res => res
  | memGetTopology start => start
  | memGetTopologyResp topo => topo
  | memDataReq req => req
  | memDataReadResp resp => resp
  | metaRegisterChunk req => req
  | metaRegisterChunkResp resp => resp
  | metaLookupChunk req => req
  | metaLookupChunkResp resp => resp
  | metaLookupChunkById chunkId => chunkId
  | metaLookupChunkByIdResp resp => resp
  | metaUnregisterChunk chunkId => chunkId
  | metaUnregisterChunkResp status => status
  | metaAddRef chunkId => chunkId
  | metaAddRefResp resp => resp
  | metaReleaseRef chunkId => chunkId
  | metaReleaseRefResp resp => resp
  | metaListChunks node => node
  | metaListChunksResp _ metas => (metas.length, metas)
  | metaRegisterStorageResource node res => (⟨node.toUInt32, res⟩ : MetaRegisterStorageReq)
  | metaGetStorageTopology node => node.toUInt32
  | metaGetStorageTopologyResp topo => topo

end WireMessage

/-- A path that fits with its NUL, and a flag that is a truth value. -/
structure StorageResource.Valid (r : StorageResource) : Prop where
  path_le : r.devicePath.length ≤ 255
  online_bool : r.online = 0 ∨ r.online = 1

/-- A name fits with its NUL. -/
def ValidName (name : CString) : Prop := name.length ≤ 63

/-- The values that the format has room for; those of an integer field all are. -/
def WireMessage.Valid : WireMessage → Prop
  | memRegisterStorage res => res.Valid
  | memGetTopologyResp topo => topo.resources.length ≤ 14 ∧ ∀ r ∈ topo.resources, r.Valid
  | metaRegisterChunk req => ValidName req.name
  | metaLookupChunk req => ValidName req.name
  | metaLookupChunkResp resp => ValidName resp.chunk.name
  | metaLookupChunkByIdResp resp => ValidName resp.chunk.name
  | metaListChunksResp maxCount metas =>
    metas.length ≤ 46 ∧ metas.length ≤ maxCount.toNat ∧ ∀ m ∈ metas, ValidName m.name
  | metaRegisterStorageResource _ res => res.Valid
  | metaGetStorageTopologyResp topo => topo.resources.length ≤ 4 ∧ ∀ r ∈ topo.resources, r.Valid
  | _ => True

end Umm.Proto
