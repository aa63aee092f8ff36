import Umm.Protocol.Mem

/-! The messages of `meta_protocol.c`, and the replies that `meta_service_rpc_server.c` packs. -/
namespace Umm.Proto
open Umm.Lib

structure MetaRegisterChunkReq where
  name : CString
  gpa : UInt64
  size : UInt64
deriving DecidableEq

structure MetaRegisterChunkResp where
  status : Int32
  chunkId : UInt64
deriving DecidableEq

structure MetaLookupChunkReq where
  name : CString
deriving DecidableEq

/-- The fields of a chunk record that are on the wire. -/
structure ChunkMetadata where
  chunkId : UInt64
  name : CString
  gpa : UInt64
  size : UInt64
deriving DecidableEq

structure MetaLookupChunkResp where
  status : Int32
  chunk : ChunkMetadata
deriving DecidableEq

structure MetaRefResp where
  status : Int32
  refCount : UInt32
deriving DecidableEq

structure MetaRegisterStorageReq where
  node : UInt32
  res : StorageResource
deriving DecidableEq

def metaPackRegisterChunk (m : MetaRegisterChunkReq) : Option UmmProtoBody :=
  packBody [protoWriteStr m.name 64, protoWriteU64 m.gpa, protoWriteU64 m.size]

/-- The check asks for fewer bytes than are read. -/
def metaUnpackRegisterChunk : UmmProtoBody → Except Error MetaRegisterChunkReq :=
  unpackAtLeast 72 do
    let name ← protoReadStr 64
    let gpa ← protoReadU64
    let size ← protoReadU64
    pure ⟨name, gpa, size⟩

def metaPackLookupChunk (m : MetaLookupChunkReq) : Option UmmProtoBody :=
  packBody [protoWriteStr m.name 64]

def metaUnpackLookupChunk : UmmProtoBody → Except Error MetaLookupChunkReq :=
  unpackAtLeast 64 do
    let name ← protoReadStr 64
    pure ⟨name⟩

/-- The four requests that carry only a chunk identifier. -/
def packChunkId (chunkId : UInt64) : Option UmmProtoBody := packBody [protoWriteU64 chunkId]

def unpackChunkId : UmmProtoBody → Except Error UInt64 := unpackAtLeast 8 protoReadU64

def metaPackLookupChunkById (chunkId : UInt64) : Option UmmProtoBody := packChunkId chunkId

def metaUnpackLookupChunkById : UmmProtoBody → Except Error UInt64 := unpackChunkId

def metaPackUnregisterChunk (chunkId : UInt64) : Option UmmProtoBody := packChunkId chunkId

def metaUnpackUnregisterChunk : UmmProtoBody → Except Error UInt64 := unpackChunkId

def metaPackAddRef (chunkId : UInt64) : Option UmmProtoBody := packChunkId chunkId

def metaUnpackAddRef : UmmProtoBody → Except Error UInt64 := unpackChunkId

def metaPackReleaseRef (chunkId : UInt64) : Option UmmProtoBody := packChunkId chunkId

def metaUnpackReleaseRef : UmmProtoBody → Except Error UInt64 := unpackChunkId

def metaPackListChunks (node : UInt8) : Option UmmProtoBody :=
  packBody [protoWriteU32 node.toUInt32]

/-- The node is cut to the eight bits of its field. -/
def metaUnpackListChunks : UmmProtoBody → Except Error UInt8 :=
  unpackAtLeast 4 do
    let node ← protoReadU32
    pure node.toUInt8

/-- `meta_pack_heartbeat` leaves the buffer as it is. -/
def metaPackHeartbeat (body : UmmProtoBody) : UmmProtoBody := { body with len := 0 }

/-- The reply of the server to a registration. -/
def packRegisterChunkResp (m : MetaRegisterChunkResp) : Option UmmProtoBody :=
  packBody [protoWriteI32 m.status, protoWriteU64 m.chunkId]

/-- The check asks for fewer bytes than are read. -/
def metaUnpackRegisterChunkResp : UmmProtoBody → Except Error MetaRegisterChunkResp :=
  unpackAtLeast 8 do
    let status ← protoReadI32
    let chunkId ← protoReadU64
    pure ⟨status, chunkId⟩

/-- `pack_chunk_meta` and `pack_chunk_metadata` -/
def packChunkMeta (m : ChunkMetadata) : List UInt8 :=
  [protoWriteU64 m.chunkId, protoWriteStr m.name 64, protoWriteU64 m.gpa,
    protoWriteU64 m.size].flatten

def unpackChunkMeta : Decoder ChunkMetadata := do
  let chunkId ← protoReadU64
  let name ← protoReadStr 64
  let gpa ← protoReadU64
  let size ← protoReadU64
  pure ⟨chunkId, name, gpa, size⟩

/-- The reply of the server to both lookups. -/
def packLookupChunkResp (m : MetaLookupChunkResp) : Option UmmProtoBody :=
  packBody [protoWriteI32 m.status, packChunkMeta m.chunk]

/-- The check asks for fewer bytes than are read. -/
def unpackLookupResp : UmmProtoBody → Except Error MetaLookupChunkResp :=
  unpackAtLeast 80 do
    let status ← protoReadI32
    let chunk ← unpackChunkMeta
    pure ⟨status, chunk⟩

def metaUnpackLookupChunkResp : UmmProtoBody → Except Error MetaLookupChunkResp :=
  unpackLookupResp

def metaUnpackLookupChunkByIdResp : UmmProtoBody → Except Error MetaLookupChunkResp :=
  unpackLookupResp

def packStatusBody (status : Int32) : Option UmmProtoBody := packBody [protoWriteI32 status]

def metaUnpackUnregisterChunkResp : UmmProtoBody → Except Error Int32 :=
  unpackAtLeast 4 protoReadI32

/-- The reply of the server to both reference calls. -/
def packRefResp (m : MetaRefResp) : Option UmmProtoBody :=
  packBody [protoWriteI32 m.status, protoWriteU32 m.refCount]

def unpackRefResp : UmmProtoBody → Except Error MetaRefResp :=
  unpackAtLeast 8 do
    let status ← protoReadI32
    let refCount ← protoReadU32
    pure ⟨status, refCount⟩

def metaUnpackAddRefResp : UmmProtoBody → Except Error MetaRefResp := unpackRefResp

def metaUnpackReleaseRefResp : UmmProtoBody → Except Error MetaRefResp := unpackRefResp

def chunkMetaSerializedSize : ℕ := 88

def chunkMetaMaxFit : ℕ := (ummProtoMaxBody - 8) / chunkMetaSerializedSize

/-- Status, count, and as many records as fit. -/
def metaPackListChunksResp (metas : List ChunkMetadata) : Option UmmProtoBody :=
  let metas := metas.take chunkMetaMaxFit
  packBody [protoWriteI32 0, protoWriteU32 (UInt32.ofNat metas.length),
    metas.flatMap packChunkMeta]

def readListHeader : Decoder (Int32 × UInt32) := do
  let status ← protoReadI32
  let count ← protoReadU32
  pure (status, count)

/-- A header and `count` records after it. -/
def readList (count : ℕ) : Decoder (List ChunkMetadata) := do
  let _ ← readListHeader
  Decoder.many unpackChunkMeta count

/-- The count and the records; without a place for records only the count. -/
def metaUnpackListChunksResp (maxCount : UInt32) (wanted : Bool) (body : UmmProtoBody) :
    Except Error (ℕ × List ChunkMetadata) :=
  if body.len.toNat < 8 then .error .invalidArg
  else
    let header := (readListHeader body.data).1
    if header.1 ≠ 0 then .error .rpcError
    else
      let avail := (body.len.toNat - 8) / chunkMetaSerializedSize
      let count := min (min header.2.toNat maxCount.toNat) avail
      .ok (count, if wanted then (readList count body.data).1 else [])

def metaPackRegisterStorageResource (node : UInt8) (res : StorageResource) :
    Option UmmProtoBody :=
  packBody [protoWriteU32 node.toUInt32, packStorageResource res]

def metaUnpackRegisterStorageResource : UmmProtoBody → Except Error MetaRegisterStorageReq :=
  unpackAtLeast 278 do
    let node ← protoReadU32
    let res ← unpackStorageResource
    pure ⟨node, res⟩

def metaPackGetStorageTopology (node : UInt8) : Option UmmProtoBody :=
  packBody [protoWriteU32 node.toUInt32]

def metaUnpackGetStorageTopology : UmmProtoBody → Except Error UInt32 :=
  unpackAtLeast 4 protoReadU32

def metaPackGetStorageTopologyResp (topo : StorageTopology) : Option UmmProtoBody :=
  packTopology topo

def ummNumTiers : ℕ := 4

/-- Unlike the reply of the memory protocol, a count that is too large is cut. -/
def metaUnpackGetStorageTopologyResp (body : UmmProtoBody) : Except Error StorageTopology :=
  if body.len.toNat < storageTopologyHeaderSize then .error .invalidArg
  else
    let header := (readTopologyHeader body.data).1
    if header.1 ≠ 0 then .error .rpcError
    else
      let count := min (min header.2.2.toNat (topologyAvail body)) ummNumTiers
      .ok (readTopology count body.data).1

end Umm.Proto
