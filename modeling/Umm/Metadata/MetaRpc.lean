import Umm.Metadata.Directory
import Umm.Protocol.Frame
import Umm.Protocol.Meta

/-! The two ends of the metadata protocol: the handler of `meta_service_rpc_server.c`, and the
calls of `meta_service_rpc_client.c`. The requests for storage topologies are left out. -/
namespace Umm
open Umm.Lib Proto

inductive MetaOp where
  | registerChunk
  | lookupChunk
  | lookupChunkById
  | unregisterChunk
  | addRef
  | releaseRef
  | listChunksByNode
  | heartbeat
deriving DecidableEq, Repr

def MetaOp.code : MetaOp → UInt8
  | .registerChunk => 1
  | .lookupChunk => 2
  | .lookupChunkById => 3
  | .unregisterChunk => 4
  | .addRef => 5
  | .releaseRef => 6
  | .listChunksByNode => 7
  | .heartbeat => 8

def MetaOp.ofCode (code : UInt8) : Option MetaOp :=
  [MetaOp.registerChunk, .lookupChunk, .lookupChunkById, .unregisterChunk, .addRef, .releaseRef,
    .listChunksByNode, .heartbeat].find? (·.code = code)

@[simp] theorem MetaOp.ofCode_code (op : MetaOp) : MetaOp.ofCode op.code = some op := by
  cases op <;> rfl

/-- The fields of a record that the protocol carries; no code reads the others. -/
def ChunkMetadata.wire (info : ChunkMetadata) : Proto.ChunkMetadata :=
  ⟨UInt64.ofNat info.chunkId, info.name, UInt64.ofNat info.gpa, UInt64.ofNat info.size⟩

section Direct

variable {N : Type}

/-- The loop of `impl_list_chunks_by_node` over the next `r` identifiers, with room for `room`
more records. -/
def listChunksLoop (ctx : MetaServiceCtx N) (node : UInt8) : ℕ → ℕ → ℕ → List ChunkMetadata
  | 0, _, _ => []
  | _ + 1, _, 0 => []
  | r + 1, cid, room + 1 =>
    match findChunkById ctx cid with
    | none => listChunksLoop ctx node r (cid + 1) (room + 1)
    | some ce =>
      if gpaToNode ce.info.gpa = node.toNat then
        ce.info :: listChunksLoop ctx node r (cid + 1) room
      else listChunksLoop ctx node r (cid + 1) (room + 1)

/-- The number of records found, and the records when there is an array for them. -/
def implListChunksByNode (ctx : MetaServiceCtx N) (node : UInt8) (maxOut : UInt32)
    (wanted : Bool) : ℕ × List ChunkMetadata :=
  let found := listChunksLoop ctx node (ctx.nextChunkId - 1) 1 maxOut.toNat
  (found.length, if wanted then found else [])

end Direct

/-- The entries of the function table that the handler calls, in the types of the interface. A
registration that never returns is `none`. -/
structure MetadataServiceVtbl (σ : Type) where
  registerChunk : σ → CString → UInt64 → UInt64 → Option (Except Error UInt64 × σ)
  lookupChunk : σ → CString → Except Error Proto.ChunkMetadata
  lookupChunkById : σ → UInt64 → Except Error Proto.ChunkMetadata
  unregisterChunk : σ → UInt64 → Except Error Unit × σ
  addRef : σ → UInt64 → Except Error Unit × σ
  releaseRef : σ → UInt64 → Except Error Unit × σ
  listChunksByNode : σ → UInt8 → UInt32 → Bool → Except Error (ℕ × List Proto.ChunkMetadata)

/-- The table of the direct service. -/
def metaVtbl (N : Type) [NameTable N] : MetadataServiceVtbl (MetaServiceCtx N) where
  registerChunk ctx name gpa size :=
    (implRegisterChunk ctx name gpa.toNat size.toNat).map fun r => (r.1.map UInt64.ofNat, r.2)
  lookupChunk ctx name := (implLookupChunk ctx name).map ChunkMetadata.wire
  lookupChunkById ctx chunkId := (implLookupChunkById ctx chunkId.toNat).map ChunkMetadata.wire
  unregisterChunk ctx chunkId := implUnregisterChunk ctx chunkId.toNat
  addRef ctx chunkId := implAddRef ctx chunkId.toNat
  releaseRef ctx chunkId := implReleaseRef ctx chunkId.toNat
  listChunksByNode ctx node maxOut wanted :=
    let r := implListChunksByNode ctx node maxOut wanted
    .ok (r.1, r.2.map ChunkMetadata.wire)

/-- The string at the name field of a `MetaRegisterChunkReq`. A name that fills the field has no
NUL in it: the NUL that `proto_read_str` writes behind it is overwritten by the address, so the
string goes on with the bytes of the address, of the size, and of the stack behind the struct. -/
def Proto.MetaRegisterChunkReq.nameString (req : MetaRegisterChunkReq) (stack : List UInt8) :
    CString :=
  if req.name.length < 64 then req.name
  else CString.ofBytes (req.name.bytes ++
    (protoWriteU64 req.gpa ++ (protoWriteU64 req.size ++ stack)))

namespace MetaRpcServer

variable {σ : Type} (vtbl : MetadataServiceVtbl σ) (stack : List UInt8) (ctx : σ)

/-- A reply with the status alone: the request could not be unpacked, or has no other output. -/
def statusReply (status : Int32) (ctx : σ) : Option (UmmProtoBody × σ) := do
  let reply ← packStatusBody status
  pure (reply, ctx)

/-- The calls that name a chunk and answer with a status and a reference count of 0. -/
def refReply (r : Except Error Unit × σ) : Option (UmmProtoBody × σ) := do
  let reply ← packRefResp ⟨statusOf r.1, 0⟩
  pure (reply, r.2)

/-- The reply of both lookups carries a record even without a chunk: one of zeros. -/
def lookupReply (r : Except Error Proto.ChunkMetadata) : Option (UmmProtoBody × σ) := do
  let reply ← packLookupChunkResp
    ⟨statusOf r, r.toOption.getD ⟨0, CString.ofBytes [], 0, 0⟩⟩
  pure (reply, ctx)

def listBufferSize : UInt32 := 32

/-- The switch: the reply, and the service after it. -/
def handleOp (op : MetaOp) (body : UmmProtoBody) : Option (UmmProtoBody × σ) :=
  match op with
  | .registerChunk =>
    match metaUnpackRegisterChunk body with
    | .error e => statusReply e.code ctx
    | .ok req => do
      let r ← vtbl.registerChunk ctx (req.nameString stack) req.gpa req.size
      let reply ← packRegisterChunkResp ⟨statusOf r.1, r.1.toOption.getD 0⟩
      pure (reply, r.2)
  | .lookupChunk =>
    match metaUnpackLookupChunk body with
    | .error e => statusReply e.code ctx
    | .ok req => lookupReply ctx (vtbl.lookupChunk ctx req.name)
  | .lookupChunkById =>
    match metaUnpackLookupChunkById body with
    | .error e => statusReply e.code ctx
    | .ok chunkId => lookupReply ctx (vtbl.lookupChunkById ctx chunkId)
  | .unregisterChunk =>
    match metaUnpackUnregisterChunk body with
    | .error e => statusReply e.code ctx
    | .ok chunkId =>
      let r := vtbl.unregisterChunk ctx chunkId
      statusReply (statusOf r.1) r.2
  | .addRef =>
    match metaUnpackAddRef body with
    | .error e => statusReply e.code ctx
    | .ok chunkId => refReply (vtbl.addRef ctx chunkId)
  | .releaseRef =>
    match metaUnpackReleaseRef body with
    | .error e => statusReply e.code ctx
    | .ok chunkId => refReply (vtbl.releaseRef ctx chunkId)
  | .listChunksByNode =>
    match metaUnpackListChunks body with
    | .error e => statusReply e.code ctx
    | .ok node =>
      -- the request does not say how many records the caller has room for
      match vtbl.listChunksByNode ctx node listBufferSize true with
      | .error e => statusReply e.code ctx
      | .ok (_, metas) => do
        let reply ← metaPackListChunksResp metas
        pure (reply, ctx)
  | .heartbeat => do
    let reply ← packEmpty
    pure (reply, ctx)

/-- `meta_service_rpc_handle`: the bytes sent back for one request, and the service after it. -/
def metaServiceRpcHandle (stream : List UInt8) : Option (List UInt8 × σ) :=
  match recvFrame stream with
  | (.error _, _) => some ([], ctx)
  | (.ok (hdr, body), _) => do
    let (reply, ctx) ←
      match MetaOp.ofCode hdr.opcode with
      | some op => handleOp vtbl stack ctx op body
      | none => statusReply Error.unknown.code ctx
    pure (frame hdr.opcode ummFlagResponse noToken reply, ctx)

end MetaRpcServer

namespace MetaRpcClient

variable {σ : Type} (peer : Peer σ) (ctx : σ)

/-- A call on a connection that loses nothing: the request is packed and sent, and the reply is
unpacked. -/
def doRpc {α : Type} (op : MetaOp) (request : Option UmmProtoBody)
    (unpack : UmmProtoBody → Except Int32 α) : Option (Except Int32 α × σ) := do
  let body ← request
  let (reply, ctx) ← peer ctx (frame op.code ummFlagRequest noToken body)
  pure ((withCode (recvReply op.code reply).1).bind unpack, ctx)

def metaRpcRegisterChunk (name : CString) (gpa size : UInt64) :
    Option (Except Int32 UInt64 × σ) :=
  doRpc peer ctx .registerChunk (metaPackRegisterChunk ⟨name, gpa, size⟩) fun reply => do
    let resp ← withCode (metaUnpackRegisterChunkResp reply)
    checkStatus resp.status resp.chunkId

def metaRpcLookupChunk (name : CString) : Option (Except Int32 Proto.ChunkMetadata × σ) :=
  doRpc peer ctx .lookupChunk (metaPackLookupChunk ⟨name⟩) fun reply => do
    let resp ← withCode (metaUnpackLookupChunkResp reply)
    checkStatus resp.status resp.chunk

def metaRpcLookupChunkById (chunkId : UInt64) : Option (Except Int32 Proto.ChunkMetadata × σ) :=
  doRpc peer ctx .lookupChunkById (metaPackLookupChunkById chunkId) fun reply => do
    let resp ← withCode (metaUnpackLookupChunkByIdResp reply)
    checkStatus resp.status resp.chunk

def metaRpcUnregisterChunk (chunkId : UInt64) : Option (Except Int32 Unit × σ) :=
  doRpc peer ctx .unregisterChunk (metaPackUnregisterChunk chunkId) fun reply => do
    let status ← withCode (metaUnpackUnregisterChunkResp reply)
    checkStatus status ()

def metaRpcAddRef (chunkId : UInt64) : Option (Except Int32 Unit × σ) :=
  doRpc peer ctx .addRef (metaPackAddRef chunkId) fun reply => do
    let resp ← withCode (metaUnpackAddRefResp reply)
    checkStatus resp.status ()

def metaRpcReleaseRef (chunkId : UInt64) : Option (Except Int32 Unit × σ) :=
  doRpc peer ctx .releaseRef (metaPackReleaseRef chunkId) fun reply => do
    let resp ← withCode (metaUnpackReleaseRefResp reply)
    checkStatus resp.status ()

def metaRpcListChunksByNode (node : UInt8) (maxCount : UInt32) (wanted : Bool) :
    Option (Except Int32 (ℕ × List Proto.ChunkMetadata) × σ) :=
  doRpc peer ctx .listChunksByNode (metaPackListChunks node) fun reply =>
    withCode (metaUnpackListChunksResp maxCount wanted reply)

end MetaRpcClient

/-- The server's thread for the connection, for one request. -/
def metaPeer {σ : Type} (vtbl : MetadataServiceVtbl σ) (stack : List UInt8) :
    Peer σ :=
  MetaRpcServer.metaServiceRpcHandle vtbl stack

end Umm
