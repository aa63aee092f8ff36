import Umm.Memory.MemVtbl
import Umm.Protocol.Frame

/-! The two ends of the memory service protocol: the handler of
`mem_service_rpc_server.c`, and the calls of `mem_service_rpc_client.c`. -/
namespace Umm
open Umm.Lib Proto

/-- The requests; the bytes that name them stand in `MemOp.code`. -/
inductive MemOp where
  | alloc
  | free
  | getStats
  | heartbeat
  | allocTiered
  | freeTiered
  | getTierStats
  | registerStorage
  | getTopology
  | dataRead
  | dataWrite
  | allocOnDevice
deriving DecidableEq, Repr

def MemOp.code : MemOp → UInt8
  | .alloc => 1
  | .free => 2
  | .getStats => 3
  | .heartbeat => 4
  | .allocTiered => 5
  | .freeTiered => 6
  | .getTierStats => 7
  | .registerStorage => 8
  | .getTopology => 9
  | .dataRead => 10
  | .dataWrite => 11
  | .allocOnDevice => 12

def MemOp.ofCode (code : UInt8) : Option MemOp :=
  [MemOp.alloc, .free, .getStats, .heartbeat, .allocTiered, .freeTiered, .getTierStats,
    .registerStorage, .getTopology, .dataRead, .dataWrite, .allocOnDevice].find? (·.code = code)

@[simp] theorem MemOp.ofCode_code (op : MemOp) : MemOp.ofCode op.code = some op := by
  cases op <;> rfl

def ummDataMaxIoDefault : ℕ := 1024 * 1024

def ummDataMaxIoMin : ℕ := 4 * 1024

def ummDataMaxIoMax : ℕ := 16 * 1024 * 1024

/-- The clamp that the server and the remote transport share. -/
def clampMaxIo (dataMaxIo : UInt32) : ℕ :=
  if dataMaxIo.toNat = 0 then ummDataMaxIoDefault
  else if dataMaxIo.toNat < ummDataMaxIoMin then ummDataMaxIoMin
  else if ummDataMaxIoMax < dataMaxIo.toNat then ummDataMaxIoMax
  else dataMaxIo.toNat

/-- The digest that a configured token leaves; `none` is no token. -/
def configuredToken (rpcToken : Option CString) : Option Token :=
  match rpcToken with
  | none => none
  | some token => if token.bytes = [] then none else some (ummTokenDigest token)

structure MemRpcServer where
  nodeId : UInt8
  token : Option Token
  dataMaxIo : ℕ

def memRpcServerConfigure (nodeId : UInt8) (rpcToken : Option CString) (dataMaxIo : UInt32) :
    MemRpcServer :=
  ⟨nodeId, configuredToken rpcToken, clampMaxIo dataMaxIo⟩

/-- What one call of the handler leaves: its return value, the bytes that it sent, the bytes
that it has not read, and the service. -/
structure Handled (σ : Type) where
  rc : Except Error Unit
  sent : List UInt8
  rest : List UInt8
  ctx : σ

def sendResponse (op : UInt8) (body : UmmProtoBody) : List UInt8 :=
  frame op ummFlagResponse noToken body

namespace MemRpcServer

variable {σ : Type} (srv : MemRpcServer) (vtbl : MemoryServiceVtbl σ)

def validateDataReq (gpa len : UInt64) : Except Error Unit :=
  if gpaToTier gpa.toNat ≠ Tier.ssd.id then .error .invalidArg
  else if len.toNat = 0 ∨ srv.dataMaxIo < len.toNat then .error .invalidArg
  else .ok ()

/-- The request of a data operation with its checks; `gotBuf` tells whether the buffer for the
payload was allocated. -/
def dataRequest {α : Type} (entry : Option α) (gotBuf : Bool) (body : UmmProtoBody) :
    Except Error (α × MemDataReq) := do
  let req ← memUnpackDataReq body
  srv.validateDataReq req.gpa req.len
  match entry with
  | none => .error .unsupported
  | some f => if gotBuf then .ok (f, req) else .error .noMemory

def gpaOffset64 (gpa : UInt64) : UInt64 := UInt64.ofNat (gpaToOffset gpa.toNat)

/-- Errors of the service travel in the reply, and the connection stays. -/
def handleDataRead (gotBuf : Bool) (ctx : σ) (body : UmmProtoBody) (stream : List UInt8) :
    Option (Handled σ) := do
  let (r, len, ctx) ←
    match srv.dataRequest vtbl.ssdRead gotBuf body with
    | .error e => some (Except.error e, 0, ctx)
    | .ok (ssdRead, req) =>
      (ssdRead ctx (gpaOffset64 req.gpa) req.len).map fun p => (p.1, req.len, p.2)
  let reply ← packDataReadResp ⟨statusOf r, if r.toOption.isSome then len else 0⟩
  pure ⟨.ok (), sendResponse MemOp.dataRead.code reply ++ r.toOption.getD [], stream, ctx⟩

/-- A rejected write has not read its payload: the error that it returns closes the
connection. -/
def handleDataWrite (gotBuf : Bool) (ctx : σ) (body : UmmProtoBody) (stream : List UInt8) :
    Option (Handled σ) :=
  match srv.dataRequest vtbl.ssdWrite gotBuf body with
  | .error e => do
    let reply ← packFreeResp ⟨e.code⟩
    pure ⟨.error e, sendResponse MemOp.dataWrite.code reply, stream, ctx⟩
  | .ok (ssdWrite, req) =>
    match ummTcpRecvExact req.len.toNat stream with
    | (.error e, rest) => pure ⟨.error e, [], rest, ctx⟩
    | (.ok payload, rest) => do
      let (r, ctx) ← ssdWrite ctx (gpaOffset64 req.gpa) payload
      let reply ← packFreeResp ⟨statusOf r⟩
      pure ⟨r, sendResponse MemOp.dataWrite.code reply, rest, ctx⟩

/-- The page of the topology from `start` on. -/
def topologyPage (start : UInt32) (topo : Proto.StorageTopology) :
    Except Error (Option UmmProtoBody) :=
  if topo.resources.length < start.toNat then .error .invalidArg
  else memPackGetTopologyResp { topo with resources := topo.resources.drop start.toNat }

def handleGetTopology (ctx : σ) (body : UmmProtoBody) : Option UmmProtoBody :=
  let page : Except Error (Option UmmProtoBody) := do
    let start ← memReadTopologyStart body
    match vtbl.getTopology with
    | none => .error .unsupported
    | some getTopology =>
      let topo ← getTopology ctx
      topologyPage start topo
  match page with
  | .ok reply => reply
  | .error e =>
    packBody [protoWriteI32 e.code, protoWriteU32 srv.nodeId.toUInt32, protoWriteU32 0]

/-- An offset that was not set is sent as 0. -/
def allocResp (r : Except Error UInt64) : MemAllocResp := ⟨statusOf r, r.toOption.getD 0⟩

def allocTieredResp (r : Except Error UInt64) : MemAllocTieredResp :=
  ⟨statusOf r, r.toOption.getD 0⟩

/-- The call of the service after its request was unpacked. -/
def served {α β : Type} (ctx : σ) (req : Except Error α) (f : α → Except Error β × σ) :
    Except Error β × σ :=
  match req with
  | .error e => (.error e, ctx)
  | .ok req => f req

/-- The switch over the requests that have no payload: the reply, and the service after it. -/
def handleControl (ctx : σ) (op : MemOp) (body : UmmProtoBody) : Option (UmmProtoBody × σ) :=
  match op with
  | .alloc => do
    let r := served ctx (memUnpackAlloc body) fun req => vtbl.allocLocal ctx req.size
    let reply ← packAllocResp (allocResp r.1)
    pure (reply, r.2)
  | .free => do
    let r := served ctx (memUnpackFree body) fun req => vtbl.freeLocal ctx req.offset req.size
    let reply ← packFreeResp ⟨statusOf r.1⟩
    pure (reply, r.2)
  | .getStats => do
    -- the status of the service is dropped: its outputs were set to 0 before
    let r := vtbl.getStats ctx
    let reply ← packStatsResp (r.1.toOption.getD ⟨0, 0, 0⟩)
    pure (reply, r.2)
  | .heartbeat => do
    let reply ← packEmpty
    pure (reply, ctx)
  | .getTopology => do
    let reply ← srv.handleGetTopology vtbl ctx body
    pure (reply, ctx)
  | .allocOnDevice => do
    let r := served ctx (memUnpackAllocOnDevice body) fun req =>
      if req.flags ≠ 0 then (.error .invalidArg, ctx)
      else
        match vtbl.allocOnDevice with
        | some allocOnDevice => allocOnDevice ctx req.tier req.deviceIdx req.size
        | none => (.error .unsupported, ctx)
    let reply ← packAllocResp2 (allocTieredResp r.1) srv.nodeId
    pure (reply, r.2)
  | .allocTiered => do
    let r := served ctx (memUnpackAllocTiered body) fun req =>
      match vtbl.allocTiered with
      | some allocTiered => allocTiered ctx req.tier req.size
      | none =>
        if req.tier.toNat = Tier.cxl.id then vtbl.allocLocal ctx req.size
        else (.error .invalidArg, ctx)
    let reply ← packAllocResp2 (allocTieredResp r.1) srv.nodeId
    pure (reply, r.2)
  | .freeTiered => do
    let r := served ctx (memUnpackFreeTiered body) fun req =>
      match vtbl.freeTiered with
      | some freeTiered => freeTiered ctx req.tier req.offset req.size
      | none =>
        if req.tier.toNat = Tier.cxl.id then vtbl.freeLocal ctx req.offset req.size
        else (.error .invalidArg, ctx)
    let reply ← packFreeResp ⟨statusOf r.1⟩
    pure (reply, r.2)
  | _ => do
    let reply ← packEmpty
    pure (reply, ctx)

/-- The header carries the token that the server was configured with. -/
def Admits (reserved : List UInt8) : Prop := ∀ token ∈ srv.token, reserved = token.val

instance (reserved : List UInt8) : Decidable (srv.Admits reserved) :=
  inferInstanceAs (Decidable (∀ token ∈ srv.token, reserved = token.val))

/-- `mem_service_rpc_handle`: one request from the connection. -/
def memServiceRpcHandle (gotBuf : Bool) (ctx : σ) (stream : List UInt8) : Option (Handled σ) :=
  match recvFrame stream with
  | (.error e, rest) => some ⟨.error e, [], rest, ctx⟩
  | (.ok (hdr, body), rest) =>
    if srv.Admits hdr.reserved then
      match MemOp.ofCode hdr.opcode with
      | some .dataRead => srv.handleDataRead vtbl gotBuf ctx body rest
      | some .dataWrite => srv.handleDataWrite vtbl gotBuf ctx body rest
      | some op => do
        let (reply, ctx) ← srv.handleControl vtbl ctx op body
        pure ⟨.ok (), sendResponse hdr.opcode reply, rest, ctx⟩
      | none => do
        let reply ← packEmpty
        pure ⟨.ok (), sendResponse hdr.opcode reply, rest, ctx⟩
    else some ⟨.error .rpcError, [], rest, ctx⟩

end MemRpcServer

/-- The digest that the client writes into its headers. -/
structure MemRpcClient where
  token : Option Token

def memRpcClientInitEx (rpcToken : Option CString) : MemRpcClient := ⟨configuredToken rpcToken⟩

namespace MemRpcClient

variable {σ : Type} (c : MemRpcClient) (peer : Peer σ) (ctx : σ)

def headerToken : Token := c.token.getD noToken

/-- `memrpc_do_call` on a connection that loses nothing. -/
def memrpcDoCall (op : MemOp) (body : UmmProtoBody) : Option (Except Int32 UmmProtoBody × σ) := do
  let (reply, ctx) ← peer ctx (frame op.code ummFlagRequest c.headerToken body)
  pure (withCode ((recvFrame reply).1.map Prod.snd), ctx)

/-- A call: the request is packed and sent, and the reply unpacked. -/
def callWith {α : Type} (op : MemOp) (request : Option UmmProtoBody)
    (unpack : UmmProtoBody → Except Int32 α) : Option (Except Int32 α × σ) := do
  let body ← request
  let (reply, ctx) ← c.memrpcDoCall peer ctx op body
  pure (reply.bind unpack, ctx)

def rejected {α : Type} (e : Error) : Option (Except Int32 α × σ) := some (.error e.code, ctx)

def memRpcAlloc (size : UInt64) (flags : UInt32) : Option (Except Int32 UInt64 × σ) :=
  if size = 0 then rejected ctx .invalidArg
  else
    c.callWith peer ctx .alloc (memPackAlloc ⟨size, flags⟩) fun reply => do
      let resp ← withCode (memUnpackAllocResp reply)
      checkStatus resp.status resp.offset

def memRpcFree (offset size : UInt64) : Option (Except Int32 Unit × σ) :=
  if size = 0 then rejected ctx .invalidArg
  else
    c.callWith peer ctx .free (memPackFree ⟨offset, size⟩) fun reply => do
      let resp ← withCode (memUnpackFreeResp reply)
      checkStatus resp.status ()

def memRpcGetStats : Option (Except Int32 MemStatsResp × σ) :=
  c.callWith peer ctx .getStats packEmpty fun reply => withCode (memUnpackStatsResp reply)

/-- The offset and the owner that the reply names. -/
def unpackOwned (reply : UmmProtoBody) : Except Int32 (UInt64 × UInt8) := do
  let (resp, owner) ← withCode (memUnpackAllocTieredResp2 reply)
  checkStatus resp.status (resp.offset, owner)

def memRpcAllocTiered2 (tier : UInt8) (size : UInt64) (flags : UInt32) :
    Option (Except Int32 (UInt64 × UInt8) × σ) :=
  if size = 0 ∨ 4 ≤ tier.toNat then rejected ctx .invalidArg
  else c.callWith peer ctx .allocTiered (memPackAllocTiered ⟨tier, size, flags⟩) unpackOwned

/-- A server that does not know the request answers with an empty body. -/
def memRpcAllocOnDevice (tier : UInt8) (deviceIdx : UInt32) (size : UInt64) (flags : UInt32) :
    Option (Except Int32 (UInt64 × UInt8) × σ) :=
  if size = 0 ∨ 4 ≤ tier.toNat then rejected ctx .invalidArg
  else
    c.callWith peer ctx .allocOnDevice (memPackAllocOnDevice ⟨tier, deviceIdx, size, flags⟩)
      fun reply =>
        if reply.len = 0 then .error Error.unsupported.code else unpackOwned reply

/-- A reply too short for a status counts as success. -/
def memRpcFreeTiered (tier : UInt8) (offset size : UInt64) : Option (Except Int32 Unit × σ) :=
  if size = 0 ∨ 4 ≤ tier.toNat then rejected ctx .invalidArg
  else
    c.callWith peer ctx .freeTiered (memPackFreeTiered ⟨tier, offset, size⟩) fun reply =>
      if 4 ≤ reply.len.toNat then checkStatus (protoReadI32 reply.data).1 () else .ok ()

end MemRpcClient

/-- The thread of `mem_server.c` that serves the connection, for one request. -/
def MemRpcServer.peer {σ : Type} (srv : MemRpcServer) (vtbl : MemoryServiceVtbl σ) (gotBuf : Bool) :
    Peer σ :=
  fun ctx stream => (srv.memServiceRpcHandle vtbl gotBuf ctx stream).map fun h => (h.sent, h.ctx)

end Umm
