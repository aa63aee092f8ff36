import Umm.Memory.MemRpc

/-! The remote data path of `transport_remote.c`: single requests on a connection, and the
transfer that is cut into them, with one reconnection. -/
namespace Umm
open Umm.Lib Proto

/-- The requests of the remote transport. -/
inductive DataReq where
  | read (gpa len : UInt64)
  | write (gpa : UInt64) (buf : List UInt8)

def DataReq.op : DataReq → MemOp
  | .read .. => .dataRead
  | .write .. => .dataWrite

def DataReq.gpa : DataReq → UInt64
  | .read gpa _ => gpa
  | .write gpa _ => gpa

/-- The length field of the request. -/
def DataReq.len : DataReq → UInt64
  | .read _ len => len
  | .write _ buf => UInt64.ofNat buf.length

/-- The bytes that follow the request. -/
def DataReq.payload : DataReq → List UInt8
  | .read .. => []
  | .write _ buf => buf

/-- Header and body of the request. -/
def DataReq.head (token : Token) (req : DataReq) : Option (List UInt8) :=
  (memPackDataReq ⟨req.gpa, req.len⟩).map (frame req.op.code ummFlagRequest token)

/-- What a single request leaves: its return value, the bytes that it stored in the caller's
buffer, and the bytes of the connection that it has not read. -/
structure RpcDone where
  rc : Int32
  filled : List UInt8
  rest : List UInt8

def recvWriteStatus : Recv Int32 := do
  let resp ← recvReply MemOp.dataWrite.code
  if resp.len.toNat < 4 then throw .rpcError else pure (protoReadI32 resp.data).1

/-- The receiving half of `rpc_data_write`. -/
def rpcDataWrite (stream : List UInt8) : RpcDone :=
  match recvWriteStatus stream with
  | (.error e, rest) => ⟨e.code, [], rest⟩
  | (.ok status, rest) => ⟨status, [], rest⟩

def recvReadStatus (len : UInt64) : Recv Int32 := do
  let resp ← recvReply MemOp.dataRead.code
  match memUnpackDataReadResp resp with
  | .error e => throw e
  | .ok r =>
    if r.status ≠ 0 then pure r.status
    else if r.len ≠ len then throw .rpcError
    else pure 0

/-- The receiving half of `rpc_data_read`. A payload that breaks off is in the buffer as far as
it arrived. -/
def rpcDataRead (len : UInt64) (stream : List UInt8) : RpcDone :=
  match recvReadStatus len stream with
  | (.error e, rest) => ⟨e.code, [], rest⟩
  | (.ok status, rest) =>
    if status ≠ 0 then ⟨status, [], rest⟩
    else
      match ummTcpRecvExact len.toNat rest with
      | (.error e, rest') => ⟨e.code, rest, rest'⟩
      | (.ok payload, rest') => ⟨0, payload, rest'⟩

/-- The client on the bytes that it gets back for the request. -/
def DataReq.finish : DataReq → List UInt8 → RpcDone
  | .read _ len, stream => rpcDataRead len stream
  | .write .., stream => rpcDataWrite stream

structure RemoteCtx where
  maxIo : ℕ
  token : Option Token

def remoteTransportCreate (dataMaxIo : UInt32) (rpcToken : Option CString) : RemoteCtx :=
  ⟨clampMaxIo dataMaxIo, configuredToken rpcToken⟩

def RemoteCtx.headerToken (rctx : RemoteCtx) : Token := rctx.token.getD noToken

/-- The arguments of `remote_io` beside the buffer. -/
structure RemoteIo where
  gpa : UInt64
  len : UInt64
  isWrite : Bool

/-- Where `remote_io` stands: before a connection attempt, before the request for the bytes from
`done` on, or back at its caller. -/
inductive RemotePhase where
  | connecting (attempt : ℕ)
  | running (attempt done : ℕ)
  | returned (rc : Int32)
deriving DecidableEq

namespace RemoteIo

variable (io : RemoteIo)

def start : RemotePhase := if io.len.toNat = 0 then .returned 0 else .connecting 0

def chunk (maxIo done : ℕ) : ℕ := min (io.len.toNat - done) maxIo

def request (maxIo done : ℕ) (buf : List UInt8) : DataReq :=
  let gpa := io.gpa + UInt64.ofNat done
  if io.isWrite then .write gpa (slice buf done (io.chunk maxIo done))
  else .read gpa (UInt64.ofNat (io.chunk maxIo done))

/-- Errors of the transport lead to the second attempt, which starts from the beginning; all
others are returned. -/
def afterRpc (maxIo attempt done : ℕ) (rc : Int32) : RemotePhase :=
  if rc = Error.transportError.code then
    if attempt = 0 then .connecting 1 else .returned Error.transportError.code
  else if rc ≠ 0 then .returned rc
  else
    if done + io.chunk maxIo done < io.len.toNat then .running attempt (done + io.chunk maxIo done)
    else .returned 0

end RemoteIo

end Umm
