import Umm.Transport.RemoteServe
import Umm.Memory.MemRpcSpec

/-! The thread of `mem_server.c` that serves one connection, request after request. -/
namespace Umm
open Umm.Lib Proto MemRpcServer

/-- The thread between two requests: the service, what its client still sends, what it was sent,
and whether the socket is open. -/
structure MemClientThread (σ : Type) where
  ctx : σ
  unread : List UInt8
  sent : List UInt8
  isOpen : Bool

namespace MemClientThread

variable {σ : Type} (srv : MemRpcServer) (vtbl : MemoryServiceVtbl σ)

/-- The thread after the handler: any error ends the loop and closes the socket. -/
def after (t : MemClientThread σ) (h : Handled σ) : MemClientThread σ :=
  ⟨h.ctx, h.rest, t.sent ++ h.sent, h.rc.isOk⟩

/-- One turn of the loop of `mem_client_thread`. -/
def turn (gotBuf : Bool) (t : MemClientThread σ) : Option (MemClientThread σ) :=
  if t.isOpen then (srv.memServiceRpcHandle vtbl gotBuf t.ctx t.unread).map t.after else some t

/-- The next request is an admitted write that passes the checks, and its payload is there. -/
structure ReceivesWrite (gotBuf : Bool) (t : MemClientThread σ)
    (write : σ → UInt64 → List UInt8 → Option (Except Error Unit × σ)) (req : MemDataReq)
    (payload rest : List UInt8) : Prop where
  isOpen : t.isOpen = true
  request : ∃ hdr body tail, recvFrame t.unread = (.ok (hdr, body), tail) ∧
    srv.Admits hdr.reserved ∧ MemOp.ofCode hdr.opcode = some .dataWrite ∧
    srv.dataRequest vtbl.ssdWrite gotBuf body = .ok (write, req) ∧
    ummTcpRecvExact req.len.toNat tail = (.ok payload, rest)

/-- The thread has answered with the status, keeps the connection, and handles the next request
from its first byte. -/
def KeepsServing (gotBuf : Bool) (t : MemClientThread σ) (status : Int32) (ctx : σ)
    (rest : List UInt8) : Prop :=
  ∃ reply t', packFreeResp ⟨status⟩ = some reply ∧ t.turn srv vtbl gotBuf = some t' ∧
    t'.sent = t.sent ++ sendResponse MemOp.dataWrite.code reply ∧ t'.isOpen = true ∧
    ∀ gotBuf', t'.turn srv vtbl gotBuf' =
      (srv.memServiceRpcHandle vtbl gotBuf' ctx rest).map t'.after

variable {srv vtbl} {gotBuf : Bool} {t : MemClientThread σ}
  {write : σ → UInt64 → List UInt8 → Option (Except Error Unit × σ)} {req : MemDataReq}
  {payload rest : List UInt8}

/-- The turn of a write: the status of the service is also what the handler returns. -/
theorem ReceivesWrite.turn_eq (h : ReceivesWrite srv vtbl gotBuf t write req payload rest)
    {r : Except Error Unit} {ctx : σ}
    (hwrite : write t.ctx (gpaOffset64 req.gpa) payload = some (r, ctx)) :
    ∃ reply, packFreeResp ⟨statusOf r⟩ = some reply ∧ t.turn srv vtbl gotBuf =
      some (t.after ⟨r, sendResponse MemOp.dataWrite.code reply, rest, ctx⟩) := by
  obtain ⟨hdr, body, tail, hframe, hadmits, hop, hreq, hpayload⟩ := h.request
  obtain ⟨reply, hreply, -⟩ := memFreeResp_back ⟨statusOf r⟩
  have hhandled : srv.memServiceRpcHandle vtbl gotBuf t.ctx t.unread =
      some ⟨r, sendResponse MemOp.dataWrite.code reply, rest, ctx⟩ := by
    have hdata : srv.handleDataWrite vtbl gotBuf t.ctx body tail =
        some ⟨r, sendResponse MemOp.dataWrite.code reply, rest, ctx⟩ := by
      unfold handleDataWrite
      rw [hreq]
      dsimp only
      rw [hpayload]
      dsimp only
      rw [hwrite, Option.bind_eq_bind, Option.bind_some]
      dsimp only
      rw [hreply]
      rfl
    unfold memServiceRpcHandle
    rw [hframe]
    dsimp only
    rw [if_pos hadmits, hop]
    exact hdata
  refine ⟨reply, hreply, ?_⟩
  unfold turn
  rw [if_pos h.isOpen, hhandled, Option.map_some]

/-- A write whose payload arrived keeps its connection exactly when the service took it. -/
theorem dataWrite_keepsServing_iff (h : ReceivesWrite srv vtbl gotBuf t write req payload rest)
    {r : Except Error Unit} {ctx : σ}
    (hwrite : write t.ctx (gpaOffset64 req.gpa) payload = some (r, ctx)) :
    KeepsServing srv vtbl gotBuf t (statusOf r) ctx rest ↔ r = .ok () := by
  obtain ⟨reply, hreply, hturn⟩ := h.turn_eq hwrite
  constructor
  · rintro ⟨_, t', -, hturn', -, hopen, -⟩
    rw [hturn] at hturn'
    obtain rfl := Option.some.inj hturn'
    cases r with
    | error e => cases hopen
    | ok u => rfl
  · rintro rfl
    refine ⟨reply, _, hreply, hturn, rfl, rfl, fun gotBuf' => ?_⟩
    unfold turn
    exact if_pos rfl

/-- A write of the remote transport, whole and with anything behind it. -/
theorem receivesWrite_stream {gpa : UInt64} {token : Token} {head : List UInt8}
    (hopen : t.isOpen = true) (hhead : (DataReq.write gpa payload).head token = some head)
    (hunread : t.unread = head ++ (payload ++ rest)) (hadmits : srv.Admits token.val)
    (hentry : vtbl.ssdWrite = some write) (hlen : payload.length < 2 ^ 64)
    (hvalid : srv.validateDataReq gpa (UInt64.ofNat payload.length) = .ok ()) :
    ReceivesWrite srv vtbl true t write ⟨gpa, UInt64.ofNat payload.length⟩ payload rest := by
  obtain ⟨body, hframe, hclear, -, hunpack⟩ := (DataReq.write gpa payload).head_eq token
  obtain rfl := Option.some.inj (hhead.symm.trans hframe)
  refine ⟨hopen, ummProtoHeader MemOp.dataWrite.code ummFlagRequest body.len token, body,
    payload ++ rest, ?_, hadmits, rfl, ?_, ?_⟩
  · rw [hunread]
    exact recvFrame_frame _ _ token hclear _
  · unfold dataRequest
    rw [hunpack, hentry]
    change (do
      srv.validateDataReq gpa (UInt64.ofNat payload.length)
      if true = true then Except.ok (write, (⟨gpa, UInt64.ofNat payload.length⟩ : MemDataReq))
      else .error .noMemory) = _
    rw [hvalid]
    rfl
  · exact ummTcpRecvExact_append (UInt64.toNat_ofNat_of_lt' hlen).symm rest

/-- A write of one byte to the SSD tier of node 0. -/
def oneByteWrite : DataReq := .write 0x0200000000000000 [7]

theorem receivesWrite_oneByte (m : MemServiceCtx) : ∃ head, oneByteWrite.head noToken = some head ∧
    ReceivesWrite (memRpcServerConfigure 0 none 0) (memsvcVtbl .quiet) true
      ⟨m, head ++ [7], [], true⟩ (memsvcSsdWrite .quiet) ⟨0x0200000000000000, 1⟩ [7] [] := by
  obtain ⟨body, hhead, -⟩ := oneByteWrite.head_eq noToken
  exact ⟨_, hhead, receivesWrite_stream rfl hhead rfl (by decide) rfl (by decide) (by decide)⟩

theorem dataWrite_keepsServing_onePage : ∃ head r ctx, oneByteWrite.head noToken = some head ∧
    (KeepsServing (memRpcServerConfigure 0 none 0) (memsvcVtbl .quiet) true
      ⟨onePageService, head ++ [7], [], true⟩ (statusOf r) ctx [] ↔ r = .ok ()) ∧
    statusOf r = 0 := by
  obtain ⟨head, hhead, hreceives⟩ := receivesWrite_oneByte onePageService
  have hstatus : (memsvcSsdWrite .quiet onePageService (gpaOffset64 0x0200000000000000) [7]).map
      (fun p => statusOf p.1) = some 0 := by decide +kernel
  obtain ⟨⟨r, ctx⟩, hwrite, hzero⟩ := Option.map_eq_some_iff.mp hstatus
  exact ⟨head, r, ctx, hhead, dataWrite_keepsServing_iff hreceives hwrite, hzero⟩

/-- A service without SSD tier rejects the write, and its thread closes the connection. -/
theorem dataWrite_closes : ∃ head, oneByteWrite.head noToken = some head ∧
    memsvcSsdWrite .quiet memServiceDirectCreateV2 (gpaOffset64 0x0200000000000000) [7] =
      some (.error .notInitialized, memServiceDirectCreateV2) ∧
    ¬ KeepsServing (memRpcServerConfigure 0 none 0) (memsvcVtbl .quiet) true
      ⟨memServiceDirectCreateV2, head ++ [7], [], true⟩ Error.notInitialized.code
      memServiceDirectCreateV2 [] := by
  obtain ⟨head, hhead, hreceives⟩ := receivesWrite_oneByte memServiceDirectCreateV2
  have hwrite : memsvcSsdWrite .quiet memServiceDirectCreateV2 (gpaOffset64 0x0200000000000000) [7] =
      some (.error .notInitialized, memServiceDirectCreateV2) := rfl
  refine ⟨head, hhead, hwrite, ?_⟩
  rintro ⟨_, t', -, hturn, -, hopen, -⟩
  obtain ⟨reply, -, hclosed⟩ := hreceives.turn_eq hwrite
  rw [hclosed] at hturn
  obtain rfl := Option.some.inj hturn
  cases hopen

end MemClientThread

end Umm
