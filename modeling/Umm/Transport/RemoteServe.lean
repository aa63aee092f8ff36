import Umm.Transport.Remote
import Umm.Protocol.RoundTrip

/-! One data request at the server: what it does with a request of which any part arrived, and
what the client makes of any part of the reply. -/
namespace Umm
open Umm.Lib Proto MemRpcServer

section Requests

/-- Header and body of a request, and what the server reads from them. -/
theorem DataReq.head_eq (token : Token) (req : DataReq) :
    ∃ body, req.head token = some (frame req.op.code ummFlagRequest token body) ∧
      body.Cleared ∧ body.len.toNat = 16 ∧ memUnpackDataReq body = .ok ⟨req.gpa, req.len⟩ := by
  obtain ⟨body, hpack, hunpack⟩ := memDataReq_back ⟨req.gpa, req.len⟩
  obtain ⟨hclear, hmsg⟩ := packBody_cleared hpack
  refine ⟨body, by rw [head, hpack]; rfl, hclear, ?_, hunpack⟩
  rw [← hclear.length_message, hmsg]
  simp

end Requests

section Serve

variable {σ : Type} (srv : MemRpcServer) (vtbl : MemoryServiceVtbl σ)

/-- What one call of the handler does with a data request: it closes without a reply, answers
with an error of its own, or answers what the service returned. Only a read, or a write whose
payload was read to its end, leaves the connection in use. -/
inductive DataAnswer (ctx : σ) : DataReq → Handled σ → Prop
  | closed {req : DataReq} {e : Error} {rest : List UInt8} :
      DataAnswer ctx req ⟨.error e, [], rest, ctx⟩
  | rejectedRead {gpa len : UInt64} {e : Error} {reply : UmmProtoBody} :
      packDataReadResp ⟨e.code, 0⟩ = some reply →
      DataAnswer ctx (.read gpa len) ⟨.ok (), sendResponse MemOp.dataRead.code reply, [], ctx⟩
  | read {gpa len : UInt64} {f : σ → UInt64 → UInt64 → Option (Except Error (List UInt8) × σ)}
      {r : Except Error (List UInt8)} {ctx' : σ} {reply : UmmProtoBody} :
      vtbl.ssdRead = some f → srv.validateDataReq gpa len = .ok () →
      f ctx (gpaOffset64 gpa) len = some (r, ctx') →
      packDataReadResp ⟨statusOf r, if r.toOption.isSome then len else 0⟩ = some reply →
      DataAnswer ctx (.read gpa len)
        ⟨.ok (), sendResponse MemOp.dataRead.code reply ++ r.toOption.getD [], [], ctx'⟩
  | rejectedWrite {gpa : UInt64} {buf rest : List UInt8} {e : Error} {reply : UmmProtoBody} :
      packFreeResp ⟨e.code⟩ = some reply →
      DataAnswer ctx (.write gpa buf)
        ⟨.error e, sendResponse MemOp.dataWrite.code reply, rest, ctx⟩
  | write {gpa : UInt64} {buf : List UInt8}
      {f : σ → UInt64 → List UInt8 → Option (Except Error Unit × σ)} {r : Except Error Unit}
      {ctx' : σ} {reply : UmmProtoBody} :
      vtbl.ssdWrite = some f → srv.validateDataReq gpa (UInt64.ofNat buf.length) = .ok () →
      f ctx (gpaOffset64 gpa) buf = some (r, ctx') → packFreeResp ⟨statusOf r⟩ = some reply →
      DataAnswer ctx (.write gpa buf) ⟨r, sendResponse MemOp.dataWrite.code reply, [], ctx'⟩

variable {srv vtbl} {ctx : σ} {gotBuf : Bool} {h : Handled σ}

theorem dataRequest_ok {α : Type} {entry : Option α} {body : UmmProtoBody} {gpa len : UInt64}
    {f : α} {req : MemDataReq} (hunpack : memUnpackDataReq body = .ok ⟨gpa, len⟩)
    (h : srv.dataRequest entry gotBuf body = .ok (f, req)) :
    entry = some f ∧ req = ⟨gpa, len⟩ ∧ srv.validateDataReq gpa len = .ok () := by
  unfold dataRequest at h
  rw [hunpack] at h
  cases hv : srv.validateDataReq gpa len with
  | error e => simp [hv, bind, Except.bind] at h
  | ok u =>
    simp only [hv, bind, Except.bind] at h
    cases entry with
    | none => cases h
    | some g =>
      split_ifs at h
      obtain ⟨rfl, rfl⟩ := Prod.mk.inj (Except.ok.inj h)
      exact ⟨rfl, rfl, rfl⟩

theorem handleDataRead_answer {body : UmmProtoBody} {gpa len : UInt64}
    (hunpack : memUnpackDataReq body = .ok ⟨gpa, len⟩)
    (hh : srv.handleDataRead vtbl gotBuf ctx body [] = some h) :
    DataAnswer srv vtbl ctx (.read gpa len) h := by
  unfold handleDataRead at hh
  cases hreq : srv.dataRequest vtbl.ssdRead gotBuf body with
  | error e =>
    simp only [hreq, Option.bind_eq_bind, Option.bind_some, Option.bind_eq_some_iff] at hh
    obtain ⟨reply, hpack, hh⟩ := hh
    obtain rfl := Option.some.inj hh
    simpa [Except.toOption] using DataAnswer.rejectedRead hpack
  | ok p =>
    obtain ⟨f, req⟩ := p
    obtain ⟨hentry, rfl, hvalid⟩ := dataRequest_ok hunpack hreq
    simp only [hreq, Option.bind_eq_bind, Option.bind_eq_some_iff, Option.map_eq_some_iff] at hh
    obtain ⟨_, ⟨⟨r, ctx'⟩, hread, rfl⟩, reply, hpack, hh⟩ := hh
    obtain rfl := Option.some.inj hh
    exact .read hentry hvalid hread hpack

theorem handleDataWrite_answer {body : UmmProtoBody} {gpa : UInt64} {buf : List UInt8} {k : ℕ}
    (hunpack : memUnpackDataReq body = .ok ⟨gpa, UInt64.ofNat buf.length⟩)
    (hbuf : buf.length < 2 ^ 64)
    (hh : srv.handleDataWrite vtbl gotBuf ctx body (buf.take k) = some h) :
    DataAnswer srv vtbl ctx (.write gpa buf) h ∧ (h.rc = .ok () → buf.length ≤ k) := by
  have hlen : (UInt64.ofNat buf.length).toNat = buf.length := UInt64.toNat_ofNat_of_lt' hbuf
  unfold handleDataWrite at hh
  cases hreq : srv.dataRequest vtbl.ssdWrite gotBuf body with
  | error e =>
    simp only [hreq, Option.bind_eq_bind, Option.bind_eq_some_iff] at hh
    obtain ⟨reply, hpack, hh⟩ := hh
    obtain rfl := Option.some.inj hh
    exact ⟨.rejectedWrite hpack, by simp⟩
  | ok p =>
    obtain ⟨f, req⟩ := p
    obtain ⟨hentry, rfl, hvalid⟩ := dataRequest_ok hunpack hreq
    simp only [hreq, hlen] at hh
    by_cases hk : buf.length ≤ k
    · have hrecv := ummTcpRecvExact_append (rfl : buf.length = buf.length) []
      rw [List.append_nil] at hrecv
      rw [List.take_of_length_le hk, hrecv] at hh
      simp only [Option.bind_eq_bind, Option.bind_eq_some_iff] at hh
      obtain ⟨⟨r, ctx'⟩, hwrite, reply, hpack, hh⟩ := hh
      obtain rfl := Option.some.inj hh
      exact ⟨.write hentry hvalid hwrite hpack, fun _ => hk⟩
    · have hshort : (buf.take k).length < buf.length := by
        rw [List.length_take]
        omega
      rw [ummTcpRecvExact_short hshort] at hh
      obtain rfl := Option.some.inj hh
      exact ⟨.closed, by simp⟩

/-- The handler on any part of a data request. It goes on only when the whole request has
arrived. -/
theorem memServiceRpcHandle_answer {token : Token} {req : DataReq} {head : List UInt8} {k : ℕ}
    (hhead : req.head token = some head) (hbuf : req.payload.length < 2 ^ 64)
    (hh : srv.memServiceRpcHandle vtbl gotBuf ctx ((head ++ req.payload).take k) = some h) :
    DataAnswer srv vtbl ctx req h ∧ (h.rc = .ok () → (head ++ req.payload).length ≤ k) := by
  obtain ⟨body, hframe, hclear, hlen, hunpack⟩ := req.head_eq token
  obtain rfl := Option.some.inj (hhead.symm.trans hframe)
  unfold memServiceRpcHandle at hh
  rw [List.length_append, length_frame _ _ _ hclear]
  rcases take_frame_append req.op.code ummFlagRequest token hclear req.payload k with
    ⟨hk, htake⟩ | ⟨hk, htake⟩
  · rw [htake, recvFrame_take _ _ _ hclear hk] at hh
    obtain rfl := Option.some.inj hh
    exact ⟨.closed, by simp⟩
  · rw [htake, recvFrame_frame _ _ _ hclear] at hh
    simp only [ummProtoHeader, MemOp.ofCode_code] at hh
    split_ifs at hh
    · cases req with
      | read gpa len =>
        rw [show (DataReq.read gpa len).payload = [] from rfl, List.take_nil] at hh
        exact ⟨handleDataRead_answer hunpack hh, fun _ => hk⟩
      | write gpa buf =>
        obtain ⟨ha, hall⟩ := handleDataWrite_answer hunpack hbuf hh
        refine ⟨ha, fun hrc => ?_⟩
        have hpay : (DataReq.write gpa buf).payload.length = buf.length := rfl
        have := hall hrc
        omega
    · obtain rfl := Option.some.inj hh
      exact ⟨.closed, by simp⟩

theorem DataAnswer.rest_of_ok {req : DataReq} (ha : DataAnswer srv vtbl ctx req h)
    (hrc : h.rc = .ok ()) : h.rest = [] := by
  cases ha with
  | closed => cases hrc
  | rejectedRead hpack => rfl
  | read hentry hvalid hread hpack => rfl
  | rejectedWrite hpack => cases hrc
  | write hentry hvalid hwrite hpack => rfl

end Serve

section Reply

variable {reply : UmmProtoBody}

theorem rpcDataWrite_take {status : Int32} (hpack : packFreeResp ⟨status⟩ = some reply) (k : ℕ) :
    rpcDataWrite ((sendResponse MemOp.dataWrite.code reply).take k) =
      if k < (sendResponse MemOp.dataWrite.code reply).length then
        ⟨Error.transportError.code, [], []⟩
      else ⟨status, [], []⟩ := by
  obtain ⟨hclear, -⟩ := packBody_cleared hpack
  obtain ⟨hlong, hstatus⟩ := memFreeResp_status hpack
  unfold sendResponse rpcDataWrite recvWriteStatus
  rw [length_frame _ _ _ hclear]
  split_ifs with hk
  · rw [recv_bind_error (recvReply_take _ _ _ hclear hk)]
  · have hrecv := recvReply_frame MemOp.dataWrite.code ummFlagResponse noToken hclear []
    rw [List.append_nil] at hrecv
    rw [List.take_of_length_le (by rw [length_frame _ _ _ hclear]; omega), recv_bind hrecv,
      if_neg (Nat.not_lt.mpr hlong), hstatus]
    rfl

variable {status : Int32} {rlen : UInt64} (len : UInt64)

theorem recvReadStatus_reply (hpack : packDataReadResp ⟨status, rlen⟩ = some reply)
    (hlen : status = 0 → rlen = len) (rest : List UInt8) :
    recvReadStatus len (sendResponse MemOp.dataRead.code reply ++ rest) = (.ok status, rest) := by
  obtain ⟨body, hpack', hunpack⟩ := memDataReadResp_back ⟨status, rlen⟩
  obtain rfl := Option.some.inj (hpack.symm.trans hpack')
  obtain ⟨hclear, -⟩ := packBody_cleared hpack
  rw [recvReadStatus, sendResponse, recv_bind (recvReply_frame _ _ _ hclear rest), hunpack]
  dsimp only
  by_cases hs : status = 0
  · rw [if_neg (not_not.mpr hs), if_neg (not_not.mpr (hlen hs)), hs]
    rfl
  · rw [if_pos hs]
    rfl

theorem rpcDataRead_short (hpack : packDataReadResp ⟨status, rlen⟩ = some reply) {k : ℕ}
    (hk : k < (sendResponse MemOp.dataRead.code reply).length) :
    rpcDataRead len ((sendResponse MemOp.dataRead.code reply).take k) =
      ⟨Error.transportError.code, [], []⟩ := by
  obtain ⟨hclear, -⟩ := packBody_cleared hpack
  unfold sendResponse at hk ⊢
  rw [length_frame _ _ _ hclear] at hk
  rw [rpcDataRead, recvReadStatus, recv_bind_error (recvReply_take _ _ _ hclear hk)]

/-- A reply that carries an error has no payload. -/
theorem rpcDataRead_refused (hpack : packDataReadResp ⟨status, rlen⟩ = some reply)
    (hs : status ≠ 0) {k : ℕ} (hk : (sendResponse MemOp.dataRead.code reply).length ≤ k) :
    rpcDataRead len ((sendResponse MemOp.dataRead.code reply).take k) = ⟨status, [], []⟩ := by
  have hrecv := recvReadStatus_reply len hpack (fun h => absurd h hs) []
  rw [List.append_nil] at hrecv
  rw [List.take_of_length_le hk, rpcDataRead, hrecv]
  simp only [ne_eq, hs, not_false_eq_true, if_true]

theorem rpcDataRead_payload (hpack : packDataReadResp ⟨0, len⟩ = some reply)
    {payload : List UInt8} (hlen : payload.length = len.toNat) (k : ℕ) :
    rpcDataRead len (sendResponse MemOp.dataRead.code reply ++ payload.take k) =
      if k < payload.length then ⟨Error.transportError.code, payload.take k, []⟩
      else ⟨0, payload, []⟩ := by
  rw [rpcDataRead, recvReadStatus_reply len hpack (fun _ => rfl)]
  simp only [ne_eq, not_true_eq_false, if_false]
  split_ifs with hk
  · rw [ummTcpRecvExact_short (by rw [List.length_take]; omega)]
  · have hrecv := ummTcpRecvExact_append hlen []
    rw [List.append_nil] at hrecv
    rw [List.take_of_length_le (by omega), hrecv]

end Reply

section Outcome

/-- How many bytes of the caller's buffer a request may fill. -/
def DataReq.room : DataReq → ℕ
  | .read _ len => len.toNat
  | .write .. => 0

variable {σ : Type} (srv : MemRpcServer) (vtbl : MemoryServiceVtbl σ)

/-- What the client returns when the first `k` bytes of the answer reach it: an error of the
transport, the error in a whole reply, or what the service did. It leaves nothing unread. -/
inductive RpcOutcome (ctx : σ) : DataReq → Handled σ → ℕ → RpcDone → Prop
  | broken {req : DataReq} {h : Handled σ} {k : ℕ} {filled : List UInt8} :
      filled.length ≤ req.room →
      RpcOutcome ctx req h k ⟨Error.transportError.code, filled, []⟩
  | refused {req : DataReq} {h : Handled σ} {k : ℕ} {e : Error} : h.sent.length ≤ k →
      RpcOutcome ctx req h k ⟨e.code, [], []⟩
  | read {gpa len : UInt64} {f : σ → UInt64 → UInt64 → Option (Except Error (List UInt8) × σ)}
      {h : Handled σ} {bytes : List UInt8} {k : ℕ} : h.sent.length ≤ k →
      vtbl.ssdRead = some f → srv.validateDataReq gpa len = .ok () →
      f ctx (gpaOffset64 gpa) len = some (.ok bytes, h.ctx) →
      RpcOutcome ctx (.read gpa len) h k ⟨0, bytes, []⟩
  | write {gpa : UInt64} {buf : List UInt8}
      {f : σ → UInt64 → List UInt8 → Option (Except Error Unit × σ)} {h : Handled σ} {k : ℕ} :
      h.sent.length ≤ k → vtbl.ssdWrite = some f →
      srv.validateDataReq gpa (UInt64.ofNat buf.length) = .ok () →
      f ctx (gpaOffset64 gpa) buf = some (.ok (), h.ctx) →
      RpcOutcome ctx (.write gpa buf) h k ⟨0, [], []⟩

variable {srv vtbl} {ctx : σ} {h : Handled σ}

theorem RpcOutcome.filled_le {req : DataReq} {k : ℕ} {d : RpcDone}
    (ho : RpcOutcome srv vtbl ctx req h k d) : d.filled.length ≤ req.room := by
  cases ho with
  | broken hroom => exact hroom
  | refused hk => exact Nat.zero_le _
  | read hk hentry hvalid hread =>
    exact (vtbl.length_ssdRead _ hentry _ _ _ _ _ hread).le
  | write hk hentry hvalid hwrite => exact Nat.zero_le _

theorem DataReq.finish_nil (req : DataReq) : req.finish [] = ⟨Error.transportError.code, [], []⟩ := by
  cases req <;> rfl

private theorem refused_read {gpa len rlen : UInt64} {e : Error} {reply : UmmProtoBody}
    (hpack : packDataReadResp ⟨e.code, rlen⟩ = some reply)
    (hsent : h.sent = sendResponse MemOp.dataRead.code reply) (k : ℕ) :
    RpcOutcome srv vtbl ctx (.read gpa len) h k
      ((DataReq.read gpa len).finish (h.sent.take k)) := by
  rw [DataReq.finish, hsent]
  by_cases hk : k < (sendResponse MemOp.dataRead.code reply).length
  · rw [rpcDataRead_short len hpack hk]
    exact .broken (Nat.zero_le _)
  · rw [rpcDataRead_refused len hpack e.code_ne_zero (Nat.not_lt.mp hk)]
    exact .refused (by rw [hsent]; exact Nat.not_lt.mp hk)

theorem DataAnswer.outcome {req : DataReq} (ha : DataAnswer srv vtbl ctx req h) (k : ℕ) :
    RpcOutcome srv vtbl ctx req h k (req.finish (h.sent.take k)) := by
  cases ha with
  | closed =>
    rw [List.take_nil, DataReq.finish_nil]
    exact .broken (Nat.zero_le _)
  | rejectedRead hpack => exact refused_read hpack rfl k
  | @read gpa len f r ctx' reply hentry hvalid hread hpack =>
    cases r with
    | error e => exact refused_read hpack (by simp [Except.toOption]) k
    | ok bytes =>
      have hlen : bytes.length = len.toNat :=
        vtbl.length_ssdRead f hentry ctx (gpaOffset64 gpa) len bytes ctx' hread
      simp only [Except.toOption, Option.isSome_some, if_true, statusOf, Option.getD_some]
        at hpack ⊢
      rw [DataReq.finish]
      by_cases hk : k < (sendResponse MemOp.dataRead.code reply).length
      · rw [List.take_append_of_le_length hk.le, rpcDataRead_short len hpack hk]
        exact .broken (Nat.zero_le _)
      · rw [List.take_append, List.take_of_length_le (Nat.not_lt.mp hk),
          rpcDataRead_payload len hpack hlen]
        split_ifs with hp
        · refine .broken ?_
          rw [List.length_take]
          exact (Nat.min_le_right _ _).trans hlen.le
        · refine .read ?_ hentry hvalid hread
          rw [List.length_append]
          omega
  | @rejectedWrite gpa buf rest e reply hpack =>
    rw [DataReq.finish, rpcDataWrite_take hpack]
    split_ifs with hk
    · exact .broken (Nat.zero_le _)
    · exact .refused (Nat.not_lt.mp hk)
  | @write gpa buf f r ctx' reply hentry hvalid hwrite hpack =>
    rw [DataReq.finish, rpcDataWrite_take hpack]
    split_ifs with hk
    · exact .broken (Nat.zero_le _)
    · cases r with
      | error e => exact .refused (Nat.not_lt.mp hk)
      | ok u => exact .write (Nat.not_lt.mp hk) hentry hvalid hwrite

end Outcome

end Umm
