import Umm.Transport.RemoteConns
import Umm.Transport.RemoteServe

/-! What a response leaves on a connection that is kept, for any bytes that the peer may send. -/
namespace Umm
open Umm.Lib Proto

/-- The first bytes, read as a header. -/
def respHeader (stream : List UInt8) : UmmProtoHeader := (readHeader (stream.take Proto.headerSize)).1

/-- The body that the header announces. -/
def respBody (stream : List UInt8) : UmmProtoBody :=
  .received ((stream.drop Proto.headerSize).take (respHeader stream).bodyLen.toNat)

def respBodyEnd (stream : List UInt8) : ℕ := Proto.headerSize + (respHeader stream).bodyLen.toNat

/-- The payload that follows the body: the one of a successful read. -/
def respPayload (stream : List UInt8) : ℕ :=
  if (respHeader stream).opcode = MemOp.dataRead.code then
    match memUnpackDataReadResp (respBody stream) with
    | .ok r => if r.status = 0 then r.len.toNat else 0
    | .error _ => 0
  else 0

/-- The bytes are one complete response: header, body, and its payload. -/
def IsResponse (bytes : List UInt8) : Prop :=
  Proto.headerSize ≤ bytes.length ∧ (respHeader bytes).Accepted ∧
    bytes.length = respBodyEnd bytes + respPayload bytes

/-- A header that arrives is one of the protocol. It has the code of the request, and then a
payload that arrives with its body is as long as the request wants it, or empty; or it has
another code and no body. -/
def DataReq.Framed (req : DataReq) (stream : List UInt8) : Prop :=
  Proto.headerSize ≤ stream.length → (respHeader stream).Accepted ∧
    ((respHeader stream).opcode = req.op.code → respBodyEnd stream ≤ stream.length →
      respPayload stream = req.room ∨ respPayload stream = 0) ∧
    ((respHeader stream).opcode ≠ req.op.code → (respHeader stream).bodyLen.toNat = 0)

section Receive

variable {stream : List UInt8} {op : UInt8} {n : ℕ}

theorem recvHeader_whole (h : Proto.headerSize ≤ stream.length) :
    recvHeader stream = (.ok (respHeader stream), stream.drop Proto.headerSize) := by
  have hrecv : ummTcpRecvExact Proto.headerSize stream =
      (.ok (stream.take Proto.headerSize), stream.drop Proto.headerSize) := if_neg (Nat.not_lt.mpr h)
  exact recv_bind hrecv

theorem recvReply_noHeader (h : stream.length < Proto.headerSize) :
    recvReply op stream = (.error .transportError, []) :=
  recv_bind_error (recv_bind_error (ummTcpRecvExact_short h))

theorem recvReply_foreign (h : Proto.headerSize ≤ stream.length)
    (hno : ¬ ((respHeader stream).Accepted ∧ (respHeader stream).opcode = op)) :
    recvReply op stream = (.error .rpcError, stream.drop Proto.headerSize) := by
  rw [recvReply, recv_bind (recvHeader_whole h), if_neg hno]
  rfl

theorem recvReply_noBody (h : Proto.headerSize ≤ stream.length)
    (hhdr : (respHeader stream).Accepted ∧ (respHeader stream).opcode = op)
    (hbody : stream.length < respBodyEnd stream) :
    recvReply op stream = (.error .transportError, []) := by
  unfold respBodyEnd at hbody
  rw [recvReply, recv_bind (recvHeader_whole h), if_pos hhdr]
  exact recv_bind_error (ummTcpRecvExact_short (by rw [List.length_drop]; omega))

theorem recvReply_whole (h : Proto.headerSize ≤ stream.length)
    (hhdr : (respHeader stream).Accepted ∧ (respHeader stream).opcode = op)
    (hbody : respBodyEnd stream ≤ stream.length) :
    recvReply op stream = (.ok (respBody stream), stream.drop (respBodyEnd stream)) := by
  unfold respBodyEnd at hbody ⊢
  have hrecv : ummTcpRecvExact (respHeader stream).bodyLen.toNat (stream.drop Proto.headerSize) =
      (.ok ((stream.drop Proto.headerSize).take (respHeader stream).bodyLen.toNat),
        (stream.drop Proto.headerSize).drop (respHeader stream).bodyLen.toNat) :=
    if_neg (by rw [List.length_drop]; omega)
  rw [recvReply, recv_bind (recvHeader_whole h), if_pos hhdr, recvBody, recv_bind hrecv,
    List.drop_drop]
  rfl

end Receive

section Prefix

variable {stream : List UInt8} {n : ℕ}

theorem respHeader_take (h : Proto.headerSize ≤ n) :
    respHeader (stream.take n) = respHeader stream := by
  rw [respHeader, List.take_take, Nat.min_eq_left h]
  rfl

theorem respBodyEnd_take (h : Proto.headerSize ≤ n) :
    respBodyEnd (stream.take n) = respBodyEnd stream := by
  rw [respBodyEnd, respHeader_take h]
  rfl

theorem respPayload_take (h : respBodyEnd stream ≤ n) :
    respPayload (stream.take n) = respPayload stream := by
  have hhdr : Proto.headerSize ≤ n := (Nat.le_add_right _ _).trans h
  have hbody : respBody (stream.take n) = respBody stream := by
    unfold respBodyEnd at h
    rw [respBody, respHeader_take hhdr, List.drop_take, List.take_take, Nat.min_eq_left (by omega)]
    rfl
  rw [respPayload, respHeader_take hhdr, hbody]
  rfl

/-- A prefix that ends behind the body is a response when it ends behind the payload. -/
theorem isResponse_take (hbody : respBodyEnd stream ≤ n) (hn : n ≤ stream.length)
    (hacc : (respHeader stream).Accepted) :
    IsResponse (stream.take n) ↔ n = respBodyEnd stream + respPayload stream := by
  have hhdr : Proto.headerSize ≤ n := (Nat.le_add_right _ _).trans hbody
  unfold IsResponse
  rw [respHeader_take hhdr, respBodyEnd_take hhdr, respPayload_take hbody, List.length_take,
    Nat.min_eq_left hn]
  exact ⟨fun h => h.2.2, fun h => ⟨hhdr, hacc, h⟩⟩

theorem respPayload_noBody (h : (respHeader stream).bodyLen.toNat = 0) : respPayload stream = 0 := by
  have hbody : respBody stream = .received [] := by
    rw [respBody, h, List.take_zero]
  unfold respPayload
  rw [hbody]
  split_ifs
  · rfl
  · rfl

/-- Of a response that is refused for its header, only the header is read. -/
theorem isResponse_header (h : Proto.headerSize ≤ stream.length) :
    IsResponse (stream.take Proto.headerSize) ↔
      (respHeader stream).Accepted ∧ (respHeader stream).bodyLen.toNat = 0 := by
  constructor
  · rintro ⟨-, hacc, hlen⟩
    rw [respHeader_take le_rfl] at hacc
    rw [respBodyEnd_take le_rfl, List.length_take, Nat.min_eq_left h] at hlen
    unfold respBodyEnd at hlen
    exact ⟨hacc, by omega⟩
  · rintro ⟨hacc, hlen⟩
    have hend : respBodyEnd stream = Proto.headerSize := by
      rw [respBodyEnd, hlen]
      rfl
    rw [isResponse_take hend.le h hacc, hend, respPayload_noBody hlen]
    rfl

end Prefix

/-- How the client ends with a response: an error of the transport, or the number of bytes that
it has read, which make up the response when that is framed. -/
inductive RespEnd (req : DataReq) (stream : List UInt8) (d : RpcDone) : Prop
  | broken : d.rc = Error.transportError.code → req.Framed stream → RespEnd req stream d
  | ended (n : ℕ) : n ≤ stream.length → d.rest = stream.drop n →
      (IsResponse (stream.take n) ↔ req.Framed stream) →
      (req.Framed stream ∨ d.rc = Error.rpcError.code) → RespEnd req stream d

section Finish

variable {req : DataReq} {stream : List UInt8} {d : RpcDone}

theorem DataReq.framed_noHeader (h : stream.length < Proto.headerSize) : req.Framed stream :=
  fun hle => absurd h (Nat.not_lt.mpr hle)

theorem DataReq.framed_iff (req : DataReq) (hacc : (respHeader stream).Accepted)
    (hop : (respHeader stream).opcode = req.op.code) (h : Proto.headerSize ≤ stream.length) :
    req.Framed stream ↔ (respBodyEnd stream ≤ stream.length →
      respPayload stream = req.room ∨ respPayload stream = 0) :=
  ⟨fun hf => (hf h).2.1 hop, fun hp _ => ⟨hacc, fun _ => hp, fun hne => absurd hop hne⟩⟩

/-- A header that is refused. -/
theorem RespEnd.foreign (h : Proto.headerSize ≤ stream.length)
    (hno : ¬ ((respHeader stream).Accepted ∧ (respHeader stream).opcode = req.op.code))
    (hrest : d.rest = stream.drop Proto.headerSize) (hrc : d.rc = Error.rpcError.code) :
    RespEnd req stream d := by
  refine .ended _ h hrest ?_ (Or.inr hrc)
  rw [isResponse_header h]
  constructor
  · rintro ⟨hacc, hlen⟩
    exact fun _ => ⟨hacc, fun hop => absurd ⟨hacc, hop⟩ hno, fun _ => hlen⟩
  · intro hf
    obtain ⟨hacc, -, hlen⟩ := hf h
    exact ⟨hacc, hlen fun hop => hno ⟨hacc, hop⟩⟩

/-- A response without payload, read to its end. -/
theorem RespEnd.noPayload (h : Proto.headerSize ≤ stream.length)
    (hhdr : (respHeader stream).Accepted ∧ (respHeader stream).opcode = req.op.code)
    (hbody : respBodyEnd stream ≤ stream.length) (hpayload : respPayload stream = 0)
    (hrest : d.rest = stream.drop (respBodyEnd stream)) : RespEnd req stream d := by
  have hframed : req.Framed stream := (req.framed_iff hhdr.1 hhdr.2 h).mpr fun _ => Or.inr hpayload
  refine .ended _ hbody hrest ?_ (Or.inl hframed)
  rw [isResponse_take le_rfl hbody hhdr.1, hpayload]
  exact ⟨fun _ => hframed, fun _ => rfl⟩

theorem rpcDataWrite_end (gpa : UInt64) (buf stream : List UInt8) :
    RespEnd (.write gpa buf) stream (rpcDataWrite stream) := by
  unfold rpcDataWrite recvWriteStatus
  by_cases h : Proto.headerSize ≤ stream.length
  · by_cases hhdr : (respHeader stream).Accepted ∧
        (respHeader stream).opcode = MemOp.dataWrite.code
    · by_cases hbody : respBodyEnd stream ≤ stream.length
      · have hpayload : respPayload stream = 0 := by
          rw [respPayload, if_neg]
          rw [hhdr.2]
          decide
        rw [recv_bind (recvReply_whole h hhdr hbody)]
        split_ifs
        · exact .noPayload h hhdr hbody hpayload rfl
        · exact .noPayload h hhdr hbody hpayload rfl
      · have hframed : (DataReq.write gpa buf).Framed stream :=
          (DataReq.framed_iff (.write gpa buf) hhdr.1 hhdr.2 h).mpr fun hle => absurd hle hbody
        rw [recv_bind_error (recvReply_noBody h hhdr (Nat.not_le.mp hbody))]
        exact .broken rfl hframed
    · rw [recv_bind_error (recvReply_foreign h hhdr)]
      exact .foreign h hhdr rfl rfl
  · rw [recv_bind_error (recvReply_noHeader (Nat.not_le.mp h))]
    exact .broken rfl (DataReq.framed_noHeader (Nat.not_le.mp h))

/-- The end of a read whose header and body have arrived. -/
theorem rpcDataRead_bodyEnd (gpa len : UInt64) (h : Proto.headerSize ≤ stream.length)
    (hhdr : (respHeader stream).Accepted ∧ (respHeader stream).opcode = MemOp.dataRead.code)
    (hbody : respBodyEnd stream ≤ stream.length) :
    RespEnd (.read gpa len) stream (rpcDataRead len stream) := by
  have hframed : (DataReq.read gpa len).Framed stream ↔ (respBodyEnd stream ≤ stream.length →
      respPayload stream = len.toNat ∨ respPayload stream = 0) :=
    DataReq.framed_iff _ hhdr.1 hhdr.2 h
  unfold rpcDataRead recvReadStatus
  rw [recv_bind (recvReply_whole h hhdr hbody)]
  cases hunpack : memUnpackDataReadResp (respBody stream) with
  | error e =>
    have hpayload : respPayload stream = 0 := by
      unfold respPayload
      rw [if_pos hhdr.2, hunpack]
    exact .noPayload h hhdr hbody hpayload rfl
  | ok r =>
    have hpayload : respPayload stream = if r.status = 0 then r.len.toNat else 0 := by
      unfold respPayload
      rw [if_pos hhdr.2, hunpack]
    dsimp only
    by_cases hstatus : r.status = 0
    · rw [if_pos hstatus] at hpayload
      rw [if_neg (not_not.mpr hstatus)]
      by_cases hlen : r.len = len
      · rw [if_neg (not_not.mpr hlen)]
        rw [recv_pure]
        dsimp only
        rw [if_neg (not_not.mpr rfl)]
        have hroom : respPayload stream = len.toNat := by rw [hpayload, hlen]
        have hf : (DataReq.read gpa len).Framed stream := hframed.mpr fun _ => Or.inl hroom
        by_cases hall : respBodyEnd stream + len.toNat ≤ stream.length
        · have hrecv : ummTcpRecvExact len.toNat (stream.drop (respBodyEnd stream)) =
              (.ok ((stream.drop (respBodyEnd stream)).take len.toNat),
                stream.drop (respBodyEnd stream + len.toNat)) := by
            rw [← List.drop_drop]
            exact if_neg (by rw [List.length_drop]; omega)
          rw [hrecv]
          refine .ended _ hall rfl ?_ (Or.inl hf)
          rw [isResponse_take (Nat.le_add_right _ _) hall hhdr.1, hroom]
          exact ⟨fun _ => hf, fun _ => rfl⟩
        · have hshort : (stream.drop (respBodyEnd stream)).length < len.toNat := by
            rw [List.length_drop]
            omega
          rw [ummTcpRecvExact_short hshort]
          exact .broken rfl hf
      · rw [if_pos hlen]
        refine .ended _ hbody rfl ?_ (Or.inr rfl)
        have hne : respPayload stream ≠ len.toNat :=
          fun he => hlen (UInt64.toNat_inj.mp (hpayload.symm.trans he))
        rw [isResponse_take le_rfl hbody hhdr.1, hframed]
        constructor
        · intro he _
          exact Or.inr (by omega)
        · intro hp
          obtain he | he := hp hbody
          · exact absurd he hne
          · omega
    · rw [if_neg hstatus] at hpayload
      rw [if_pos hstatus]
      refine .noPayload h hhdr hbody hpayload ?_
      change (if r.status ≠ 0 then (⟨r.status, [], stream.drop (respBodyEnd stream)⟩ : RpcDone)
        else _).rest = _
      rw [if_pos hstatus]

theorem rpcDataRead_end (gpa len : UInt64) (stream : List UInt8) :
    RespEnd (.read gpa len) stream (rpcDataRead len stream) := by
  by_cases h : Proto.headerSize ≤ stream.length
  · by_cases hhdr : (respHeader stream).Accepted ∧
        (respHeader stream).opcode = MemOp.dataRead.code
    · by_cases hbody : respBodyEnd stream ≤ stream.length
      · exact rpcDataRead_bodyEnd gpa len h hhdr hbody
      · have hframed : (DataReq.read gpa len).Framed stream :=
          (DataReq.framed_iff (.read gpa len) hhdr.1 hhdr.2 h).mpr fun hle => absurd hle hbody
        unfold rpcDataRead recvReadStatus
        rw [recv_bind_error (recvReply_noBody h hhdr (Nat.not_le.mp hbody))]
        exact .broken rfl hframed
    · unfold rpcDataRead recvReadStatus
      rw [recv_bind_error (recvReply_foreign h hhdr)]
      exact .foreign h hhdr rfl rfl
  · unfold rpcDataRead recvReadStatus
    rw [recv_bind_error (recvReply_noHeader (Nat.not_le.mp h))]
    exact .broken rfl (DataReq.framed_noHeader (Nat.not_le.mp h))

theorem DataReq.finish_end (req : DataReq) (stream : List UInt8) :
    RespEnd req stream (req.finish stream) := by
  cases req with
  | read gpa len => exact rpcDataRead_end gpa len stream
  | write gpa buf => exact rpcDataWrite_end gpa buf stream

end Finish

namespace RemoteState

variable {rctx : RemoteCtx} {t t' : RemoteState}

/-- For each request that was sent on an open socket, one complete response was read from it. -/
def AtBoundary (t : RemoteState) : Prop := t.EachSock fun sock => ∀ p ∈ sock.taken, IsResponse p.2

/-- What the peer sends for a request is framed. -/
def PeerFrames (rctx : RemoteCtx) (t : RemoteState) : RemoteCall → Prop
  | .rpc true arrived => ∀ attempt done c sock, t.phase = .running attempt done →
      t.slot = some c → c.sock = some sock →
      (t.io.request rctx.maxIo done t.buf).Framed (sock.unread ++ arrived)
  | _ => True

theorem peerFrames_of_ne {call : RemoteCall} (h : ∀ arrived, call ≠ .rpc true arrived) :
    t.PeerFrames rctx call := by
  unfold PeerFrames
  split
  · rename_i arrived
    exact absurd rfl (h arrived)
  · trivial

theorem sockAfter_taken {req : DataReq} {sock sock' : RemoteSock} {stream : List UInt8} {d : RpcDone}
    (hend : RespEnd req stream d) (hframed : req.Framed stream)
    (h : sockAfter req sock stream d = some sock') {p : DataReq × List UInt8} (hp : p ∈ sock'.taken) :
    p ∈ sock.taken ∨ IsResponse p.2 := by
  unfold sockAfter at h
  split_ifs at h with hrc
  obtain rfl := Option.some.inj h
  obtain hp | hp := List.mem_append.mp hp
  · exact Or.inl hp
  · rw [List.mem_singleton.mp hp]
    cases hend with
    | broken hbroken _ => exact absurd hbroken hrc
    | ended n hn hrest hiff _ =>
      have hread : stream.length - d.rest.length = n := by
        rw [hrest, List.length_drop]
        omega
      dsimp only
      rw [hread]
      exact Or.inr (hiff.mpr hframed)

theorem AtBoundary.step (h : t.AtBoundary) {call : RemoteCall} (hframes : t.PeerFrames rctx call)
    (hstep : t.step rctx call = some t') : t'.AtBoundary := by
  refine EachSock.step h (fun p hp => by cases hp) hstep ?_
  intro attempt done c sock arrived sock' hcall hphase hslot hsock hold hs p hp
  subst hcall
  have hframed := hframes attempt done c sock hphase hslot hsock
  obtain hp | hp := sockAfter_taken (DataReq.finish_end _ _) hframed hs hp
  · exact hold p hp
  · exact hp

/-- After a response that is not framed, the call returns and keeps the socket, with less or more
than a response read from it. -/
theorem unframed_step {call : RemoteCall} (hframes : ¬ t.PeerFrames rctx call)
    (hstep : t.step rctx call = some t') :
    t'.phase = .returned Error.rpcError.code ∧ ¬ t'.AtBoundary := by
  have hcall : ∃ arrived, call = .rpc true arrived := by
    by_contra hno
    exact hframes (peerFrames_of_ne fun arrived he => hno ⟨arrived, he⟩)
  obtain ⟨arrived, rfl⟩ := hcall
  obtain ⟨attempt, done, c, sock, hphase, hslot, hsock, rfl⟩ := step_rpc hstep
  set req := t.io.request rctx.maxIo done t.buf with hreq
  have hunframed : ¬ req.Framed (sock.unread ++ arrived) := by
    intro hframed
    apply hframes
    intro attempt' done' c' sock' hphase' hslot' hsock'
    obtain ⟨-, rfl⟩ := RemotePhase.running.inj (hphase.symm.trans hphase')
    obtain rfl := Option.some.inj (hslot.symm.trans hslot')
    obtain rfl := Option.some.inj (hsock.symm.trans hsock')
    exact hframed
  cases req.finish_end (sock.unread ++ arrived) with
  | broken _ hframed => exact absurd hframed hunframed
  | ended n hn hrest hiff hrc =>
    have hcode : (req.finish (sock.unread ++ arrived)).rc = Error.rpcError.code :=
      hrc.resolve_left hunframed
    have hne : Error.rpcError.code ≠ Error.transportError.code := by decide
    have hread : (sock.unread ++ arrived).length -
        (req.finish (sock.unread ++ arrived)).rest.length = n := by
      rw [hrest, List.length_drop]
      omega
    constructor
    · change t.io.afterRpc rctx.maxIo attempt done (req.finish (sock.unread ++ arrived)).rc = _
      rw [hcode, RemoteIo.afterRpc, if_neg hne, if_pos (Error.code_ne_zero _)]
    · intro hboundary
      have hafter : sockAfter req sock (sock.unread ++ arrived)
          (req.finish (sock.unread ++ arrived)) =
          some ⟨(req.finish (sock.unread ++ arrived)).rest, sock.taken ++ [(req, (sock.unread ++ arrived).take n)]⟩ := by
        rw [sockAfter, hcode, if_neg hne, hread]
      have hresponse := hboundary _ (setSock_mem hslot _) _ hafter
        (req, (sock.unread ++ arrived).take n)
        (List.mem_append_right _ (List.mem_singleton_self _))
      exact hunframed (hiff.mp hresponse)

end RemoteState

/-- In a run, every socket that is kept stands behind one complete response for each request sent
on it when all that the peer sends is framed; after any other response the call returns and keeps
a socket that does not. -/
theorem remoteIo_atBoundary (rctx : RemoteCtx) :
    (∀ t, Reach RemoteState.Init
        (Guarded (RemoteState.PeerFrames rctx) fun t call t' => t.step rctx call = some t') t →
      t.AtBoundary) ∧
    ∀ (t t' : RemoteState) (call : RemoteCall), t.step rctx call = some t' →
      ¬ t.PeerFrames rctx call →
      t'.phase = .returned Error.rpcError.code ∧ ¬ t'.AtBoundary := by
  constructor
  · intro t h
    exact h.invariant (fun _ ht => ht.eachSock) fun _ _ _ hi hst => hi.step hst.1 hst.2
  · intro t t' call hstep hframes
    exact RemoteState.unframed_step hframes hstep

/-- A response with four bytes of body, all 0, for a request with this code. -/
def zeroResponse (op : UInt8) : List UInt8 :=
  ummProtoMagic ++ [1, op, 1, 0, 4, 0] ++ List.replicate 10 0

theorem remoteIo_atBoundary_answered :
    ∃ t, Reach RemoteState.Init (Guarded (RemoteState.PeerFrames ⟨4096, none⟩)
        fun t call t' => t.step ⟨4096, none⟩ call = some t') t ∧ t.AtBoundary := by
  obtain ⟨t, t', c, sock, hrun, hphase, hslot, hsock, hunread, hreq, hstep⟩ :=
    firstWrite_connected (zeroResponse MemOp.dataWrite.code)
  have hframes : t.PeerFrames ⟨4096, none⟩ (.rpc true (zeroResponse MemOp.dataWrite.code)) := by
    intro attempt done c' sock' hphase' hslot' hsock'
    obtain ⟨-, rfl⟩ := RemotePhase.running.inj (hphase.symm.trans hphase')
    obtain rfl := Option.some.inj (hslot.symm.trans hslot')
    obtain rfl := Option.some.inj (hsock.symm.trans hsock')
    rw [hunread, List.nil_append, hreq]
    exact fun _ => ⟨by decide, fun _ _ => Or.inr (by decide), fun hne => absurd (by decide) hne⟩
  have hreach : Reach RemoteState.Init (Guarded (RemoteState.PeerFrames ⟨4096, none⟩)
      fun t call t' => t.step ⟨4096, none⟩ call = some t') t :=
    firstWrite_guarded (fun _ _ => RemoteState.peerFrames_of_ne) hrun
  have hafter := hreach.next (.rpc true (zeroResponse MemOp.dataWrite.code)) ⟨hframes, hstep⟩
  exact ⟨t', hafter, (remoteIo_atBoundary ⟨4096, none⟩).1 t' hafter⟩

/-- The peer answers the write with the code of a read, and the body stays unread. -/
theorem remoteIo_inside_response :
    ∃ t, Reach RemoteState.Init (fun t call t' => t.step ⟨4096, none⟩ call = some t') t ∧
      t.phase = .returned Error.rpcError.code ∧ ¬ t.AtBoundary := by
  obtain ⟨t, t', c, sock, hrun, hphase, hslot, hsock, hunread, hreq, hstep⟩ :=
    firstWrite_connected (zeroResponse MemOp.dataRead.code)
  have hframes : ¬ t.PeerFrames ⟨4096, none⟩ (.rpc true (zeroResponse MemOp.dataRead.code)) := by
    intro hframes
    have hframed := hframes 0 0 c sock hphase hslot hsock
    rw [hunread, List.nil_append, hreq] at hframed
    obtain ⟨-, -, hbody⟩ := hframed (by decide)
    exact absurd (hbody (by decide)) (by decide)
  have hreach : Reach RemoteState.Init (fun t call t' => t.step ⟨4096, none⟩ call = some t') t :=
    Reach.foldlM (.start ⟨rfl, rfl, rfl, rfl⟩) hrun
  exact ⟨t', hreach.next _ hstep, RemoteState.unframed_step hframes hstep⟩

end Umm
