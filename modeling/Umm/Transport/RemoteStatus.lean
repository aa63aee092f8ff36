import Umm.Transport.RemoteConns
import Umm.Transport.RemoteServe
import Umm.Memory.SsdErrors
import Umm.Memory.MemRpcSpec

/-! What `remote_io` makes of a status that the storage service of the owner returns. -/
namespace Umm
open Umm.Lib Proto MemRpcServer

section Server

variable {σ : Type} {srv : MemRpcServer} {vtbl : MemoryServiceVtbl σ} {ctx : σ}

/-- The service returns this error for the request. -/
inductive Refuses (vtbl : MemoryServiceVtbl σ) (ctx : σ) : DataReq → Error → Prop
  | read {gpa len : UInt64} {f : σ → UInt64 → UInt64 → Option (Except Error (List UInt8) × σ)}
      {e : Error} {ctx' : σ} : vtbl.ssdRead = some f →
      f ctx (gpaOffset64 gpa) len = some (.error e, ctx') → Refuses vtbl ctx (.read gpa len) e
  | write {gpa : UInt64} {buf : List UInt8}
      {f : σ → UInt64 → List UInt8 → Option (Except Error Unit × σ)} {e : Error} {ctx' : σ} :
      vtbl.ssdWrite = some f → f ctx (gpaOffset64 gpa) buf = some (.error e, ctx') →
      Refuses vtbl ctx (.write gpa buf) e

theorem dataRequest_entry {α : Type} {entry : Option α} {f : α} {body : UmmProtoBody}
    {gpa len : UInt64} (hunpack : memUnpackDataReq body = .ok ⟨gpa, len⟩) (hentry : entry = some f)
    (hvalid : srv.validateDataReq gpa len = .ok ()) :
    srv.dataRequest entry true body = .ok (f, ⟨gpa, len⟩) := by
  subst hentry
  unfold dataRequest
  rw [hunpack]
  change (do
    srv.validateDataReq gpa len
    if true = true then Except.ok (f, (⟨gpa, len⟩ : MemDataReq)) else .error .noMemory) = _
  rw [hvalid]
  rfl

/-- The client gets back the status of the service, and there is nothing behind it. -/
theorem memServiceRpcHandle_refused {token : Token} {req : DataReq} {head : List UInt8} {e : Error}
    (hhead : req.head token = some head) (hlen : req.payload.length < 2 ^ 64)
    (hadmits : srv.Admits token.val) (hvalid : srv.validateDataReq req.gpa req.len = .ok ())
    (hrefuses : Refuses vtbl ctx req e) :
    ∃ h, srv.memServiceRpcHandle vtbl true ctx (head ++ req.payload) = some h ∧
      req.finish h.sent = ⟨e.code, [], []⟩ := by
  obtain ⟨body, hframe, hclear, -, hunpack⟩ := req.head_eq token
  obtain rfl := Option.some.inj (hhead.symm.trans hframe)
  unfold memServiceRpcHandle
  rw [recvFrame_frame _ _ _ hclear]
  simp only [ummProtoHeader, MemOp.ofCode_code]
  rw [if_pos hadmits]
  cases hrefuses with
  | @read gpa len f _ ctx' hentry hread =>
    obtain ⟨reply, hpack, -⟩ := memDataReadResp_back ⟨e.code, 0⟩
    have hreq : srv.dataRequest vtbl.ssdRead true body = .ok (f, ⟨gpa, len⟩) :=
      dataRequest_entry hunpack hentry hvalid
    have hh : srv.handleDataRead vtbl true ctx body [] =
        some ⟨.ok (), sendResponse MemOp.dataRead.code reply, [], ctx'⟩ := by
      simp only [handleDataRead, hreq, hread, Option.map_some, Option.bind_eq_bind,
        Option.bind_some, statusOf, Except.toOption, Option.isSome_none, Bool.false_eq_true,
        if_false, hpack, Option.getD_none, List.append_nil]
      rfl
    have hrefused := rpcDataRead_refused len hpack e.code_ne_zero le_rfl
    rw [List.take_length] at hrefused
    exact ⟨_, hh, hrefused⟩
  | @write gpa buf f _ ctx' hentry hwrite =>
    obtain ⟨reply, hpack, -⟩ := memFreeResp_back ⟨e.code⟩
    have hrecv : ummTcpRecvExact (UInt64.ofNat buf.length).toNat buf = (.ok buf, []) := by
      have happend := ummTcpRecvExact_append (UInt64.toNat_ofNat_of_lt' hlen).symm []
      rwa [List.append_nil] at happend
    have hreq : srv.dataRequest vtbl.ssdWrite true body =
        .ok (f, ⟨gpa, UInt64.ofNat buf.length⟩) := dataRequest_entry hunpack hentry hvalid
    have hh : srv.handleDataWrite vtbl true ctx body buf =
        some ⟨.error e, sendResponse MemOp.dataWrite.code reply, [], ctx'⟩ := by
      simp only [handleDataWrite, hreq, hrecv, hwrite, Option.bind_eq_bind, Option.bind_some,
        statusOf, hpack]
      rfl
    have hstatus := rpcDataWrite_take hpack (sendResponse MemOp.dataWrite.code reply).length
    rw [List.take_length, if_neg (Nat.lt_irrefl _)] at hstatus
    exact ⟨_, hh, hstatus⟩

end Server

theorem RpcOutcome.rest_eq {σ : Type} {srv : MemRpcServer} {vtbl : MemoryServiceVtbl σ} {ctx : σ}
    {req : DataReq} {h : Handled σ} {k : ℕ} {d : RpcDone}
    (ho : RpcOutcome srv vtbl ctx req h k d) : d.rest = [] := by
  cases ho with
  | broken => rfl
  | refused => rfl
  | read => rfl
  | write => rfl

theorem RemoteIo.request_payload_lt (io : RemoteIo) (maxIo done : ℕ) (buf : List UInt8) :
    (io.request maxIo done buf).payload.length < 2 ^ 64 := by
  have hlen := io.len.toNat_lt
  have hslice : (slice buf done (io.chunk maxIo done)).length ≤ io.chunk maxIo done := by
    simp [slice]
  have hchunk : io.chunk maxIo done ≤ io.len.toNat := by
    unfold chunk
    omega
  unfold request
  split_ifs
  · change (slice buf done (io.chunk maxIo done)).length < 2 ^ 64
    omega
  · simp [DataReq.payload]

/-- A call of `remote_io` begins. -/
def RemoteCall.Begins : RemoteCall → Prop
  | .io .. => True
  | _ => False

namespace RemoteState

variable {rctx : RemoteCtx} {t t' : RemoteState}

/-- What arrives for a request is a part of what a memory server answers to a part of it. -/
def OwnerAnswers (rctx : RemoteCtx) (t : RemoteState) : RemoteCall → Prop
  | .rpc true arrived => ∀ attempt done, t.phase = .running attempt done →
      ∃ (σ : Type) (srv : MemRpcServer) (vtbl : MemoryServiceVtbl σ) (ctx : σ) (gotBuf : Bool)
        (head : List UInt8) (h : Handled σ) (j k : ℕ),
        (t.io.request rctx.maxIo done t.buf).head rctx.headerToken = some head ∧
        srv.memServiceRpcHandle vtbl gotBuf ctx
          ((head ++ (t.io.request rctx.maxIo done t.buf).payload).take j) = some h ∧
        arrived = h.sent.take k
  | _ => True

theorem ownerAnswers_of_ne {call : RemoteCall} (h : ∀ arrived, call ≠ .rpc true arrived) :
    t.OwnerAnswers rctx call := by
  unfold OwnerAnswers
  split
  · rename_i arrived
    exact absurd rfl (h arrived)
  · trivial

/-- The open sockets hold nothing that is not read. -/
def NothingUnread (t : RemoteState) : Prop := t.EachSock fun sock => sock.unread = []

/-- The answer of a server is read to its end, or the connection is given up. -/
theorem NothingUnread.step (h : t.NothingUnread) {call : RemoteCall}
    (hanswers : t.OwnerAnswers rctx call) (hstep : t.step rctx call = some t') :
    t'.NothingUnread := by
  refine EachSock.step h rfl hstep ?_
  intro attempt done c sock arrived sock' hcall hphase hslot hsock hold hs
  subst hcall
  obtain ⟨σ, srv, vtbl, ctx, gotBuf, head, hd, j, k, hhead, hh, rfl⟩ := hanswers attempt done hphase
  have hanswer := memServiceRpcHandle_answer hhead (t.io.request_payload_lt _ _ _) hh
  rw [hold, List.nil_append, sockAfter] at hs
  split_ifs at hs with hrc
  obtain rfl := Option.some.inj hs
  exact (hanswer.1.outcome k).rest_eq

/-- The call returns this status, and sends no other request, whatever happens until the next
call. -/
def PassesThrough (rctx : RemoteCtx) (t : RemoteState) (e : Error) : Prop :=
  ∀ t', Reach (· = t) (Guarded (fun _ call => ¬ call.Begins) fun t call t' =>
      t.step rctx call = some t') t' →
    t'.phase = .returned e.code ∧ t'.issued = t.issued

theorem passesThrough_of_returned {e : Error} (h : t.phase = .returned e.code) :
    t.PassesThrough rctx e := by
  intro u hu
  refine hu.invariant (P := fun u => u.phase = .returned e.code ∧ u.issued = t.issued) ?_ ?_
  · rintro _ rfl
    exact ⟨h, rfl⟩
  · rintro s call s' ⟨hphase, hissued⟩ ⟨hbegins, hstep⟩
    cases call with
    | io io buf => exact absurd trivial hbegins
    | connect ok =>
      obtain ⟨attempt, c, hconnecting, -⟩ := step_connect hstep
      rw [hphase] at hconnecting
      cases hconnecting
    | rpc sent arrived =>
      obtain ⟨attempt, done, c, sock, hrunning, -⟩ := step_rpc hstep
      rw [hphase] at hrunning
      cases hrunning
    | setFallback node addr =>
      obtain ⟨-, fallback, rfl⟩ := step_setFallback hstep
      exact ⟨hphase, hissued⟩
    | registerNode node addr =>
      obtain ⟨-, cis, rfl⟩ := step_registerNode hstep
      exact ⟨hphase, hissued⟩

/-- The service of the owner returns the error for the request that the call makes now, and the
response arrives whole. -/
def Refused {σ : Type} (rctx : RemoteCtx) (srv : MemRpcServer) (vtbl : MemoryServiceVtbl σ) (ctx : σ)
    (t : RemoteState) (attempt : ℕ) (e : Error) (t' : RemoteState) : Prop :=
  ∃ done req head h, t.phase = .running attempt done ∧ req = t.io.request rctx.maxIo done t.buf ∧
    req.head rctx.headerToken = some head ∧ srv.Admits rctx.headerToken.val ∧
    srv.validateDataReq req.gpa req.len = .ok () ∧ Refuses vtbl ctx req e ∧
    srv.memServiceRpcHandle vtbl true ctx (head ++ req.payload) = some h ∧
    t.step rctx (.rpc true h.sent) = some t'

variable {σ : Type} {srv : MemRpcServer} {vtbl : MemoryServiceVtbl σ} {ctx : σ} {attempt : ℕ}
  {e : Error}

theorem Refused.phase_eq (h : Refused rctx srv vtbl ctx t attempt e t') (hu : t.NothingUnread) :
    ∃ done, t'.phase = t.io.afterRpc rctx.maxIo attempt done e.code := by
  obtain ⟨done, req, head, hd, hphase, rfl, hhead, hadmits, hvalid, hrefuses, hh, hstep⟩ := h
  obtain ⟨attempt', done', c, sock, hphase', hslot, hsock, rfl⟩ := step_rpc hstep
  obtain ⟨rfl, rfl⟩ := RemotePhase.running.inj (hphase.symm.trans hphase')
  obtain ⟨hd', hh', hfinish⟩ := memServiceRpcHandle_refused hhead (t.io.request_payload_lt _ _ _)
    hadmits hvalid hrefuses
  obtain rfl := Option.some.inj (hh.symm.trans hh')
  refine ⟨done, ?_⟩
  change t.io.afterRpc rctx.maxIo attempt done
    ((t.io.request rctx.maxIo done t.buf).finish (sock.unread ++ hd.sent)).rc = _
  rw [hu c (slot_mem hslot).1 sock hsock, List.nil_append, hfinish]

end RemoteState

theorem Error.code_inj {e e' : Error} (h : e.code = e'.code) : e = e' := by
  cases e <;> cases e' <;> first | rfl | exact absurd h (by decide)

/-- In every run against memory servers, an error that the owner's service returns is passed
through exactly when it is not the one for errors of the transport, or when the connection was
already given up once. -/
theorem remoteIo_passesThrough_iff {σ : Type} {rctx : RemoteCtx} {srv : MemRpcServer}
    {vtbl : MemoryServiceVtbl σ} {ctx : σ} {t t' : RemoteState} {attempt : ℕ} {e : Error}
    (hreach : Reach RemoteState.Init (Guarded (RemoteState.OwnerAnswers rctx)
      fun t call t' => t.step rctx call = some t') t)
    (hrefused : RemoteState.Refused rctx srv vtbl ctx t attempt e t') :
    t'.PassesThrough rctx e ↔ e ≠ .transportError ∨ attempt ≠ 0 := by
  have hunread : t.NothingUnread :=
    hreach.invariant (fun _ ht => ht.eachSock) fun _ _ _ hi hst => hi.step hst.1 hst.2
  obtain ⟨done, hphase⟩ := hrefused.phase_eq hunread
  constructor
  · intro hpasses
    by_contra hno
    obtain ⟨rfl, rfl⟩ : e = .transportError ∧ attempt = 0 := by
      constructor
      · by_contra hne
        exact hno (Or.inl hne)
      · by_contra hne
        exact hno (Or.inr hne)
    have hreturned := (hpasses t' (.start rfl)).1
    rw [hphase, RemoteIo.afterRpc, if_pos rfl, if_pos rfl] at hreturned
    cases hreturned
  · intro hor
    apply RemoteState.passesThrough_of_returned
    rw [hphase, RemoteIo.afterRpc]
    by_cases he : e = .transportError
    · subst he
      rw [if_pos rfl, if_neg (hor.resolve_left (not_not.mpr rfl))]
    · rw [if_neg fun hcode => he (Error.code_inj hcode), if_pos e.code_ne_zero]

theorem firstWrite_refused {σ : Type} (srv : MemRpcServer) {vtbl : MemoryServiceVtbl σ} {ctx : σ}
    {e : Error} (hadmits : srv.Admits noToken.val)
    (hvalid : srv.validateDataReq 0x0600000000000000 1 = .ok ())
    (hrefuses : Refuses vtbl ctx (.write 0x0600000000000000 [7]) e) :
    ∃ t t', Reach RemoteState.Init (Guarded (RemoteState.OwnerAnswers ⟨4096, none⟩)
        fun t call t' => t.step ⟨4096, none⟩ call = some t') t ∧
      RemoteState.Refused ⟨4096, none⟩ srv vtbl ctx t 0 e t' := by
  obtain ⟨body, hhead, -⟩ := (DataReq.write 0x0600000000000000 [7]).head_eq noToken
  obtain ⟨h, hh, -⟩ := memServiceRpcHandle_refused hhead (by decide) hadmits hvalid hrefuses
  obtain ⟨t, t', c, sock, hrun, hphase, -, -, -, hreq, hstep⟩ := firstWrite_connected h.sent
  refine ⟨t, t', firstWrite_guarded (fun _ _ => RemoteState.ownerAnswers_of_ne) hrun, ?_⟩
  exact ⟨0, _, _, h, hphase, hreq.symm, hhead, hadmits, hvalid, hrefuses, hh, hstep⟩

theorem remoteIo_passesThrough_offline :
    ∃ t t', RemoteState.Refused ⟨4096, none⟩ (memRpcServerConfigure 1 none 0) (memsvcVtbl .quiet)
        memServiceDirectCreateV2 t 0 .notInitialized t' ∧
      (t'.PassesThrough ⟨4096, none⟩ .notInitialized ↔
        Error.notInitialized ≠ .transportError ∨ 0 ≠ 0) := by
  have hrefuses : Refuses (memsvcVtbl .quiet) memServiceDirectCreateV2
      (.write 0x0600000000000000 [7]) .notInitialized := .write rfl rfl
  obtain ⟨t, t', hreach, hrefused⟩ :=
    firstWrite_refused (memRpcServerConfigure 1 none 0) (by decide) rfl hrefuses
  exact ⟨t, t', hrefused, remoteIo_passesThrough_iff hreach hrefused⟩

/-- A write to a disk that fails: `UMM_E_IO` is the error of the transport, and `remote_io`
connects and sends again. -/
theorem remoteIo_repeats_ioError :
    ∃ t t', Reach RemoteState.Init (Guarded (RemoteState.OwnerAnswers ⟨4096, none⟩)
        fun t call t' => t.step ⟨4096, none⟩ call = some t') t ∧
      RemoteState.Refused ⟨4096, none⟩ (memRpcServerConfigure 1 none 0)
        (memsvcDiskVtbl .broken .quiet) onePageService t 0 .transportError t' ∧
      ¬ t'.PassesThrough ⟨4096, none⟩ .transportError := by
  have hstatus : (memsvcSsdWriteDisk .broken onePageService (gpaOffset64 0x0600000000000000) [7]).map
      (fun p => statusOf p.1) = some Error.transportError.code := by decide +kernel
  obtain ⟨⟨r, ctx⟩, hwrite, hcode⟩ := Option.map_eq_some_iff.mp hstatus
  cases r with
  | ok u => exact absurd hcode.symm Error.transportError.code_ne_zero
  | error e =>
    obtain rfl := Error.code_inj hcode
    have hrefuses : Refuses (memsvcDiskVtbl .broken .quiet) onePageService
        (.write 0x0600000000000000 [7]) .transportError := .write rfl hwrite
    obtain ⟨t, t', hreach, hrefused⟩ :=
      firstWrite_refused (memRpcServerConfigure 1 none 0) (by decide) rfl hrefuses
    have hunread : t.NothingUnread :=
      hreach.invariant (fun _ ht => ht.eachSock) fun _ _ _ hi hst => hi.step hst.1 hst.2
    obtain ⟨done, hphase⟩ := hrefused.phase_eq hunread
    refine ⟨t, t', hreach, hrefused, fun hpasses => ?_⟩
    have hreturned := (hpasses t' (.start rfl)).1
    rw [hphase, RemoteIo.afterRpc, if_pos rfl, if_pos rfl] at hreturned
    cases hreturned

end Umm
