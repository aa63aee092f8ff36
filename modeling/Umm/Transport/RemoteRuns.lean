import Umm.Transport.RemoteServe
import Umm.Memory.SsdBytes
import Umm.Memory.MemServiceCalls
import Umm.Lib.Reach

/-! `remote_io` against the server of the owner: every schedule of lost connections, requests
that are executed late or not at all, and writers elsewhere. -/
namespace Umm
open Umm.Lib Proto MemRpcServer

/-- The world of one call of `remote_io`. The last two fields are for specification only. -/
structure RemoteWorld where
  owner : MemServiceCtx
  buf : List UInt8
  phase : RemotePhase
  /-- What arrived of requests on connections that the client has given up. -/
  pending : List (List UInt8)
  issued : List DataReq
  /-- The bytes as the other writers alone leave them. -/
  others : ℕ → Option UInt8

inductive RemoteEvent where
  | noRoute (e : Error)
  | connect (ok : Bool)
  /-- The server handles the first `sent` bytes, and `answered` bytes of its reply arrive. -/
  | served (env : MemEnv) (gotBuf : Bool) (sent answered : ℕ)
  /-- The connection breaks before the server has handled the first `sent` bytes. -/
  | abandoned (sent : ℕ)
  /-- The server handles a request that was given up. -/
  | late (stream : List UInt8) (env : MemEnv) (gotBuf : Bool)
  | others (owner : MemServiceCtx)

namespace RemoteIo

section Model

variable (srv : MemRpcServer) (rctx : RemoteCtx) (io : RemoteIo)

def offset : ℕ := gpaToOffset io.gpa.toNat

/-- The offsets of the transfer. -/
def Covers (i : ℕ) : Prop := io.offset ≤ i ∧ i < io.offset + io.len.toNat

def newOthers (before after : MemServiceCtx) (others : ℕ → Option UInt8) (i : ℕ) : Option UInt8 :=
  if after.ssdByte i = before.ssdByte i then others i else after.ssdByte i

/-- The bytes that a request puts on the connection. -/
def stream (req : DataReq) : Option (List UInt8) :=
  (req.head rctx.headerToken).map (· ++ req.payload)

structure Init (buf : List UInt8) (s : RemoteWorld) : Prop where
  owner_wf : (s.owner.tiers .ssd).WF
  buf_eq : s.buf = buf
  phase_eq : s.phase = io.start
  pending_eq : s.pending = []
  issued_eq : s.issued = []
  others_eq : s.others = s.owner.ssdByte

inductive Step (s : RemoteWorld) : RemoteEvent → RemoteWorld → Prop
  | noRoute {e : Error} : s.phase = .connecting 0 →
      Step s (.noRoute e) { s with phase := .returned e.code }
  | connected {attempt : ℕ} : s.phase = .connecting attempt →
      Step s (.connect true) { s with phase := .running attempt 0 }
  | notConnected {attempt : ℕ} : s.phase = .connecting attempt →
      Step s (.connect false)
        { s with
          phase := if attempt = 0 then .connecting 1 else .returned Error.transportError.code }
  | served {attempt done sent answered : ℕ} {env : MemEnv} {gotBuf : Bool} {req : DataReq}
      {out : List UInt8} {h : Handled MemServiceCtx} : s.phase = .running attempt done →
      req = io.request rctx.maxIo done s.buf → stream rctx req = some out →
      srv.memServiceRpcHandle (memsvcVtbl env) gotBuf s.owner (out.take sent) = some h →
      Step s (.served env gotBuf sent answered)
        { s with
          owner := h.ctx
          buf := splice s.buf done (req.finish (h.sent.take answered)).filled
          phase := io.afterRpc rctx.maxIo attempt done (req.finish (h.sent.take answered)).rc
          issued := req :: s.issued }
  | abandoned {attempt done sent : ℕ} {req : DataReq} {out : List UInt8} :
      s.phase = .running attempt done → req = io.request rctx.maxIo done s.buf →
      stream rctx req = some out →
      Step s (.abandoned sent)
        { s with
          phase := io.afterRpc rctx.maxIo attempt done Error.transportError.code
          pending := out.take sent :: s.pending
          issued := req :: s.issued }
  | late {stream : List UInt8} {env : MemEnv} {gotBuf : Bool} {h : Handled MemServiceCtx} :
      stream ∈ s.pending →
      srv.memServiceRpcHandle (memsvcVtbl env) gotBuf s.owner stream = some h →
      Step s (.late stream env gotBuf)
        { s with owner := h.ctx, pending := s.pending.erase stream }
  | others {owner : MemServiceCtx} : (owner.tiers .ssd).WF →
      (∀ i, io.Covers i → owner.ssdByte i = s.owner.ssdByte i) →
      Step s (.others owner) { s with owner, others := newOthers s.owner owner s.others }

end Model

end RemoteIo

section Effect

variable {srv : MemRpcServer} {env : MemEnv} {m : MemServiceCtx} {req : DataReq}
  {h : Handled MemServiceCtx}

theorem validateDataReq_ok {gpa len : UInt64} (hv : srv.validateDataReq gpa len = .ok ()) :
    gpaToTier gpa.toNat = Tier.ssd.id ∧ len.toNat ≤ srv.dataMaxIo := by
  unfold validateDataReq at hv
  split_ifs at hv with htier hlen
  exact ⟨not_not.mp htier, by omega⟩

theorem toNat_gpaOffset64 (gpa : UInt64) :
    (gpaOffset64 gpa).toNat = gpaToOffset gpa.toNat := by
  have hlt : gpaToOffset gpa.toNat < 2 ^ 64 := by
    rw [gpaToOffset_eq]
    omega
  exact UInt64.toNat_ofNat_of_lt' hlt

/-- What a data request can do to the bytes of the owner, whatever comes of its reply. -/
theorem DataAnswer.bytes (ha : DataAnswer srv (memsvcVtbl env) m req h)
    (hcap : srv.dataMaxIo ≤ 2 ^ 24) (hlen : req.payload.length < 2 ^ 64)
    (hw : (m.tiers .ssd).WF) :
    (h.ctx.tiers .ssd).WF ∧ ∀ i, h.ctx.ssdByte i = m.ssdByte i ∨
      gpaToTier req.gpa.toNat = Tier.ssd.id ∧ ∃ j < req.payload.length,
        i = gpaToOffset req.gpa.toNat + j ∧ h.ctx.ssdByte i = req.payload[j]? := by
  cases ha with
  | closed => exact ⟨hw, fun i => .inl rfl⟩
  | rejectedRead hpack => exact ⟨hw, fun i => .inl rfl⟩
  | @read gpa len f r ctx' reply hentry hvalid hread hpack =>
    obtain rfl := Option.some.inj hentry
    have hv := validateDataReq_ok hvalid
    have hoff := toNat_gpaOffset64 gpa
    rw [gpaToOffset_eq] at hoff
    obtain ⟨rfl, -⟩ := MemServiceCtx.memsvcSsdRead_bytes hw (by omega) hread
    exact ⟨hw, fun i => .inl rfl⟩
  | rejectedWrite hpack => exact ⟨hw, fun i => .inl rfl⟩
  | @write gpa buf f r ctx' reply hentry hvalid hwrite hpack =>
    obtain rfl := Option.some.inj hentry
    have hv := validateDataReq_ok hvalid
    have hbuf : (UInt64.ofNat buf.length).toNat = buf.length := UInt64.toNat_ofNat_of_lt' hlen
    have hoff := toNat_gpaOffset64 gpa
    have hsmall : (gpaOffset64 gpa).toNat + buf.length < 2 ^ 64 := by
      rw [hoff, gpaToOffset_eq]
      omega
    obtain ⟨hw', hsome, -⟩ := MemServiceCtx.memsvcSsdWrite_bytes hw hsmall hwrite
    rw [hoff] at hsome
    refine ⟨hw', fun i => ?_⟩
    rcases hsome i with hi | hi
    · exact .inl hi
    · exact .inr ⟨hv.1, hi⟩

/-- What a request has done when the client returns 0 for it. -/
theorem RpcOutcome.bytes {k : ℕ} {d : RpcDone}
    (ho : RpcOutcome srv (memsvcVtbl env) m req h k d) (hrc : d.rc = 0)
    (hcap : srv.dataMaxIo ≤ 2 ^ 24) (hlen : req.payload.length < 2 ^ 64)
    (hw : (m.tiers .ssd).WF) :
    gpaToTier req.gpa.toNat = Tier.ssd.id ∧ req.len.toNat ≤ srv.dataMaxIo ∧
      (∀ j < req.payload.length,
        h.ctx.ssdByte (gpaToOffset req.gpa.toNat + j) = req.payload[j]?) ∧
      d.filled.length = req.room ∧
      ∀ j < req.room, d.filled[j]? = h.ctx.ssdByte (gpaToOffset req.gpa.toNat + j) := by
  cases ho with
  | broken hroom => exact absurd hrc (Error.code_ne_zero .transportError)
  | refused hk => exact absurd hrc (Error.code_ne_zero _)
  | @read gpa len f h bytes k hk hentry hvalid hread =>
    have hfilled := (memsvcVtbl env).length_ssdRead f hentry _ _ _ _ _ hread
    obtain rfl := Option.some.inj hentry
    have hv := validateDataReq_ok hvalid
    have hoff := toNat_gpaOffset64 gpa
    have hsmall : (gpaOffset64 gpa).toNat + len.toNat < 2 ^ 64 := by
      rw [hoff, gpaToOffset_eq]
      omega
    obtain ⟨hctx, hbytes⟩ := MemServiceCtx.memsvcSsdRead_bytes hw hsmall hread
    refine ⟨hv.1, hv.2, by simp [DataReq.payload], hfilled, fun j hj => ?_⟩
    rw [hctx, hbytes bytes rfl j hj, hoff]
    rfl
  | @write gpa buf f h k hk hentry hvalid hwrite =>
    obtain rfl := Option.some.inj hentry
    have hv := validateDataReq_ok hvalid
    have hbuf : (UInt64.ofNat buf.length).toNat = buf.length := UInt64.toNat_ofNat_of_lt' hlen
    have hoff := toNat_gpaOffset64 gpa
    have hsmall : (gpaOffset64 gpa).toNat + buf.length < 2 ^ 64 := by
      rw [hoff, gpaToOffset_eq]
      omega
    obtain ⟨-, -, hall⟩ := MemServiceCtx.memsvcSsdWrite_bytes hw hsmall hwrite
    rw [hoff] at hall
    exact ⟨hv.1, hv.2, hall rfl, rfl, by simp [DataReq.room]⟩

end Effect

namespace RemoteIo

section Requests

variable {io : RemoteIo} (maxIo : ℕ) {done : ℕ} {buf : List UInt8}

theorem chunk_le (h : done < io.len.toNat) : done + io.chunk maxIo done ≤ io.len.toNat := by
  unfold chunk
  omega

/-- The request for the bytes from `done` on. -/
theorem request_eq (h : done < io.len.toNat) (hbuf : buf.length = io.len.toNat) :
    (io.request maxIo done buf).gpa = io.gpa + UInt64.ofNat done ∧
      (io.request maxIo done buf).len.toNat = io.chunk maxIo done ∧
      (io.request maxIo done buf).payload =
        (if io.isWrite then slice buf done (io.chunk maxIo done) else []) ∧
      (io.request maxIo done buf).room =
        if io.isWrite then 0 else io.chunk maxIo done := by
  have hlt := io.len.toNat_lt
  have hc : done + io.chunk maxIo done ≤ io.len.toNat := chunk_le maxIo h
  have hchunk : (UInt64.ofNat (io.chunk maxIo done)).toNat = io.chunk maxIo done :=
    UInt64.toNat_ofNat_of_lt' (show _ < 2 ^ 64 by omega)
  unfold request
  cases io.isWrite with
  | false => exact ⟨rfl, hchunk, rfl, hchunk⟩
  | true =>
    have hslice : (slice buf done (io.chunk maxIo done)).length = io.chunk maxIo done :=
      length_slice (by omega)
    refine ⟨rfl, ?_, rfl, rfl⟩
    simp only [if_true, DataReq.len, hslice, hchunk]

/-- All requests before `done` were accepted. -/
def OnTrack (io : RemoteIo) (done : ℕ) : Prop :=
  done = 0 ∨ gpaToTier io.gpa.toNat = Tier.ssd.id ∧ io.offset + done < 2 ^ 56 + 2 ^ 24

/-- A request that leaves the offsets of the tier has the address of another tier. -/
theorem OnTrack.offset_eq (h : io.OnTrack done) (hdone : done < 2 ^ 64)
    (htier : gpaToTier (io.gpa + UInt64.ofNat done).toNat = Tier.ssd.id) :
    gpaToTier io.gpa.toNat = Tier.ssd.id ∧
      gpaToOffset (io.gpa + UInt64.ofNat done).toNat = io.offset + done ∧
      io.offset + done < 2 ^ 56 := by
  have hgpa := io.gpa.toNat_lt
  have hadd : (io.gpa + UInt64.ofNat done).toNat = (io.gpa.toNat + done) % 2 ^ 64 := by
    rw [UInt64.toNat_add, UInt64.toNat_ofNat_of_lt' hdone]
  rw [hadd] at htier ⊢
  unfold OnTrack offset at *
  simp only [gpaToTier_eq, gpaToOffset_eq, Tier.id] at *
  omega

end Requests

section Runs

variable {srv : MemRpcServer} {rctx : RemoteCtx} {io : RemoteIo} {buf : List UInt8}

/-- The bytes of the transfer are as before, or those that are to be written. -/
def Inside (io : RemoteIo) (buf : List UInt8) (before after : MemServiceCtx) : Prop :=
  ∀ j < io.len.toNat, after.ssdByte (io.offset + j) = before.ssdByte (io.offset + j) ∨
    io.isWrite = true ∧ after.ssdByte (io.offset + j) = buf[j]?

/-- The first `done` bytes are the same on both sides. -/
def Moved (io : RemoteIo) (buf : List UInt8) (owner : MemServiceCtx) (cur : List UInt8)
    (done : ℕ) : Prop :=
  ∀ j < done, owner.ssdByte (io.offset + j) = if io.isWrite then buf[j]? else cur[j]?

/-- A request of the call. -/
def Issued (maxIo : ℕ) (io : RemoteIo) (buf : List UInt8) (req : DataReq) : Prop :=
  ∃ done cur, io.OnTrack done ∧ done < io.len.toNat ∧ cur.length = io.len.toNat ∧
    (io.isWrite = true → cur = buf) ∧ req = io.request maxIo done cur

def InPhase (io : RemoteIo) (buf : List UInt8) (owner : MemServiceCtx) (cur : List UInt8) :
    RemotePhase → Prop
  | .connecting _ => 0 < io.len.toNat
  | .running _ done => done < io.len.toNat ∧ io.OnTrack done ∧ Moved io buf owner cur done
  | .returned rc => rc = 0 → Moved io buf owner cur io.len.toNat

structure Inv (rctx : RemoteCtx) (io : RemoteIo) (buf : List UInt8) (s : RemoteWorld) : Prop where
  owner_wf : (s.owner.tiers .ssd).WF
  length_buf : s.buf.length = io.len.toNat
  kept : io.isWrite = true → s.buf = buf
  pending : ∀ bytes ∈ s.pending, ∃ req out sent, Issued rctx.maxIo io buf req ∧
    stream rctx req = some out ∧ bytes = out.take sent
  bounded : ∀ req ∈ s.issued, req.len.toNat ≤ rctx.maxIo
  outside : ∀ i, ¬ io.Covers i → s.owner.ssdByte i = s.others i
  inPhase : InPhase io buf s.owner s.buf s.phase

section Change

variable {before after : MemServiceCtx} {cur : List UInt8}

theorem Inside.moved {done : ℕ} (h : Inside io buf before after) (hdone : done ≤ io.len.toNat)
    (hm : Moved io buf before cur done) : Moved io buf after cur done := by
  intro j hj
  rcases h j (by omega) with hi | ⟨hwr, hi⟩
  · rw [hi]
    exact hm j hj
  · rw [hi, if_pos hwr]

theorem Inside.inPhase {phase : RemotePhase} (h : Inside io buf before after)
    (hp : InPhase io buf before cur phase) : InPhase io buf after cur phase := by
  cases phase with
  | connecting attempt => exact hp
  | running attempt done => exact ⟨hp.1, hp.2.1, h.moved hp.1.le hp.2.2⟩
  | returned rc => exact fun hrc => h.moved le_rfl (hp hrc)

end Change

theorem Issued.payload_lt {maxIo : ℕ} {req : DataReq} (h : Issued maxIo io buf req) :
    req.payload.length < 2 ^ 64 := by
  obtain ⟨done, cur, -, hlt, hcur, -, rfl⟩ := h
  have hlen := io.len.toNat_lt
  have hc : done + io.chunk maxIo done ≤ io.len.toNat := chunk_le _ hlt
  rw [(request_eq _ hlt hcur).2.2.1]
  split_ifs
  · rw [length_slice (by omega)]
    omega
  · simp

theorem handle_answer {req : DataReq} {out : List UInt8} {env : MemEnv} {gotBuf : Bool}
    {m : MemServiceCtx} {sent : ℕ} {h : Handled MemServiceCtx}
    (hreq : Issued rctx.maxIo io buf req) (hout : stream rctx req = some out)
    (hh : srv.memServiceRpcHandle (memsvcVtbl env) gotBuf m (out.take sent) = some h) :
    DataAnswer srv (memsvcVtbl env) m req h := by
  unfold stream at hout
  obtain ⟨head, hhead, rfl⟩ := Option.map_eq_some_iff.mp hout
  exact (memServiceRpcHandle_answer hhead hreq.payload_lt hh).1

/-- A request of the call changes the owner only where and as the call is to. -/
theorem Issued.change {req : DataReq} {env : MemEnv} {m : MemServiceCtx}
    {h : Handled MemServiceCtx} (hreq : Issued rctx.maxIo io buf req)
    (hcap : srv.dataMaxIo ≤ 2 ^ 24) (hw : (m.tiers .ssd).WF)
    (ha : DataAnswer srv (memsvcVtbl env) m req h) :
    (h.ctx.tiers .ssd).WF ∧ Inside io buf m h.ctx ∧
      ∀ i, ¬ io.Covers i → h.ctx.ssdByte i = m.ssdByte i := by
  obtain ⟨hw', hbytes⟩ := ha.bytes hcap hreq.payload_lt hw
  obtain ⟨done, cur, htrack, hlt, hcur, hkept, rfl⟩ := hreq
  have hlen := io.len.toNat_lt
  have hc : done + io.chunk rctx.maxIo done ≤ io.len.toNat := chunk_le _ hlt
  obtain ⟨hgpa, -, hpay, -⟩ := request_eq rctx.maxIo hlt hcur
  have hchange : ∀ i, h.ctx.ssdByte i = m.ssdByte i ∨ io.isWrite = true ∧
      ∃ j < io.len.toNat, i = io.offset + j ∧ h.ctx.ssdByte i = buf[j]? := by
    intro i
    rcases hbytes i with hi | ⟨htier, j, hj, hi, hb⟩
    · exact .inl hi
    · rw [hgpa] at htier hi
      obtain ⟨-, hoff, -⟩ := htrack.offset_eq (by omega) htier
      rw [hpay] at hj hb
      cases hwr : io.isWrite with
      | false => simp [hwr] at hj
      | true =>
        obtain rfl := hkept hwr
        rw [hwr, if_pos rfl, length_slice (by omega)] at hj
        rw [hwr, if_pos rfl, getElem?_slice, if_pos hj] at hb
        exact .inr ⟨rfl, done + j, by omega, by omega, hb⟩
  refine ⟨hw', fun j hj => ?_, fun i hi => ?_⟩
  · rcases hchange (io.offset + j) with h | ⟨hwr, k, -, hk, hb⟩
    · exact .inl h
    · obtain rfl : j = k := by omega
      exact .inr ⟨hwr, hb⟩
  · rcases hchange i with h | ⟨-, k, hk, rfl, -⟩
    · exact h
    · exact absurd ⟨Nat.le_add_right _ _, by omega⟩ hi

/-- A request that is answered with 0 has moved its bytes. -/
theorem served_moved {s : RemoteWorld} {req : DataReq} {env : MemEnv} {done k : ℕ}
    {h : Handled MemServiceCtx} {d : RpcDone} (hcap : srv.dataMaxIo ≤ 2 ^ 24)
    (hw : (s.owner.tiers .ssd).WF) (hbuf : s.buf.length = io.len.toNat)
    (hkept : io.isWrite = true → s.buf = buf) (hlt : done < io.len.toNat)
    (htrack : io.OnTrack done) (hm : Moved io buf s.owner s.buf done)
    (hreq : req = io.request rctx.maxIo done s.buf)
    (ho : RpcOutcome srv (memsvcVtbl env) s.owner req h k d) (hrc : d.rc = 0)
    (hin : Inside io buf s.owner h.ctx) :
    io.OnTrack (done + io.chunk rctx.maxIo done) ∧
      Moved io buf h.ctx (splice s.buf done d.filled) (done + io.chunk rctx.maxIo done) := by
  have hlen := io.len.toNat_lt
  have hc : done + io.chunk rctx.maxIo done ≤ io.len.toNat := chunk_le _ hlt
  obtain ⟨hgpa, hrlen, hpay, hroom⟩ := request_eq rctx.maxIo hlt hbuf
  rw [← hreq] at hgpa hrlen hpay hroom
  have hplen : req.payload.length = if io.isWrite then io.chunk rctx.maxIo done else 0 := by
    rw [hpay]
    split_ifs
    · exact length_slice (by omega)
    · rfl
  obtain ⟨htier, hsize, hwrote, hfilled, hread⟩ :=
    ho.bytes hrc hcap (by rw [hplen]; split_ifs <;> omega) hw
  rw [hgpa] at htier hwrote hread
  obtain ⟨htier0, hoff, hsmall⟩ := htrack.offset_eq (by omega) htier
  rw [hoff] at hwrote hread
  rw [hrlen] at hsize
  refine ⟨.inr ⟨htier0, by omega⟩, fun j hj => ?_⟩
  by_cases hold : j < done
  · have hfit : done + d.filled.length ≤ s.buf.length := by
      rw [hfilled, hroom]
      split_ifs <;> omega
    have hmoved := hin.moved hlt.le hm j hold
    have hkeep : (splice s.buf done d.filled)[j]? = s.buf[j]? := by
      rw [getElem?_splice hfit, if_neg (by omega)]
    rw [hmoved, hkeep]
  · obtain ⟨k, rfl⟩ := Nat.exists_eq_add_of_le (Nat.not_lt.mp hold)
    cases hwr : io.isWrite with
    | true =>
      rw [hwr, if_pos rfl] at hplen hpay
      have hb := hwrote k (by omega)
      rw [hpay, getElem?_slice, if_pos (by omega), hkept hwr] at hb
      rw [← Nat.add_assoc, hb]
      rfl
    | false =>
      rw [hwr, if_neg (by simp)] at hroom
      have hnew : (splice s.buf done d.filled)[done + k]? = d.filled[k]? := by
        rw [getElem?_splice (by omega), if_pos ⟨by omega, by omega⟩, Nat.add_sub_cancel_left]
      rw [if_neg (by simp), hnew, hread k (by omega), Nat.add_assoc]

theorem inPhase_afterRpc (maxIo : ℕ) {owner : MemServiceCtx} {cur : List UInt8}
    {attempt done : ℕ} {rc : Int32} (hlt : done < io.len.toNat)
    (hok : rc = 0 → io.OnTrack (done + io.chunk maxIo done) ∧
      Moved io buf owner cur (done + io.chunk maxIo done)) :
    InPhase io buf owner cur (io.afterRpc maxIo attempt done rc) := by
  have hc : done + io.chunk maxIo done ≤ io.len.toNat := chunk_le _ hlt
  unfold afterRpc
  split_ifs with htransport hattempt hrc hmore
  · exact Nat.zero_lt_of_lt hlt
  · exact fun h => absurd h (Error.code_ne_zero .transportError)
  · exact fun h => absurd h hrc
  · exact ⟨hmore, hok (not_not.mp hrc)⟩
  · intro _
    rw [show io.len.toNat = done + io.chunk maxIo done by omega]
    exact (hok (not_not.mp hrc)).2

theorem Inv.init {s : RemoteWorld} (hbuf : buf.length = io.len.toNat) (h : io.Init buf s) :
    Inv rctx io buf s where
  owner_wf := h.owner_wf
  length_buf := by rw [h.buf_eq, hbuf]
  kept := fun _ => h.buf_eq
  pending := by simp [h.pending_eq]
  bounded := by simp [h.issued_eq]
  outside := by simp [h.others_eq]
  inPhase := by
    rw [h.phase_eq]
    unfold start
    split_ifs with hlen
    · intro _ j hj
      omega
    · exact Nat.pos_of_ne_zero hlen

theorem Inv.bounded_cons {s : RemoteWorld} {done : ℕ} (hi : Inv rctx io buf s)
    (hlt : done < io.len.toNat) :
    ∀ req ∈ io.request rctx.maxIo done s.buf :: s.issued, req.len.toNat ≤ rctx.maxIo := by
  intro req hreq
  rcases List.mem_cons.mp hreq with rfl | hreq
  · rw [(request_eq _ hlt hi.length_buf).2.1]
    exact Nat.min_le_right _ _
  · exact hi.bounded req hreq

theorem Inv.served {s : RemoteWorld} {attempt done sent answered : ℕ} {env : MemEnv}
    {gotBuf : Bool} {req : DataReq} {out : List UInt8} {h : Handled MemServiceCtx}
    (hcap : srv.dataMaxIo ≤ 2 ^ 24) (hi : Inv rctx io buf s)
    (hp : s.phase = .running attempt done) (hreq : req = io.request rctx.maxIo done s.buf)
    (hout : stream rctx req = some out)
    (hh : srv.memServiceRpcHandle (memsvcVtbl env) gotBuf s.owner (out.take sent) = some h) :
    Inv rctx io buf
      { s with
        owner := h.ctx
        buf := splice s.buf done (req.finish (h.sent.take answered)).filled
        phase := io.afterRpc rctx.maxIo attempt done (req.finish (h.sent.take answered)).rc
        issued := req :: s.issued } := by
  have hphase := hi.inPhase
  rw [hp] at hphase
  obtain ⟨hlt, htrack, hm⟩ := hphase
  have hissued : Issued rctx.maxIo io buf req :=
    ⟨done, s.buf, htrack, hlt, hi.length_buf, hi.kept, hreq⟩
  have ha := handle_answer hissued hout hh
  have ho := ha.outcome answered
  obtain ⟨hw', hin, hsame⟩ := hissued.change hcap hi.owner_wf ha
  obtain ⟨-, -, -, hroom⟩ := request_eq rctx.maxIo hlt hi.length_buf
  rw [← hreq] at hroom
  have hc : done + io.chunk rctx.maxIo done ≤ io.len.toNat := chunk_le _ hlt
  have hfilled := ho.filled_le
  have hfit : done + (req.finish (h.sent.take answered)).filled.length ≤ s.buf.length := by
    rw [hi.length_buf]
    split_ifs at hroom <;> omega
  refine ⟨hw', (length_splice hfit).trans hi.length_buf, ?_, hi.pending, ?_, ?_, ?_⟩
  · intro hwr
    rw [hwr, if_pos rfl] at hroom
    have hnil : (req.finish (h.sent.take answered)).filled = [] :=
      List.eq_nil_of_length_eq_zero (by omega)
    rw [hnil, splice_nil]
    exact hi.kept hwr
  · rw [hreq]
    exact hi.bounded_cons hlt
  · exact fun i hout => (hsame i hout).trans (hi.outside i hout)
  · exact inPhase_afterRpc rctx.maxIo hlt fun hrc =>
      served_moved hcap hi.owner_wf hi.length_buf hi.kept hlt htrack hm hreq ho hrc hin

theorem Inv.step (hcap : srv.dataMaxIo ≤ 2 ^ 24) {s t : RemoteWorld} {ev : RemoteEvent}
    (hi : Inv rctx io buf s) (hstep : io.Step srv rctx s ev t) : Inv rctx io buf t := by
  have hphase := hi.inPhase
  cases hstep with
  | noRoute hp =>
    exact { hi with inPhase := fun h => absurd h (Error.code_ne_zero _) }
  | connected hp =>
    rw [hp] at hphase
    exact { hi with inPhase := ⟨hphase, .inl rfl, fun j hj => absurd hj (Nat.not_lt_zero j)⟩ }
  | @notConnected attempt hp =>
    rw [hp] at hphase
    refine { hi with inPhase := ?_ }
    dsimp only
    split_ifs
    · exact hphase
    · exact fun h => absurd h (Error.code_ne_zero .transportError)
  | served hp hreq hout hh => exact hi.served hcap hp hreq hout hh
  | @abandoned attempt done sent req out hp hreq hout =>
    rw [hp] at hphase
    obtain ⟨hlt, htrack, hm⟩ := hphase
    refine
      { hi with
        pending := ?_
        bounded := by rw [hreq]; exact hi.bounded_cons hlt
        inPhase := inPhase_afterRpc rctx.maxIo hlt fun h => absurd h (Error.code_ne_zero .transportError) }
    intro bytes hbytes
    rcases List.mem_cons.mp hbytes with rfl | hbytes
    · exact ⟨req, out, sent, ⟨done, s.buf, htrack, hlt, hi.length_buf, hi.kept, hreq⟩, hout, rfl⟩
    · exact hi.pending bytes hbytes
  | @late bytes env gotBuf h hmem hh =>
    obtain ⟨req, out, sent, hissued, hout, rfl⟩ := hi.pending bytes hmem
    obtain ⟨hw', hin, hsame⟩ := hissued.change hcap hi.owner_wf (handle_answer hissued hout hh)
    exact
      { hi with
        owner_wf := hw'
        pending := fun bytes hbytes => hi.pending bytes (List.mem_of_mem_erase hbytes)
        outside := fun i hout => (hsame i hout).trans (hi.outside i hout)
        inPhase := hin.inPhase hphase }
  | @others owner hw hin =>
    have hinside : Inside io buf s.owner owner := fun j hj =>
      .inl (hin _ ⟨Nat.le_add_right _ _, by omega⟩)
    refine { hi with owner_wf := hw, outside := ?_, inPhase := hinside.inPhase hphase }
    intro i hout
    simp only [newOthers]
    split_ifs with heq
    · rw [heq]
      exact hi.outside i hout
    · rfl

end Runs

end RemoteIo

theorem clampMaxIo_le (dataMaxIo : UInt32) : clampMaxIo dataMaxIo ≤ 2 ^ 24 := by
  unfold clampMaxIo ummDataMaxIoDefault ummDataMaxIoMin ummDataMaxIoMax
  split_ifs <;> omega

/-- In every run of `remote_io`, whatever breaks on the way: each request carries at most
`max_io` bytes, a write that returns 0 has left the buffer at the owner and nothing else, and a
read that returns 0 has the owner's bytes in the buffer. -/
theorem remoteIo_transfers (nodeId : UInt8) (rpcToken : Option CString) (dataMaxIo : UInt32)
    (rctx : RemoteCtx) (io : RemoteIo) (buf : List UInt8) (hbuf : buf.length = io.len.toNat)
    {s : RemoteWorld}
    (h : Reach (io.Init buf)
      (io.Step (memRpcServerConfigure nodeId rpcToken dataMaxIo) rctx) s) :
    (∀ req ∈ s.issued, req.len.toNat ≤ rctx.maxIo) ∧
      (s.phase = .returned 0 → io.isWrite = true →
        (∀ j < io.len.toNat, s.owner.ssdByte (io.offset + j) = buf[j]?) ∧
          ∀ i, ¬ io.Covers i → s.owner.ssdByte i = s.others i) ∧
      (s.phase = .returned 0 → io.isWrite = false →
        s.buf.length = io.len.toNat ∧
          ∀ j < io.len.toNat, s.buf[j]? = s.owner.ssdByte (io.offset + j)) := by
  have hi : RemoteIo.Inv rctx io buf s :=
    h.invariant (fun s hs => .init hbuf hs)
      fun s ev t hs hst => hs.step (clampMaxIo_le dataMaxIo) hst
  have hphase := hi.inPhase
  refine ⟨hi.bounded, fun hp hwr => ?_, fun hp hwr => ?_⟩
  · rw [hp] at hphase
    have hm := hphase rfl
    unfold RemoteIo.Moved at hm
    rw [hwr] at hm
    exact ⟨hm, hi.outside⟩
  · rw [hp] at hphase
    have hm := hphase rfl
    unfold RemoteIo.Moved at hm
    rw [hwr] at hm
    exact ⟨hi.length_buf, fun j hj => (hm j hj).symm⟩

/-- The first request is lost after 20 of its bytes, and the second one answered. -/
private theorem reach_resent {srv : MemRpcServer} {rctx : RemoteCtx} {io : RemoteIo}
    {buf out : List UInt8} {m : MemServiceCtx} {env : MemEnv} {h : Handled MemServiceCtx} {k : ℕ}
    (hwf : m.WF) (hstart : io.start = .connecting 0)
    (hout : RemoteIo.stream rctx (io.request rctx.maxIo 0 buf) = some out)
    (hh : srv.memServiceRpcHandle (memsvcVtbl env) true m (out.take k) = some h) :
    ∃ s, Reach (io.Init buf) (io.Step srv rctx) s ∧ s.pending.length = 1 ∧
      s.phase = io.afterRpc rctx.maxIo 1 0
        ((io.request rctx.maxIo 0 buf).finish (h.sent.take k)).rc := by
  have hlost : io.afterRpc rctx.maxIo 0 0 Error.transportError.code = .connecting 1 := by
    simp [RemoteIo.afterRpc]
  have hbegin : Reach (io.Init buf) (io.Step srv rctx)
      ⟨m, buf, io.start, [], [], m.ssdByte⟩ := .start ⟨hwf .ssd, rfl, rfl, rfl, rfl, rfl⟩
  have hagain := ((hbegin.next (.connect true) (.connected hstart)).next (.abandoned 20)
    (.abandoned (s := ⟨m, buf, .running 0 0, [], [], m.ssdByte⟩) rfl rfl hout)).next
    (.connect true) (.connected hlost)
  exact ⟨_, hagain.next (.served env true k k)
    (.served (s := ⟨m, buf, .running 1 0, [out.take 20], [_], m.ssdByte⟩) rfl rfl hout hh),
    rfl, rfl⟩

theorem remoteIo_transfers_resent :
    ∃ s, Reach (RemoteIo.Init ⟨0x0200000000000005, 2, true⟩ [7, 9])
        (RemoteIo.Step (memRpcServerConfigure 0 none 0) ⟨2, none⟩ ⟨0x0200000000000005, 2, true⟩) s ∧
      s.phase = .returned 0 ∧ s.pending.length = 1 ∧
      s.owner.ssdByte 5 = some 7 ∧ s.owner.ssdByte 6 = some 9 := by
  have hrun : ((RemoteIo.stream ⟨2, none⟩ (RemoteIo.request ⟨0x0200000000000005, 2, true⟩ 2 0
      [7, 9])).bind fun out =>
      ((memRpcServerConfigure 0 none 0).memServiceRpcHandle
        (memsvcVtbl ⟨.whole, .failed, fun _ => 0, fun _ => .error .unsupported⟩) true
        (memsvcRegisterStorage memServiceDirectCreateV2 ⟨.ssd, 4096, 0, some .file⟩
          ⟨false, true, ⟨true, fun _ => 0, true⟩, .failed⟩).2 (out.take 99)).map fun h =>
      ((RemoteIo.request ⟨0x0200000000000005, 2, true⟩ 2 0 [7, 9]).finish (h.sent.take 99)).rc) =
      some 0 := by decide +kernel
  simp only [Option.bind_eq_some_iff, Option.map_eq_some_iff] at hrun
  obtain ⟨out, hout, h, hh, hrc⟩ := hrun
  have hwf : MemServiceCtx.WF (memsvcRegisterStorage memServiceDirectCreateV2
      ⟨.ssd, 4096, 0, some .file⟩ ⟨false, true, ⟨true, fun _ => 0, true⟩, .failed⟩).2 :=
    memsvcRegisterStorage_wf memServiceDirectCreateV2_wf _ rfl (by decide)
      (by simp [memServiceDirectCreateV2, TierMemCtx.offline])
  obtain ⟨s, hs, hpending, hphase⟩ := reach_resent hwf (by decide) hout hh
  rw [hrc] at hphase
  have hoff : RemoteIo.offset ⟨0x0200000000000005, 2, true⟩ = 5 := by decide
  obtain ⟨-, hwrote, -⟩ := remoteIo_transfers 0 none 0 ⟨2, none⟩ ⟨0x0200000000000005, 2, true⟩
    [7, 9] rfl hs
  have hdone : s.phase = .returned 0 := hphase.trans (by decide)
  have hbytes := (hwrote hdone rfl).1
  rw [hoff] at hbytes
  exact ⟨s, hs, hdone, hpending, hbytes 0 (by decide), hbytes 1 (by decide)⟩

end Umm
