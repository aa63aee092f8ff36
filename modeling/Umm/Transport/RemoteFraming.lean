import Umm.Transport.RemoteServe
import Umm.Memory.MemRpcSpec
import Umm.Lib.Reach

/-! One connection between the remote transport and the thread of `mem_server.c` that serves it.
Every byte in flight remembers what it was sent as. -/
namespace Umm
open Umm.Lib Proto MemRpcServer

inductive Part where
  | header
  | body
  | payload
deriving DecidableEq

/-- A byte of a request: what it was sent as, and the number of the request. -/
structure WireByte where
  byte : UInt8
  part : Part
  req : ℕ

/-- A byte of a reply, and the number of the request that it answers. -/
structure ReplyByte where
  byte : UInt8
  req : ℕ

/-- The three sends of a request. -/
def DataReq.wire (token : Token) (n : ℕ) (req : DataReq) : Option (List WireByte) :=
  (memPackDataReq ⟨req.gpa, req.len⟩).map fun body =>
    (ummProtoHeader req.op.code ummFlagRequest body.len token).bytes.map (⟨·, .header, n⟩) ++
      (body.message.map (⟨·, .body, n⟩) ++ req.payload.map (⟨·, .payload, n⟩))

/-- Both ends of a connection and the bytes that the other end has not read. -/
structure DataConn (σ : Type) where
  ctx : σ
  serverOpen : Bool
  clientOpen : Bool
  toServer : List WireByte
  toClient : List ReplyByte
  /-- The request whose reply the client is about to read. -/
  waiting : Option (DataReq × ℕ)
  issued : ℕ

inductive ConnEvent where
  | send (req : DataReq)
  /-- The connection breaks after `k` bytes. -/
  | sendFails (req : DataReq) (k : ℕ)
  /-- The server gets at most `k` bytes, and `j` bytes of its answer leave. -/
  | handle (k j : ℕ)
  /-- The client gets at most `k` bytes. -/
  | receive (k : ℕ)
  | stop

namespace DataConn

variable {σ : Type}

structure Init (c : DataConn σ) : Prop where
  toServer_eq : c.toServer = []
  toClient_eq : c.toClient = []
  waiting_eq : c.waiting = none

/-- What is left of a stream of which `k` bytes were offered and `rest` were not read. -/
def unread {α : Type} (stream : List α) (k : ℕ) (rest : List UInt8) : List α :=
  stream.drop ((stream.take k).length - rest.length)

/-- The request that the next byte belongs to. -/
def current (c : DataConn σ) : ℕ := (c.toServer.head?.map WireByte.req).getD 0

/-- The client and `mem_client_thread`, which goes on exactly when the handler returns 0. The
service is another one at every call: its calls may have any outcome. -/
inductive Step (srv : MemRpcServer) (token : Token) (c : DataConn σ) :
    ConnEvent → DataConn σ → Prop
  | send {req : DataReq} {out : List WireByte} : c.clientOpen = true → c.waiting = none →
      req.payload.length < 2 ^ 64 → req.wire token c.issued = some out →
      Step srv token c (.send req)
        { c with
          toServer := c.toServer ++ out
          waiting := some (req, c.issued)
          issued := c.issued + 1 }
  | sendFails {req : DataReq} {out : List WireByte} {k : ℕ} : c.clientOpen = true →
      c.waiting = none → req.payload.length < 2 ^ 64 → req.wire token c.issued = some out →
      Step srv token c (.sendFails req k)
        { c with
          toServer := c.toServer ++ out.take k
          clientOpen := false
          issued := c.issued + 1 }
  | handle {vtbl : MemoryServiceVtbl σ} {gotBuf : Bool} {k j : ℕ} {h : Handled σ} :
      c.serverOpen = true →
      srv.memServiceRpcHandle vtbl gotBuf c.ctx ((c.toServer.take k).map WireByte.byte) =
        some h →
      Step srv token c (.handle k j)
        { c with
          ctx := h.ctx
          toServer := unread c.toServer k h.rest
          toClient := c.toClient ++ (h.sent.take j).map (⟨·, c.current⟩)
          serverOpen := h.rc.isOk && decide (h.sent.length ≤ j) }
  | receive {req : DataReq} {n k : ℕ} {d : RpcDone} : c.clientOpen = true →
      c.waiting = some (req, n) → d = req.finish ((c.toClient.take k).map ReplyByte.byte) →
      Step srv token c (.receive k)
        { c with
          toClient := unread c.toClient k d.rest
          waiting := none
          clientOpen := decide (d.rc ≠ Error.transportError.code) }
  | stop : Step srv token c .stop { c with serverOpen := false }

section Wire

variable {token : Token} {req : DataReq} {n : ℕ} {out : List WireByte}

theorem wire_bytes (h : req.wire token n = some out) :
    ∃ head, req.head token = some head ∧ out.map WireByte.byte = head ++ req.payload := by
  unfold DataReq.wire at h
  obtain ⟨body, hpack, rfl⟩ := Option.map_eq_some_iff.mp h
  refine ⟨frame req.op.code ummFlagRequest token body, by rw [DataReq.head, hpack]; rfl, ?_⟩
  simp only [frame, List.map_append, List.map_map, Function.comp_def, List.map_id',
    List.append_assoc]

theorem wire_req (h : req.wire token n = some out) : ∀ b ∈ out, b.req = n := by
  unfold DataReq.wire at h
  obtain ⟨body, hpack, rfl⟩ := Option.map_eq_some_iff.mp h
  intro b hb
  simp only [List.mem_append, List.mem_map] at hb
  rcases hb with ⟨x, -, rfl⟩ | ⟨x, -, rfl⟩ | ⟨x, -, rfl⟩ <;> rfl

/-- The first bytes of a request are its header. -/
theorem wire_header (h : req.wire token n = some out) :
    ∀ b ∈ out.take Proto.headerSize, b.part = .header := by
  unfold DataReq.wire at h
  obtain ⟨body, hpack, rfl⟩ := Option.map_eq_some_iff.mp h
  intro b hb
  rw [List.take_append_of_le_length (by rw [List.length_map, length_header])] at hb
  obtain ⟨x, -, rfl⟩ := List.mem_map.mp (List.mem_of_mem_take hb)
  rfl

end Wire

section Invariant

variable {srv : MemRpcServer} {token : Token}

/-- The reply to the request, as far as it left the server. -/
def Answers (σ : Type) (srv : MemRpcServer) (req : DataReq) (n : ℕ) (stream : List ReplyByte) : Prop :=
  stream = [] ∨ ∃ (vtbl : MemoryServiceVtbl σ) (ctx : σ) (h : Handled σ) (j : ℕ),
    DataAnswer srv vtbl ctx req h ∧ stream = (h.sent.take j).map (⟨·, n⟩)

/-- A server that goes on has unread at most the request that the client is waiting for, and
nothing of it is answered; a client that goes on has unread at most the reply that it is
waiting for. -/
structure InStep (srv : MemRpcServer) (token : Token) (c : DataConn σ) : Prop where
  server : c.serverOpen = true → c.toServer = [] ∨ ∃ req n out k,
    req.payload.length < 2 ^ 64 ∧ req.wire token n = some out ∧ c.toServer = out.take k ∧
      (c.clientOpen = true → c.waiting = some (req, n) ∧ c.toClient = [])
  idle : c.clientOpen = true → c.waiting = none →
    c.toClient = [] ∧ (c.serverOpen = true → c.toServer = [])
  waits : c.clientOpen = true → ∀ req n, c.waiting = some (req, n) →
    Answers σ srv req n c.toClient

theorem InStep.init {c : DataConn σ} (h : c.Init) : c.InStep srv token where
  server _ := .inl h.toServer_eq
  idle _ _ := ⟨h.toClient_eq, fun _ => h.toServer_eq⟩
  waits _ req n hw := by
    rw [h.waiting_eq] at hw
    cases hw

theorem handle_nil {vtbl : MemoryServiceVtbl σ} {gotBuf : Bool} {ctx : σ} {h : Handled σ}
    (hh : srv.memServiceRpcHandle vtbl gotBuf ctx [] = some h) :
    h.sent = [] ∧ h.rc = .error .transportError := by
  obtain rfl := Option.some.inj hh
  exact ⟨rfl, rfl⟩

variable {c : DataConn σ} {vtbl : MemoryServiceVtbl σ} {gotBuf : Bool} {h : Handled σ} {k j : ℕ}

/-- One call of the handler: its answer belongs to the request that the client is waiting for,
and when it goes on it has read that request to its end. -/
theorem InStep.handle (hi : c.InStep srv token) (hopen : c.serverOpen = true)
    (hh : srv.memServiceRpcHandle vtbl gotBuf c.ctx ((c.toServer.take k).map WireByte.byte) =
      some h) :
    h.sent = [] ∧ h.rc.isOk = false ∨
      (h.rc.isOk = true → unread c.toServer k h.rest = []) ∧
        (c.clientOpen = true → c.toClient = [] ∧ ∃ req, c.waiting = some (req, c.current) ∧
          DataAnswer srv vtbl c.ctx req h) := by
  rcases hi.server hopen with hnil | ⟨req, n, out, k', hbuf, hwire, htake, hclient⟩
  · rw [hnil, List.take_nil] at hh
    obtain ⟨hsent, hrc⟩ := handle_nil hh
    exact .inl ⟨hsent, by rw [hrc]; rfl⟩
  · by_cases hempty : c.toServer = []
    · rw [hempty, List.take_nil] at hh
      obtain ⟨hsent, hrc⟩ := handle_nil hh
      exact .inl ⟨hsent, by rw [hrc]; rfl⟩
    · obtain ⟨head, hhead, hbytes⟩ := wire_bytes hwire
      have hlen : out.length = (head ++ req.payload).length := by rw [← hbytes, List.length_map]
      rw [htake, List.take_take, List.map_take, hbytes] at hh
      obtain ⟨ha, hall⟩ := memServiceRpcHandle_answer hhead hbuf hh
      refine .inr ⟨fun hrc => ?_, fun hcl => ?_⟩
      · have hok : h.rc = .ok () := by
          cases hr : h.rc with
          | error e => rw [hr] at hrc; cases hrc
          | ok u => rfl
        have hwhole := hall hok
        rw [unread, ha.rest_of_ok hok, htake]
        refine List.drop_eq_nil_of_le ?_
        simp only [List.length_take, List.length_nil]
        omega
      · obtain ⟨hw, hc⟩ := hclient hcl
        have hcur : c.current = n := by
          obtain ⟨b, bs, hb⟩ := List.exists_cons_of_ne_nil hempty
          have hmem : b ∈ out := by
            have : b ∈ out.take k' := by rw [← htake, hb]; exact List.mem_cons_self
            exact List.mem_of_mem_take this
          rw [current, hb]
          exact wire_req hwire b hmem
        exact ⟨hc, req, by rw [hcur]; exact hw, ha⟩

/-- One reply at the client: after an error of the transport it closes, otherwise it has read the
reply to its end. -/
theorem InStep.receive {req : DataReq} {n : ℕ} (hi : c.InStep srv token)
    (hopen : c.clientOpen = true) (hw : c.waiting = some (req, n)) :
    (req.finish ((c.toClient.take k).map ReplyByte.byte)).rc = Error.transportError.code ∨
      c.toClient ≠ [] ∧ unread c.toClient k
        (req.finish ((c.toClient.take k).map ReplyByte.byte)).rest = [] := by
  rcases hi.waits hopen req n hw with hnil | ⟨vtbl, ctx, h, j, ha, hstream⟩
  · rw [hnil, List.take_nil, List.map_nil, DataReq.finish_nil]
    exact .inl rfl
  · have hbytes : (c.toClient.take k).map ReplyByte.byte = h.sent.take (min k j) := by
      rw [hstream, List.map_take, List.map_map, Function.comp_def, List.map_id', List.take_take]
    have hread : h.sent.length ≤ min k j → unread c.toClient k [] = [] := by
      intro hall
      refine List.drop_eq_nil_of_le ?_
      rw [hstream]
      simp only [List.length_take, List.length_map, List.length_nil]
      omega
    by_cases hempty : c.toClient = []
    · rw [hempty, List.take_nil, List.map_nil, DataReq.finish_nil]
      exact .inl rfl
    · rw [hbytes]
      generalize hd : req.finish (h.sent.take (min k j)) = d
      have ho := ha.outcome (min k j)
      rw [hd] at ho
      cases ho with
      | broken hroom => exact .inl rfl
      | refused hall => exact .inr ⟨hempty, hread hall⟩
      | read hall hentry hvalid hdone => exact .inr ⟨hempty, hread hall⟩
      | write hall hentry hvalid hdone => exact .inr ⟨hempty, hread hall⟩

theorem InStep.step {t : DataConn σ} {ev : ConnEvent} (hi : c.InStep srv token)
    (hstep : Step srv token c ev t) : t.InStep srv token := by
  cases hstep with
  | @send req out hopen hw hbuf hwire =>
    obtain ⟨hc, hs⟩ := hi.idle hopen hw
    refine ⟨fun hserver => .inr ?_, fun _ hnone => ?_, fun _ req' n' hw' => .inl hc⟩
    · refine ⟨req, c.issued, out, out.length, hbuf, hwire, ?_, fun _ => ⟨rfl, hc⟩⟩
      rw [hs hserver, List.take_length, List.nil_append]
    · cases hnone
  | @sendFails req out k hopen hw hbuf hwire =>
    obtain ⟨-, hs⟩ := hi.idle hopen hw
    refine ⟨fun hserver => .inr ?_, fun hcl => ?_, fun hcl => ?_⟩
    · refine ⟨req, c.issued, out, k, hbuf, hwire, ?_, fun hcl => ?_⟩
      · rw [hs hserver, List.nil_append]
      · cases hcl
    · cases hcl
    · cases hcl
  | @handle vtbl gotBuf k j h hopen hh =>
    rcases hi.handle hopen hh with ⟨hsent, hrc⟩ | ⟨hread, hclient⟩
    · refine ⟨fun hserver => ?_, fun hcl hnone => ?_, fun hcl req n hw => ?_⟩
      · simp [hrc] at hserver
      · refine ⟨?_, fun hserver => ?_⟩
        · simp [hsent, (hi.idle hcl hnone).1]
        · simp [hrc] at hserver
      · simpa [hsent] using hi.waits hcl req n hw
    · refine ⟨fun hserver => .inl ?_, fun hcl hnone => ?_, fun hcl req n hw => ?_⟩
      · simp only [Bool.and_eq_true] at hserver
        exact hread hserver.1
      · obtain ⟨-, req, hw, -⟩ := hclient hcl
        rw [hw] at hnone
        cases hnone
      · obtain ⟨hnil, req', hw', ha⟩ := hclient hcl
        obtain ⟨rfl, rfl⟩ := Prod.mk.inj (Option.some.inj (hw'.symm.trans hw))
        refine .inr ⟨vtbl, c.ctx, h, j, ha, ?_⟩
        rw [hnil, List.nil_append]
  | @receive req n k d hopen hw hd =>
    have hreceive := hi.receive (k := k) hopen hw
    rw [← hd] at hreceive
    rcases hreceive with hrc | ⟨hne, hread⟩
    · have hclosed : decide (d.rc ≠ Error.transportError.code) ≠ true := by simp [hrc]
      refine ⟨fun hserver => ?_, fun hcl => absurd hcl hclosed, fun hcl => absurd hcl hclosed⟩
      rcases hi.server hserver with hnil | ⟨req', n', out, k', hbuf, hwire, htake, -⟩
      · exact .inl hnil
      · exact .inr ⟨req', n', out, k', hbuf, hwire, htake, fun hcl => absurd hcl hclosed⟩
    · have hserver : c.serverOpen = true → c.toServer = [] := by
        intro hserver
        rcases hi.server hserver with hnil | ⟨req', n', out, k', -, -, -, hclient⟩
        · exact hnil
        · exact absurd (hclient hopen).2 hne
      refine ⟨fun hs => .inl (hserver hs), fun _ _ => ⟨hread, hserver⟩, fun _ req' n' hnone => ?_⟩
      cases hnone
  | stop =>
    refine ⟨fun hs => ?_, fun hcl hw => ⟨(hi.idle hcl hw).1, fun hs => ?_⟩, hi.waits⟩
    · cases hs
    · cases hs

end Invariant

end DataConn

/-- Both ends stay in step: a server that goes on reads a header where a header was sent, and a
client that goes on reads nothing but the reply to its own request. -/
theorem dataConn_inStep {σ : Type} (srv : MemRpcServer) (token : Token) {c : DataConn σ}
    (h : Reach DataConn.Init (DataConn.Step srv token) c) :
    (c.serverOpen = true → ∀ b ∈ c.toServer.take Proto.headerSize, b.part = .header) ∧
      (c.clientOpen = true → (c.waiting = none → c.toClient = []) ∧
        ∀ req n, c.waiting = some (req, n) → ∀ b ∈ c.toClient, b.req = n) := by
  have hi : c.InStep srv token :=
    h.invariant (fun c hc => .init hc) fun c ev t hc hst => hc.step hst
  refine ⟨fun hopen b hb => ?_, fun hopen => ⟨fun hw => (hi.idle hopen hw).1, ?_⟩⟩
  · rcases hi.server hopen with hnil | ⟨req, n, out, k, -, hwire, htake, -⟩
    · rw [hnil, List.take_nil] at hb
      cases hb
    · rw [htake, List.take_take, Nat.min_comm, ← List.take_take] at hb
      exact DataConn.wire_header hwire b (List.mem_of_mem_take hb)
  · intro req n hw b hb
    rcases hi.waits hopen req n hw with hnil | ⟨vtbl, ctx, h, j, -, hstream⟩
    · rw [hnil] at hb
      cases hb
    · rw [hstream] at hb
      obtain ⟨x, -, rfl⟩ := List.mem_map.mp hb
      rfl

namespace DataConn

/-- The steps of a client that sends whole requests and a server with memory behind it. -/
def next (c : DataConn MemServiceCtx) : ConnEvent → Option (DataConn MemServiceCtx)
  | .send req =>
    if c.clientOpen = true ∧ c.waiting = none ∧ req.payload.length < 2 ^ 64 then
      (req.wire noToken c.issued).map fun out =>
        { c with
          toServer := c.toServer ++ out
          waiting := some (req, c.issued)
          issued := c.issued + 1 }
    else none
  | .handle k j =>
    if c.serverOpen = true then
      ((memRpcServerConfigure 0 none 0).memServiceRpcHandle (memsvcVtbl .quiet) true c.ctx
        ((c.toServer.take k).map WireByte.byte)).map fun h =>
          { c with
            ctx := h.ctx
            toServer := unread c.toServer k h.rest
            toClient := c.toClient ++ (h.sent.take j).map (⟨·, c.current⟩)
            serverOpen := h.rc.isOk && decide (h.sent.length ≤ j) }
    else none
  | .receive k =>
    if c.clientOpen = true then
      c.waiting.map fun p =>
        let d := p.1.finish ((c.toClient.take k).map ReplyByte.byte)
        { c with
          toClient := unread c.toClient k d.rest
          waiting := none
          clientOpen := decide (d.rc ≠ Error.transportError.code) }
    else none
  | _ => none

theorem next_step {c t : DataConn MemServiceCtx} {ev : ConnEvent} (h : c.next ev = some t) :
    Step (memRpcServerConfigure 0 none 0) noToken c ev t := by
  cases ev with
  | send req =>
    unfold next at h
    dsimp only at h
    split_ifs at h with hc
    obtain ⟨out, hout, rfl⟩ := Option.map_eq_some_iff.mp h
    exact .send hc.1 hc.2.1 hc.2.2 hout
  | handle k j =>
    unfold next at h
    dsimp only at h
    split_ifs at h with hc
    obtain ⟨r, hr, rfl⟩ := Option.map_eq_some_iff.mp h
    exact .handle hc hr
  | receive k =>
    unfold next at h
    dsimp only at h
    split_ifs at h with hc
    obtain ⟨p, hp, rfl⟩ := Option.map_eq_some_iff.mp h
    exact .receive hc hp rfl
  | sendFails req k => cases h
  | stop => cases h

/-- A byte is written, and then read back. -/
def writeRead : List ConnEvent :=
  [.send (.write 0x0200000000000000 [7]), .handle 64 64, .receive 64,
    .send (.read 0x0200000000000000 1), .handle 64 64]

end DataConn

/-- The write was answered, and the reply in flight is the one to the read. -/
theorem dataConn_inStep_answered :
    ∃ c : DataConn MemServiceCtx, Reach DataConn.Init
        (DataConn.Step (memRpcServerConfigure 0 none 0) noToken) c ∧
      c.serverOpen = true ∧ c.waiting.map Prod.snd = some 1 ∧ c.toClient ≠ [] ∧
      ∀ b ∈ c.toClient, b.req = 1 := by
  have hrun : (DataConn.writeRead.foldlM DataConn.next
      ⟨onePageService, true, true, [], [], none, 0⟩).map (fun c =>
        (c.serverOpen, c.clientOpen, c.waiting.map Prod.snd, c.toClient.isEmpty)) =
      some (true, true, some 1, false) := by decide +kernel
  obtain ⟨c, hc, hfacts⟩ := Option.map_eq_some_iff.mp hrun
  simp only [Prod.mk.injEq] at hfacts
  obtain ⟨hserver, hclient, hwaiting, hreply⟩ := hfacts
  have hreach : Reach DataConn.Init (DataConn.Step (memRpcServerConfigure 0 none 0) noToken) c :=
    Reach.of_foldlM (.start ⟨rfl, rfl, rfl⟩) (fun _ _ _ _ => DataConn.next_step) hc
  obtain ⟨⟨req, n⟩, hw, rfl⟩ := Option.map_eq_some_iff.mp hwaiting
  refine ⟨c, hreach, hserver, hwaiting, ?_, ((dataConn_inStep _ _ hreach).2 hclient).2 req _ hw⟩
  rintro hnil
  rw [hnil] at hreply
  cases hreply

end Umm
