import Umm.Transport.Remote
import Umm.Client.Init
import Umm.Lib.Cut
import Umm.Lib.Reach

/-! The connections of `transport_remote.c`: the route to the owner of an address, the slot that
keeps the owner's socket, and the calls that use them, one after another. -/
namespace Umm
open Umm.Lib

/-- `parse_addr` with a buffer of 256 bytes for the host. -/
def parseAddr (addr : List UInt8) : Except Error (List UInt8 × ℕ) :=
  match cutLast colon addr with
  | none => .error .invalidArg
  | some (host, tail) =>
    if host.length = 0 ∨ 256 ≤ host.length then .error .invalidArg
    else
      let port := atoi tail
      if port ≤ 0 ∨ 65535 < port then .error .invalidArg else .ok (host, port.toNat)

/-- An open socket: what has arrived on it and is not read, and, for specification only, the
requests sent on it with the bytes read for each. -/
structure RemoteSock where
  unread : List UInt8
  taken : List (DataReq × List UInt8)

/-- A slot in use. -/
structure RemoteConn where
  node : UInt8
  host : List UInt8
  port : ℕ
  sock : Option RemoteSock

def RemoteConn.addr (c : RemoteConn) : List UInt8 × ℕ := (c.host, c.port)

/-- A connection that was opened: the address that was dialled, and the one that
`remote_resolve` had for the node then. -/
structure RemoteOpened where
  dialled : List UInt8 × ℕ
  resolved : Except Error (List UInt8 × ℕ)

/-- The transport with the call that it is in. The last two fields are for specification only:
what was opened, and the address of the owner at each call that got a slot. -/
structure RemoteState where
  fallback : Option (UInt8 × List UInt8)
  cis : CisRouterState
  conns : List RemoteConn
  io : RemoteIo
  buf : List UInt8
  phase : RemotePhase
  issued : List DataReq
  opened : List RemoteOpened
  reached : List (UInt8 × (List UInt8 × ℕ))

inductive RemoteCall where
  | io (io : RemoteIo) (buf : List UInt8)
  | connect (ok : Bool)
  /-- One request, of which all bytes are sent or not, and what arrives meanwhile. -/
  | rpc (sent : Bool) (arrived : List UInt8)
  | setFallback (node : UInt8) (addr : CString)
  | registerNode (node : UInt8) (addr : CString)

def remoteMaxConns : ℕ := 64

def RemoteIo.owner (io : RemoteIo) : UInt8 := UInt8.ofNat (gpaToNode io.gpa.toNat)

def CisRouterState.route (cis : CisRouterState) (owner : UInt8) : Except Error (List UInt8 × ℕ) :=
  match cis.getNodeAddr owner 256 with
  | .ok addr => parseAddr addr
  | .error _ => .error .notFound

/-- The slots after `remote_conn_for`, or none when the table is full. -/
def remoteConnFor (conns : List RemoteConn) (owner : UInt8) (addr : List UInt8 × ℕ) :
    Option (List RemoteConn) :=
  if ∃ c ∈ conns, c.node = owner then some conns
  else if remoteMaxConns ≤ conns.length then none
  else some (conns ++ [⟨owner, addr.1.take 255, addr.2, none⟩])

namespace RemoteState

variable (rctx : RemoteCtx) (t : RemoteState)

/-- `remote_resolve` with a buffer of 256 bytes for the host. -/
def resolve (owner : UInt8) : Except Error (List UInt8 × ℕ) :=
  match t.fallback with
  | some (node, addr) => if owner = node then parseAddr addr else t.cis.route owner
  | none => t.cis.route owner

/-- The slot that the call uses. -/
def slot : Option RemoteConn := t.conns.find? fun c => c.node = t.io.owner

/-- The slots with another socket for the owner. -/
def setSock (sock : Option RemoteSock) : List RemoteConn :=
  t.conns.map fun c => if c.node = t.io.owner then { c with sock } else c

/-- `remote_io` as far as its loop. -/
def begin (io : RemoteIo) (buf : List UInt8) : RemoteState :=
  let t := { t with io, buf }
  if io.len.toNat = 0 then { t with phase := .returned 0 }
  else
    match t.resolve io.owner with
    | .error e => { t with phase := .returned e.code }
    | .ok addr =>
      match remoteConnFor t.conns io.owner addr with
      | none => { t with phase := .returned Error.noMemory.code }
      | some conns =>
        { t with conns, phase := .connecting 0, reached := t.reached ++ [(io.owner, addr)] }

/-- `remote_ensure_connected`; `ok` is what `connect` gives. -/
def ensureConnected (attempt : ℕ) (c : RemoteConn) (ok : Bool) : RemoteState :=
  match c.sock, ok with
  | some _, _ => { t with phase := .running attempt 0 }
  | none, true =>
    { t with
      conns := t.setSock (some ⟨[], []⟩)
      phase := .running attempt 0
      opened := ⟨c.addr, t.resolve c.node⟩ :: t.opened }
  | none, false =>
    { t with
      phase := if attempt = 0 then .connecting 1 else .returned Error.transportError.code }

/-- The socket after a request and what came back for it: it is closed after an error of the
transport. -/
def sockAfter (req : DataReq) (sock : RemoteSock) (stream : List UInt8) (d : RpcDone) :
    Option RemoteSock :=
  if d.rc = Error.transportError.code then none
  else some ⟨d.rest, sock.taken ++ [(req, stream.take (stream.length - d.rest.length))]⟩

/-- A request and its response. -/
def exchange (attempt done : ℕ) (sock : RemoteSock) (sent : Bool) (arrived : List UInt8) :
    RemoteState :=
  let req := t.io.request rctx.maxIo done t.buf
  let stream := sock.unread ++ arrived
  let d := if sent then req.finish stream else ⟨Error.transportError.code, [], stream⟩
  { t with
    conns := t.setSock (sockAfter req sock stream d)
    buf := splice t.buf done d.filled
    phase := t.io.afterRpc rctx.maxIo attempt done d.rc
    issued := req :: t.issued }

/-- `remote_transport_set_fallback`. -/
def setFallback (node : UInt8) (addr : CString) : Except Error Unit × RemoteState :=
  if addr.bytes = [] ∨ node = nodeUnknown then (.error .invalidArg, t)
  else
    match parseAddr addr.bytes with
    | .error _ => (.error .invalidArg, t)
    | .ok _ => (.ok (), { t with fallback := some (node, addr.bytes.take 255) })

def idle : Bool :=
  match t.phase with
  | .returned _ => true
  | _ => false

/-- A call begins when the one before it has returned. -/
def step : RemoteCall → Option RemoteState
  | .io io buf => if t.idle then some (t.begin io buf) else none
  | .connect ok =>
    match t.phase, t.slot with
    | .connecting attempt, some c => some (t.ensureConnected attempt c ok)
    | _, _ => none
  | .rpc sent arrived =>
    match t.phase, t.slot.bind RemoteConn.sock with
    | .running attempt done, some sock => some (t.exchange rctx attempt done sock sent arrived)
    | _, _ => none
  | .setFallback node addr => if t.idle then some (t.setFallback node addr).2 else none
  | .registerNode node addr =>
    if t.idle then some { t with cis := (t.cis.registerNode node addr.bytes).2 } else none

/-- A transport on which no call was made. -/
structure Init : Prop where
  conns_eq : t.conns = []
  phase_eq : t.phase = .returned 0
  opened_eq : t.opened = []
  reached_eq : t.reached = []

variable {rctx t} {t' : RemoteState}

section Steps

theorem slot_mem {c : RemoteConn} (h : t.slot = some c) : c ∈ t.conns ∧ c.node = t.io.owner := by
  unfold slot at h
  exact ⟨List.mem_of_find?_eq_some h, by simpa using List.find?_some h⟩

theorem mem_setSock {sock : Option RemoteSock} {c : RemoteConn} (h : c ∈ t.setSock sock) :
    ∃ c₀ ∈ t.conns, c.node = c₀.node ∧ c.addr = c₀.addr ∧ (c.sock = sock ∨ c = c₀) := by
  obtain ⟨c₀, hc₀, rfl⟩ := List.mem_map.mp h
  refine ⟨c₀, hc₀, ?_⟩
  split_ifs with hnode
  · exact ⟨rfl, rfl, Or.inl rfl⟩
  · exact ⟨rfl, rfl, Or.inr rfl⟩

/-- The owner's slot holds the new socket. -/
theorem setSock_mem {c : RemoteConn} (h : t.slot = some c) (sock : Option RemoteSock) :
    { c with sock } ∈ t.setSock sock := by
  obtain ⟨hmem, hnode⟩ := slot_mem h
  exact List.mem_map.mpr ⟨c, hmem, if_pos hnode⟩

theorem remoteConnFor_some {conns conns' : List RemoteConn} {owner : UInt8}
    {addr : List UInt8 × ℕ} (h : remoteConnFor conns owner addr = some conns') :
    (conns' = conns ∧ ∃ c ∈ conns, c.node = owner) ∨
      (conns' = conns ++ [⟨owner, addr.1.take 255, addr.2, none⟩] ∧ ∀ c ∈ conns, c.node ≠ owner) := by
  unfold remoteConnFor at h
  split_ifs at h with hslot hfull
  · exact Or.inl ⟨(Option.some.inj h).symm, hslot⟩
  · exact Or.inr ⟨(Option.some.inj h).symm, fun c hc hnode => hslot ⟨c, hc, hnode⟩⟩

/-- What a call of `remote_io` does before its loop. -/
theorem begin_cases (io : RemoteIo) (buf : List UInt8) :
    (∃ rc, t.begin io buf = { t with io, buf, phase := .returned rc }) ∨
      ∃ addr conns, t.resolve io.owner = .ok addr ∧
        remoteConnFor t.conns io.owner addr = some conns ∧
        t.begin io buf =
          { t with
            io, buf, conns
            phase := .connecting 0
            reached := t.reached ++ [(io.owner, addr)] } := by
  unfold begin
  dsimp only
  split_ifs with hlen
  · exact Or.inl ⟨0, rfl⟩
  · have hresolve : ({ t with io, buf } : RemoteState).resolve io.owner = t.resolve io.owner := rfl
    rw [hresolve]
    cases hr : t.resolve io.owner with
    | error e => exact Or.inl ⟨e.code, rfl⟩
    | ok addr =>
      dsimp only
      cases hc : remoteConnFor t.conns io.owner addr with
      | none => exact Or.inl ⟨Error.noMemory.code, rfl⟩
      | some conns => exact Or.inr ⟨addr, conns, rfl, hc, rfl⟩

theorem step_io {io : RemoteIo} {buf : List UInt8} (h : t.step rctx (.io io buf) = some t') :
    t.idle = true ∧ t' = t.begin io buf := by
  unfold step at h
  split_ifs at h with hidle
  exact ⟨hidle, (Option.some.inj h).symm⟩

theorem step_connect {ok : Bool} (h : t.step rctx (.connect ok) = some t') :
    ∃ attempt c, t.phase = .connecting attempt ∧ t.slot = some c ∧
      t' = t.ensureConnected attempt c ok := by
  simp only [step] at h
  split at h
  · rename_i attempt c hphase hslot
    exact ⟨attempt, c, hphase, hslot, (Option.some.inj h).symm⟩
  · cases h

theorem step_rpc {sent : Bool} {arrived : List UInt8}
    (h : t.step rctx (.rpc sent arrived) = some t') :
    ∃ attempt done c sock, t.phase = .running attempt done ∧ t.slot = some c ∧
      c.sock = some sock ∧ t' = t.exchange rctx attempt done sock sent arrived := by
  simp only [step] at h
  split at h
  · rename_i attempt done sock hphase hsock
    obtain ⟨c, hslot, hc⟩ := Option.bind_eq_some_iff.mp hsock
    exact ⟨attempt, done, c, sock, hphase, hslot, hc, (Option.some.inj h).symm⟩
  · cases h

theorem step_setFallback {node : UInt8} {addr : CString}
    (h : t.step rctx (.setFallback node addr) = some t') :
    t.idle = true ∧ ∃ fallback, t' = { t with fallback } := by
  unfold step at h
  split_ifs at h with hidle
  refine ⟨hidle, ?_⟩
  obtain rfl := Option.some.inj h
  unfold setFallback
  split_ifs
  · exact ⟨t.fallback, rfl⟩
  · cases parseAddr addr.bytes with
    | error e => exact ⟨t.fallback, rfl⟩
    | ok p => exact ⟨_, rfl⟩

theorem step_registerNode {node : UInt8} {addr : CString}
    (h : t.step rctx (.registerNode node addr) = some t') :
    t.idle = true ∧ ∃ cis, t' = { t with cis } := by
  unfold step at h
  split_ifs at h with hidle
  exact ⟨hidle, _, (Option.some.inj h).symm⟩

end Steps

section Sockets

variable {P : RemoteSock → Prop}

/-- Something that holds of every open socket. -/
def EachSock (P : RemoteSock → Prop) (t : RemoteState) : Prop :=
  ∀ c ∈ t.conns, ∀ sock, c.sock = some sock → P sock

theorem Init.eachSock (h : t.Init) : t.EachSock P := by
  intro c hc
  rw [h.conns_eq] at hc
  cases hc

theorem EachSock.setSock (h : t.EachSock P) {sock' : Option RemoteSock}
    (hconns : t'.conns = t.setSock sock') (hsock : ∀ sock, sock' = some sock → P sock) :
    t'.EachSock P := by
  intro c hc sock hs
  rw [hconns] at hc
  obtain ⟨c₀, hc₀, -, -, he | rfl⟩ := mem_setSock hc
  · exact hsock sock (he.symm.trans hs)
  · exact h c hc₀ sock hs

theorem EachSock.begin (h : t.EachSock P) (io : RemoteIo) (buf : List UInt8) :
    (t.begin io buf).EachSock P := by
  obtain ⟨rc, he⟩ | ⟨addr, conns, -, hconns, he⟩ := begin_cases (t := t) io buf
  · rw [he]
    exact h
  · rw [he]
    intro c hc sock hs
    obtain ⟨rfl, -⟩ | ⟨rfl, -⟩ := remoteConnFor_some hconns
    · exact h c hc sock hs
    · obtain hc | hc := List.mem_append.mp hc
      · exact h c hc sock hs
      · rw [List.mem_singleton.mp hc] at hs
        cases hs

/-- What holds of a new socket and is kept by every request that was sent whole holds of every
open socket. -/
theorem EachSock.step (h : t.EachSock P) (hnew : P ⟨[], []⟩) {call : RemoteCall}
    (hstep : t.step rctx call = some t')
    (hrpc : ∀ attempt done c sock arrived sock', call = .rpc true arrived →
      t.phase = .running attempt done → t.slot = some c → c.sock = some sock → P sock →
      sockAfter (t.io.request rctx.maxIo done t.buf) sock (sock.unread ++ arrived)
        ((t.io.request rctx.maxIo done t.buf).finish (sock.unread ++ arrived)) = some sock' →
      P sock') : t'.EachSock P := by
  cases call with
  | io io buf =>
    obtain ⟨-, rfl⟩ := step_io hstep
    exact h.begin io buf
  | connect ok =>
    obtain ⟨attempt, c, -, -, rfl⟩ := step_connect hstep
    unfold ensureConnected
    split
    · exact h
    · refine h.setSock rfl fun sock hs => ?_
      rw [← Option.some.inj hs]
      exact hnew
    · exact h
  | rpc sent arrived =>
    obtain ⟨attempt, done, c, sock, hphase, hslot, hsock, rfl⟩ := step_rpc hstep
    refine h.setSock rfl fun sock' hs => ?_
    cases sent with
    | false => simp [sockAfter] at hs
    | true =>
      have hold : P sock := h c (slot_mem hslot).1 sock hsock
      exact hrpc attempt done c sock arrived sock' rfl hphase hslot hsock hold hs
  | setFallback node addr =>
    obtain ⟨-, fallback, rfl⟩ := step_setFallback hstep
    exact h
  | registerNode node addr =>
    obtain ⟨-, cis, rfl⟩ := step_registerNode hstep
    exact h

end Sockets

end RemoteState

/-- A transport that knows no node. -/
def RemoteState.fresh : RemoteState where
  fallback := none
  cis := .zero
  conns := []
  io := ⟨0, 0, false⟩
  buf := []
  phase := .returned 0
  issued := []
  opened := []
  reached := []

/-- The node 1 is at `h:1`, and a byte is written there. -/
def RemoteCall.firstWrite : List RemoteCall :=
  [.setFallback 1 ⟨[104, 58, 49], by decide⟩, .io ⟨0x0600000000000000, 1, true⟩ [7]]

/-- The first write, up to its response. -/
theorem firstWrite_connected (arrived : List UInt8) : ∃ t t' c sock,
    (RemoteCall.firstWrite ++ [RemoteCall.connect true]).foldlM (RemoteState.step ⟨4096, none⟩)
        .fresh = some t ∧
      t.phase = .running 0 0 ∧ t.slot = some c ∧ c.sock = some sock ∧ sock.unread = [] ∧
      t.io.request 4096 0 t.buf = .write 0x0600000000000000 [7] ∧
      t.step ⟨4096, none⟩ (.rpc true arrived) = some t' := by
  have hrun : ((RemoteCall.firstWrite ++ [RemoteCall.connect true]).foldlM
      (RemoteState.step ⟨4096, none⟩) .fresh).map
      (fun t => (t.phase, (t.slot.bind RemoteConn.sock).map RemoteSock.unread)) =
      some (.running 0 0, some []) := by decide +kernel
  have hio : ((RemoteCall.firstWrite ++ [RemoteCall.connect true]).foldlM
      (RemoteState.step ⟨4096, none⟩) .fresh).map
      (fun t => (t.io.gpa, t.io.len, t.io.isWrite, t.buf)) =
      some (0x0600000000000000, 1, true, [7]) := by decide +kernel
  obtain ⟨t, ht, hfacts⟩ := Option.map_eq_some_iff.mp hrun
  obtain ⟨hphase, hsock⟩ := Prod.mk.inj hfacts
  obtain ⟨sock, hsock, hunread⟩ := Option.map_eq_some_iff.mp hsock
  obtain ⟨c, hslot, hsock'⟩ := Option.bind_eq_some_iff.mp hsock
  rw [ht, Option.map_some, Option.some.injEq, Prod.mk.injEq, Prod.mk.injEq, Prod.mk.injEq] at hio
  obtain ⟨hgpa, hlen, hwrite, hbuf⟩ := hio
  refine ⟨t, t.exchange ⟨4096, none⟩ 0 0 sock true arrived, c, sock, ht, hphase, hslot, hsock',
    hunread, ?_, ?_⟩
  · rw [RemoteIo.request, RemoteIo.chunk, hgpa, hlen, hwrite, hbuf]
    rfl
  · simp only [RemoteState.step, hphase, hsock]

/-- The steps of the first write meet a condition that is one on responses. -/
theorem firstWrite_guarded {ok : RemoteState → RemoteCall → Prop}
    (hok : ∀ t call, (∀ arrived, call ≠ .rpc true arrived) → ok t call) {t : RemoteState}
    (h : (RemoteCall.firstWrite ++ [RemoteCall.connect true]).foldlM
      (RemoteState.step ⟨4096, none⟩) .fresh = some t) :
    Reach RemoteState.Init (Guarded ok fun t call t' => t.step ⟨4096, none⟩ call = some t') t := by
  refine Reach.guarded_foldlM (.start ⟨rfl, rfl, rfl, rfl⟩) (fun call hcall s => ?_) h
  apply hok
  simp only [RemoteCall.firstWrite, List.cons_append, List.nil_append, List.mem_cons,
    List.not_mem_nil, or_false] at hcall
  obtain rfl | rfl | rfl := hcall
  · simp
  · simp
  · simp

end Umm
