import Umm.Transport.RemoteConns

/-! The address that a connection is opened to, against the route to its node at that moment. -/
namespace Umm
open Umm.Lib

theorem parseAddr_host {text : List UInt8} {addr : List UInt8 × ℕ} (h : parseAddr text = .ok addr) :
    addr.1.length < 256 := by
  unfold parseAddr at h
  cases hcut : cutLast colon text with
  | none => simp [hcut] at h
  | some p =>
    simp only [hcut] at h
    split_ifs at h with hhost hport
    obtain rfl := Except.ok.inj h
    dsimp only
    omega

theorem CisRouterState.route_host {cis : CisRouterState} {owner : UInt8} {addr : List UInt8 × ℕ}
    (h : cis.route owner = .ok addr) : addr.1.length < 256 := by
  unfold route at h
  cases hget : cis.getNodeAddr owner 256 with
  | error e => simp [hget] at h
  | ok text =>
    rw [hget] at h
    exact parseAddr_host h

namespace RemoteState

variable {rctx : RemoteCtx} {t t' : RemoteState}

theorem resolve_host {owner : UInt8} {addr : List UInt8 × ℕ} (h : t.resolve owner = .ok addr) :
    addr.1.length < 256 := by
  unfold resolve at h
  split at h
  · split_ifs at h
    · exact parseAddr_host h
    · exact CisRouterState.route_host h
  · exact CisRouterState.route_host h

/-- The address of the node at the first call that reached for it. -/
def firstAddr (t : RemoteState) (node : UInt8) : Option (List UInt8 × ℕ) :=
  (t.reached.find? fun p => p.1 = node).map Prod.snd

/-- Every connection was opened to the address that its node had then. -/
def DialsCurrent (t : RemoteState) : Prop := ∀ o ∈ t.opened, o.resolved = .ok o.dialled

/-- Where a connection has to be opened, the node has the address of its first call. -/
def KeepsAddr (t : RemoteState) : RemoteCall → Prop
  | .connect true => ∀ c, t.slot = some c → c.sock = none →
      ∀ addr, t.firstAddr t.io.owner = some addr → t.resolve t.io.owner = .ok addr
  | _ => True

/-- A slot keeps the address of the first call, and there is one for every node reached. -/
structure Slotted (t : RemoteState) : Prop where
  first : ∀ c ∈ t.conns, t.firstAddr c.node = some c.addr
  slot : ∀ p ∈ t.reached, ∃ c ∈ t.conns, c.node = p.1

theorem Init.slotted (h : t.Init) : t.Slotted where
  first c hc := by
    rw [h.conns_eq] at hc
    cases hc
  slot p hp := by
    rw [h.reached_eq] at hp
    cases hp

theorem Slotted.setSock (h : t.Slotted) (hreached : t'.reached = t.reached)
    {sock : Option RemoteSock} (hconns : t'.conns = t.setSock sock) : t'.Slotted := by
  have hfirst : ∀ node, t'.firstAddr node = t.firstAddr node := by
    intro node
    rw [firstAddr, hreached]
    rfl
  constructor
  · intro c hc
    rw [hconns] at hc
    obtain ⟨c₀, hc₀, hnode, haddr, -⟩ := mem_setSock hc
    rw [hfirst, hnode, haddr]
    exact h.first c₀ hc₀
  · intro p hp
    rw [hreached] at hp
    obtain ⟨c, hc, hnode⟩ := h.slot p hp
    rw [hconns]
    refine ⟨_, List.mem_map_of_mem hc, ?_⟩
    split_ifs
    · exact hnode
    · exact hnode

theorem Slotted.same (h : t.Slotted) (hreached : t'.reached = t.reached)
    (hconns : t'.conns = t.conns) : t'.Slotted := by
  constructor
  · intro c hc
    rw [firstAddr, hreached]
    exact h.first c (hconns ▸ hc)
  · intro p hp
    rw [hconns]
    exact h.slot p (hreached ▸ hp)

theorem firstAddr_append {p : UInt8 × (List UInt8 × ℕ)} (h : t'.reached = t.reached ++ [p])
    (node : UInt8) :
    t'.firstAddr node = (t.firstAddr node).or (if p.1 = node then some p.2 else none) := by
  unfold firstAddr
  rw [h, List.find?_append]
  cases t.reached.find? fun q => q.1 = node with
  | some q => rfl
  | none =>
    by_cases hnode : p.1 = node
    · simp [hnode]
    · simp [hnode]

/-- A node without slot was never reached. -/
theorem Slotted.firstAddr_none (h : t.Slotted) {node : UInt8} (hno : ∀ c ∈ t.conns, c.node ≠ node) :
    t.firstAddr node = none := by
  unfold firstAddr
  rw [Option.map_eq_none_iff, List.find?_eq_none]
  intro p hp hnode
  obtain ⟨c, hc, hcp⟩ := h.slot p hp
  exact hno c hc (hcp.trans (of_decide_eq_true hnode))

theorem Slotted.begin (h : t.Slotted) (io : RemoteIo) (buf : List UInt8) :
    (t.begin io buf).Slotted := by
  obtain ⟨rc, he⟩ | ⟨addr, conns, hresolve, hconns, he⟩ := begin_cases (t := t) io buf
  · exact h.same (by rw [he]) (by rw [he])
  · have hreached : (t.begin io buf).reached = t.reached ++ [(io.owner, addr)] := by rw [he]
    have hafter : (t.begin io buf).conns = conns := by rw [he]
    have hfirst := firstAddr_append hreached
    have hold : ∀ c ∈ t.conns, (t.begin io buf).firstAddr c.node = some c.addr := by
      intro c hc
      rw [hfirst, h.first c hc, Option.some_or]
    have hhost : addr.1.take 255 = addr.1 := by
      have := resolve_host hresolve
      exact List.take_of_length_le (by omega)
    obtain ⟨rfl, hslot⟩ | ⟨rfl, hno⟩ := remoteConnFor_some hconns
    · refine ⟨fun c hc => hold c (hafter ▸ hc), fun p hp => ?_⟩
      rw [hreached, List.mem_append, List.mem_singleton] at hp
      rw [hafter]
      obtain hp | rfl := hp
      · exact h.slot p hp
      · exact hslot
    · refine ⟨fun c hc => ?_, fun p hp => ?_⟩
      · rw [hafter, List.mem_append, List.mem_singleton] at hc
        obtain hc | rfl := hc
        · exact hold c hc
        · rw [hfirst, h.firstAddr_none hno, Option.none_or, if_pos rfl, hhost]
          rfl
      · rw [hreached, List.mem_append, List.mem_singleton] at hp
        rw [hafter]
        obtain hp | rfl := hp
        · obtain ⟨c, hc, hnode⟩ := h.slot p hp
          exact ⟨c, List.mem_append_left _ hc, hnode⟩
        · exact ⟨_, List.mem_append_right _ (List.mem_singleton_self _), rfl⟩

theorem Slotted.ensureConnected (h : t.Slotted) (attempt : ℕ) (c : RemoteConn) (ok : Bool) :
    (t.ensureConnected attempt c ok).Slotted := by
  unfold RemoteState.ensureConnected
  split
  · exact h.same rfl rfl
  · exact h.setSock rfl rfl
  · exact h.same rfl rfl

theorem Slotted.step (h : t.Slotted) {call : RemoteCall} (hstep : t.step rctx call = some t') :
    t'.Slotted := by
  cases call with
  | io io buf =>
    obtain ⟨-, rfl⟩ := step_io hstep
    exact h.begin io buf
  | connect ok =>
    obtain ⟨attempt, c, -, -, rfl⟩ := step_connect hstep
    exact h.ensureConnected attempt c ok
  | rpc sent arrived =>
    obtain ⟨attempt, done, c, sock, -, -, -, rfl⟩ := step_rpc hstep
    exact h.setSock rfl rfl
  | setFallback node addr =>
    obtain ⟨-, fallback, rfl⟩ := step_setFallback hstep
    exact h.same rfl rfl
  | registerNode node addr =>
    obtain ⟨-, cis, rfl⟩ := step_registerNode hstep
    exact h.same rfl rfl

/-- A step opens nothing, or the connection of the owner's slot. -/
theorem opened_step {call : RemoteCall} (hstep : t.step rctx call = some t') :
    (t'.opened = t.opened ∧ ∀ c, t.slot = some c → c.sock = none → call ≠ .connect true) ∨
      ∃ c, call = .connect true ∧ t.slot = some c ∧ c.sock = none ∧
        t'.opened = ⟨c.addr, t.resolve t.io.owner⟩ :: t.opened := by
  cases call with
  | io io buf =>
    obtain ⟨-, rfl⟩ := step_io hstep
    refine Or.inl ⟨?_, by simp⟩
    obtain ⟨rc, he⟩ | ⟨addr, conns, -, -, he⟩ := begin_cases (t := t) io buf
    · rw [he]
    · rw [he]
  | connect ok =>
    obtain ⟨attempt, c, -, hslot, rfl⟩ := step_connect hstep
    unfold RemoteState.ensureConnected
    split
    · rename_i sock hsock
      refine Or.inl ⟨rfl, fun c' hc' hnone => ?_⟩
      rw [Option.some.inj (hc'.symm.trans hslot), hsock] at hnone
      cases hnone
    · rename_i hsock
      rw [(slot_mem hslot).2]
      exact Or.inr ⟨c, rfl, hslot, hsock, rfl⟩
    · exact Or.inl ⟨rfl, by simp⟩
  | rpc sent arrived =>
    obtain ⟨attempt, done, c, sock, -, -, -, rfl⟩ := step_rpc hstep
    exact Or.inl ⟨rfl, by simp⟩
  | setFallback node addr =>
    obtain ⟨-, fallback, rfl⟩ := step_setFallback hstep
    exact Or.inl ⟨rfl, by simp⟩
  | registerNode node addr =>
    obtain ⟨-, cis, rfl⟩ := step_registerNode hstep
    exact Or.inl ⟨rfl, by simp⟩

theorem DialsCurrent.step (hs : t.Slotted) (h : t.DialsCurrent) {call : RemoteCall}
    (hkeeps : t.KeepsAddr call) (hstep : t.step rctx call = some t') : t'.DialsCurrent := by
  obtain ⟨hopened, -⟩ | ⟨c, rfl, hslot, hsock, hopened⟩ := opened_step hstep
  · intro o ho
    rw [hopened] at ho
    exact h o ho
  · intro o ho
    rw [hopened] at ho
    obtain rfl | ho := List.mem_cons.mp ho
    · obtain ⟨hmem, hnode⟩ := slot_mem hslot
      have hfirst := hs.first c hmem
      rw [hnode] at hfirst
      exact hkeeps c hslot hsock c.addr hfirst
    · exact h o ho

theorem Slotted.dials_old (hs : t.Slotted) {call : RemoteCall} (hkeeps : ¬ t.KeepsAddr call)
    (hstep : t.step rctx call = some t') : ¬ t'.DialsCurrent := by
  intro hcurrent
  apply hkeeps
  unfold KeepsAddr
  split
  · intro c hslot hsock addr haddr
    obtain ⟨-, hno⟩ | ⟨c', -, hslot', -, hopened⟩ := opened_step hstep
    · exact absurd rfl (hno c hslot hsock)
    · obtain rfl := Option.some.inj (hslot.symm.trans hslot')
      obtain ⟨hmem, hnode⟩ := slot_mem hslot
      have hfirst := hs.first c hmem
      rw [hnode, haddr] at hfirst
      obtain rfl := Option.some.inj hfirst
      exact hcurrent ⟨c.addr, t.resolve t.io.owner⟩ (hopened ▸ List.mem_cons_self)
  · trivial

end RemoteState

/-- In a run, every connection is opened to the current address of its node when each time that
one has to be opened the node has the address of its first call; any other connection goes to an
old address. -/
theorem remoteIo_dialsCurrent (rctx : RemoteCtx) :
    (∀ t, Reach RemoteState.Init
        (Guarded RemoteState.KeepsAddr fun t call t' => t.step rctx call = some t') t →
      t.DialsCurrent) ∧
    ∀ t call t', Reach RemoteState.Init (fun t call t' => t.step rctx call = some t') t →
      t.step rctx call = some t' → ¬ t.KeepsAddr call → ¬ t'.DialsCurrent := by
  constructor
  · intro t h
    have hinit : ∀ t : RemoteState, t.Init → t.Slotted ∧ t.DialsCurrent := by
      intro t ht
      refine ⟨ht.slotted, fun o ho => ?_⟩
      rw [ht.opened_eq] at ho
      cases ho
    have hinv : t.Slotted ∧ t.DialsCurrent :=
      h.invariant hinit fun _ _ _ hi hst => ⟨hi.1.step hst.2, hi.2.step hi.1 hst.1 hst.2⟩
    exact hinv.2
  · intro t call t' h hstep hkeeps
    have hs : t.Slotted :=
      h.invariant (fun _ ht => ht.slotted) fun _ _ _ hi hst => hi.step hst
    exact hs.dials_old hkeeps hstep

/-- A step that opens a connection only where the node has the address of its first call. -/
def RemoteState.stepKept (t : RemoteState) (call : RemoteCall) : Option RemoteState :=
  match call with
  | .connect true =>
    if (t.firstAddr t.io.owner).all fun addr => (t.resolve t.io.owner).toOption = some addr then
      t.step ⟨4096, none⟩ call
    else none
  | _ => t.step ⟨4096, none⟩ call

theorem RemoteState.stepKept_guarded {t t' : RemoteState} {call : RemoteCall}
    (h : t.stepKept call = some t') :
    Guarded RemoteState.KeepsAddr (fun t call t' => t.step ⟨4096, none⟩ call = some t') t call
      t' := by
  unfold stepKept at h
  split at h
  · split_ifs at h with hkept
    refine ⟨fun c _ _ addr haddr => ?_, h⟩
    rw [haddr, Option.all_some, decide_eq_true_eq] at hkept
    cases hr : t.resolve t.io.owner with
    | error e =>
      rw [hr] at hkept
      cases hkept
    | ok addr' =>
      rw [hr] at hkept
      rw [Option.some.inj hkept]
  · rename_i hne
    refine ⟨?_, h⟩
    unfold KeepsAddr
    split
    · exact absurd rfl hne
    · trivial

/-- The connection breaks, and the node moves to `g:2` and back before the next byte is written. -/
def RemoteCall.movedBack : List RemoteCall :=
  [.connect true, .rpc false [], .connect false, .setFallback 1 (.ofBytes [103, 58, 50]),
    .setFallback 1 (.ofBytes [104, 58, 49]), .io ⟨0x0600000000000000, 1, true⟩ [8], .connect true]

theorem remoteIo_dialsCurrent_movedBack :
    ∃ t, Reach RemoteState.Init (Guarded RemoteState.KeepsAddr
        fun t call t' => t.step ⟨4096, none⟩ call = some t') t ∧
      t.opened.map RemoteOpened.dialled = [([104], 1), ([104], 1)] ∧ t.DialsCurrent := by
  have hrun : ((RemoteCall.firstWrite ++ RemoteCall.movedBack).foldlM RemoteState.stepKept
      .fresh).map (fun t => t.opened.map RemoteOpened.dialled) =
      some [([104], 1), ([104], 1)] := by decide +kernel
  obtain ⟨t, ht, hopened⟩ := Option.map_eq_some_iff.mp hrun
  have hreach := Reach.of_foldlM (.start (⟨rfl, rfl, rfl, rfl⟩ : RemoteState.fresh.Init))
    (fun _ _ _ _ => RemoteState.stepKept_guarded) ht
  exact ⟨t, hreach, hopened, (remoteIo_dialsCurrent ⟨4096, none⟩).1 t hreach⟩

/-- The connection breaks, and the node moves to `g:2` before the next byte is written. -/
def RemoteCall.secondWrite : List RemoteCall :=
  [.connect true, .rpc false [], .connect false, .setFallback 1 ⟨[103, 58, 50], by decide⟩,
    .io ⟨0x0600000000000000, 1, true⟩ [8], .connect true]

/-- The second connection is opened to `h:1`. -/
theorem remoteIo_dials_moved :
    ∃ t, Reach RemoteState.Init (fun t call t' => t.step ⟨4096, none⟩ call = some t') t ∧
      ¬ t.DialsCurrent := by
  have hrun : ((RemoteCall.firstWrite ++ RemoteCall.secondWrite).foldlM
      (RemoteState.step ⟨4096, none⟩) .fresh).map (fun t => t.opened.map fun o =>
        (o.dialled, o.resolved.toOption)) =
      some [(([104], 1), some ([103], 2)), (([104], 1), some ([104], 1))] := by decide +kernel
  obtain ⟨t, ht, hopened⟩ := Option.map_eq_some_iff.mp hrun
  refine ⟨t, Reach.foldlM (.start ⟨rfl, rfl, rfl, rfl⟩) ht, fun hcurrent => ?_⟩
  obtain ⟨o, os, hos⟩ : ∃ o os, t.opened = o :: os := by
    cases ho : t.opened with
    | nil => simp [ho] at hopened
    | cons o os => exact ⟨o, os, rfl⟩
  have hhead := hcurrent o (hos ▸ List.mem_cons_self)
  rw [hos, List.map_cons] at hopened
  have hpair := (List.cons.inj hopened).1
  rw [hhead] at hpair
  obtain ⟨hdialled, hresolved⟩ := Prod.mk.inj hpair
  rw [hdialled] at hresolved
  exact absurd (Option.some.inj hresolved) (by decide)

end Umm
