import Umm.Client.RegisterStorage
import Umm.Client.ApiRollback

/-! Registrations that fail, in any state of the initialised library: which of them leave reads,
writes and later registrations as they were. -/
namespace Umm
open Umm.Lib

namespace UmmLibrary

variable {W : Type}

/-- A registration that succeeds. -/
def registerNext (p : UmmLibrary) (c : RegisterCall × StorageEnv) : Option UmmLibrary :=
  match p.registerStorageTier c.1 c.2 with
  | (.ok (), q) => some q
  | (.error _, _) => none

/-- Registrations one after another, as long as they succeed. -/
def registerAll (p : UmmLibrary) (calls : List (RegisterCall × StorageEnv)) : Option UmmLibrary :=
  calls.foldlM registerNext p

/-- The same devices in the configuration and in the topology of the service, the same pool, and
the same transports over it. -/
structure SameSetup (p q : UmmLibrary) : Prop where
  ssdDevices : q.client.config.ssdDevices = p.client.config.ssdDevices
  topology : q.service.getTopology = p.service.getTopology
  pool : (q.service.mem.tiers .ssd).poolInUse = (p.service.mem.tiers .ssd).poolInUse
  transport : q.client.transport = p.client.transport

/-- What a failed registration has to leave: reads and writes that succeeded before it do so
after it, and so do later registrations, to the same setup. -/
structure Harmless (io : DataPlane W) (p p' : UmmLibrary) : Prop where
  reads : ∀ w desc offset len hasBuf bytes,
    p.client.ummRead io w desc offset len hasBuf = .ok bytes →
      p'.client.ummRead io w desc offset len hasBuf = .ok bytes
  writes : ∀ w desc offset len buf w',
    p.client.ummWrite io w desc offset len buf = .ok w' →
      p'.client.ummWrite io w desc offset len buf = .ok w'
  later : ∀ calls q, calls ≠ [] → p.registerAll calls = some q →
    ∃ q', p'.registerAll calls = some q' ∧ q.SameSetup q'

/-- In the direct mode the service takes the storage and the router is built again, or an online
tier is lost to a refusal. In the RPC mode the router is built again. -/
def DisturbsAt (p : UmmLibrary) (tier : Tier) (path : CString) (capacity : UInt64)
    (env : StorageEnv) : Prop :=
  if p.client.localMem.isSome then
    p.service.Takes tier (devicePathField path) capacity env.service ∧
        p.client.tierRouter.isSome = true ∨
      ¬ p.service.Takes tier (devicePathField path) capacity env.service ∧
        p.service.Loses tier (devicePathField path) capacity env.service
  else p.client.config.isRpc = true ∧ p.client.tierRouter.isSome = true ∧ ¬ p.NoRoom tier path

/-- The call gets beyond its checks, to the transports or to a tier that it takes away. -/
def Disturbs (p : UmmLibrary) (call : RegisterCall) (env : StorageEnv) : Prop :=
  p.client.initialized = true ∧ call.capacity ≠ 0 ∧
    ∃ tier path, Tier.ofId call.tierId.toNat = some tier ∧ call.path = some path ∧
      p.DisturbsAt tier path call.capacity env

/-! Runs. -/

/-- The service at the start of the direct mode: one tier, under the path `mock`. -/
def startService (mem : MemServiceCtx) : LocalMemService :=
  ⟨mem, fun tier => if tier = .cxl then CString.ofBytes [109, 111, 99, 107] else emptyString, []⟩

def noService : LocalMemService := ⟨memServiceDirectCreateV2, fun _ => emptyString, []⟩

/-- After an `umm_init` that succeeded, whatever was before it. -/
def Start (p : UmmLibrary) : Prop :=
  ∃ cfg env s, ummInit (some cfg) env s = (.ok (), p.client) ∧
    match p.client.localMem with
    | none => p.service = noService
    | some (_, size) => ∃ renv mem, memServiceDirectCreate size.toNat 0 renv = some mem ∧
        p.service = startService mem ∧
        env.localTopology = p.service.getTopology.toOption.map compactTopology

end UmmLibrary

inductive LibraryOp
  | register (call : RegisterCall) (env : StorageEnv)
  | use (call : MemsvcCall)
  | learn (node : UInt8)
  | peers (cis : CisRouterState)

namespace UmmLibrary

/-- Registrations, uses of the service, the node of the memory server that a reply tells, and new
peers. -/
inductive Step : UmmLibrary → LibraryOp → UmmLibrary → Prop
  | register {p : UmmLibrary} {call : RegisterCall} {env : StorageEnv} :
      (p.registerStorageTier call env).2.service.mem.FitsMemory →
      Step p (.register call env) (p.registerStorageTier call env).2
  | use {p : UmmLibrary} {call : MemsvcCall} {m : MemServiceCtx} : call.IsUse →
      MemsvcCall.Step p.service.mem call m →
      Step p (.use call) { p with service := { p.service with mem := m } }
  | learn {p : UmmLibrary} {node : UInt8} :
      Step p (.learn node) { p with client := { p.client with memServerNode := node } }
  | peers {p : UmmLibrary} {cis : CisRouterState} :
      Step p (.peers cis) { p with client := { p.client with cis := cis } }

def Reachable (p : UmmLibrary) : Prop := Reach Start Step p

structure Inv (p : UmmLibrary) : Prop where
  sound : p.service.mem.Sound
  lined : p.service.Lined

variable {p p' q q' : UmmLibrary} {io : DataPlane W} {call : RegisterCall} {env : StorageEnv}

theorem registerNext_eq_some {c : RegisterCall × StorageEnv} :
    p.registerNext c = some q ↔ p.registerStorageTier c.1 c.2 = (.ok (), q) := by
  unfold registerNext
  split
  next r he => rw [he, Option.some_inj, Prod.mk.injEq, eq_self, true_and]
  next e r he => simp [he]

theorem inv_noService : noService.mem.Sound ∧ noService.Lined :=
  ⟨fun _ => TierMemCtx.sound_offline, Nat.zero_le _, rfl, fun _ => rfl⟩

theorem inv_startService {size : UInt64} {renv : RegisterEnv} {mem : MemServiceCtx}
    (h : memServiceDirectCreate size.toNat 0 renv = some mem) :
    (startService mem).mem.Sound ∧ (startService mem).Lined := by
  have hssd : mem.tiers .ssd = .offline := by
    unfold memServiceDirectCreate memServiceDirectCreateTiered at h
    split_ifs at h
    split at h
    next m' hr =>
      obtain rfl := Option.some.inj h
      have hother := memsvcRegisterStorage_other memServiceDirectCreateV2
        ⟨.cxl, size.toNat, 0, some .file⟩ renv (show Tier.ssd ≠ Tier.cxl by decide)
      rw [hr] at hother
      exact hother
    next => cases h
  refine ⟨(memServiceDirectCreate_direct size.toNat_lt h).1, ?_, ?_, fun _ => ?_⟩
  · unfold LocalMemService.deviceCount startService
    rw [hssd]
    exact Nat.zero_le _
  · unfold LocalMemService.deviceCount startService
    rw [hssd]
    rfl
  · unfold startService
    rw [hssd]
    rfl

theorem inv_start (h : p.Start) : p.Inv := by
  obtain ⟨cfg, env, s, -, hservice⟩ := h
  split at hservice
  · obtain ⟨hs, hl⟩ := inv_noService
    exact ⟨hservice ▸ hs, hservice ▸ hl⟩
  · obtain ⟨renv, mem, hmem, hp, -⟩ := hservice
    obtain ⟨hs, hl⟩ := inv_startService hmem
    exact ⟨hp ▸ hs, hp ▸ hl⟩

@[simp] theorem service_rebuild (p : UmmLibrary) (topo : InitTopology) (env : TransportEnv) :
    (p.rebuild topo env).2.service = p.service := rfl

theorem service_registerDirect (p : UmmLibrary) (tier : Tier) (path : CString)
    (capacity : UInt64) (env : StorageEnv) :
    (p.registerDirect tier path capacity env).2.service =
      (p.service.registerStorage tier (devicePathField path) capacity env.service).2 := by
  unfold registerDirect
  dsimp only
  split
  · rfl
  · split
    · rfl
    · split
      · rfl
      · split <;> rfl

theorem service_registerRpc (p : UmmLibrary) (tier : Tier) (path : CString) (capacity : UInt64)
    (env : StorageEnv) : (p.registerRpc tier path capacity env).2.service = p.service := by
  unfold registerRpc
  dsimp only
  split
  · rfl
  · split <;> rfl

/-- The service is the one of before, or has been given the storage. -/
theorem service_registerStorageTier (p : UmmLibrary) (call : RegisterCall) (env : StorageEnv) :
    (p.registerStorageTier call env).2.service = p.service ∨
      ∃ tier path, Tier.ofId call.tierId.toNat = some tier ∧
        (p.registerStorageTier call env).2.service =
          (p.service.registerStorage tier path call.capacity env.service).2 := by
  unfold registerStorageTier
  split
  · exact Or.inl rfl
  · split
    next tier path htier _ =>
      split_ifs
      · exact Or.inl rfl
      · exact Or.inr ⟨tier, devicePathField path, htier, p.service_registerDirect _ _ _ _⟩
      · exact Or.inl (p.service_registerRpc _ _ _ _)
      · exact Or.inl rfl
    next => exact Or.inl rfl

/-- In the direct mode the service is the one of the client without its data plane. -/
theorem localMem_registerStorageTier {N : Type} {g : UmmGlobalState N} {path : CString}
    (hinit : g.initialized = p.client.initialized) (hmem : g.localMem = some p.service.mem)
    (hlocal : p.client.localMem.isSome = true) (hpath : call.path = some path) :
    (ummRegisterStorageTier g call.tierId (deviceKind (devicePathField path)) call.capacity.toNat
        (env.service.register (devicePathField path))).2.localMem =
      some (p.registerStorageTier call env).2.service.mem := by
  have hcap : call.capacity.toNat = 0 ↔ call.capacity = 0 := by
    rw [← UInt64.toNat_inj]
    rfl
  unfold ummRegisterStorageTier registerStorageTier
  rw [hinit, hmem, hpath]
  split
  · exact hmem
  · cases htier : Tier.ofId call.tierId.toNat with
    | none => exact hmem
    | some tier =>
      dsimp only
      by_cases h0 : call.capacity = 0
      · rw [if_pos (hcap.mpr h0), if_pos h0]
        exact hmem
      · rw [if_neg (mt hcap.mp h0), if_neg h0, service_registerDirect,
          LocalMemService.mem_registerStorage]
        rfl

theorem inv_step {op : LibraryOp} (h : p.Inv) (hs : Step p op q) : q.Inv := by
  cases hs with
  | @register call env hfits =>
    rcases p.service_registerStorageTier call env with he | ⟨tier, path, -, he⟩
    · exact ⟨he ▸ h.sound, he ▸ h.lined⟩
    · rw [he, LocalMemService.mem_registerStorage] at hfits
      have hsound := h.sound.registerStorage (env.service.register path) call.capacity.toNat_lt
        (show (0 : ℕ) < 2 ^ 64 by norm_num) hfits
      rw [← LocalMemService.mem_registerStorage] at hsound
      exact ⟨he ▸ hsound, he ▸ h.lined.registerStorage h.sound tier path call.capacity env.service⟩
  | use huse hstep => exact ⟨h.sound.step hstep, h.lined.use (h.sound.keepsDevices huse hstep.1)⟩
  | learn => exact ⟨h.sound, h.lined⟩
  | peers => exact ⟨h.sound, h.lined⟩

theorem Reachable.inv (h : p.Reachable) : p.Inv :=
  h.invariant (P := Inv) (fun _ => inv_start) (fun _ _ _ => inv_step)

/-! Registrations that leave no trace. -/

/-- The same client over a service that shows the same. -/
structure Alike (p p' : UmmLibrary) : Prop where
  client : p'.client = p.client
  service : p.service.Same p'.service

theorem rebuild_alike {a b : LocalMemService} (h : a.Same b) (client : UmmState)
    (topo : InitTopology) (env : TransportEnv) :
    (rebuild ⟨client, b⟩ topo env).1 = (rebuild ⟨client, a⟩ topo env).1 ∧
      (rebuild ⟨client, a⟩ topo env).2.Alike (rebuild ⟨client, b⟩ topo env).2 :=
  ⟨rfl, rfl, h⟩

theorem Alike.registerDirect (h : p.Alike p') (tier : Tier) (path : CString) (capacity : UInt64)
    (env : StorageEnv) :
    (p'.registerDirect tier path capacity env).1 = (p.registerDirect tier path capacity env).1 ∧
      (p.registerDirect tier path capacity env).2.Alike
        (p'.registerDirect tier path capacity env).2 := by
  obtain ⟨hfst, hsame⟩ := h.service.registerStorage tier (devicePathField path) capacity env.service
  unfold UmmLibrary.registerDirect
  dsimp only
  rw [hfst, h.client, hsame.getTopology]
  split
  · exact ⟨rfl, rfl, hsame⟩
  · split
    · exact ⟨rfl, rfl, hsame⟩
    · split
      · exact ⟨rfl, rfl, hsame⟩
      · split
        · exact ⟨rfl, rfl, hsame⟩
        · exact rebuild_alike hsame _ _ _

theorem Alike.registerRpc (h : p.Alike p') (tier : Tier) (path : CString) (capacity : UInt64)
    (env : StorageEnv) :
    (p'.registerRpc tier path capacity env).1 = (p.registerRpc tier path capacity env).1 ∧
      (p.registerRpc tier path capacity env).2.Alike
        (p'.registerRpc tier path capacity env).2 := by
  unfold UmmLibrary.registerRpc
  dsimp only
  rw [h.client]
  split
  · exact ⟨rfl, h⟩
  · split
    · exact ⟨rfl, rfl, h.service⟩
    · exact rebuild_alike h.service _ _ _

theorem Alike.registerStorageTier (h : p.Alike p') (call : RegisterCall) (env : StorageEnv) :
    (p'.registerStorageTier call env).1 = (p.registerStorageTier call env).1 ∧
      (p.registerStorageTier call env).2.Alike (p'.registerStorageTier call env).2 := by
  unfold UmmLibrary.registerStorageTier
  rw [h.client]
  split
  · exact ⟨rfl, h⟩
  · split
    next tier path _ _ =>
      split_ifs
      · exact ⟨rfl, h⟩
      · exact h.registerDirect tier path call.capacity env
      · exact h.registerRpc tier path call.capacity env
      · exact ⟨rfl, h⟩
    next => exact ⟨rfl, h⟩

theorem Alike.step (h : p.Alike p') (c : RegisterCall × StorageEnv) (hq : p.registerNext c = some q) :
    ∃ q', p'.registerNext c = some q' ∧ q.Alike q' := by
  obtain ⟨hfst, halike⟩ := h.registerStorageTier c.1 c.2
  have hok := registerNext_eq_some.mp hq
  rw [hok] at hfst halike
  exact ⟨(p'.registerStorageTier c.1 c.2).2, registerNext_eq_some.mpr (Prod.ext hfst rfl), halike⟩

theorem Alike.sameSetup (h : p.Alike p') : p.SameSetup p' where
  ssdDevices := by rw [h.client]
  topology := h.service.getTopology
  pool := by
    unfold TierMemCtx.poolInUse
    rw [h.service.online]
    split_ifs with hon
    · rw [h.service.tiers _ hon]
    · rfl
  transport := by rw [h.client]

theorem Alike.harmless (h : p.Alike p') (io : DataPlane W) : Harmless io p p' where
  reads := fun _ _ _ _ _ _ hr => by rwa [h.client]
  writes := fun _ _ _ _ _ _ hw => by rwa [h.client]
  later := by
    intro calls q _ hrun
    obtain ⟨q', hrun', hq⟩ := foldlM_related (R := Alike) (fun s t c s' hst => hst.step c) h hrun
    exact ⟨q', hrun', hq.sameSetup⟩

/-! Registrations that fail. -/

theorem rebuild_error {topo : InitTopology} {tenv : TransportEnv} {e : Error}
    (h : (p.rebuild topo tenv).1 = .error e) :
    (p.rebuild topo tenv).2.client.tierRouter = none ∧
      (p.rebuild topo tenv).2.client.transport = none := by
  have hc : (p.rebuild topo tenv).2.client = { p.client.withoutRouter with remoteTransport := none } :=
    configureTransports_error h
  rw [hc]
  exact ⟨rfl, rfl⟩

/-- Without a router a registration builds none. -/
theorem transport_registerStorageTier (h : p.client.tierRouter = none) (call : RegisterCall)
    (env : StorageEnv) :
    (p.registerStorageTier call env).2.client.transport = p.client.transport := by
  have hdirect : ∀ tier path, (p.registerDirect tier path call.capacity env).2.client.transport =
      p.client.transport := by
    intro tier path
    unfold registerDirect
    dsimp only
    split
    · rfl
    · rw [if_pos (by rw [h]; rfl)]
  have hrpc : ∀ tier path, (p.registerRpc tier path call.capacity env).2.client.transport =
      p.client.transport := by
    intro tier path
    unfold registerRpc
    dsimp only
    split
    · rfl
    · rw [if_pos (by rw [h]; rfl)]
  unfold registerStorageTier
  split
  · rfl
  · split
    next tier path _ _ =>
      split_ifs
      · rfl
      · exact hdirect tier path
      · exact hrpc tier path
      · rfl
    next => rfl

/-- What a failed registration that disturbs has done: the transports are gone, or a tier is. -/
def Broken (p p' : UmmLibrary) : Prop :=
  p.client.initialized = true ∧ (p.client.localMem.isSome = true ∨ p.client.config.isRpc = true) ∧
    (p.client.tierRouter.isSome = true ∧ p'.client.tierRouter = none ∧ p'.client.transport = none ∨
      p'.client = p.client ∧ p'.service.Lined ∧ ∃ tier ≠ .cxl,
        ¬ (tier = .ssd ∧ (p.service.mem.tiers tier).ssdPool.isSome = true) ∧
        (p.service.mem.tiers tier).online = true ∧ (p'.service.mem.tiers tier).online = false)

/-- What a registration in the direct mode comes to when it fails. -/
theorem Inv.registerDirect_error (h : p.Inv) {tier : Tier} {path : CString} {capacity : UInt64}
    {e : Error} (he : (p.registerDirect tier path capacity env).1 = .error e) :
    p.service.Takes tier (devicePathField path) capacity env.service ∧
        p.client.tierRouter.isSome = true ∧
        (p.registerDirect tier path capacity env).2.client.tierRouter = none ∧
        (p.registerDirect tier path capacity env).2.client.transport = none ∨
      ¬ p.service.Takes tier (devicePathField path) capacity env.service ∧
        (p.registerDirect tier path capacity env).2 = { p with
          service := (p.service.registerStorage tier (devicePathField path) capacity env.service).2 } ∧
        ∃ e', (p.service.registerStorage tier (devicePathField path) capacity env.service).1 =
          .error e' := by
  have hok : (p.service.registerStorage tier (devicePathField path) capacity env.service).1 =
      .ok () ↔ p.service.Takes tier (devicePathField path) capacity env.service :=
    LocalMemService.registerStorage_ok_iff h.sound
  unfold registerDirect at he ⊢
  dsimp only at he ⊢
  split at he
  next e' hr =>
    rw [hr] at hok
    rw [hr]
    exact Or.inr ⟨fun ht => (by cases hok.mpr ht), rfl, e', rfl⟩
  next hr =>
    have ht := hok.mp hr
    rw [hr]
    split at he
    next => cases he
    next hrouter =>
      rw [if_neg hrouter]
      split at he
      next => cases he
      next resources hres =>
        split at he
        next => cases he
        next hne =>
          rw [if_neg hne]
          obtain ⟨hr1, hr2⟩ := rebuild_error he
          refine Or.inl ⟨ht, ?_, hr1, hr2⟩
          rwa [Option.isNone_iff_eq_none, ← ne_eq, ← Option.isSome_iff_ne_none] at hrouter

/-- What a registration in the RPC mode comes to when it fails. -/
theorem registerRpc_error {tier : Tier} {path : CString} {capacity : UInt64}
    {e : Error} (he : (p.registerRpc tier path capacity env).1 = .error e) :
    p.client.tierRouter.isSome = true ∧ ¬ p.NoRoom tier path ∧
        (p.registerRpc tier path capacity env).2.client.tierRouter = none ∧
        (p.registerRpc tier path capacity env).2.client.transport = none ∨
      p.NoRoom tier path ∧ (p.registerRpc tier path capacity env).2 = p := by
  have hbuilt : ∀ devices, ¬ p.NoRoom tier path →
      (if isLocalSsd tier path then addSsdDevice p.client.config.ssdDevices path capacity
        else .ok p.client.config.ssdDevices) = .ok devices →
      p.client.tierRouter.isSome = true ∧ ¬ p.NoRoom tier path ∧
        (p.registerRpc tier path capacity env).2.client.tierRouter = none ∧
        (p.registerRpc tier path capacity env).2.client.transport = none := by
    intro devices hroom hd
    unfold registerRpc at he ⊢
    dsimp only at he ⊢
    rw [hd] at he ⊢
    dsimp only at he ⊢
    split at he
    next => cases he
    next hrouter =>
      rw [if_neg hrouter]
      obtain ⟨hr1, hr2⟩ := rebuild_error he
      refine ⟨?_, hroom, hr1, hr2⟩
      rwa [Option.isNone_iff_eq_none, ← ne_eq, ← Option.isSome_iff_ne_none] at hrouter
  cases hl : isLocalSsd tier path with
  | false =>
    refine Or.inl (hbuilt _ (fun hno => ?_) (by rw [hl]; rfl))
    rw [hno.1] at hl
    cases hl
  | true =>
    rcases addSsdDevice_cases p.client.config.ssdDevices path capacity with
      ⟨⟨devices, hd⟩, hroom⟩ | ⟨hd, hfull⟩
    · exact Or.inl (hbuilt devices (fun hno => hroom hno.2) (by rw [hl, if_pos rfl]; exact hd))
    · refine Or.inr ⟨⟨hl, hfull⟩, ?_⟩
      unfold registerRpc
      dsimp only
      rw [hl, if_pos rfl, hd]

theorem Alike.refl (p : UmmLibrary) : p.Alike p := ⟨rfl, .refl _⟩

/-- The arguments that the call itself checks. -/
def Checked (p : UmmLibrary) (call : RegisterCall) (tier : Tier) (path : CString) : Prop :=
  p.client.initialized = true ∧ call.capacity ≠ 0 ∧ Tier.ofId call.tierId.toNat = some tier ∧
    call.path = some path

theorem registerStorageTier_checked {tier : Tier} {path : CString} (h : p.Checked call tier path) :
    p.registerStorageTier call env =
      if p.client.localMem.isSome then p.registerDirect tier path call.capacity env
      else if p.client.config.isRpc then p.registerRpc tier path call.capacity env
      else (.error .invalidArg, p) := by
  obtain ⟨hinit, hcap, htier, hpath⟩ := h
  unfold registerStorageTier
  rw [if_neg (by rw [hinit]; decide), htier, hpath]
  dsimp only
  rw [if_neg hcap]

theorem registerStorageTier_unchecked (h : ∀ tier path, ¬ p.Checked call tier path) :
    (p.registerStorageTier call env).2 = p := by
  unfold registerStorageTier
  split
  next => rfl
  next hinit =>
    rw [Bool.not_eq_false] at hinit
    split
    next tier path htier hpath =>
      split
      next => rfl
      next hcap => exact absurd ⟨hinit, hcap, htier, hpath⟩ (h tier path)
    next => rfl

theorem disturbs_iff {tier : Tier} {path : CString} (h : p.Checked call tier path) :
    p.Disturbs call env ↔ p.DisturbsAt tier path call.capacity env := by
  obtain ⟨hinit, hcap, htier, hpath⟩ := h
  refine ⟨?_, fun hd => ⟨hinit, hcap, tier, path, htier, hpath, hd⟩⟩
  rintro ⟨-, -, tier', path', htier', hpath', hd⟩
  rw [htier] at htier'
  rw [hpath] at hpath'
  cases htier'
  cases hpath'
  exact hd

/-- A refusal costs no CXL tier that is online: it would have been taken. -/
theorem ne_cxl_of_loses {svc : LocalMemService} {tier : Tier} {path : CString} {capacity : UInt64}
    {penv : PathEnv} (hno : ¬ svc.Takes tier path capacity penv)
    (hl : svc.Loses tier path capacity penv) : tier ≠ .cxl := by
  rintro rfl
  exact hno ⟨hl.2.1, Or.inl hl.1, trivial⟩

theorem Inv.direct_error (h : p.Inv) (hinit : p.client.initialized = true)
    (hlocal : p.client.localMem.isSome = true) {tier : Tier} {path : CString} {capacity : UInt64}
    {e : Error} (he : (p.registerDirect tier path capacity env).1 = .error e) :
    (¬ p.DisturbsAt tier path capacity env →
        p.Alike (p.registerDirect tier path capacity env).2) ∧
      (p.DisturbsAt tier path capacity env →
        p.Broken (p.registerDirect tier path capacity env).2) := by
  unfold DisturbsAt
  rw [if_pos hlocal]
  rcases h.registerDirect_error he with ⟨ht, hrouter, hr1, hr2⟩ | ⟨ht, hp, e', hsvc⟩
  · exact ⟨fun hno => absurd (Or.inl ⟨ht, hrouter⟩) hno,
      fun _ => ⟨hinit, Or.inl hlocal, Or.inl ⟨hrouter, hr1, hr2⟩⟩⟩
  · obtain ⟨hloses, hkeeps⟩ := LocalMemService.registerStorage_error h.sound hsvc
    rw [hp]
    refine ⟨fun hno => ⟨rfl, hkeeps fun hl => hno (Or.inr ⟨ht, hl⟩)⟩, ?_⟩
    rintro (⟨ht', -⟩ | ⟨-, hl⟩)
    · exact absurd ht' ht
    · exact ⟨hinit, Or.inl hlocal, Or.inr ⟨rfl, h.lined.registerStorage h.sound _ _ _ _, tier,
        ne_cxl_of_loses ht hl, hl.2.2, hl.1, hloses hl⟩⟩

theorem rpc_error (hinit : p.client.initialized = true)
    (hlocal : ¬ p.client.localMem.isSome = true) (hrpc : p.client.config.isRpc = true) {tier : Tier}
    {path : CString} {capacity : UInt64} {e : Error}
    (he : (p.registerRpc tier path capacity env).1 = .error e) :
    (¬ p.DisturbsAt tier path capacity env → p.Alike (p.registerRpc tier path capacity env).2) ∧
      (p.DisturbsAt tier path capacity env →
        p.Broken (p.registerRpc tier path capacity env).2) := by
  unfold DisturbsAt
  rw [if_neg hlocal]
  rcases registerRpc_error he with ⟨hrouter, hroom, hr1, hr2⟩ | ⟨hfull, hp⟩
  · exact ⟨fun hno => absurd ⟨hrpc, hrouter, hroom⟩ hno,
      fun _ => ⟨hinit, Or.inr hrpc, Or.inl ⟨hrouter, hr1, hr2⟩⟩⟩
  · rw [hp]
    exact ⟨fun _ => .refl p, fun hd => absurd hfull hd.2.2⟩

/-- A registration that fails has left no trace, or has broken something. -/
theorem Inv.registerStorageTier_error (h : p.Inv) {e : Error}
    (he : (p.registerStorageTier call env).1 = .error e) :
    (¬ p.Disturbs call env → p.Alike (p.registerStorageTier call env).2) ∧
      (p.Disturbs call env → p.Broken (p.registerStorageTier call env).2) := by
  by_cases hchecked : ∃ tier path, p.Checked call tier path
  · obtain ⟨tier, path, hc⟩ := hchecked
    rw [disturbs_iff hc]
    rw [registerStorageTier_checked hc] at he ⊢
    by_cases hlocal : p.client.localMem.isSome = true
    · rw [if_pos hlocal] at he ⊢
      exact h.direct_error hc.1 hlocal he
    · rw [if_neg hlocal] at he ⊢
      by_cases hrpc : p.client.config.isRpc = true
      · rw [if_pos hrpc] at he ⊢
        exact rpc_error hc.1 hlocal hrpc he
      · rw [if_neg hrpc]
        refine ⟨fun _ => .refl p, fun hd => ?_⟩
        unfold DisturbsAt at hd
        rw [if_neg hlocal] at hd
        exact absurd hd.1 hrpc
  · push Not at hchecked
    rw [registerStorageTier_unchecked hchecked]
    refine ⟨fun _ => .refl p, ?_⟩
    rintro ⟨hinit, hcap, tier, path, htier, hpath, -⟩
    exact absurd ⟨hinit, hcap, htier, hpath⟩ (hchecked tier path)

/-! A later registration shows what is broken. -/

/-- A page of CXL memory. -/
def cxlPage : RegisterCall := ⟨1, some emptyString, 4096⟩

/-- Every part answers. -/
def allWell : StorageEnv :=
  ⟨⟨false, false, true, ⟨true, fun _ => 0, true⟩, .bytes fun _ => 0⟩, .allWell⟩

theorem cxlPage_taken (svc : LocalMemService) :
    svc.Takes .cxl (devicePathField emptyString) cxlPage.capacity allWell.service := by
  have hba : (baCreate 4096 baDefaultPageSize).isSome = true := by decide +kernel
  exact ⟨rfl, Or.inr hba, trivial⟩

/-- With every part answering the transports are built. -/
theorem rebuild_allWell {topo : InitTopology}
    (h : (topo.slots.filter Proto.StorageResource.isOnlineSsd).length ≤ 16) :
    ∃ q, p.rebuild topo .allWell = (.ok (), q) ∧ q.client.transport.isSome = true ∧
      q.service = p.service := by
  obtain ⟨hok, hsome⟩ := configureTransports_ok p.client.config p.client.withoutRouter h
  exact ⟨_, Prod.ext hok rfl, hsome, rfl⟩

/-- The page is registered from any state, and where there was a router there is a transport. -/
theorem Inv.register_cxlPage (h : p.Inv) (hinit : p.client.initialized = true)
    (hmode : p.client.localMem.isSome = true ∨ p.client.config.isRpc = true) :
    ∃ q, p.registerStorageTier cxlPage allWell = (.ok (), q) ∧
      (p.client.tierRouter.isSome = true → q.client.transport.isSome = true) ∧ q.service.Lined ∧
      ∀ tier ≠ .cxl, q.service.mem.tiers tier = p.service.mem.tiers tier := by
  have hc : p.Checked cxlPage .cxl emptyString := ⟨hinit, by decide, rfl, rfl⟩
  rw [registerStorageTier_checked hc]
  by_cases hlocal : p.client.localMem.isSome = true
  · rw [if_pos hlocal]
    obtain ⟨svc, hsvc⟩ : ∃ svc, p.service.registerStorage .cxl (devicePathField emptyString)
        cxlPage.capacity allWell.service = (.ok (), svc) :=
      ⟨_, Prod.ext ((LocalMemService.registerStorage_ok_iff h.sound).mpr (cxlPage_taken _)) rfl⟩
    have hlined : svc.Lined := by
      have hl := h.lined.registerStorage h.sound .cxl (devicePathField emptyString)
        cxlPage.capacity allWell.service
      rwa [hsvc] at hl
    have hother : ∀ tier ≠ .cxl, svc.mem.tiers tier = p.service.mem.tiers tier := by
      intro tier hne
      have ht := p.service.tiers_registerStorage
        (cxlPage_taken p.service).1 tier
      rwa [hsvc, if_neg hne] at ht
    obtain ⟨resources, hres, hssds⟩ := compactTopology_ssds hlined
    have hne : resources ≠ [] := by
      have hon := LocalMemService.online_registerStorage h.sound (congrArg Prod.fst hsvc)
      rw [hsvc] at hon
      obtain ⟨res, hmem, -⟩ :=
        (LocalMemService.mem_getTopology .cxl hres (fun hc => by cases hc.1)).mpr hon
      exact List.ne_nil_of_mem hmem
    unfold registerDirect
    rw [hsvc]
    dsimp only
    by_cases hrouter : p.client.tierRouter.isNone = true
    · rw [if_pos hrouter]
      refine ⟨_, rfl, fun hsome => ?_, hlined, hother⟩
      rw [Option.isNone_iff_eq_none] at hrouter
      rw [hrouter] at hsome
      cases hsome
    · rw [if_neg hrouter, hres]
      dsimp only
      rw [if_neg hne]
      obtain ⟨q, hq, hsome, hservice⟩ := rebuild_allWell (p := ⟨p.client, svc⟩) hssds
      exact ⟨q, hq, fun _ => hsome, hservice ▸ hlined, hservice ▸ hother⟩
  · rw [if_neg hlocal, if_pos (hmode.resolve_left hlocal)]
    have hssds : ((sparseTopology ⟨.ofNat Tier.cxl.id, devicePathField emptyString,
        cxlPage.capacity, 0, 1⟩).slots.filter Proto.StorageResource.isOnlineSsd).length ≤ 16 := by
      decide +kernel
    unfold registerRpc
    dsimp only
    rw [show isLocalSsd .cxl emptyString = false from rfl]
    simp only [Bool.false_eq_true, if_false]
    by_cases hrouter : p.client.tierRouter.isNone = true
    · rw [if_pos hrouter]
      refine ⟨_, rfl, fun hsome => ?_, h.lined, fun _ _ => rfl⟩
      rw [Option.isNone_iff_eq_none] at hrouter
      rw [hrouter] at hsome
      cases hsome
    · rw [if_neg hrouter]
      obtain ⟨q, hq, hsome, hservice⟩ := rebuild_allWell (p := { p with client := { p.client with
        config := { p.client.config with ssdDevices := p.client.config.ssdDevices }
        ssdTransport := none } }) hssds
      exact ⟨q, hq, fun _ => hsome, hservice ▸ h.lined, hservice ▸ fun _ _ => rfl⟩

theorem registerAll_single {c : RegisterCall × StorageEnv} (h : p.registerNext c = some q) :
    p.registerAll [c] = some q := by
  unfold registerAll
  rw [List.foldlM_cons, h]
  rfl

/-- The page concerns no other tier. -/
theorem tiers_cxlPage (p : UmmLibrary) {tier : Tier} (hne : tier ≠ .cxl) :
    (p.registerStorageTier cxlPage allWell).2.service.mem.tiers tier = p.service.mem.tiers tier := by
  rcases p.service_registerStorageTier cxlPage allWell with he | ⟨tier', path, htier, he⟩
  · rw [he]
  · obtain rfl : Tier.cxl = tier' := Option.some.inj htier
    rw [he, LocalMemService.tiers_registerStorage _ (by rfl), if_neg hne]

/-- What is broken shows in the page that is registered next. -/
theorem Inv.not_harmless (h : p.Inv) (hb : p.Broken p') : ¬ Harmless io p p' := by
  intro hharm
  obtain ⟨hinit, hmode, hcase⟩ := hb
  obtain ⟨q, hq, hsome, hlined, hother⟩ := h.register_cxlPage hinit hmode
  obtain ⟨q', hq', hsame⟩ := hharm.later [(cxlPage, allWell)] q (by simp)
    (registerAll_single (registerNext_eq_some.mpr hq))
  have hq' : p'.registerStorageTier cxlPage allWell = (.ok (), q') := by
    unfold registerAll at hq'
    rw [List.foldlM_cons] at hq'
    obtain ⟨q₁, h₁, h₂⟩ := Option.bind_eq_some_iff.mp hq'
    obtain rfl := Option.some.inj h₂
    exact registerNext_eq_some.mp h₁
  rcases hcase with ⟨hrouter, hnone, htrans⟩ | ⟨hclient, hlined', tier, hne, hno, hon, hoff⟩
  · have ht := transport_registerStorageTier hnone cxlPage allWell
    rw [hq', htrans] at ht
    have hs := hsome hrouter
    rw [← hsame.transport] at hs
    rw [show q'.client.transport = none from ht] at hs
    cases hs
  · have hres := LocalMemService.getTopology_ok hlined.count_le
    have hres' := hsame.topology.trans hres
    have htier := p'.tiers_cxlPage hne
    rw [hq'] at htier
    have hshown := (LocalMemService.mem_getTopology tier hres (by
      rw [hother tier hne]
      exact hno)).mpr (by rw [hother tier hne]; exact hon)
    have hon' := (LocalMemService.mem_getTopology tier hres' (by
      rintro ⟨rfl, hp⟩
      rw [show q'.service.mem.tiers .ssd = p'.service.mem.tiers .ssd from htier,
        hlined'.offline hoff] at hp
      cases hp)).mp hshown
    rw [show q'.service.mem.tiers tier = p'.service.mem.tiers tier from htier, hoff] at hon'
    cases hon'

end UmmLibrary

open UmmLibrary

/-- A registration that fails is harmless exactly where it does not get beyond its checks. -/
theorem registerStorageTier_harmless_iff {W : Type} (io : DataPlane W) {p : UmmLibrary}
    (h : p.Reachable) {call : RegisterCall} {env : StorageEnv} {e : Error}
    (hfail : (p.registerStorageTier call env).1 = .error e) :
    Harmless io p (p.registerStorageTier call env).2 ↔ ¬ p.Disturbs call env := by
  obtain ⟨hclean, hbroken⟩ := h.inv.registerStorageTier_error hfail
  exact ⟨fun hharm hd => h.inv.not_harmless (hbroken hd) hharm, fun hno => (hclean hno).harmless io⟩

namespace UmmLibrary

/-- Every part of `umm_init` answers, and the service shows `topo`. -/
def initWell (topo : Option InitTopology) : InitEnv where
  peerDup := true
  memService := true
  metaService := true
  localTopology := topo
  transports := .allWell
  legacy := .ok ()
  metaBuf := true
  metaClient := .ok ()
  rpcTopology := none
  reconfigured := .allWell
  memBuf := true
  memClient := .ok ()

/-- The device that is registered, at the path `d`. -/
def onePage : RegisterCall := ⟨2, some (CString.ofBytes [100]), 4096⟩

/-- The device cannot be opened, neither by the service nor by the transports. -/
def notOpened : StorageEnv :=
  ⟨⟨false, false, true, ⟨false, fun _ => 0, true⟩, .noMemory⟩, ⟨true, false, false, false, true, true⟩⟩

/-- The service of the direct mode with one page of memory. -/
def onePageService : LocalMemService :=
  startService ((memServiceDirectCreate 4096 0 ⟨false, true, ⟨true, fun _ => 0, true⟩,
    .noMemory⟩).getD memServiceDirectCreateV2)

def directConfig : InitConfig := { InitConfig.zero with memorySize := 4096 }

def directStart : UmmLibrary :=
  ⟨(ummInit (some directConfig)
    (initWell (onePageService.getTopology.toOption.map compactTopology)) .fresh).2, onePageService⟩

/-- The memory server is at `a:1`. -/
def rpcConfig : InitConfig := { InitConfig.zero with memServerAddr := CString.ofBytes [97, 58, 49] }

def rpcStart : UmmLibrary := ⟨(ummInit (some rpcConfig) (initWell none) .fresh).2, noService⟩

theorem directStart_start : directStart.Start := by
  have hok : (ummInit (some directConfig)
      (initWell (onePageService.getTopology.toOption.map compactTopology)) .fresh).1 = .ok () := by
    decide +kernel
  have hmem : directStart.client.localMem = some (0, 4096) := by decide +kernel
  have hsome : (memServiceDirectCreate 4096 0 ⟨false, true, ⟨true, fun _ => 0, true⟩,
      .noMemory⟩).isSome = true := by decide +kernel
  obtain ⟨mem, hcreate⟩ := Option.isSome_iff_exists.mp hsome
  refine ⟨directConfig, initWell (onePageService.getTopology.toOption.map compactTopology), .fresh,
    Prod.ext hok rfl, ?_⟩
  rw [hmem]
  refine ⟨_, mem, hcreate, ?_, rfl⟩
  show onePageService = startService mem
  unfold onePageService
  rw [hcreate, Option.getD_some]

theorem rpcStart_start : rpcStart.Start := by
  have hok : (ummInit (some rpcConfig) (initWell none) .fresh).1 = .ok () := by decide +kernel
  have hmem : rpcStart.client.localMem = none := by decide +kernel
  refine ⟨rpcConfig, initWell none, .fresh, Prod.ext hok rfl, ?_⟩
  rw [hmem]
  rfl

end UmmLibrary

/-- The first device of the direct mode cannot be opened, and nothing else is touched. -/
theorem registerStorageTier_harmless_firstDevice :
    Harmless (W := Unit) ⟨fun _ _ _ len => .ok (List.replicate len 0), fun _ w _ _ => .ok w⟩
      directStart (directStart.registerStorageTier onePage notOpened).2 := by
  have hfail : (directStart.registerStorageTier onePage notOpened).1 = .error .transportError := by
    decide +kernel
  have hlocal : directStart.client.localMem.isSome = true := by decide +kernel
  have hoff : (directStart.service.mem.tiers .ssd).online = false := by decide +kernel
  refine (registerStorageTier_harmless_iff _ (.start directStart_start) hfail).mpr ?_
  rintro ⟨-, -, tier, path, htier, hpath, hd⟩
  obtain rfl : Tier.ssd = tier := Option.some.inj htier
  obtain rfl : CString.ofBytes [100] = path := Option.some.inj hpath
  unfold DisturbsAt at hd
  rw [if_pos hlocal] at hd
  rcases hd with ⟨ht, -⟩ | ⟨-, hl⟩
  · rcases ht.2.2 with hnone | ⟨-, -, hopened, -⟩
    · exact absurd hnone (by decide +kernel)
    · cases hopened
  · rw [hl.1] at hoff
    cases hoff

/-- In the RPC mode a device that cannot be opened takes the transports with it. -/
theorem registerStorageTier_breaks :
    ¬ ∀ (io : DataPlane Unit) (p : UmmLibrary), p.Reachable → p.client.initialized = true →
      ∀ call env e, (p.registerStorageTier call env).1 = .error e →
        Harmless io p (p.registerStorageTier call env).2 := by
  intro hall
  have hreach : rpcStart.Reachable := .start rpcStart_start
  have hinit : rpcStart.client.initialized = true := by decide +kernel
  have hfail : (rpcStart.registerStorageTier onePage notOpened).1 = .error .transportError := by
    decide +kernel
  have hrouter : rpcStart.client.tierRouter.isSome = true := by decide +kernel
  have hlocal : rpcStart.client.localMem.isSome = false := by decide +kernel
  have hdevices : rpcStart.client.config.ssdDevices = [] := by decide +kernel
  have hdisturbs : rpcStart.Disturbs onePage notOpened := by
    refine ⟨hinit, by decide, .ssd, CString.ofBytes [100], rfl, rfl, ?_⟩
    unfold DisturbsAt
    rw [if_neg (by rw [hlocal]; decide)]
    refine ⟨by decide +kernel, hrouter, ?_⟩
    rintro ⟨-, hfull, -⟩
    rw [hdevices] at hfull
    exact absurd hfull (by decide)
  exact hreach.inv.not_harmless ((hreach.inv.registerStorageTier_error hfail).2 hdisturbs)
    (hall ⟨fun _ _ _ len => .ok (List.replicate len 0), fun _ w _ _ => .ok w⟩ rpcStart hreach hinit
      onePage notOpened _ hfail)

end Umm
