import Umm.Memory.MemServicePaths

/-! The devices of the SSD pool over a run of the service: only a registration adds one, with its
path. -/
namespace Umm
open Umm.Lib

/-- A pool that got a device was not full. -/
theorem SsdPool.length_lt_of_added {pool pool' : SsdPool} {kind : BackendKind} {capacity : ℕ}
    {env : AddEnv} (h : ssdPoolAddDevice pool kind capacity env = (.ok (), pool')) :
    pool.devices.length < ssdPoolMaxDevices := by
  by_contra hfull
  unfold ssdPoolAddDevice at h
  rw [if_pos (by omega)] at h
  cases h

namespace TierMemCtx

/-- As many devices as before, or no pool as before. -/
structure KeepsDevices (t t' : TierMemCtx) : Prop where
  online : t'.online = t.online
  devices : t'.ssdPool.map (·.devices.length) = t.ssdPool.map (·.devices.length)

variable {t t' : TierMemCtx}

theorem KeepsDevices.refl (t : TierMemCtx) : t.KeepsDevices t := ⟨rfl, rfl⟩

theorem KeepsDevices.withPool {pool pool' : SsdPool} (hp : t.ssdPool = some pool)
    (h : pool'.devices.length = pool.devices.length) :
    t.KeepsDevices { t with ssdPool := some pool' } :=
  ⟨rfl, by rw [hp, Option.map_some, Option.map_some, h]⟩

theorem KeepsDevices.alloc (t : TierMemCtx) (ba : BitmapAllocator) (size : ℕ) :
    t.KeepsDevices (t.alloc .ssd ba size).2 := by
  unfold TierMemCtx.alloc
  split
  next pool hp => exact .withPool hp (congrArg _ (SsdPool.ssdPoolAlloc_devices size))
  next => exact ⟨rfl, rfl⟩

theorem KeepsDevices.free (t : TierMemCtx) (ba : BitmapAllocator) (offset size : ℕ) :
    t.KeepsDevices (t.free .ssd ba offset size).2 := by
  unfold TierMemCtx.free
  split
  next pool hp => exact .withPool hp (congrArg _ (SsdPool.ssdPoolFree_devices _ size))
  next => exact ⟨rfl, rfl⟩

/-- A registration for the SSD tier adds a device to the pool or leaves it as it was found. -/
theorem registerTier_pool (res : StorageResource) (env : RegisterEnv) (h : t.Sound .ssd)
    (hres : res.tier = .ssd) :
    (∃ pool', (t.registerTier res env).1 = .ok () ∧
        (t.registerTier res env).2.ssdPool = some pool' ∧ res.device ≠ none ∧
        pool'.devices.length = (t.poolInUse.getD ssdPoolCreate).devices.length + 1 ∧
        pool'.devices.length ≤ ssdPoolMaxDevices) ∨
      (t.registerTier res env).2.ssdPool = t.poolInUse ∧
        ((t.registerTier res env).1 = .ok () → res.device = none) := by
  have hp := t.ssdPool_registering res
  unfold registerTier
  dsimp only
  cases ha : (t.registering res).allocator with
  | none => exact Or.inr ⟨hp, fun hok => by cases hok⟩
  | some ba =>
    rw [hres]
    cases hd : res.device with
    | none => exact Or.inr ⟨hp, fun _ => rfl⟩
    | some kind =>
      dsimp only
      rw [← hp]
      rcases (t.registering res).registerSsd_cases kind res.capacity (!t.online) env with
        ⟨-, -, he⟩ | ⟨e, -, he⟩ | ⟨pool', hadd, he⟩
      · rw [he]
        exact Or.inr ⟨rfl, fun hok => by cases hok⟩
      · rw [he]
        refine Or.inr ⟨?_, fun hok => by cases hok⟩
        dsimp only
        cases hq : (t.registering res).ssdPool with
        | none => rfl
        | some pool =>
          rw [hp] at hq
          have hne := ((h.pool pool (poolInUse_some hq).2).2).nonempty
          rw [Option.getD_some, if_neg (fun hlen => hne (List.length_eq_zero_iff.mp hlen))]
      · rw [he]
        have hroom := SsdPool.length_lt_of_added hadd
        obtain ⟨sb, -, -, -, -, rfl⟩ := ssdPoolAddDevice_ok hadd
        refine Or.inl ⟨_, rfl, rfl, by simp, ?_⟩
        unfold SsdPool.grown
        rw [List.length_append, List.length_singleton]
        exact ⟨rfl, by omega⟩

end TierMemCtx

namespace MemServiceCtx

variable {m m' : MemServiceCtx}

def KeepsDevices (m m' : MemServiceCtx) : Prop := (m.tiers .ssd).KeepsDevices (m'.tiers .ssd)

theorem KeepsDevices.refl (m : MemServiceCtx) : m.KeepsDevices m := ⟨rfl, rfl⟩

theorem KeepsDevices.setTier {tier : Tier} {t : TierMemCtx}
    (h : tier = .ssd → (m.tiers .ssd).KeepsDevices t) : m.KeepsDevices (m.setTier tier t) := by
  unfold KeepsDevices
  by_cases heq : tier = .ssd
  · subst heq
    rw [tiers_setTier_same]
    exact h rfl
  · rw [tiers_setTier_ne _ _ (Ne.symm heq)]
    exact .refl _

/-- The mapping of CXL memory does not concern the SSD tier. -/
theorem keepsDevices_prepared {tier : Tier} {r : Except Error Unit} {t : TierMemCtx}
    (hprep : (m.tiers tier).Prepared tier r t) : m.KeepsDevices (m.setTier tier t) := by
  refine .setTier fun hs => ?_
  subst hs
  rw [hprep.ssd]
  exact .refl _

theorem KeepsDevices.allocTiered (m : MemServiceCtx) (tier : Tier) (size : ℕ) (backing : Backing) :
    m.KeepsDevices (memsvcAllocTiered m tier size backing).2 := by
  cases hcall : memsvcAllocTiered m tier size backing with
  | mk r m' =>
    cases memsvcAllocTiered_cases hcall with
    | refused => exact .refl m
    | unprepared hprep => exact keepsDevices_prepared hprep
    | @answered ba _ _ _ _ _ _ hprep hal =>
      refine .setTier fun hs => ?_
      subst hs
      obtain rfl := hprep.ssd
      have hk := TierMemCtx.KeepsDevices.alloc (m.tiers .ssd) ba size
      rw [hal] at hk
      exact hk

theorem KeepsDevices.freeTiered (m : MemServiceCtx) (tier : Tier) (offset size : ℕ) :
    m.KeepsDevices (memsvcFreeTiered m tier offset size).2 := by
  cases hcall : memsvcFreeTiered m tier offset size with
  | mk r m' =>
    cases memsvcFreeTiered_cases hcall with
    | refused => exact .refl m
    | @answered ba _ _ _ _ _ hf =>
      refine .setTier fun hs => ?_
      subst hs
      have hk := TierMemCtx.KeepsDevices.free (m.tiers .ssd) ba offset size
      rw [hf] at hk
      exact hk

theorem KeepsDevices.allocOnDevice (m : MemServiceCtx) (tier : Tier) (deviceIdx size : ℕ) :
    m.KeepsDevices (memsvcAllocOnDevice m tier deviceIdx size).2 := by
  have hpool : ∀ {pool pool' r}, ssdPoolAllocOnDevice pool deviceIdx size = (r, pool') →
      pool'.devices.length = pool.devices.length := by
    intro pool pool' r hr
    have hd : (ssdPoolAllocOnDevice pool deviceIdx size).2.devices = pool.devices :=
      SsdPool.ssdPoolAllocOnDevice_devices deviceIdx size
    rw [hr] at hd
    exact congrArg _ hd
  cases hcall : memsvcAllocOnDevice m tier deviceIdx size with
  | mk r m' =>
    cases memsvcAllocOnDevice_cases hcall with
    | refused => exact .refl m
    | full hp hr => exact .setTier fun _ => .withPool hp (hpool hr)
    | beyond hp hr =>
      refine .setTier fun _ => .withPool hp ?_
      rw [SsdPool.ssdPoolFree_devices]
      exact hpool hr
    | answered _ _ hp hr => exact .setTier fun _ => .withPool hp (hpool hr)

theorem KeepsDevices.mapDevice (m : MemServiceCtx) (tier : Tier) (offset size : ℕ)
    (backing : Backing) : m.KeepsDevices (memsvcMapDevice m tier offset size backing).2 := by
  rcases memsvcMapDevice_cases m tier offset size backing with he | ⟨r, t, hprep, he⟩
  · rw [he]
    exact .refl m
  · rw [he]
    exact keepsDevices_prepared hprep

theorem KeepsDevices.ssdIo (h : m.Sound) {os : OsIo} {tier : Tier} {offset len : ℕ}
    {buf : List UInt8} {isWrite : Bool} {r : Except Error Unit × MemServiceCtx × List UInt8}
    (hio : memsvcSsdIo os m tier offset len buf isWrite = some r) : m.KeepsDevices r.2.1 := by
  cases memsvcSsdIo_cases hio with
  | refused => exact .refl m
  | answered hp hr =>
    have hblank := (((h .ssd).pool _ hp).2.wf.io hr).2
    refine .setTier fun _ => .withPool hp ?_
    have hlen := congrArg (fun p : SsdPool => p.devices.length) hblank
    simpa [SsdPool.blank] using hlen

theorem KeepsDevices.store (m : MemServiceCtx) (ptr : DevicePtr) (bytes : List UInt8) :
    m.KeepsDevices (m.store ptr bytes) := by
  unfold MemServiceCtx.store
  cases ptr with
  | window tier offset =>
    refine .setTier fun hs => ?_
    subst hs
    exact ⟨rfl, rfl⟩
  | ssd device offset =>
    dsimp only
    split
    · exact .refl m
    next pool hpool =>
      split
      · exact .refl m
      next dev hdev =>
        exact .setTier fun _ => .withPool hpool (List.length_modify _ _ _)

end MemServiceCtx

/-- The calls of the service other than a registration. -/
def MemsvcCall.IsUse : MemsvcCall → Prop
  | registerStorage .. => False
  | _ => True

/-- All calls but a registration leave the devices of the SSD tier. -/
theorem MemServiceCtx.Sound.keepsDevices {m m' : MemServiceCtx} (h : m.Sound) {call : MemsvcCall}
    (huse : call.IsUse) (hrun : call.run m = some m') : m.KeepsDevices m' := by
  cases call with
  | registerStorage => exact huse.elim
  | allocTiered tier size backing =>
    obtain rfl := Option.some.inj hrun
    exact .allocTiered m tier size.toNat backing
  | allocOnDevice tier deviceIdx size =>
    obtain rfl := Option.some.inj hrun
    exact .allocOnDevice m tier deviceIdx.toNat size.toNat
  | freeTiered tier offset size =>
    obtain rfl := Option.some.inj hrun
    exact .freeTiered m tier offset.toNat size.toNat
  | mapDevice tier offset size backing =>
    obtain rfl := Option.some.inj hrun
    exact .mapDevice m tier offset.toNat size.toNat backing
  | ssdIo os tier offset len buf isWrite =>
    obtain ⟨r, hio, rfl⟩ := Option.map_eq_some_iff.mp hrun
    exact .ssdIo h hio
  | store ptr bytes =>
    simp only [MemsvcCall.run, storeAt] at hrun
    split_ifs at hrun
    obtain rfl := Option.some.inj hrun
    exact .store m ptr bytes

namespace LocalMemService

variable {svc : LocalMemService}

/-- The pool has at most 16 devices, with a path for each of them; an SSD tier that is offline has
no pool. -/
structure Lined (svc : LocalMemService) : Prop where
  count_le : svc.deviceCount ≤ ssdPoolMaxDevices
  paths : svc.poolPaths.length = svc.deviceCount
  offline : (svc.mem.tiers .ssd).online = false → (svc.mem.tiers .ssd).ssdPool = none

theorem Lined.use (h : svc.Lined) {m : MemServiceCtx} (hk : svc.mem.KeepsDevices m) :
    Lined { svc with mem := m } := by
  have hcount : deviceCount { svc with mem := m } = svc.deviceCount := by
    have hlen : ∀ p : Option SsdPool, (p.getD ssdPoolCreate).devices.length =
        (p.map (·.devices.length)).getD 0 := by
      intro p
      cases p <;> rfl
    unfold deviceCount
    rw [hlen, hlen, hk.devices]
  refine ⟨hcount ▸ h.count_le, h.paths.trans hcount.symm, fun hoff => ?_⟩
  have hnone := h.offline (hk.online ▸ hoff)
  have hd := hk.devices
  rw [hnone, Option.map_none, Option.map_eq_none_iff] at hd
  exact hd

theorem deviceKind_eq_none {path : CString} : deviceKind path = none ↔ path.bytes = [] := by
  unfold deviceKind
  split_ifs with h <;> simp [h]

/-- The paths of the pool that a registration finds. -/
theorem Lined.length_inUse (h : svc.Lined) :
    (if (svc.mem.tiers .ssd).online then svc.poolPaths else []).length =
      ((svc.mem.tiers .ssd).poolInUse.getD ssdPoolCreate).devices.length := by
  unfold TierMemCtx.poolInUse
  split_ifs
  · exact h.paths
  · rfl

theorem Lined.registerSsd (h : svc.Lined) (hs : svc.mem.Sound) {path : CString}
    {capacity : UInt64} {env : PathEnv} (hr : refusesArgs .ssd path capacity env = false) :
    Lined (svc.registerStorage .ssd path capacity env).2 := by
  have ht := svc.tiers_registerStorage hr .ssd
  rw [if_pos rfl] at ht
  have hcases := TierMemCtx.registerTier_cases (resource .ssd path capacity) (env.register path)
    (hs .ssd)
  have hpool := TierMemCtx.registerTier_pool (resource .ssd path capacity) (env.register path)
    (hs .ssd) rfl
  have hbase := h.length_inUse
  have hle : ((svc.mem.tiers .ssd).poolInUse.getD ssdPoolCreate).devices.length ≤
      ssdPoolMaxDevices := by
    unfold TierMemCtx.poolInUse
    split_ifs
    · exact h.count_le
    · exact Nat.zero_le _
  have hoff : ((svc.registerStorage .ssd path capacity env).2.mem.tiers .ssd).online = false →
      ((svc.registerStorage .ssd path capacity env).2.mem.tiers .ssd).ssdPool = none := by
    rw [ht]
    intro hoff
    rcases hcases with ⟨t', hc, hon⟩ | ⟨e, t', hc, -, hno⟩ | ⟨e, hc, -, hsome⟩
    · rw [hc, hon] at hoff
      cases hoff
    · rcases hpool with ⟨-, hok, -⟩ | ⟨hsame, -⟩
      · rw [hc] at hok
        cases hok
      · rw [hsame]
        cases hp : (svc.mem.tiers .ssd).poolInUse with
        | none => rfl
        | some pool => exact absurd ⟨rfl, by rw [hp]; rfl⟩ hno
    · rw [hc] at hoff
      obtain ⟨pool, hp⟩ := Option.isSome_iff_exists.mp hsome
      rw [(TierMemCtx.poolInUse_some hp).1] at hoff
      cases hoff
  refine ⟨?_, ?_, hoff⟩
  · unfold deviceCount
    rw [ht]
    rcases hpool with ⟨pool', -, hp', -, -, hmax⟩ | ⟨hsame, -⟩
    · rw [hp']
      exact hmax
    · rw [hsame]
      exact hle
  · rcases svc.poolPaths_ssd hr with hpaths | ⟨hwas, hnow, hpaths⟩
    · unfold deviceCount
      rw [hpaths, ht, poolPathsAfter, registerStorage_checked hr]
      dsimp only
      rw [MemServiceCtx.tiers_setTier_same]
      rcases hpool with ⟨pool', hok, hp', hdev, hlen, -⟩ | ⟨hsame, hdev⟩
      · rw [hok, hp']
        dsimp only
        rw [if_neg (mt deviceKind_eq_none.mpr hdev), List.length_append, hbase, Option.getD_some, hlen]
        rfl
      · rw [hsame]
        cases hp : (svc.mem.tiers .ssd).poolInUse with
        | none => rfl
        | some pool =>
          rw [hp] at hbase
          split
          next hn => cases hn
          next hok =>
            rw [if_pos (deviceKind_eq_none.mp (hdev hok))]
            exact hbase
          next => exact hbase
    · rw [hpaths, h.paths, deviceCount, deviceCount, hoff hnow, h.offline hwas]

/-- A device that is added brings its path. -/
theorem Lined.registerStorage (h : svc.Lined) (hs : svc.mem.Sound) (tier : Tier) (path : CString)
    (capacity : UInt64) (env : PathEnv) :
    Lined (svc.registerStorage tier path capacity env).2 := by
  cases hr : refusesArgs tier path capacity env with
  | true =>
    rw [registerStorage_refused hr]
    exact h
  | false =>
    by_cases htier : tier = .ssd
    · subst htier
      exact h.registerSsd hs hr
    · have hsame : (svc.registerStorage tier path capacity env).2.mem.tiers .ssd =
          svc.mem.tiers .ssd := by
        rw [tiers_registerStorage _ hr, if_neg (Ne.symm htier)]
      refine ⟨?_, ?_, ?_⟩
      · rw [deviceCount, hsame]
        exact h.count_le
      · rw [deviceCount, hsame, poolPaths_registerStorage htier]
        exact h.paths
      · rw [hsame]
        exact h.offline

end LocalMemService

end Umm
