import Umm.Common.CString
import Umm.Memory.MemServiceRegister
import Umm.Protocol.Mem

/-! The memory service with the paths of its devices: storage that is registered under a path,
what the service takes, what a refusal changes, and the topology that the service reports. -/
namespace Umm
open Umm.Lib

/-- A path in a field of 256 bytes. -/
def devicePathField (path : CString) : CString := CString.ofBytes (path.bytes.take 255)

def CString.startsWith (s : CString) (bytes : List UInt8) : Bool :=
  s.bytes.take bytes.length = bytes

/-- The backend of a device by the prefix of its path, `direct:`, `libnvm:`, `nds:` or
`nds-meta:`. An empty path is no device. -/
def deviceKind (path : CString) : Option BackendKind :=
  if path.bytes = [] then none
  else if path.startsWith [100, 105, 114, 101, 99, 116, 58] then some .direct
  else if path.startsWith [108, 105, 98, 110, 118, 109, 58] then some .libnvm
  else if path.startsWith [110, 100, 115, 58] then some .nds
  else if path.startsWith [110, 100, 115, 45, 109, 101, 116, 97, 58] then some .ndsMeta
  else some .file

/-- More than four bytes that end in `.raw`. -/
def isRaw (path : CString) : Bool :=
  4 < path.length && path.bytes.drop (path.length - 4) = [46, 114, 97, 119]

/-- What the world answers while storage is registered under a path. -/
structure PathEnv where
  blockDevice : Bool
  /-- `UMM_ALLOW_BLOCK_DEVICE` is set to 1. -/
  blockAllowed : Bool
  gotPool : Bool
  add : AddEnv
  backing : Backing

namespace PathEnv

def rejects (env : PathEnv) (path : CString) : Bool :=
  !isRaw path && env.blockDevice && !env.blockAllowed

def register (env : PathEnv) (path : CString) : RegisterEnv :=
  ⟨env.rejects path, env.gotPool, env.add, env.backing⟩

end PathEnv

/-- The path that the SSD backend is opened with: a directory stands for the file `pool.raw` in
it. -/
def ssdResolved (path : CString) (env : PathEnv) : CString :=
  if deviceKind path ≠ some .file || isRaw path || env.blockDevice then path
  else CString.ofBytes (path.bytes ++ [47, 112, 111, 111, 108, 46, 114, 97, 119])

def ummMaxTopologyResources : ℕ := 20

/-- The service with the `device_path` of each tier and of each device in the SSD pool. -/
structure LocalMemService where
  mem : MemServiceCtx
  devicePath : Tier → CString
  poolPaths : List CString

namespace LocalMemService

def resource (tier : Tier) (path : CString) (capacity : UInt64) : StorageResource :=
  ⟨tier, capacity.toNat, 0, deviceKind path⟩

/-- A block device that is rejected, or no capacity. -/
def refusesArgs (tier : Tier) (path : CString) (capacity : UInt64) (env : PathEnv) : Bool :=
  tier = .ssd && deviceKind path = some .file && env.rejects path || capacity = 0

/-- The paths in the pool of the SSD tier after a registration for it. -/
def poolPathsAfter (paths : List CString) (r : Except Error Unit × MemServiceCtx) (path : CString)
    (env : PathEnv) : List CString :=
  match (r.2.tiers .ssd).ssdPool, r.1 with
  | none, _ => []
  | some _, .ok () => if path.bytes = [] then paths else paths ++ [ssdResolved path env]
  | some _, .error _ => paths

/-- `memsvc_register_storage` of storage at offset 0. -/
def registerStorage (svc : LocalMemService) (tier : Tier) (path : CString) (capacity : UInt64)
    (env : PathEnv) : Except Error Unit × LocalMemService :=
  let online := (svc.mem.tiers tier).online
  let r := memsvcRegisterStorage svc.mem (resource tier path capacity) (env.register path)
  if refusesArgs tier path capacity env then (r.1, { svc with mem := r.2 })
  else if !online && (baCreate capacity.toNat baDefaultPageSize).isNone then
    (r.1, { svc with mem := r.2 })
  else
    (r.1,
      { mem := r.2
        devicePath := Function.update svc.devicePath tier path
        -- a tier that comes online starts without a pool
        poolPaths := if tier = .ssd then
          poolPathsAfter (if online then svc.poolPaths else []) r path env else svc.poolPaths })

/-- `ssd_pool_device_info`, from the base of the tier on. -/
def deviceResource (baseOffset : ℕ) (dev : SsdDevice) (path : CString) : Proto.StorageResource :=
  ⟨2, devicePathField path, .ofNat dev.capacity, .ofNat (baseOffset + dev.virtualBase), 1⟩

def tierResource (svc : LocalMemService) (tier : Tier) : Proto.StorageResource :=
  let t := svc.mem.tiers tier
  ⟨.ofNat tier.id, devicePathField (svc.devicePath tier), .ofNat t.totalSize, .ofNat t.baseOffset, 1⟩

/-- The entries of one tier: one for each device of a pool, else one for the tier. -/
def tierResources (svc : LocalMemService) (tier : Tier) : List Proto.StorageResource :=
  let t := svc.mem.tiers tier
  if !t.online then []
  else match tier, t.ssdPool with
    | .ssd, some pool =>
      List.zipWith (deviceResource t.baseOffset) pool.devices svc.poolPaths
    | _, _ => [svc.tierResource tier]

/-- `memsvc_get_topology`. -/
def getTopology (svc : LocalMemService) : Except Error (List Proto.StorageResource) :=
  let resources := [Tier.dram, .cxl, .ssd, .resv].flatMap svc.tierResources
  if ummMaxTopologyResources < resources.length then .error .noMemory else .ok resources

end LocalMemService

/-! One tier. -/

namespace TierMemCtx

/-- The pool that a registration finds. -/
def poolInUse (t : TierMemCtx) : Option SsdPool := if t.online then t.ssdPool else none

/-- The storage is one that the tier takes. -/
def Takes (t : TierMemCtx) (res : StorageResource) (env : RegisterEnv) : Prop :=
  (t.online = true ∨ (baCreate res.capacity baDefaultPageSize).isSome = true) ∧
    match res.tier with
    | .cxl => True
    | .dram => ∃ content, env.backing = .bytes content
    | .ssd => res.device = none ∨
        (t.poolInUse.isSome = true ∨ env.gotPool = true) ∧
          (t.poolInUse.getD ssdPoolCreate).devices.length < ssdPoolMaxDevices ∧
          env.add.opened = true ∧ env.add.gotBitmap = true ∧ res.capacity + 4095 < 2 ^ 64
    | .resv => False

variable {t u : TierMemCtx} {res : StorageResource} {env : RegisterEnv}

/-- Of a tier that is offline nothing is left. -/
theorem registerTier_congr (res : StorageResource) (env : RegisterEnv)
    (hon : u.online = t.online) (h : t.online = true → u = t) :
    u.registerTier res env = t.registerTier res env := by
  cases ht : t.online with
  | true => rw [h ht]
  | false =>
    have hreg : u.registering res = t.registering res := by
      unfold registering
      rw [hon, ht]
      rfl
    unfold registerTier
    rw [hreg, hon]

theorem online_registering (t : TierMemCtx) (res : StorageResource) :
    (t.registering res).online = true := by
  unfold registering
  split_ifs with h
  · exact h
  · rfl

theorem ssdPool_registering (t : TierMemCtx) (res : StorageResource) :
    (t.registering res).ssdPool = t.poolInUse := by
  unfold registering poolInUse
  split_ifs <;> rfl

theorem poolInUse_some {pool : SsdPool} (h : t.poolInUse = some pool) :
    t.online = true ∧ t.ssdPool = some pool := by
  unfold poolInUse at h
  split_ifs at h with hon
  exact ⟨hon, h⟩

theorem isSome_registering (h : t.Sound res.tier) :
    ((t.registering res).allocator.isSome = true) ↔
      t.online = true ∨ (baCreate res.capacity baDefaultPageSize).isSome = true := by
  unfold registering
  split_ifs with hon
  · obtain ⟨ba, ha⟩ := h.allocator hon
    simp [hon, ha]
  · simp [hon]

theorem registerSsd_ok_iff {kind : BackendKind} {capacity : ℕ} {firstReg : Bool}
    (h0 : capacity ≠ 0) (hlt : capacity < 2 ^ 64) :
    (t.registerSsd kind capacity firstReg env).1 = .ok () ↔
      (t.ssdPool.isSome = true ∨ env.gotPool = true) ∧
        (t.ssdPool.getD ssdPoolCreate).devices.length < ssdPoolMaxDevices ∧
        env.add.opened = true ∧ env.add.gotBitmap = true ∧ capacity + 4095 < 2 ^ 64 := by
  have hadd := ssdPoolAddDevice_ok_iff (t.ssdPool.getD ssdPoolCreate) kind env.add h0 hlt
  rcases t.registerSsd_cases kind capacity firstReg env with
    ⟨hp, hg, he⟩ | ⟨e, ha, he⟩ | ⟨pool', ha, he⟩
  · rw [he, hp, hg]
    simp
  · rw [ha] at hadd
    rw [he]
    exact iff_of_false (fun hok => by cases hok) (fun hok => by cases hadd.mpr hok.2)
  · rw [he]
    rw [ha] at hadd
    refine iff_of_true rfl ⟨?_, hadd.mp rfl⟩
    by_contra hno
    push Not at hno
    obtain ⟨hnone, hg⟩ := hno
    have hnone' : t.ssdPool = none := by
      cases hp : t.ssdPool with
      | none => rfl
      | some pool => exact absurd (by rw [hp]; rfl) hnone
    unfold TierMemCtx.registerSsd at he
    rw [hnone', (Bool.not_eq_true _).mp hg] at he
    cases (Prod.mk.inj he).1

/-- A tier accepts a registration exactly where it takes the storage. -/
theorem registerTier_ok_iff (h : t.Sound res.tier) (h0 : res.capacity ≠ 0)
    (hlt : res.capacity < 2 ^ 64) : (t.registerTier res env).1 = .ok () ↔ t.Takes res env := by
  unfold registerTier Takes
  rw [← isSome_registering h]
  dsimp only
  cases ha : (t.registering res).allocator with
  | none => simp
  | some ba =>
    simp only [Option.isSome_some, true_and]
    cases htier : res.tier with
    | cxl => simp
    | resv => simp
    | dram =>
      unfold TierMemCtx.registerDram
      cases res.device <;> cases env.backing <;> simp
    | ssd =>
      cases hd : res.device with
      | none => simp
      | some kind =>
        dsimp only
        rw [registerSsd_ok_iff h0 hlt, ssdPool_registering]
        simp

/-- A tier that took the storage is online, one that refused it is not; but an SSD tier with a
pool stays as it was. -/
theorem registerTier_cases (res : StorageResource) (env : RegisterEnv) (h : t.Sound res.tier) :
    (∃ t', t.registerTier res env = (.ok (), t') ∧ t'.online = true) ∨
      (∃ e t', t.registerTier res env = (.error e, t') ∧ t'.online = false ∧
        ¬ (res.tier = .ssd ∧ t.poolInUse.isSome = true)) ∨
      ∃ e, t.registerTier res env = (.error e, t) ∧ res.tier = .ssd ∧
        t.poolInUse.isSome = true := by
  have hon := t.online_registering res
  unfold registerTier
  dsimp only
  cases ha : (t.registering res).allocator with
  | none =>
    refine Or.inr (Or.inl ⟨.noMemory, _, rfl, rfl, fun hp => ?_⟩)
    have hsome : (t.registering res).allocator.isSome = true := by
      refine (isSome_registering h).mpr (Or.inl ?_)
      cases ht : t.online with
      | true => rfl
      | false => simp [poolInUse, ht] at hp
    rw [ha] at hsome
    cases hsome
  | some ba =>
    cases htier : res.tier with
    | cxl => exact Or.inl ⟨_, rfl, hon⟩
    | resv => exact Or.inr (Or.inl ⟨_, _, rfl, rfl, fun hp => by cases hp.1⟩)
    | dram =>
      dsimp only
      unfold TierMemCtx.registerDram
      split
      · exact Or.inl ⟨_, rfl, hon⟩
      · exact Or.inr (Or.inl ⟨_, _, rfl, rfl, fun hp => by cases hp.1⟩)
      · exact Or.inl ⟨_, rfl, hon⟩
      · exact Or.inr (Or.inl ⟨_, _, rfl, rfl, fun hp => by cases hp.1⟩)
    | ssd =>
      cases hd : res.device with
      | none => exact Or.inl ⟨_, rfl, hon⟩
      | some kind =>
        dsimp only
        rw [← ssdPool_registering t res]
        rcases (t.registering res).registerSsd_cases kind res.capacity (!t.online) env with
          ⟨hp, -, he⟩ | ⟨e, -, he⟩ | ⟨pool', -, he⟩
        · rw [he, hp]
          exact Or.inr (Or.inl ⟨_, _, rfl, rfl, fun hc => by cases hc.2⟩)
        · rw [he]
          cases hp : (t.registering res).ssdPool with
          | none => exact Or.inr (Or.inl ⟨_, _, rfl, rfl, fun hc => by cases hc.2⟩)
          | some pool =>
            rw [ssdPool_registering] at hp
            obtain ⟨ht, hpool⟩ := poolInUse_some hp
            have hne := ((h.pool pool hpool).2).nonempty
            have hreg : t.registering res = t := by
              unfold registering
              rw [if_pos ht]
            rw [Option.getD_some, if_neg (fun hlen => hne (List.length_eq_zero_iff.mp hlen)), hreg,
              ← hpool]
            exact Or.inr (Or.inr ⟨e, rfl, rfl, by rw [hpool]; rfl⟩)
        · rw [he]
          exact Or.inl ⟨_, rfl, hon⟩

end TierMemCtx

/-! The whole service. -/

namespace LocalMemService

/-- The storage is one that the service takes. -/
def Takes (svc : LocalMemService) (tier : Tier) (path : CString) (capacity : UInt64)
    (env : PathEnv) : Prop :=
  refusesArgs tier path capacity env = false ∧
    (svc.mem.tiers tier).Takes (resource tier path capacity) (env.register path)

/-- A refusal takes the tier offline. An SSD tier with a pool stays, and so does any tier where
the arguments are refused. -/
def Loses (svc : LocalMemService) (tier : Tier) (path : CString) (capacity : UInt64)
    (env : PathEnv) : Prop :=
  (svc.mem.tiers tier).online = true ∧ refusesArgs tier path capacity env = false ∧
    ¬ (tier = .ssd ∧ (svc.mem.tiers tier).ssdPool.isSome = true)

/-- Two services that differ in tiers that are offline only, and in a path that no entry of the
topology shows. -/
structure Same (a b : LocalMemService) : Prop where
  online : ∀ tier, (b.mem.tiers tier).online = (a.mem.tiers tier).online
  tiers : ∀ tier, (a.mem.tiers tier).online = true → b.mem.tiers tier = a.mem.tiers tier
  paths : ∀ tier, (a.mem.tiers tier).online = true →
    ¬ (tier = .ssd ∧ (a.mem.tiers tier).ssdPool.isSome = true) → b.devicePath tier = a.devicePath tier
  poolPaths : (a.mem.tiers .ssd).online = true → b.poolPaths = a.poolPaths

variable {a b svc : LocalMemService} {tier : Tier} {path : CString} {capacity : UInt64}
  {env : PathEnv}

theorem Same.refl (svc : LocalMemService) : svc.Same svc :=
  ⟨fun _ => rfl, fun _ _ => rfl, fun _ _ _ => rfl, fun _ => rfl⟩

theorem registerStorage_refused (h : refusesArgs tier path capacity env = true) :
    svc.registerStorage tier path capacity env = (.error .invalidArg, svc) := by
  have hmem : memsvcRegisterStorage svc.mem (resource tier path capacity) (env.register path) =
      (.error .invalidArg, svc.mem) := by
    rw [TierMemCtx.memsvcRegisterStorage_eq]
    simp only [refusesArgs, Bool.or_eq_true, Bool.and_eq_true, decide_eq_true_eq] at h
    rcases h with ⟨⟨ht, hk⟩, hr⟩ | h0
    · rw [if_pos ⟨ht, hk, hr⟩]
    · subst h0
      rw [if_pos (show (resource tier path 0).capacity = 0 from rfl), ite_self]
  unfold registerStorage
  dsimp only
  rw [if_pos h, hmem]

theorem registerStorage_checked (h : refusesArgs tier path capacity env = false) :
    memsvcRegisterStorage svc.mem (resource tier path capacity) (env.register path) =
      (((svc.mem.tiers tier).registerTier (resource tier path capacity) (env.register path)).1,
        svc.mem.setTier tier
          ((svc.mem.tiers tier).registerTier (resource tier path capacity) (env.register path)).2) := by
  simp only [refusesArgs, Bool.or_eq_false_iff, Bool.and_eq_false_iff, decide_eq_false_iff_not] at h
  obtain ⟨hblock, h0⟩ := h
  have hcap : (resource tier path capacity).capacity ≠ 0 := fun hc => h0 (UInt64.toNat_inj.mp hc)
  rw [TierMemCtx.memsvcRegisterStorage_eq, if_neg, if_neg hcap]
  · rfl
  · rintro ⟨ht, hk, hr⟩
    rcases hblock with (hb | hb) | hb
    · exact hb ht
    · exact hb hk
    · rw [show env.rejects path = true from hr] at hb
      cases hb

/-- What the service answers. -/
theorem fst_registerStorage (svc : LocalMemService) (tier : Tier) (path : CString)
    (capacity : UInt64) (env : PathEnv) : (svc.registerStorage tier path capacity env).1 =
      (memsvcRegisterStorage svc.mem (resource tier path capacity) (env.register path)).1 := by
  unfold registerStorage
  dsimp only
  split_ifs <;> rfl

/-- What it has become. -/
theorem mem_registerStorage (svc : LocalMemService) (tier : Tier) (path : CString)
    (capacity : UInt64) (env : PathEnv) : (svc.registerStorage tier path capacity env).2.mem =
      (memsvcRegisterStorage svc.mem (resource tier path capacity) (env.register path)).2 := by
  unfold registerStorage
  dsimp only
  split_ifs <;> rfl

theorem registerStorage_ok_iff (h : svc.mem.Sound) :
    (svc.registerStorage tier path capacity env).1 = .ok () ↔ svc.Takes tier path capacity env := by
  unfold Takes
  cases hr : refusesArgs tier path capacity env with
  | true =>
    rw [registerStorage_refused hr]
    simp
  | false =>
    have hcap : capacity.toNat ≠ 0 := by
      intro hc
      simp [refusesArgs, UInt64.toNat_inj.mp (show capacity.toNat = (0 : UInt64).toNat from hc)] at hr
    rw [fst_registerStorage, registerStorage_checked hr,
      TierMemCtx.registerTier_ok_iff (h tier) hcap capacity.toNat_lt]
    simp

/-- The paths change for the tier alone. -/
theorem devicePath_registerStorage {tier' : Tier} (hne : tier' ≠ tier) :
    (svc.registerStorage tier path capacity env).2.devicePath tier' = svc.devicePath tier' := by
  unfold registerStorage
  dsimp only
  split
  · rfl
  · split
    · rfl
    · exact Function.update_of_ne hne _ _

theorem poolPaths_registerStorage (hne : tier ≠ .ssd) :
    (svc.registerStorage tier path capacity env).2.poolPaths = svc.poolPaths := by
  unfold registerStorage
  dsimp only
  rw [if_neg hne]
  split_ifs <;> rfl

/-- A failure that keeps the pool keeps the paths of its devices. -/
theorem poolPaths_error (hon : (svc.mem.tiers .ssd).online = true) {e : Error}
    (he : (svc.registerStorage .ssd path capacity env).1 = .error e)
    (hp : ((svc.registerStorage .ssd path capacity env).2.mem.tiers .ssd).ssdPool.isSome = true) :
    (svc.registerStorage .ssd path capacity env).2.poolPaths = svc.poolPaths := by
  rw [fst_registerStorage] at he
  rw [mem_registerStorage] at hp
  obtain ⟨pool, hpool⟩ := Option.isSome_iff_exists.mp hp
  unfold registerStorage
  dsimp only
  rw [hon]
  split
  · rfl
  · split
    · rfl
    · rw [if_pos rfl, if_pos rfl, poolPathsAfter, hpool, he]

/-- A refusal changes nothing that shows, or takes the tier offline. -/
theorem registerStorage_error (h : svc.mem.Sound) {e : Error}
    (he : (svc.registerStorage tier path capacity env).1 = .error e) :
    (svc.Loses tier path capacity env →
      ((svc.registerStorage tier path capacity env).2.mem.tiers tier).online = false) ∧
    (¬ svc.Loses tier path capacity env →
      svc.Same (svc.registerStorage tier path capacity env).2) := by
  unfold Loses
  cases hr : refusesArgs tier path capacity env with
  | true =>
    rw [registerStorage_refused hr]
    exact ⟨fun hl => (by cases hl.2.1), fun _ => .refl svc⟩
  | false =>
    have hfst := fst_registerStorage svc tier path capacity env
    have hsnd := mem_registerStorage svc tier path capacity env
    rw [registerStorage_checked hr] at hfst hsnd
    have hother : ∀ tier' ≠ tier, (svc.registerStorage tier path capacity env).2.mem.tiers tier' =
        svc.mem.tiers tier' := fun tier' hne => by
      rw [hsnd, MemServiceCtx.tiers_setTier_ne _ _ hne]
    have hself : (svc.registerStorage tier path capacity env).2.mem.tiers tier =
        ((svc.mem.tiers tier).registerTier (resource tier path capacity) (env.register path)).2 := by
      rw [hsnd, MemServiceCtx.tiers_setTier_same]
    rcases TierMemCtx.registerTier_cases (resource tier path capacity) (env.register path)
        (h tier) with
      ⟨t', hc, -⟩ | ⟨e', t', hc, hoff, hno⟩ | ⟨e', hc, htier, hpool⟩
    · rw [hfst, hc] at he
      cases he
    · rw [hc] at hself
      refine ⟨fun _ => by rw [hself]; exact hoff, fun hkeep => ?_⟩
      have hwas : (svc.mem.tiers tier).online = false := by
        by_contra hon
        rw [Bool.not_eq_false] at hon
        refine hkeep ⟨hon, rfl, fun hp => hno ⟨hp.1, ?_⟩⟩
        unfold TierMemCtx.poolInUse
        rw [if_pos hon]
        exact hp.2
      have hne : ∀ tier', (svc.mem.tiers tier').online = true → tier' ≠ tier := by
        rintro tier' hon rfl
        rw [hwas] at hon
        cases hon
      refine ⟨fun tier' => ?_, fun tier' hon => hother tier' (hne tier' hon),
        fun tier' hon _ => devicePath_registerStorage (hne tier' hon),
        fun hon => poolPaths_registerStorage (hne .ssd hon).symm⟩
      by_cases heq : tier' = tier
      · rw [heq, hself, hwas]
        exact hoff
      · rw [hother tier' heq]
    · obtain rfl : tier = .ssd := htier
      rw [hc] at hself
      obtain ⟨pool, hpool⟩ := Option.isSome_iff_exists.mp hpool
      obtain ⟨hon, hp⟩ := TierMemCtx.poolInUse_some hpool
      have hsome : (svc.mem.tiers .ssd).ssdPool.isSome = true := by
        rw [hp]
        rfl
      have hsame : ∀ tier', (svc.registerStorage .ssd path capacity env).2.mem.tiers tier' =
          svc.mem.tiers tier' := fun tier' => by
        by_cases heq : tier' = .ssd
        · rw [heq]
          exact hself
        · exact hother tier' heq
      refine ⟨fun hl => absurd ⟨rfl, hsome⟩ hl.2.2, fun _ => ⟨fun tier' => by rw [hsame],
        fun tier' _ => hsame tier', fun tier' _ hno => devicePath_registerStorage ?_, fun _ => ?_⟩⟩
      · rintro rfl
        exact hno ⟨rfl, hsome⟩
      · exact poolPaths_error hon he (by rw [hsame]; exact hsome)

/-- The tier after a registration with arguments that are not refused. -/
theorem tiers_registerStorage (svc : LocalMemService)
    (hr : refusesArgs tier path capacity env = false) (tier' : Tier) :
    (svc.registerStorage tier path capacity env).2.mem.tiers tier' =
      if tier' = tier then
        ((svc.mem.tiers tier).registerTier (resource tier path capacity) (env.register path)).2
      else svc.mem.tiers tier' := by
  rw [mem_registerStorage, registerStorage_checked hr]
  split_ifs with heq
  · rw [heq, MemServiceCtx.tiers_setTier_same]
  · rw [MemServiceCtx.tiers_setTier_ne _ _ heq]

/-- A tier that took the storage is online. -/
theorem online_registerStorage (h : svc.mem.Sound)
    (hok : (svc.registerStorage tier path capacity env).1 = .ok ()) :
    ((svc.registerStorage tier path capacity env).2.mem.tiers tier).online = true := by
  have hr := ((registerStorage_ok_iff h).mp hok).1
  rw [fst_registerStorage, registerStorage_checked hr] at hok
  rw [tiers_registerStorage _ hr, if_pos rfl]
  rcases TierMemCtx.registerTier_cases (resource tier path capacity) (env.register path)
      (h tier) with ⟨t', hc, hon⟩ | ⟨e, t', hc, -, -⟩ | ⟨e, hc, -, -⟩
  · rw [hc]
    exact hon
  · rw [hc] at hok
    cases hok
  · rw [hc] at hok
    cases hok

/-- Without an allocator the tier stays offline. -/
theorem offline_of_isNone {t : TierMemCtx} {res : StorageResource} {renv : RegisterEnv}
    (hon : t.online = false) (hba : (baCreate res.capacity baDefaultPageSize).isNone = true) :
    (t.registerTier res renv).2.online = false := by
  rw [Option.isNone_iff_eq_none] at hba
  unfold TierMemCtx.registerTier TierMemCtx.registering
  simp only [hon, hba, Bool.false_eq_true, if_false]
  rfl

/-- A tier that is online after a registration has taken over its path. -/
theorem devicePath_registered (hr : refusesArgs tier path capacity env = false)
    (hon : ((svc.registerStorage tier path capacity env).2.mem.tiers tier).online = true) :
    (svc.registerStorage tier path capacity env).2.devicePath tier = path := by
  rw [tiers_registerStorage _ hr, if_pos rfl] at hon
  unfold registerStorage
  dsimp only
  rw [if_neg (by rw [hr]; decide)]
  split
  next hno =>
    rw [Bool.and_eq_true, Bool.not_eq_true'] at hno
    rw [offline_of_isNone hno.1 hno.2] at hon
    cases hon
  next => exact Function.update_self _ _ _

/-- The paths in the pool follow the registration, where the tier got as far as an allocator. -/
theorem poolPaths_ssd (svc : LocalMemService)
    (hr : refusesArgs .ssd path capacity env = false) :
    (svc.registerStorage .ssd path capacity env).2.poolPaths =
        poolPathsAfter (if (svc.mem.tiers .ssd).online then svc.poolPaths else [])
          (memsvcRegisterStorage svc.mem (resource .ssd path capacity) (env.register path))
          path env ∨
      (svc.mem.tiers .ssd).online = false ∧
        ((svc.registerStorage .ssd path capacity env).2.mem.tiers .ssd).online = false ∧
        (svc.registerStorage .ssd path capacity env).2.poolPaths = svc.poolPaths := by
  have ht := svc.tiers_registerStorage hr .ssd
  rw [if_pos rfl] at ht
  rw [ht]
  unfold registerStorage
  dsimp only
  rw [if_neg (by rw [hr]; decide)]
  split
  next hno =>
    rw [Bool.and_eq_true, Bool.not_eq_true'] at hno
    exact Or.inr ⟨hno.1, offline_of_isNone hno.1 hno.2, rfl⟩
  next =>
    rw [if_pos rfl]
    exact Or.inl rfl

theorem poolPaths_registered (hr : refusesArgs .ssd path capacity env = false)
    (hon : ((svc.registerStorage .ssd path capacity env).2.mem.tiers .ssd).online = true) :
    (svc.registerStorage .ssd path capacity env).2.poolPaths =
      poolPathsAfter (if (svc.mem.tiers .ssd).online then svc.poolPaths else [])
        (memsvcRegisterStorage svc.mem (resource .ssd path capacity) (env.register path)) path env := by
  rcases svc.poolPaths_ssd hr with hp | ⟨-, hoff, -⟩
  · exact hp
  · rw [hoff] at hon
    cases hon

/-- Services that differ in nothing that shows answer a registration alike and go on so. -/
theorem Same.registerStorage (h : a.Same b) (tier : Tier) (path : CString) (capacity : UInt64)
    (env : PathEnv) :
    (b.registerStorage tier path capacity env).1 = (a.registerStorage tier path capacity env).1 ∧
      (a.registerStorage tier path capacity env).2.Same
        (b.registerStorage tier path capacity env).2 := by
  cases hr : refusesArgs tier path capacity env with
  | true =>
    rw [registerStorage_refused hr, registerStorage_refused hr]
    exact ⟨rfl, h⟩
  | false =>
    have htier := TierMemCtx.registerTier_congr (resource tier path capacity) (env.register path)
      (h.online tier) (h.tiers tier)
    have hfst : (b.registerStorage tier path capacity env).1 =
        (a.registerStorage tier path capacity env).1 := by
      rw [fst_registerStorage, fst_registerStorage, registerStorage_checked hr,
        registerStorage_checked hr, htier]
    have hself : (b.registerStorage tier path capacity env).2.mem.tiers tier =
        (a.registerStorage tier path capacity env).2.mem.tiers tier := by
      rw [tiers_registerStorage _ hr, tiers_registerStorage _ hr, if_pos rfl, if_pos rfl, htier]
    refine ⟨hfst, fun tier' => ?_, fun tier' hon => ?_, fun tier' hon hno => ?_, fun hon => ?_⟩
    · by_cases heq : tier' = tier
      · rw [heq, hself]
      · rw [tiers_registerStorage _ hr, tiers_registerStorage _ hr, if_neg heq, if_neg heq, h.online]
    · by_cases heq : tier' = tier
      · rw [heq, hself]
      · rw [tiers_registerStorage _ hr, if_neg heq] at hon
        rw [tiers_registerStorage _ hr, tiers_registerStorage _ hr, if_neg heq, if_neg heq, h.tiers _ hon]
    · by_cases heq : tier' = tier
      · subst heq
        rw [devicePath_registered hr hon, devicePath_registered hr (by rw [hself]; exact hon)]
      · rw [tiers_registerStorage _ hr, if_neg heq] at hon hno
        rw [devicePath_registerStorage heq, devicePath_registerStorage heq, h.paths _ hon hno]
    · by_cases heq : tier = .ssd
      · subst heq
        have hpaths : (if (b.mem.tiers .ssd).online then b.poolPaths else []) =
            if (a.mem.tiers .ssd).online then a.poolPaths else [] := by
          rw [h.online]
          split_ifs with hwas
          · exact h.poolPaths hwas
          · rfl
        rw [poolPaths_registered hr hon, poolPaths_registered hr (by rw [hself]; exact hon), hpaths,
          registerStorage_checked hr, registerStorage_checked hr, htier]
        unfold poolPathsAfter
        simp only [MemServiceCtx.tiers_setTier_same]
      · rw [tiers_registerStorage _ hr, if_neg (Ne.symm heq)] at hon
        rw [poolPaths_registerStorage heq, poolPaths_registerStorage heq, h.poolPaths hon]

/-! The topology. -/

theorem tierResources_offline (hon : (svc.mem.tiers tier).online = false) :
    svc.tierResources tier = [] := by
  unfold tierResources
  simp only [hon, Bool.not_false, if_true]

theorem tierResources_pool (hon : (svc.mem.tiers .ssd).online = true) {pool : SsdPool}
    (hp : (svc.mem.tiers .ssd).ssdPool = some pool) : svc.tierResources .ssd =
      List.zipWith (deviceResource (svc.mem.tiers .ssd).baseOffset) pool.devices svc.poolPaths := by
  unfold tierResources
  simp only [hon, hp, Bool.not_true, Bool.false_eq_true, if_false]

theorem tierResources_tier (hon : (svc.mem.tiers tier).online = true)
    (hno : ¬ (tier = .ssd ∧ (svc.mem.tiers tier).ssdPool.isSome = true)) :
    svc.tierResources tier = [svc.tierResource tier] := by
  unfold tierResources
  simp only [hon, Bool.not_true, Bool.false_eq_true, if_false]
  split
  next hp => exact absurd ⟨rfl, by rw [hp]; rfl⟩ hno
  next => rfl

theorem Same.tierResources (h : a.Same b) (tier : Tier) :
    b.tierResources tier = a.tierResources tier := by
  cases hon : (a.mem.tiers tier).online with
  | false =>
    rw [tierResources_offline hon, tierResources_offline ((h.online tier).trans hon)]
  | true =>
    have ht := h.tiers tier hon
    have hon' := (h.online tier).trans hon
    by_cases hp : tier = .ssd ∧ (a.mem.tiers tier).ssdPool.isSome = true
    · obtain ⟨rfl, hsome⟩ := hp
      obtain ⟨pool, hpool⟩ := Option.isSome_iff_exists.mp hsome
      rw [tierResources_pool hon hpool, tierResources_pool hon' (ht ▸ hpool), ht, h.poolPaths hon]
    · rw [tierResources_tier hon hp, tierResources_tier hon' (ht ▸ hp)]
      unfold tierResource
      rw [ht, h.paths tier hon hp]

theorem Same.getTopology (h : a.Same b) : b.getTopology = a.getTopology := by
  unfold LocalMemService.getTopology
  rw [show b.tierResources = a.tierResources from funext h.tierResources]

/-- The devices in the pool of the SSD tier. -/
def deviceCount (svc : LocalMemService) : ℕ :=
  ((svc.mem.tiers .ssd).ssdPool.getD ssdPoolCreate).devices.length

/-- One entry for a tier, or one for each device of the pool. -/
theorem length_tierResources (svc : LocalMemService) (tier : Tier) :
    (svc.tierResources tier).length ≤ if tier = .ssd then max 1 svc.deviceCount else 1 := by
  cases hon : (svc.mem.tiers tier).online with
  | false =>
    rw [tierResources_offline hon]
    exact Nat.zero_le _
  | true =>
    by_cases hp : tier = .ssd ∧ (svc.mem.tiers tier).ssdPool.isSome = true
    · obtain ⟨rfl, hsome⟩ := hp
      obtain ⟨pool, hpool⟩ := Option.isSome_iff_exists.mp hsome
      rw [tierResources_pool hon hpool, if_pos rfl, deviceCount, hpool, List.length_zipWith,
        Option.getD_some]
      omega
    · rw [tierResources_tier hon hp, List.length_singleton]
      split_ifs
      · omega
      · exact le_rfl

/-- The entries of a tier bear its number. -/
theorem mem_tierResources {res : Proto.StorageResource} (hres : res ∈ svc.tierResources tier) :
    res.tier.toNat = tier.id := by
  cases hon : (svc.mem.tiers tier).online with
  | false =>
    rw [tierResources_offline hon] at hres
    cases hres
  | true =>
    by_cases hp : tier = .ssd ∧ (svc.mem.tiers tier).ssdPool.isSome = true
    · obtain ⟨rfl, hsome⟩ := hp
      obtain ⟨pool, hpool⟩ := Option.isSome_iff_exists.mp hsome
      rw [tierResources_pool hon hpool] at hres
      obtain ⟨i, hi, rfl⟩ := List.mem_iff_getElem.mp hres
      rw [List.getElem_zipWith]
      rfl
    · rw [tierResources_tier hon hp, List.mem_singleton] at hres
      subst hres
      cases tier <;> rfl

theorem getTopology_ok (h : svc.deviceCount ≤ ssdPoolMaxDevices) :
    svc.getTopology = .ok ([Tier.dram, .cxl, .ssd, .resv].flatMap svc.tierResources) := by
  have hlen : ([Tier.dram, .cxl, .ssd, .resv].flatMap svc.tierResources).length ≤
      ummMaxTopologyResources := by
    have hdram := svc.length_tierResources .dram
    have hcxl := svc.length_tierResources .cxl
    have hssd := svc.length_tierResources .ssd
    have hresv := svc.length_tierResources .resv
    simp only [reduceCtorEq, if_false, if_true] at hdram hcxl hssd hresv
    simp only [List.flatMap_cons, List.flatMap_nil, List.length_append, List.length_nil]
    unfold ssdPoolMaxDevices at h
    unfold ummMaxTopologyResources
    omega
  unfold getTopology
  dsimp only
  rw [if_neg (by omega)]

/-- A tier is in the topology exactly where it is online, but for an SSD tier with a pool. -/
theorem mem_getTopology (tier : Tier) {resources : List Proto.StorageResource}
    (h : svc.getTopology = .ok resources) (hno : ¬ (tier = .ssd ∧ (svc.mem.tiers tier).ssdPool.isSome = true)) :
    (∃ res ∈ resources, res.tier.toNat = tier.id) ↔ (svc.mem.tiers tier).online = true := by
  unfold getTopology at h
  dsimp only at h
  split_ifs at h
  obtain rfl := Except.ok.inj h
  have hall : ∀ t : Tier, t ∈ [Tier.dram, .cxl, .ssd, .resv] := by
    intro t
    cases t <;> simp
  constructor
  · rintro ⟨res, hres, hid⟩
    obtain ⟨t, -, hres⟩ := List.mem_flatMap.mp hres
    obtain rfl : t = tier := Tier.id_inj ((mem_tierResources hres).symm.trans hid)
    by_contra hoff
    rw [tierResources_offline ((Bool.not_eq_true _).mp hoff)] at hres
    cases hres
  · intro hon
    refine ⟨svc.tierResource tier, List.mem_flatMap.mpr ⟨tier, hall tier, ?_⟩,
      by cases tier <;> rfl⟩
    rw [tierResources_tier hon hno]
    exact List.mem_singleton_self _

end LocalMemService

end Umm
