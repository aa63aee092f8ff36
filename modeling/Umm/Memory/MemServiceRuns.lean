import Umm.Common.BitmapAllocatorEnds
import Umm.Memory.MemServiceSteps
import Umm.Transport.SsdTransport
import Umm.Transport.SsdPoolReach

/-! The memory services that the calls of `mem_service_direct.c` can build, whatever their
arguments, and what holds of every tier of them. -/
namespace Umm
open Umm.Lib

namespace MemServiceCtx

/-- All bytes of the memory that a pointer leads into, and where in it the pointer stands. -/
def behind (m : MemServiceCtx) : DevicePtr → List UInt8 × ℕ
  | .window tier offset => ((m.tiers tier).window.getD [], offset)
  | .ssd device offset =>
    match (m.tiers .ssd).ssdPool.bind (fun pool => pool.devices[device]?) with
    | none => ([], offset)
    | some dev => (dev.backend.data, offset)

/-- The `len` bytes from the pointer on are in that memory. -/
def Holds (m : MemServiceCtx) (ptr : DevicePtr) (len : ℕ) : Prop :=
  (m.behind ptr).2 + len ≤ (m.behind ptr).1.length

instance (m : MemServiceCtx) (ptr : DevicePtr) (len : ℕ) : Decidable (m.Holds ptr len) := by
  unfold Holds
  infer_instance

/-- A read through a pointer; `none` is a read outside of the memory that it leads into. -/
def loadAt (m : MemServiceCtx) (ptr : DevicePtr) (len : ℕ) : Option (List UInt8) :=
  if m.Holds ptr len then some (m.load ptr len) else none

def storeAt (m : MemServiceCtx) (ptr : DevicePtr) (bytes : List UInt8) : Option MemServiceCtx :=
  if m.Holds ptr bytes.length then some (m.store ptr bytes) else none

end MemServiceCtx

/-- A call of the service, or a copy to memory that it has mapped. -/
inductive MemsvcCall where
  | registerStorage (tier : Tier) (capacity baseOffset : UInt64) (device : Option BackendKind)
      (env : RegisterEnv)
  | allocTiered (tier : Tier) (size : UInt64) (backing : Backing)
  | allocOnDevice (tier : Tier) (deviceIdx : UInt32) (size : UInt64)
  | freeTiered (tier : Tier) (offset size : UInt64)
  | mapDevice (tier : Tier) (offset size : UInt64) (backing : Backing)
  | ssdIo (os : OsIo) (tier : Tier) (offset len : UInt64) (buf : List UInt8) (isWrite : Bool)
  | store (ptr : DevicePtr) (bytes : List UInt8)

namespace MemsvcCall

def resource (tier : Tier) (capacity baseOffset : UInt64) (device : Option BackendKind) :
    StorageResource :=
  { tier, capacity := capacity.toNat, baseOffset := baseOffset.toNat, device }

def run (m : MemServiceCtx) : MemsvcCall → Option MemServiceCtx
  | registerStorage tier capacity baseOffset device env =>
    some (memsvcRegisterStorage m (resource tier capacity baseOffset device) env).2
  | allocTiered tier size backing => some (memsvcAllocTiered m tier size.toNat backing).2
  | allocOnDevice tier deviceIdx size =>
    some (memsvcAllocOnDevice m tier deviceIdx.toNat size.toNat).2
  | freeTiered tier offset size => some (memsvcFreeTiered m tier offset.toNat size.toNat).2
  | mapDevice tier offset size backing =>
    some (memsvcMapDevice m tier offset.toNat size.toNat backing).2
  | ssdIo os tier offset len buf isWrite =>
    (memsvcSsdIo os m tier offset.toNat len.toNat buf isWrite).map (·.2.1)
  | store ptr bytes => m.storeAt ptr bytes

end MemsvcCall

/-- The bitmaps of the SSD devices lie in the memory of the process. -/
def MemServiceCtx.FitsMemory (m : MemServiceCtx) : Prop :=
  ∀ pool, (m.tiers .ssd).ssdPool = some pool → pool.bitmapBytes ≤ mmapWindow

def MemsvcCall.Step (m : MemServiceCtx) (call : MemsvcCall) (m' : MemServiceCtx) : Prop :=
  call.run m = some m' ∧ m'.FitsMemory

def MemServiceCtx.Reachable (m : MemServiceCtx) : Prop :=
  Reach (· = memServiceDirectCreateV2) MemsvcCall.Step m

/-- The pool of an SSD tier: well formed, with a device, and in memory. -/
structure SsdPool.Backed (pool : SsdPool) : Prop where
  wf : pool.WF
  nonempty : pool.devices ≠ []
  fits : pool.bitmapBytes ≤ mmapWindow

namespace SsdPool.Backed

variable {pool pool' : SsdPool}

theorem of_devices (h : pool.Backed) (hw : pool'.WF) (hd : pool'.devices = pool.devices) :
    pool'.Backed := by
  refine ⟨hw, hd ▸ h.nonempty, ?_⟩
  have hfits := h.fits
  unfold bitmapBytes at hfits ⊢
  rw [hd]
  exact hfits

/-- New data on the devices. -/
theorem of_blank (h : pool.Backed) (hw : pool'.WF) (hb : pool'.blank = pool.blank) :
    pool'.Backed := by
  have hdev : pool'.blank.devices = pool.blank.devices := congrArg SsdPool.devices hb
  have hbytes : ∀ p : SsdPool, p.blank.bitmapBytes = p.bitmapBytes := by
    intro p
    unfold bitmapBytes blank
    rw [List.map_map]
    rfl
  refine ⟨hw, fun hnil => h.nonempty ?_, ?_⟩
  · have hnil' : pool.blank.devices = [] := by
      rw [← hdev]
      exact List.map_eq_nil_iff.mpr hnil
    exact List.map_eq_nil_iff.mp hnil'
  · rw [← hbytes, hb, hbytes]
    exact h.fits

theorem alloc (h : pool.Backed) (size : ℕ) : (ssdPoolAlloc pool size).2.Backed :=
  h.of_devices (h.wf.alloc size) (ssdPoolAlloc_devices size)

theorem allocOnDevice (h : pool.Backed) (deviceIdx size : ℕ) :
    (ssdPoolAllocOnDevice pool deviceIdx size).2.Backed :=
  h.of_devices (h.wf.allocOnDevice deviceIdx size) (ssdPoolAllocOnDevice_devices deviceIdx size)

theorem free (h : pool.Backed) (voffset size : ℕ) : (ssdPoolFree pool voffset size).2.Backed :=
  h.of_devices (h.wf.free voffset size) (ssdPoolFree_devices voffset size)

theorem io (h : pool.Backed) {os : OsIo} {isWrite : Bool} {voffset len : ℕ}
    {buf buf' : List UInt8} {r : Except Error Unit}
    (hio : ssdPoolIo os pool voffset len buf isWrite = some (r, pool', buf')) : pool'.Backed :=
  h.of_blank (h.wf.io hio).1 (h.wf.io hio).2

theorem store (h : pool.Backed) {device offset : ℕ} {dev : SsdDevice} {bytes : List UInt8}
    (hdev : pool.devices[device]? = some dev) (hfit : offset + bytes.length ≤ dev.backend.data.length) :
    (pool.setBackend device
      { dev.backend with data := splice dev.backend.data offset bytes }).Backed := by
  have hdata := (h.wf.backed dev (List.mem_of_getElem? hdev)).2
  exact h.of_blank (h.wf.setBackend hdev (by rw [length_splice hfit, hdata]))
    (blank_setBackend hdev)

end SsdPool.Backed

namespace TierMemCtx

/-- Allocator, window and pool of a tier belong together, online or not. -/
structure Shaped (t : TierMemCtx) (tier : Tier) : Prop where
  base_lt : t.baseOffset < 2 ^ 64
  total_lt : t.totalSize < 2 ^ 64
  shape : tier ≠ .ssd → ∀ ba, t.allocator = some ba → ba.Shape t.totalSize baDefaultPageSize
  window : ∀ w, t.window = some w → tier ≠ .ssd ∧ w.length = t.totalSize
  pool : ∀ pool, t.ssdPool = some pool → tier = .ssd ∧ pool.Backed

/-- A tier that is online has an allocator, and a DRAM tier its memory; the reserved tier is
never online. -/
structure Sound (t : TierMemCtx) (tier : Tier) : Prop extends t.Shaped tier where
  allocator : t.online = true → ∃ ba, t.allocator = some ba
  dram : tier = .dram → t.online = true → ∃ w, t.window = some w
  resv : tier = .resv → t.online = false

variable {t : TierMemCtx} {tier : Tier}

theorem sound_offline : TierMemCtx.offline.Sound tier where
  base_lt := by decide
  total_lt := by decide
  shape := fun _ _ h => nomatch h
  window := fun _ h => nomatch h
  pool := fun _ h => nomatch h
  allocator := fun h => nomatch h
  dram := fun _ h => nomatch h
  resv := fun _ => rfl

/-- A tier that is given up. -/
theorem Shaped.dropped (h : t.Shaped tier) : t.dropped.Sound tier where
  base_lt := h.base_lt
  total_lt := h.total_lt
  shape := fun _ _ ha => nomatch ha
  window := h.window
  pool := h.pool
  allocator := fun ho => nomatch ho
  dram := fun _ ho => nomatch ho
  resv := fun _ => rfl

theorem Shaped.withWindow (h : t.Shaped tier) (ht : tier ≠ .ssd) {w : List UInt8}
    (hlen : w.length = t.totalSize) : Shaped { t with window := some w } tier where
  base_lt := h.base_lt
  total_lt := h.total_lt
  shape := h.shape
  window := by
    intro w' hw
    obtain rfl := Option.some.inj hw
    exact ⟨ht, hlen⟩
  pool := h.pool

theorem Sound.withAllocator (h : t.Sound tier) {ba : BitmapAllocator}
    (hs : tier ≠ .ssd → ba.Shape t.totalSize baDefaultPageSize) :
    Sound { t with allocator := some ba } tier where
  base_lt := h.base_lt
  total_lt := h.total_lt
  shape := by
    intro ht ba' ha
    obtain rfl := Option.some.inj ha
    exact hs ht
  window := h.window
  pool := h.pool
  allocator := fun _ => ⟨ba, rfl⟩
  dram := h.dram
  resv := h.resv

theorem Sound.withPool (h : t.Sound tier) (ht : tier = .ssd) {pool : SsdPool}
    (hp : pool.Backed) : Sound { t with ssdPool := some pool } tier where
  base_lt := h.base_lt
  total_lt := h.total_lt
  shape := h.shape
  window := h.window
  pool := by
    intro pool' hpool
    obtain rfl := Option.some.inj hpool
    exact ⟨ht, hp⟩
  allocator := h.allocator
  dram := h.dram
  resv := h.resv

theorem length_backing (content : ℕ → UInt8) (size : ℕ) :
    (Backing.window content size).length = size := by
  simp [Backing.window]

/-- The memory of a tier, put in place of what was there before. -/
theorem Sound.mapped (h : t.Shaped tier) (ht : tier = .cxl ∨ tier = .dram)
    (ha : ∃ ba, t.allocator = some ba) (content : ℕ → UInt8) :
    Sound { t with window := some (Backing.window content t.totalSize) } tier where
  toShaped := h.withWindow (by rintro rfl; simp at ht) (length_backing content t.totalSize)
  allocator := fun _ => ha
  dram := fun _ _ => ⟨_, rfl⟩
  resv := by
    rintro rfl
    simp at ht

/-- The tier after the CXL window was prepared for a call. -/
theorem Sound.prepared (h : t.Sound tier) {t' : TierMemCtx} {r : Except Error Unit}
    (hprep : t.Prepared tier r t') : t'.Sound tier := by
  cases hprep with
  | ready => exact h
  | mapped content hc =>
    subst hc
    exact ⟨h.toShaped.withWindow (by decide) (length_backing content t.totalSize), h.allocator,
      (fun hc => nomatch hc), (fun hc => nomatch hc)⟩
  | noMemory => exact h
  | failed hc =>
    subst hc
    exact ⟨⟨h.base_lt, h.total_lt, h.shape, h.window, h.pool⟩, (fun hc => nomatch hc),
      (fun hc => nomatch hc), (fun hc => nomatch hc)⟩

theorem Sound.alloc (h : t.Sound tier) {ba : BitmapAllocator} (ha : t.allocator = some ba)
    (size : ℕ) : (t.alloc tier ba size).2.Sound tier := by
  unfold TierMemCtx.alloc
  split
  next pool hpool => exact h.withPool rfl ((h.pool pool hpool).2.alloc size)
  next => exact h.withAllocator fun ht => (h.shape ht ba ha).alloc size

theorem Sound.free (h : t.Sound tier) {ba : BitmapAllocator} (ha : t.allocator = some ba)
    (offset size : ℕ) : (t.free tier ba offset size).2.Sound tier := by
  unfold TierMemCtx.free
  split
  next pool hpool => exact h.withPool rfl ((h.pool pool hpool).2.free _ size)
  next => exact h.withAllocator fun ht => (h.shape ht ba ha).free _ size

/-! Registration, where the result has to fit into memory. -/

theorem Sound.registerDram (h : t.Shaped .dram) (ha : ∃ ba, t.allocator = some ba)
    (device : Option BackendKind) (backing : Backing) :
    (t.registerDram device backing).2.Sound .dram := by
  unfold TierMemCtx.registerDram
  split
  · exact Sound.mapped h (Or.inr rfl) ha _
  · exact h.dropped
  · exact Sound.mapped h (Or.inr rfl) ha _
  · exact h.dropped

/-- The pool cannot be made, or a device is added to it or refused. -/
theorem registerSsd_cases (t : TierMemCtx) (kind : BackendKind) (capacity : ℕ) (firstReg : Bool)
    (env : RegisterEnv) :
    (t.ssdPool = none ∧ env.gotPool = false ∧
      t.registerSsd kind capacity firstReg env = (.error .noMemory, t.dropped)) ∨
    (∃ e, ssdPoolAddDevice (t.ssdPool.getD ssdPoolCreate) kind capacity env.add =
        (.error e, t.ssdPool.getD ssdPoolCreate) ∧
      t.registerSsd kind capacity firstReg env =
        (.error e, if (t.ssdPool.getD ssdPoolCreate).devices.length = 0
          then { t.dropped with ssdPool := none }
          else { t with ssdPool := some (t.ssdPool.getD ssdPoolCreate) })) ∨
    ∃ pool', ssdPoolAddDevice (t.ssdPool.getD ssdPoolCreate) kind capacity env.add =
        (.ok (), pool') ∧
      t.registerSsd kind capacity firstReg env =
        (.ok (), { t with
          ssdPool := some pool'
          totalSize := if firstReg then t.totalSize else u64 (t.totalSize + capacity) }) := by
  unfold TierMemCtx.registerSsd
  split
  next hpool hgot => exact Or.inl ⟨hpool, hgot, rfl⟩
  next hne =>
    right
    split
    next e pool' hadd =>
      left
      obtain rfl := ssdPoolAddDevice_error hadd
      refine ⟨e, hadd, ?_⟩
      split_ifs <;> rfl
    next pool' hadd => exact Or.inr ⟨pool', hadd, rfl⟩

theorem Sound.registerSsd (h : t.Shaped .ssd) (ha : ∃ ba, t.allocator = some ba)
    (kind : BackendKind) (capacity : ℕ) (firstReg : Bool) (env : RegisterEnv)
    (hfits : ∀ pool, (t.registerSsd kind capacity firstReg env).2.ssdPool = some pool →
      pool.bitmapBytes ≤ mmapWindow) :
    (t.registerSsd kind capacity firstReg env).2.Sound .ssd := by
  have hold : (t.ssdPool.getD ssdPoolCreate).WF := by
    cases hp : t.ssdPool with
    | none => exact ssdPoolCreate_wf
    | some pool => exact (h.pool pool hp).2.wf
  have hssd : ∀ t' : TierMemCtx, t'.Shaped .ssd → (∃ ba, t'.allocator = some ba) →
      t'.Sound .ssd := fun t' hs ha' =>
    ⟨hs, fun _ => ha', fun hc => (nomatch hc), fun hc => (nomatch hc)⟩
  rcases t.registerSsd_cases kind capacity firstReg env with
    ⟨-, -, he⟩ | ⟨e, -, he⟩ | ⟨pool', hadd, he⟩
  · rw [he]
    exact h.dropped
  · rw [he] at hfits ⊢
    dsimp only at hfits ⊢
    split_ifs with hlen
    · exact ⟨⟨h.base_lt, h.total_lt, (fun _ _ hc => nomatch hc), h.window, (fun _ hc => nomatch hc)⟩,
        (fun hc => nomatch hc), (fun hc => nomatch hc), (fun hc => nomatch hc)⟩
    · rw [if_neg hlen] at hfits
      refine hssd _ ⟨h.base_lt, h.total_lt, fun hc => absurd rfl hc, h.window, ?_⟩ ha
      rintro _ ⟨⟩
      exact ⟨rfl, hold, by rintro hnil; simp [hnil] at hlen, hfits _ rfl⟩
  · rw [he] at hfits ⊢
    have hb := hfits pool' rfl
    have hw := hold.add kind capacity env.add (by rw [hadd]; exact hb)
    rw [hadd] at hw
    refine hssd _ ⟨h.base_lt, ?_, fun hc => absurd rfl hc, ?_, ?_⟩ ha
    · dsimp only
      split_ifs
      · exact h.total_lt
      · exact u64_lt _
    · intro w hw
      exact absurd rfl (h.window w hw).1
    · rintro _ ⟨⟩
      obtain ⟨sb, -, -, -, -, rfl⟩ := ssdPoolAddDevice_ok hadd
      exact ⟨rfl, hw, by simp [SsdPool.grown], hb⟩

theorem Shaped.registering (h : t.Shaped tier) {res : StorageResource} (hcap : res.capacity < 2 ^ 64)
    (hbase : res.baseOffset < 2 ^ 64) : (t.registering res).Shaped tier := by
  rcases t.registering_cases res with ⟨-, he⟩ | ⟨-, he⟩
  · rwa [he]
  · rw [he]
    exact ⟨hbase, hcap, fun _ ba hb => BitmapAllocator.shape_create hcap hb,
      (fun _ hc => nomatch hc), (fun _ hc => nomatch hc)⟩

theorem Sound.registerTier {res : StorageResource} (h : t.Sound res.tier) (env : RegisterEnv)
    (hcap : res.capacity < 2 ^ 64) (hbase : res.baseOffset < 2 ^ 64)
    (hfits : res.tier = .ssd → ∀ pool, (t.registerTier res env).2.ssdPool = some pool →
      pool.bitmapBytes ≤ mmapWindow) : (t.registerTier res env).2.Sound res.tier := by
  have hshaped := h.toShaped.registering hcap hbase
  unfold TierMemCtx.registerTier at hfits ⊢
  dsimp only at hfits ⊢
  split
  · exact hshaped.dropped
  next ba ha =>
    rw [ha] at hfits
    obtain ⟨tier, capacity, baseOffset, device⟩ := res
    dsimp only at hfits hshaped ⊢
    cases tier with
    | cxl =>
      exact ⟨hshaped, fun _ => ⟨ba, ha⟩, (fun hc => nomatch hc), (fun hc => nomatch hc)⟩
    | dram => exact Sound.registerDram hshaped ⟨ba, ha⟩ device env.backing
    | resv => exact hshaped.dropped
    | ssd =>
      cases device with
      | none => exact ⟨hshaped, fun _ => ⟨ba, ha⟩, (fun hc => nomatch hc), (fun hc => nomatch hc)⟩
      | some kind => exact Sound.registerSsd hshaped ⟨ba, ha⟩ kind capacity _ env (hfits rfl)

end TierMemCtx

namespace MemServiceCtx

variable {m m' : MemServiceCtx}

def Sound (m : MemServiceCtx) : Prop := ∀ tier, (m.tiers tier).Sound tier

theorem Sound.setTier (h : m.Sound) {tier : Tier} {t : TierMemCtx} (ht : t.Sound tier) :
    (m.setTier tier t).Sound :=
  forall_setTier (fun tier t => t.Sound tier) h ht

theorem Sound.allocTiered (h : m.Sound) (tier : Tier) (size : ℕ) (backing : Backing) :
    (memsvcAllocTiered m tier size backing).2.Sound := by
  cases hcall : memsvcAllocTiered m tier size backing with
  | mk r m' =>
    cases memsvcAllocTiered_cases hcall with
    | refused => exact h
    | unprepared hprep => exact h.setTier ((h tier).prepared hprep)
    | answered _ _ ha hprep hal =>
      have hs := ((h tier).prepared hprep).alloc (hprep.allocator.trans ha) size
      rw [hal] at hs
      exact h.setTier hs

theorem Sound.freeTiered (h : m.Sound) (tier : Tier) (offset size : ℕ) :
    (memsvcFreeTiered m tier offset size).2.Sound := by
  cases hcall : memsvcFreeTiered m tier offset size with
  | mk r m' =>
    cases memsvcFreeTiered_cases hcall with
    | refused => exact h
    | answered _ _ ha hf =>
      have hs := (h tier).free ha offset size
      rw [hf] at hs
      exact h.setTier hs

theorem Sound.allocOnDevice (h : m.Sound) (tier : Tier) (deviceIdx size : ℕ) :
    (memsvcAllocOnDevice m tier deviceIdx size).2.Sound := by
  have hpool : ∀ {pool pool' r}, (m.tiers .ssd).ssdPool = some pool →
      ssdPoolAllocOnDevice pool deviceIdx size = (r, pool') → pool'.Backed := by
    intro pool pool' r hp hr
    have hb := ((h .ssd).pool pool hp).2.allocOnDevice deviceIdx size
    rw [hr] at hb
    exact hb
  cases hcall : memsvcAllocOnDevice m tier deviceIdx size with
  | mk r m' =>
    cases memsvcAllocOnDevice_cases hcall with
    | refused => exact h
    | full hp hr => exact h.setTier ((h .ssd).withPool rfl (hpool hp hr))
    | beyond hp hr => exact h.setTier ((h .ssd).withPool rfl ((hpool hp hr).free _ size))
    | answered _ _ hp hr => exact h.setTier ((h .ssd).withPool rfl (hpool hp hr))

theorem Sound.mapDevice (h : m.Sound) (tier : Tier) (offset size : ℕ) (backing : Backing) :
    (memsvcMapDevice m tier offset size backing).2.Sound := by
  rcases memsvcMapDevice_cases m tier offset size backing with he | ⟨r, t, hprep, he⟩
  · rw [he]
    exact h
  · rw [he]
    exact h.setTier ((h tier).prepared hprep)

theorem Sound.ssdIo (h : m.Sound) {os : OsIo} {tier : Tier} {offset len : ℕ} {buf : List UInt8}
    {isWrite : Bool} {r : Except Error Unit × MemServiceCtx × List UInt8}
    (hio : memsvcSsdIo os m tier offset len buf isWrite = some r) : r.2.1.Sound := by
  cases memsvcSsdIo_cases hio with
  | refused => exact h
  | answered hp hr => exact h.setTier ((h .ssd).withPool rfl (((h .ssd).pool _ hp).2.io hr))

theorem Sound.store (h : m.Sound) {ptr : DevicePtr} {bytes : List UInt8}
    (hin : m.Holds ptr bytes.length) : (m.store ptr bytes).Sound := by
  unfold Holds behind at hin
  unfold MemServiceCtx.store
  cases ptr with
  | window tier offset =>
    dsimp only at hin
    refine h.setTier ?_
    have hs := h tier
    cases hw : (m.tiers tier).window with
    | none =>
      rw [Option.map_none, ← hw]
      exact hs
    | some w =>
      rw [hw] at hin
      obtain ⟨ht, hlen⟩ := hs.window w hw
      have hlen' := (length_splice hin).trans hlen
      exact ⟨hs.toShaped.withWindow ht hlen', hs.allocator, fun _ _ => ⟨_, rfl⟩, hs.resv⟩
  | ssd device offset =>
    dsimp only at hin ⊢
    split
    · exact h
    next pool hpool =>
      split
      · exact h
      next dev hdev =>
        rw [hpool, Option.bind_some, hdev] at hin
        exact h.setTier ((h .ssd).withPool rfl (((h .ssd).pool pool hpool).2.store hdev hin))

theorem Sound.registerStorage (h : m.Sound) {res : StorageResource} (env : RegisterEnv)
    (hcap : res.capacity < 2 ^ 64) (hbase : res.baseOffset < 2 ^ 64)
    (hfits : (memsvcRegisterStorage m res env).2.FitsMemory) :
    (memsvcRegisterStorage m res env).2.Sound := by
  rcases TierMemCtx.memsvcRegisterStorage_cases m res env with he | he
  · rw [he]
    exact h
  · rw [he] at hfits ⊢
    refine h.setTier ((h res.tier).registerTier env hcap hbase fun hssd pool hpool => ?_)
    exact hfits pool (by rw [← hssd, tiers_setTier_same]; exact hpool)

theorem Sound.step (h : m.Sound) {call : MemsvcCall} (hs : MemsvcCall.Step m call m') : m'.Sound := by
  obtain ⟨hrun, hfits⟩ := hs
  cases call with
  | registerStorage tier capacity baseOffset device env =>
    obtain rfl := Option.some.inj hrun
    exact h.registerStorage env capacity.toNat_lt baseOffset.toNat_lt hfits
  | allocTiered tier size backing =>
    obtain rfl := Option.some.inj hrun
    exact h.allocTiered tier size.toNat backing
  | allocOnDevice tier deviceIdx size =>
    obtain rfl := Option.some.inj hrun
    exact h.allocOnDevice tier deviceIdx.toNat size.toNat
  | freeTiered tier offset size =>
    obtain rfl := Option.some.inj hrun
    exact h.freeTiered tier offset.toNat size.toNat
  | mapDevice tier offset size backing =>
    obtain rfl := Option.some.inj hrun
    exact h.mapDevice tier offset.toNat size.toNat backing
  | ssdIo os tier offset len buf isWrite =>
    obtain ⟨r, hio, rfl⟩ := Option.map_eq_some_iff.mp hrun
    exact h.ssdIo hio
  | store ptr bytes =>
    simp only [MemsvcCall.run, storeAt] at hrun
    split_ifs at hrun with hin
    obtain rfl := Option.some.inj hrun
    exact h.store hin

theorem Reachable.sound (h : m.Reachable) : m.Sound := by
  refine Reach.invariant (P := Sound) ?_ (fun _ _ _ hs hstep => hs.step hstep) h
  rintro _ rfl tier
  exact TierMemCtx.sound_offline

theorem Reachable.next (h : m.Reachable) (call : MemsvcCall) (hrun : call.run m = some m')
    (hfits : m'.FitsMemory) : m'.Reachable :=
  Reach.next call h ⟨hrun, hfits⟩

end MemServiceCtx

end Umm
