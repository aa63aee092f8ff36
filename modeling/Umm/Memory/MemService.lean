import Umm.Common.BitmapAllocator
import Umm.Common.Gpa
import Umm.Transport.SsdPoolIo

/-! The memory service of `mem_service_direct.c`: one page allocator per tier, a device pool
for the SSD tier, and the mapping of offsets to device memory. -/
namespace Umm
open Umm.Lib

structure TierMemCtx where
  allocator : Option BitmapAllocator
  totalSize : ℕ
  baseOffset : ℕ
  online : Bool
  /-- The bytes behind `mmap_base`, once it is set. -/
  window : Option (List UInt8)
  ssdPool : Option SsdPool

def TierMemCtx.offline : TierMemCtx := ⟨none, 0, 0, false, none, none⟩

structure MemServiceCtx where
  tiers : Tier → TierMemCtx

def MemServiceCtx.setTier (m : MemServiceCtx) (tier : Tier) (t : TierMemCtx) : MemServiceCtx :=
  ⟨Function.update m.tiers tier t⟩

@[simp] theorem MemServiceCtx.tiers_setTier_same (m : MemServiceCtx) (tier : Tier)
    (t : TierMemCtx) : (m.setTier tier t).tiers tier = t := by
  simp [setTier]

@[simp] theorem MemServiceCtx.tiers_setTier_ne (m : MemServiceCtx) {tier tier' : Tier}
    (t : TierMemCtx) (h : tier' ≠ tier) : (m.setTier tier t).tiers tier' = m.tiers tier' := by
  simp [setTier, h]

@[simp] theorem MemServiceCtx.setTier_self (m : MemServiceCtx) (tier : Tier) :
    m.setTier tier (m.tiers tier) = m := by
  simp [setTier]

@[simp] theorem MemServiceCtx.setTier_setTier (m : MemServiceCtx) (tier : Tier)
    (t t' : TierMemCtx) : (m.setTier tier t).setTier tier t' = m.setTier tier t' := by
  simp [setTier]

/-- What holds of all tiers and of the new one holds after it was set. -/
theorem MemServiceCtx.forall_setTier {m : MemServiceCtx} {tier : Tier} {t : TierMemCtx}
    (P : Tier → TierMemCtx → Prop) (hall : ∀ tier', P tier' (m.tiers tier')) (ht : P tier t) :
    ∀ tier', P tier' ((m.setTier tier t).tiers tier') :=
  (Function.forall_update_iff m.tiers P).mpr ⟨ht, fun tier' _ => hall tier'⟩

def memServiceDirectCreateV2 : MemServiceCtx := ⟨fun _ => .offline⟩

/-- What the OS answers when memory is to be mapped or allocated behind a tier. -/
inductive Backing where
  | bytes (content : ℕ → UInt8)
  | noMemory
  | failed

def Backing.window (content : ℕ → UInt8) (size : ℕ) : List UInt8 := (List.range size).map content

def ensureCxlMmap (t : TierMemCtx) (backing : Backing) : Except Error Unit × TierMemCtx :=
  match t.window with
  | some _ => (.ok (), t)
  | none =>
    match backing with
    | .bytes content => (.ok (), { t with window := some (Backing.window content t.totalSize) })
    | .noMemory => (.error .noMemory, t)
    | .failed => (.error .transportError, { t with online := false })

def memsvcAllocOnDevice (m : MemServiceCtx) (tier : Tier) (deviceIdx size : ℕ) :
    Except Error ℕ × MemServiceCtx :=
  if size = 0 then (.error .invalidArg, m)
  else if tier ≠ .ssd then (.error .unsupported, m)
  else
    let t := m.tiers tier
    match t.online, t.ssdPool with
    | true, some pool =>
      match ssdPoolAllocOnDevice pool deviceIdx size with
      | (.error e, pool') => (.error e, m.setTier tier { t with ssdPool := some pool' })
      | (.ok voffset, pool') =>
        -- the whole chunk has to be addressable by the offset field of a GPA
        if gpaOffsetMask < t.baseOffset ∨ gpaOffsetMask - t.baseOffset < voffset ∨
            gpaOffsetMask - t.baseOffset - voffset < size - 1 then
          (.error .invalidArg,
            m.setTier tier { t with ssdPool := some (ssdPoolFree pool' voffset size).2 })
        else
          (.ok (u64 (t.baseOffset + voffset)), m.setTier tier { t with ssdPool := some pool' })
    | _, _ => (.error .notInitialized, m)

/-- The allocation itself, after the tier was found online: the pool decides for an SSD tier
that has one, the tier's own bitmap for all others. -/
def TierMemCtx.alloc (t : TierMemCtx) (tier : Tier) (ba : BitmapAllocator) (size : ℕ) :
    Except Error ℕ × TierMemCtx :=
  match tier, t.ssdPool with
  | .ssd, some pool =>
    let r := ssdPoolAlloc pool size
    (r.1.map (fun voffset => u64 (t.baseOffset + voffset)), { t with ssdPool := some r.2 })
  | _, _ =>
    let r := baAlloc ba size
    (r.1.map (fun offset => u64 (t.baseOffset + offset)), { t with allocator := some r.2 })

def memsvcAllocTiered (m : MemServiceCtx) (tier : Tier) (size : ℕ) (backing : Backing) :
    Except Error ℕ × MemServiceCtx :=
  if size = 0 then (.error .invalidArg, m)
  else
    let t := m.tiers tier
    match t.online, t.allocator with
    | true, some ba =>
      let r := if tier = .cxl then ensureCxlMmap t backing else (.ok (), t)
      match r with
      | (.error e, t) => (.error e, m.setTier tier t)
      | (.ok (), t) =>
        let r := t.alloc tier ba size
        (r.1, m.setTier tier r.2)
    | _, _ => (.error .notInitialized, m)

def TierMemCtx.free (t : TierMemCtx) (tier : Tier) (ba : BitmapAllocator) (offset size : ℕ) :
    Except Error Unit × TierMemCtx :=
  match tier, t.ssdPool with
  | .ssd, some pool =>
    let r := ssdPoolFree pool (sub64 offset t.baseOffset) size
    (r.1, { t with ssdPool := some r.2 })
  | _, _ =>
    let r := baFree ba (sub64 offset t.baseOffset) size
    (r.1, { t with allocator := some r.2 })

def memsvcFreeTiered (m : MemServiceCtx) (tier : Tier) (offset size : ℕ) :
    Except Error Unit × MemServiceCtx :=
  if size = 0 then (.error .invalidArg, m)
  else
    let t := m.tiers tier
    match t.online, t.allocator with
    | true, some ba =>
      let r := t.free tier ba offset size
      (r.1, m.setTier tier r.2)
    | _, _ => (.error .notInitialized, m)

/-- A tier's storage as `register_storage` gets it. The path of an SSD device selects its
backend; an empty path is `none`. -/
structure StorageResource where
  tier : Tier
  capacity : ℕ
  baseOffset : ℕ
  device : Option BackendKind

/-- What the world answers while storage is registered. -/
structure RegisterEnv where
  /-- The path is a kernel block device and `UMM_ALLOW_BLOCK_DEVICE` is not set. -/
  blockRejected : Bool
  gotPool : Bool
  add : AddEnv
  backing : Backing

/-- The tier given up after a failed registration. -/
def TierMemCtx.dropped (t : TierMemCtx) : TierMemCtx :=
  { t with allocator := none, online := false }

def TierMemCtx.registerSsd (t : TierMemCtx) (kind : BackendKind) (capacity : ℕ) (firstReg : Bool)
    (env : RegisterEnv) : Except Error Unit × TierMemCtx :=
  match t.ssdPool, env.gotPool with
  | none, false => (.error .noMemory, t.dropped)
  | pool?, _ =>
    match ssdPoolAddDevice (pool?.getD ssdPoolCreate) kind capacity env.add with
    | (.error e, pool') =>
      if pool'.devices.length = 0 then (.error e, { t.dropped with ssdPool := none })
      else (.error e, { t with ssdPool := some pool' })
    | (.ok (), pool') =>
      (.ok (),
        { t with
          ssdPool := some pool'
          totalSize := if firstReg then t.totalSize else u64 (t.totalSize + capacity) })

def TierMemCtx.registerDram (t : TierMemCtx) (device : Option BackendKind) (backing : Backing) :
    Except Error Unit × TierMemCtx :=
  match device, backing with
  | some _, .bytes content =>
    (.ok (), { t with window := some (Backing.window content t.totalSize) })
  | some _, .failed => (.error .notFound, t.dropped)
  | none, .bytes _ =>
    (.ok (), { t with window := some (Backing.window (fun _ => 0) t.totalSize) })
  | _, _ => (.error .noMemory, t.dropped)

def memsvcRegisterStorage (m : MemServiceCtx) (res : StorageResource) (env : RegisterEnv) :
    Except Error Unit × MemServiceCtx :=
  if res.tier = .ssd ∧ res.device = some .file ∧ env.blockRejected then (.error .invalidArg, m)
  else if res.capacity = 0 then (.error .invalidArg, m)
  else
    let old := m.tiers res.tier
    let t : TierMemCtx :=
      if old.online then old
      else
        { allocator := baCreate res.capacity baDefaultPageSize
          totalSize := res.capacity
          baseOffset := res.baseOffset
          online := true
          window := none
          ssdPool := none }
    match t.allocator with
    | none => (.error .noMemory, m.setTier res.tier t.dropped)
    | some _ =>
      let r : Except Error Unit × TierMemCtx :=
        match res.tier, res.device with
        | .cxl, _ => (.ok (), t)
        | .ssd, some kind => t.registerSsd kind res.capacity (!old.online) env
        | .ssd, none => (.ok (), t)
        | .dram, device => t.registerDram device env.backing
        | .resv, _ => (.error .invalidArg, t.dropped)
      (r.1, m.setTier res.tier r.2)

/-- Registering storage for one tier leaves the others alone. -/
theorem memsvcRegisterStorage_other (m : MemServiceCtx) (res : StorageResource)
    (env : RegisterEnv) {tier : Tier} (h : tier ≠ res.tier) :
    (memsvcRegisterStorage m res env).2.tiers tier = m.tiers tier := by
  unfold memsvcRegisterStorage
  dsimp only
  split
  · rfl
  · split
    · rfl
    · split
      · exact m.tiers_setTier_ne _ h
      · exact m.tiers_setTier_ne _ h

/-- `mem_service_direct_create_tiered`: a fresh context with one memory tier. -/
def memServiceDirectCreateTiered (memorySize baseGpa : ℕ) (tier : Tier)
    (device : Option BackendKind) (env : RegisterEnv) : Option MemServiceCtx :=
  if memorySize = 0 then none
  else if tier ≠ .cxl ∧ tier ≠ .dram then none
  else
    match memsvcRegisterStorage memServiceDirectCreateV2
        { tier, capacity := memorySize, baseOffset := baseGpa, device } env with
    | (.ok (), m) => some m
    | (.error _, _) => none

def memServiceDirectCreate (memorySize baseGpa : ℕ) (env : RegisterEnv) : Option MemServiceCtx :=
  memServiceDirectCreateTiered memorySize baseGpa .cxl (some .file) env

/-- A pointer into a tier's window or into the mapping of an SSD device. -/
inductive DevicePtr where
  | window (tier : Tier) (offset : ℕ)
  | ssd (device offset : ℕ)
deriving DecidableEq, Repr

/-- `ssd_backend_get_ptr`: only file devices are mapped. -/
def ssdBackendGetPtr (sb : SsdBackend) (device offset : ℕ) : Option DevicePtr :=
  if sb.capacity ≤ offset ∨ sb.kind ≠ .file then none else some (.ssd device offset)

def ssdPoolGetPtr (pool : SsdPool) (voffset : ℕ) : Option DevicePtr :=
  match ssdPoolTranslate pool voffset with
  | .error _ => none
  | .ok (devIdx, poff) =>
    match pool.devices[devIdx]? with
    | none => none
    | some dev => ssdBackendGetPtr dev.backend devIdx poff

def ssdPoolSpanInOneDevice (pool : SsdPool) (voffset len : ℕ) : Except Error Unit :=
  if len = 0 then .error .invalidArg
  else
    match ssdPoolTranslate pool voffset with
    | .error _ => .error .notFound
    | .ok (devIdx, _) =>
      match pool.devices[devIdx]? with
      | none => .error .notFound
      | some dev =>
        if len ≤ sub64 (u64 (dev.virtualBase + dev.capacity)) voffset then .ok ()
        else .error .invalidArg

def memsvcMapDevice (m : MemServiceCtx) (tier : Tier) (offset size : ℕ) (backing : Backing) :
    Except Error DevicePtr × MemServiceCtx :=
  let t := m.tiers tier
  if t.online then
    let r := if tier = .cxl then ensureCxlMmap t backing else (.ok (), t)
    match r with
    | (.error e, t) => (.error e, m.setTier tier t)
    | (.ok (), t) =>
      let m := m.setTier tier t
      let offsetWithinTier := sub64 offset t.baseOffset
      match tier, t.ssdPool with
      | .ssd, some pool =>
        if 0 < size ∧ (ssdPoolSpanInOneDevice pool offsetWithinTier size).toOption.isNone then
          (.error .invalidArg, m)
        else
          match ssdPoolGetPtr pool offsetWithinTier with
          | none => (.error .notFound, m)
          | some ptr => (.ok ptr, m)
      | _, _ =>
        match t.window with
        | none => (.error .notInitialized, m)
        | some _ => (.ok (.window tier offsetWithinTier), m)
  else (.error .notInitialized, m)

def memsvcSsdIo (os : OsIo) (m : MemServiceCtx) (tier : Tier) (offset len : ℕ)
    (buf : List UInt8) (isWrite : Bool) :
    Option (Except Error Unit × MemServiceCtx × List UInt8) :=
  if tier ≠ .ssd then some (.error .invalidArg, m, buf)
  else
    let t := m.tiers tier
    match t.online, t.ssdPool with
    | true, some pool =>
      (ssdPoolIo os pool (sub64 offset t.baseOffset) len buf isWrite).map (fun r =>
        (r.1, m.setTier tier { t with ssdPool := some r.2.1 }, r.2.2))
    | _, _ => some (.error .notInitialized, m, buf)

end Umm
