import Umm.Memory.MemService

/-! What each call of the memory service can do to its tiers. -/
namespace Umm
open Umm.Lib

/-- The CXL window of a tier is prepared for a call. Other tiers are always ready. -/
inductive TierMemCtx.Prepared (t : TierMemCtx) (tier : Tier) :
    Except Error Unit → TierMemCtx → Prop
  | ready : (tier = .cxl → ∃ w, t.window = some w) → Prepared t tier (.ok ()) t
  | mapped (content : ℕ → UInt8) : tier = .cxl → Prepared t tier (.ok ())
      { t with window := some (Backing.window content t.totalSize) }
  | noMemory : tier = .cxl → Prepared t tier (.error .noMemory) t
  | failed : tier = .cxl → Prepared t tier (.error .transportError) { t with online := false }

namespace TierMemCtx

variable {t t' : TierMemCtx} {tier : Tier} {backing : Backing} {r : Except Error Unit}

theorem prepared (h : (if tier = .cxl then ensureCxlMmap t backing else (.ok (), t)) = (r, t')) :
    t.Prepared tier r t' := by
  split_ifs at h with ht
  · unfold ensureCxlMmap at h
    split at h
    next w hw =>
      obtain ⟨rfl, rfl⟩ := Prod.mk.inj h
      exact .ready fun _ => ⟨w, hw⟩
    · split at h
      next content =>
        obtain ⟨rfl, rfl⟩ := Prod.mk.inj h
        exact .mapped content ht
      · obtain ⟨rfl, rfl⟩ := Prod.mk.inj h
        exact .noMemory ht
      · obtain ⟨rfl, rfl⟩ := Prod.mk.inj h
        exact .failed ht
  · obtain ⟨rfl, rfl⟩ := Prod.mk.inj h
    exact .ready fun hc => absurd hc ht

theorem Prepared.allocator (h : t.Prepared tier r t') : t'.allocator = t.allocator := by
  cases h <;> rfl

theorem Prepared.ssdPool (h : t.Prepared tier r t') : t'.ssdPool = t.ssdPool := by
  cases h <;> rfl

theorem Prepared.baseOffset (h : t.Prepared tier r t') : t'.baseOffset = t.baseOffset := by
  cases h <;> rfl

theorem Prepared.online (h : t.Prepared tier (.ok ()) t') : t'.online = t.online := by
  cases h <;> rfl

/-- An SSD tier has no window to prepare. -/
theorem Prepared.ssd (h : t.Prepared .ssd r t') : t' = t := by
  cases h with
  | ready _ => rfl
  | mapped _ hc => cases hc
  | noMemory hc => cases hc
  | failed hc => cases hc

/-- The tier that a registration goes on with. -/
def registering (t : TierMemCtx) (res : StorageResource) : TierMemCtx :=
  if t.online then t
  else
    { allocator := baCreate res.capacity baDefaultPageSize
      totalSize := res.capacity
      baseOffset := res.baseOffset
      online := true
      window := none
      ssdPool := none }

/-- What is left of a registration once the arguments are checked. -/
def registerTier (t : TierMemCtx) (res : StorageResource) (env : RegisterEnv) :
    Except Error Unit × TierMemCtx :=
  let t' := t.registering res
  match t'.allocator with
  | none => (.error .noMemory, t'.dropped)
  | some _ =>
    match res.tier, res.device with
    | .cxl, _ => (.ok (), t')
    | .ssd, some kind => t'.registerSsd kind res.capacity (!t.online) env
    | .ssd, none => (.ok (), t')
    | .dram, device => t'.registerDram device env.backing
    | .resv, _ => (.error .invalidArg, t'.dropped)

variable {res : StorageResource}

/-- The tier that a registration goes on with is the tier itself, or a new one. -/
theorem registering_cases (t : TierMemCtx) (res : StorageResource) :
    t.online = true ∧ t.registering res = t ∨ t.online = false ∧ t.registering res =
      { allocator := baCreate res.capacity baDefaultPageSize
        totalSize := res.capacity
        baseOffset := res.baseOffset
        online := true
        window := none
        ssdPool := none } := by
  unfold registering
  cases t.online with
  | true => exact .inl ⟨rfl, rfl⟩
  | false => exact .inr ⟨rfl, rfl⟩

theorem memsvcRegisterStorage_eq (m : MemServiceCtx) (res : StorageResource) (env : RegisterEnv) :
    memsvcRegisterStorage m res env =
      if res.tier = .ssd ∧ res.device = some .file ∧ env.blockRejected then (.error .invalidArg, m)
      else if res.capacity = 0 then (.error .invalidArg, m)
      else
        let r := (m.tiers res.tier).registerTier res env
        (r.1, m.setTier res.tier r.2) := by
  unfold memsvcRegisterStorage registerTier registering
  dsimp only
  split_ifs
  · rfl
  · rfl
  · cases (m.tiers res.tier).allocator <;> rfl
  · cases baCreate res.capacity baDefaultPageSize <;> rfl

/-- A registration is refused for its arguments, or answered by its tier. -/
theorem memsvcRegisterStorage_cases (m : MemServiceCtx) (res : StorageResource)
    (env : RegisterEnv) : memsvcRegisterStorage m res env = (.error .invalidArg, m) ∨
      memsvcRegisterStorage m res env = (((m.tiers res.tier).registerTier res env).1,
        m.setTier res.tier ((m.tiers res.tier).registerTier res env).2) := by
  rw [memsvcRegisterStorage_eq]
  split_ifs
  · exact .inl rfl
  · exact .inl rfl
  · exact .inr rfl

end TierMemCtx

/-- An allocation on a tier. -/
inductive AllocatesTiered (m : MemServiceCtx) (tier : Tier) (size : ℕ) :
    Except Error ℕ → MemServiceCtx → Prop
  | refused (e : Error) : AllocatesTiered m tier size (.error e) m
  | unprepared {e : Error} {t : TierMemCtx} : (m.tiers tier).Prepared tier (.error e) t →
      AllocatesTiered m tier size (.error e) (m.setTier tier t)
  | answered {ba : BitmapAllocator} {t t' : TierMemCtx} {r : Except Error ℕ} : size ≠ 0 →
      (m.tiers tier).online = true → (m.tiers tier).allocator = some ba →
      (m.tiers tier).Prepared tier (.ok ()) t → t.alloc tier ba size = (r, t') →
      AllocatesTiered m tier size r (m.setTier tier t')

inductive FreesTiered (m : MemServiceCtx) (tier : Tier) (offset size : ℕ) :
    Except Error Unit → MemServiceCtx → Prop
  | refused (e : Error) : FreesTiered m tier offset size (.error e) m
  | answered {ba : BitmapAllocator} {t' : TierMemCtx} {r : Except Error Unit} : size ≠ 0 →
      (m.tiers tier).online = true → (m.tiers tier).allocator = some ba →
      (m.tiers tier).free tier ba offset size = (r, t') →
      FreesTiered m tier offset size r (m.setTier tier t')

/-- The offset field of an address does not reach the end of `size` bytes at `voffset`. -/
def TierMemCtx.Beyond (t : TierMemCtx) (voffset size : ℕ) : Prop :=
  gpaOffsetMask < t.baseOffset ∨ gpaOffsetMask - t.baseOffset < voffset ∨
    gpaOffsetMask - t.baseOffset - voffset < size - 1

/-- An allocation on one device of the SSD tier. -/
inductive AllocatesOnDevice (m : MemServiceCtx) (deviceIdx size : ℕ) :
    Tier → Except Error ℕ → MemServiceCtx → Prop
  | refused (tier : Tier) (e : Error) : AllocatesOnDevice m deviceIdx size tier (.error e) m
  | full {pool pool' : SsdPool} {e : Error} : (m.tiers .ssd).ssdPool = some pool →
      ssdPoolAllocOnDevice pool deviceIdx size = (.error e, pool') →
      AllocatesOnDevice m deviceIdx size .ssd (.error e)
        (m.setTier .ssd { m.tiers .ssd with ssdPool := some pool' })
  | beyond {pool pool' : SsdPool} {voffset : ℕ} : (m.tiers .ssd).ssdPool = some pool →
      ssdPoolAllocOnDevice pool deviceIdx size = (.ok voffset, pool') →
      AllocatesOnDevice m deviceIdx size .ssd (.error .invalidArg) (m.setTier .ssd
        { m.tiers .ssd with ssdPool := some (ssdPoolFree pool' voffset size).2 })
  | answered {pool pool' : SsdPool} {voffset : ℕ} : size ≠ 0 →
      (m.tiers .ssd).online = true → (m.tiers .ssd).ssdPool = some pool →
      ssdPoolAllocOnDevice pool deviceIdx size = (.ok voffset, pool') →
      ¬ (m.tiers .ssd).Beyond voffset size →
      AllocatesOnDevice m deviceIdx size .ssd (.ok (u64 ((m.tiers .ssd).baseOffset + voffset)))
        (m.setTier .ssd { m.tiers .ssd with ssdPool := some pool' })

/-- Device I/O on the SSD tier, with the buffer it was given and the one it leaves. -/
inductive PerformsSsdIo (os : OsIo) (m : MemServiceCtx) (offset len : ℕ) (buf : List UInt8)
    (isWrite : Bool) : Tier → Except Error Unit × MemServiceCtx × List UInt8 → Prop
  | refused (tier : Tier) (e : Error) :
      PerformsSsdIo os m offset len buf isWrite tier (.error e, m, buf)
  | answered {pool pool' : SsdPool} {r : Except Error Unit} {buf' : List UInt8} :
      (m.tiers .ssd).ssdPool = some pool →
      ssdPoolIo os pool (sub64 offset (m.tiers .ssd).baseOffset) len buf isWrite =
        some (r, pool', buf') →
      PerformsSsdIo os m offset len buf isWrite .ssd
        (r, m.setTier .ssd { m.tiers .ssd with ssdPool := some pool' }, buf')

section Steps

variable {m m' : MemServiceCtx} {tier : Tier} {size offset : ℕ} {backing : Backing}

theorem memsvcAllocTiered_cases {r : Except Error ℕ}
    (h : memsvcAllocTiered m tier size backing = (r, m')) : AllocatesTiered m tier size r m' := by
  unfold memsvcAllocTiered at h
  by_cases hs : size = 0
  · rw [if_pos hs] at h
    obtain ⟨rfl, rfl⟩ := Prod.mk.inj h
    exact .refused _
  rw [if_neg hs] at h
  dsimp only at h
  split at h
  next ba hon hba =>
    split at h
    next e t hr =>
      obtain ⟨rfl, rfl⟩ := Prod.mk.inj h
      exact .unprepared (TierMemCtx.prepared hr)
    next t hr =>
      obtain ⟨rfl, rfl⟩ := Prod.mk.inj h
      exact .answered hs hon hba (TierMemCtx.prepared hr) rfl
  next =>
    obtain ⟨rfl, rfl⟩ := Prod.mk.inj h
    exact .refused _

theorem memsvcFreeTiered_cases {r : Except Error Unit}
    (h : memsvcFreeTiered m tier offset size = (r, m')) : FreesTiered m tier offset size r m' := by
  unfold memsvcFreeTiered at h
  split_ifs at h with hs
  · obtain ⟨rfl, rfl⟩ := Prod.mk.inj h
    exact .refused _
  dsimp only at h
  split at h
  next ba hon hba =>
    obtain ⟨rfl, rfl⟩ := Prod.mk.inj h
    exact .answered hs hon hba rfl
  next =>
    obtain ⟨rfl, rfl⟩ := Prod.mk.inj h
    exact .refused _

theorem memsvcAllocOnDevice_cases {deviceIdx : ℕ} {r : Except Error ℕ}
    (h : memsvcAllocOnDevice m tier deviceIdx size = (r, m')) :
    AllocatesOnDevice m deviceIdx size tier r m' := by
  unfold memsvcAllocOnDevice at h
  split_ifs at h with hs ht
  · obtain ⟨rfl, rfl⟩ := Prod.mk.inj h
    exact .refused _ _
  · obtain ⟨rfl, rfl⟩ := Prod.mk.inj h
    exact .refused _ _
  push Not at ht
  subst ht
  dsimp only at h
  split at h
  next pool hon hpool =>
    split at h
    next e pool' hr =>
      obtain ⟨rfl, rfl⟩ := Prod.mk.inj h
      exact .full hpool hr
    next voffset pool' hr =>
      split_ifs at h with hmask
      · obtain ⟨rfl, rfl⟩ := Prod.mk.inj h
        exact .beyond hpool hr
      · obtain ⟨rfl, rfl⟩ := Prod.mk.inj h
        exact .answered hs hon hpool hr hmask
  next =>
    obtain ⟨rfl, rfl⟩ := Prod.mk.inj h
    exact .refused _ _

/-- Mapping prepares the tier and changes nothing else. -/
theorem memsvcMapDevice_cases (m : MemServiceCtx) (tier : Tier) (offset size : ℕ)
    (backing : Backing) : (memsvcMapDevice m tier offset size backing).2 = m ∨
      ∃ r t, (m.tiers tier).Prepared tier r t ∧
        (memsvcMapDevice m tier offset size backing).2 = m.setTier tier t := by
  unfold memsvcMapDevice
  dsimp only
  split
  · refine Or.inr ?_
    split
    next e t hr => exact ⟨_, t, TierMemCtx.prepared hr, rfl⟩
    next t hr =>
      refine ⟨_, t, TierMemCtx.prepared hr, ?_⟩
      split
      · split_ifs
        · rfl
        · split <;> rfl
      · split <;> rfl
  · exact Or.inl rfl

theorem memsvcSsdIo_cases {os : OsIo} {len : ℕ} {buf : List UInt8} {isWrite : Bool}
    {r : Except Error Unit × MemServiceCtx × List UInt8}
    (h : memsvcSsdIo os m tier offset len buf isWrite = some r) :
    PerformsSsdIo os m offset len buf isWrite tier r := by
  unfold memsvcSsdIo at h
  split_ifs at h with ht
  · obtain rfl := Option.some.inj h
    exact .refused _ _
  push Not at ht
  subst ht
  dsimp only at h
  split at h
  next pool _ hpool =>
    obtain ⟨⟨r', pool', buf'⟩, hio, rfl⟩ := Option.map_eq_some_iff.mp h
    exact .answered hpool hio
  next =>
    obtain rfl := Option.some.inj h
    exact .refused _ _

end Steps

end Umm
