import Umm.Memory.TierPages

/-! By how many pages each call of the memory service moves the number of allocated pages. -/
namespace Umm
open Umm.Lib

/-- The size of a request that was answered with OK. -/
def answeredSize {α : Type} : Except Error α → ℕ → Option ℕ
  | .ok _, size => some size
  | .error _, _ => none

def pagesOf : Option ℕ → ℤ
  | some size => ssdNpages size
  | none => 0

namespace TierMemCtx

variable {t t' : TierMemCtx} {tier : Tier}

/-- Nothing changed but the memory behind the tier, its base and whether it is online. -/
structure Unmoved (t t' : TierMemCtx) : Prop where
  allocator : t'.allocator = t.allocator
  totalSize : t'.totalSize = t.totalSize
  pool : t'.ssdPool.map SsdPool.blank = t.ssdPool.map SsdPool.blank

theorem Unmoved.refl (t : TierMemCtx) : t.Unmoved t := ⟨rfl, rfl, rfl⟩

theorem Unmoved.ownBitmap (h : t.Unmoved t') : t'.OwnBitmap tier ↔ t.OwnBitmap tier := by
  have hpool := congrArg Option.isSome h.pool
  rw [Option.isSome_map, Option.isSome_map] at hpool
  unfold OwnBitmap
  cases hp : t.ssdPool with
  | none =>
    cases hp' : t'.ssdPool with
    | none => rfl
    | some pool' =>
      rw [hp, hp'] at hpool
      cases hpool
  | some pool =>
    cases hp' : t'.ssdPool with
    | none =>
      rw [hp, hp'] at hpool
      cases hpool
    | some pool' => simp

theorem Unmoved.booked (h : t.Unmoved t') (hb : t.Booked tier) : t'.Booked tier := by
  intro ho ba ha
  rw [h.totalSize]
  exact hb (h.ownBitmap.mp ho) ba (h.allocator ▸ ha)

theorem Unmoved.taken (h : t.Unmoved t') : t'.taken tier = t.taken tier := by
  rcases t.pool_or_ownBitmap tier with ⟨pool, rfl, hp⟩ | ho
  · have hpool := h.pool
    rw [hp, Option.map_some] at hpool
    obtain ⟨pool', hp', hblank⟩ := Option.map_eq_some_iff.mp hpool
    have hpages : pool'.blank.totalPages = pool.blank.totalPages := by rw [hblank]
    have hbits : pool'.blank.bitmap = pool.blank.bitmap := by rw [hblank]
    change pool'.totalPages = pool.totalPages at hpages
    change pool'.bitmap = pool.bitmap at hbits
    unfold TierMemCtx.taken
    rw [pageUsed_pool hp, pageUsed_pool hp', pages_pool hp, pages_pool hp', hpages]
    unfold SsdPool.used
    rw [hbits]
  · cases ha : t.allocator with
    | none => rw [taken_none ho ha, taken_none (h.ownBitmap.mpr ho) (h.allocator.trans ha)]
    | some ba =>
      unfold TierMemCtx.taken
      rw [pageUsed_bitmap ho ha, pages_bitmap ho ha,
        pageUsed_bitmap (h.ownBitmap.mpr ho) (h.allocator.trans ha),
        pages_bitmap (h.ownBitmap.mpr ho) (h.allocator.trans ha)]

theorem Prepared.unmoved {r : Except Error Unit} (h : t.Prepared tier r t') : t.Unmoved t' := by
  cases h <;> exact ⟨rfl, rfl, rfl⟩

end TierMemCtx

namespace MemServiceCtx

variable {m m' : MemServiceCtx} {tier : Tier} {t : TierMemCtx} {size offset : ℕ} {pages : ℤ}

def Booked (m : MemServiceCtx) : Prop := ∀ tier, (m.tiers tier).Booked tier

def taken (m : MemServiceCtx) (tier : Tier) : ℕ := (m.tiers tier).taken tier

/-- The allocated pages of one tier changed in number. -/
structure Moves (m m' : MemServiceCtx) (tier : Tier) (pages : ℤ) : Prop where
  booked : m'.Booked
  taken : ∀ tier', (m'.taken tier' : ℤ) = m.taken tier' + if tier' = tier then pages else 0

theorem moves_setTier (hb : m.Booked) (ht : t.Booked tier)
    (htaken : (t.taken tier : ℤ) = m.taken tier + pages) : m.Moves (m.setTier tier t) tier pages := by
  constructor
  · exact forall_setTier (fun tier t => t.Booked tier) hb ht
  · intro tier'
    by_cases hne : tier' = tier
    · subst hne
      rw [taken, tiers_setTier_same, if_pos rfl]
      exact htaken
    · rw [taken, tiers_setTier_ne _ _ hne, if_neg hne, add_zero]
      rfl

theorem moves_self (hb : m.Booked) (tier : Tier) : m.Moves m tier 0 :=
  ⟨hb, fun _ => by simp⟩

theorem moves_unmoved (hb : m.Booked) (h : (m.tiers tier).Unmoved t) :
    m.Moves (m.setTier tier t) tier 0 := by
  refine moves_setTier hb (h.booked (hb tier)) ?_
  rw [h.taken, add_zero]
  rfl

/-! The calls. -/

theorem Booked.allocTiered (hb : m.Booked) (hs : m.Sound) (tier : Tier) (size : ℕ)
    (backing : Backing) : m.Moves (memsvcAllocTiered m tier size backing).2 tier
      (pagesOf (answeredSize (memsvcAllocTiered m tier size backing).1 size)) := by
  cases hcall : memsvcAllocTiered m tier size backing with
  | mk r m' =>
    cases memsvcAllocTiered_cases hcall with
    | refused => exact moves_self hb tier
    | unprepared hprep => exact moves_unmoved hb hprep.unmoved
    | answered _ _ ha hprep hal =>
      have hun := hprep.unmoved
      have ha' := hprep.allocator.trans ha
      cases r with
      | error e =>
        rw [TierMemCtx.alloc_error ha' hal]
        exact moves_unmoved hb hun
      | ok off =>
        obtain ⟨hb', htaken⟩ := (hun.booked (hb tier)).alloc_ok ((hs tier).prepared hprep) ha' hal
        refine moves_setTier hb hb' ?_
        rw [htaken, hun.taken]
        exact Nat.cast_add _ _

theorem Booked.freeTiered (hb : m.Booked) (hs : m.Sound) (tier : Tier) (offset size : ℕ) :
    m.Moves (memsvcFreeTiered m tier offset size).2 tier
      (-pagesOf (answeredSize (memsvcFreeTiered m tier offset size).1 size)) := by
  cases hcall : memsvcFreeTiered m tier offset size with
  | mk r m' =>
    cases memsvcFreeTiered_cases hcall with
    | refused => exact moves_self hb tier
    | @answered _ t' _ _ _ ha hf =>
      cases r with
      | error e =>
        rw [TierMemCtx.free_error ha hf]
        exact moves_unmoved hb (.refl _)
      | ok u =>
        obtain ⟨hb', htaken⟩ := (hb tier).free_ok (hs tier) ha hf
        refine moves_setTier hb hb' ?_
        change (t'.taken tier : ℤ) = (m.tiers tier).taken tier + -(ssdNpages size : ℤ)
        omega

theorem Booked.allocOnDevice (hb : m.Booked) (hs : m.Sound) (tier : Tier) (deviceIdx size : ℕ) :
    m.Moves (memsvcAllocOnDevice m tier deviceIdx size).2 tier
      (pagesOf (answeredSize (memsvcAllocOnDevice m tier deviceIdx size).1 size)) := by
  cases hcall : memsvcAllocOnDevice m tier deviceIdx size with
  | mk r m' =>
    cases memsvcAllocOnDevice_cases hcall with
    | refused => exact moves_self hb tier
    | full hp hal =>
      obtain rfl := ssdPoolAllocOnDevice_error hal
      exact moves_unmoved hb ⟨rfl, rfl, by rw [hp]⟩
    | beyond hp hal =>
      -- the pages go back to the pool
      have hw := ((hs .ssd).pool _ hp).2.wf
      rw [(ssdPoolFree_allocOnDevice hw hal).2]
      exact moves_unmoved hb ⟨rfl, rfl, by rw [hp]⟩
    | answered _ _ hp hal =>
      have hw := ((hs .ssd).pool _ hp).2.wf
      obtain ⟨dev, page, hdev, -, hl, -, rfl⟩ := ssdPoolAllocOnDevice_ok hw hal
      have hpages := hw.device_pages (List.mem_of_getElem? hdev)
      refine moves_setTier hb (TierMemCtx.booked_pool rfl) ?_
      rw [TierMemCtx.taken_take hw hp (hl.fits.trans hpages) hl.free]
      exact Nat.cast_add _ _

theorem Booked.mapDevice (hb : m.Booked) (tier : Tier) (offset size : ℕ) (backing : Backing) :
    m.Moves (memsvcMapDevice m tier offset size backing).2 tier 0 := by
  rcases memsvcMapDevice_cases m tier offset size backing with he | ⟨r, t, hprep, he⟩
  · rw [he]
    exact moves_self hb tier
  · rw [he]
    exact moves_unmoved hb hprep.unmoved

theorem Booked.ssdIo (hb : m.Booked) (hs : m.Sound) {os : OsIo} {tier : Tier} {offset len : ℕ}
    {buf : List UInt8} {isWrite : Bool} {r : Except Error Unit × MemServiceCtx × List UInt8}
    (hio : memsvcSsdIo os m tier offset len buf isWrite = some r) : m.Moves r.2.1 tier 0 := by
  cases memsvcSsdIo_cases hio with
  | refused => exact moves_self hb tier
  | answered hp hr =>
    have hblank := (((hs .ssd).pool _ hp).2.wf.io hr).2
    exact moves_unmoved hb ⟨rfl, rfl, by rw [hp, Option.map_some, Option.map_some, hblank]⟩

theorem Booked.store (hb : m.Booked) (ptr : DevicePtr) (bytes : List UInt8) :
    ∃ tier, m.Moves (m.store ptr bytes) tier 0 := by
  unfold MemServiceCtx.store
  cases ptr with
  | window tier offset => exact ⟨tier, moves_unmoved hb ⟨rfl, rfl, rfl⟩⟩
  | ssd device offset =>
    refine ⟨.ssd, ?_⟩
    dsimp only
    split
    · exact moves_self hb .ssd
    next pool hp =>
      split
      · exact moves_self hb .ssd
      next dev hdev =>
        refine moves_unmoved hb ⟨rfl, rfl, ?_⟩
        rw [hp, Option.map_some, Option.map_some, SsdPool.blank_setBackend hdev]

theorem Booked.registerStorage (hb : m.Booked) (hs : m.Sound) {res : StorageResource}
    {env : RegisterEnv} (hcap : res.capacity < 2 ^ 64)
    (hs' : (memsvcRegisterStorage m res env).2.Sound)
    (hk : (m.tiers res.tier).KeepsPages res env ∨ m.taken res.tier = 0) :
    m.Moves (memsvcRegisterStorage m res env).2 res.tier 0 := by
  rw [TierMemCtx.memsvcRegisterStorage_eq] at hs' ⊢
  by_cases hargs : res.tier = .ssd ∧ res.device = some .file ∧ env.blockRejected = true
  · rw [if_pos hargs]
    exact moves_self hb _
  rw [if_neg hargs] at hs' ⊢
  by_cases hcap0 : res.capacity = 0
  · rw [if_pos hcap0]
    exact moves_self hb _
  rw [if_neg hcap0] at hs' ⊢
  dsimp only at hs' ⊢
  have htier := hs' res.tier
  rw [tiers_setTier_same] at htier
  obtain ⟨hb', htaken⟩ :=
    TierMemCtx.registerTier_taken (hs res.tier) (hb res.tier) hcap htier hargs hcap0 hk
  refine moves_setTier hb hb' ?_
  rw [htaken, add_zero]
  rfl

end MemServiceCtx

end Umm
