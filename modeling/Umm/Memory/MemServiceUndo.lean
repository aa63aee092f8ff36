import Umm.Memory.MemServiceRuns
import Umm.Memory.MemServiceCalls

/-! Pages that were taken and are given back restore the allocators of the memory service bit
for bit, and an allocation that fails leaves them alone. -/
namespace Umm
open Umm.Lib

section Allocators

/-- Giving back what was just granted restores the allocator, whatever the request. -/
theorem baFree_baAlloc {ba ba' : BitmapAllocator} (hw : ba.WF) {n off : ℕ}
    (h : baAlloc ba n = (.ok off, ba')) : baFree ba' off n = (.ok (), ba) := by
  obtain ⟨page, h0, hpage, hroom, hl, rfl, rfl⟩ := baAlloc_ok hw h
  have hle := hw.numPages_le
  have hlt := hw.numPages_lt
  have hfits := hl.fits
  have hoff := hw.mul_lt page hpage
  have hcount : ba.freePages ≤ ba.numPages := hw.counted ▸ freeCount_le _ _
  have hdiv : page * ba.pageSize / ba.pageSize = page := Nat.mul_div_cancel _ hw.pageSize_pos
  have hbit : ∀ p, page ≤ p → p < page + ba.npages n → Bitmap.test ba.bitmap p = true := by
    intro p h1 h2
    simpa [BitmapAllocator.used, pageTaken, bitmapGet] using hl.free p h1 h2
  have htaken : allTaken (Bitmap.clearRun ba.bitmap page (ba.npages n)) page (ba.npages n) = true := by
    rw [allTaken_iff]
    intro p h1 h2
    rw [bitmapGet, Bitmap.test_clearRun (by norm_num) _ _ _ _ (by omega), decide_eq_true ⟨h1, h2⟩]
    rfl
  have hn : ∀ bitmap freePages, BitmapAllocator.npages { ba with bitmap, freePages } n =
      ba.npages n := fun _ _ => rfl
  unfold baFree
  dsimp only
  rw [if_neg h0, if_neg (by omega), hn, hdiv, u64_of_lt (by omega), if_neg (by omega), if_pos htaken,
    Bitmap.setRun_clearRun (by norm_num) (by omega) hbit, u64_of_lt (by omega),
    Nat.sub_add_cancel hroom]

/-- The same for a run of pages of the pool. -/
theorem SsdPool.WF.free_take {pool : SsdPool} (hw : pool.WF) {page size : ℕ}
    (hn : 0 < ssdNpages size) (hin : page + ssdNpages size ≤ pool.totalPages)
    (hfree : FreeRun pool.used page (ssdNpages size)) :
    ssdPoolFree (pool.take page (ssdNpages size)) (page * ssdPageSize) size = (.ok (), pool) := by
  have hle := hw.pages_le
  have hlt := hw.totalPages_lt
  have htotal := hw.pages_eq
  have hcount := hw.counted
  have hroom := hfree.le_freeCount hin
  have hcle := freeCount_le pool.used pool.totalPages
  have hdiv : page * ssdPageSize / ssdPageSize = page := Nat.mul_div_cancel _ (by decide)
  have h0 : ¬ (size = 0 ∨ pool.totalCapacity ≤ page * ssdPageSize) := by
    rintro (rfl | hc)
    · norm_num [ssdNpages, u64, ssdPageSize] at hn
    · unfold ssdPageSize at *
      omega
  have hset : bmAllSet (Bitmap.setRun pool.bitmap page (ssdNpages size)) page (ssdNpages size) =
      true := by
    rw [bmAllSet_iff]
    intro p h1 h2
    rw [bmTest, Bitmap.test_setRun (by norm_num) _ _ _ _ (by omega), decide_eq_true ⟨h1, h2⟩]
    rfl
  unfold ssdPoolFree SsdPool.take
  simp only [hdiv]
  rw [if_neg h0, u64_of_lt (by omega), if_neg (by omega), if_pos hset,
    Bitmap.clearRun_setRun (by norm_num) (by omega) hfree, u64_of_lt (by omega),
    Nat.sub_add_cancel (by omega)]

theorem ssdPoolFree_alloc {pool pool' : SsdPool} (hw : pool.WF) {size voffset : ℕ}
    (h : ssdPoolAlloc pool size = (.ok voffset, pool')) :
    voffset < 2 ^ 64 ∧ ssdPoolFree pool' voffset size = (.ok (), pool) := by
  obtain ⟨page, hn, hl, rfl, rfl⟩ := ssdPoolAlloc_ok hw h
  have hlt := hw.totalPages_lt
  have hfits := hl.fits
  exact ⟨by unfold ssdPageSize; omega, hw.free_take hn hl.fits hl.free⟩

theorem ssdPoolFree_allocOnDevice {pool pool' : SsdPool} (hw : pool.WF)
    {deviceIdx size voffset : ℕ}
    (h : ssdPoolAllocOnDevice pool deviceIdx size = (.ok voffset, pool')) :
    voffset < 2 ^ 64 ∧ ssdPoolFree pool' voffset size = (.ok (), pool) := by
  obtain ⟨dev, page, hdev, hn, hl, rfl, rfl⟩ := ssdPoolAllocOnDevice_ok hw h
  have hlt := hw.totalPages_lt
  have hfits := hl.fits
  have hpages := hw.device_pages (List.mem_of_getElem? hdev)
  exact ⟨by unfold ssdPageSize; omega, hw.free_take hn (hfits.trans hpages) hl.free⟩

end Allocators

/-- An allocation of a tier, undone. -/
theorem TierMemCtx.WF.free_alloc {t t' : TierMemCtx} (hw : t.WF) {tier : Tier}
    {ba : BitmapAllocator} (ha : t.allocator = some ba) {size offset : ℕ}
    (h : t.alloc tier ba size = (.ok offset, t')) :
    t'.online = t.online ∧
      ∃ ba', t'.allocator = some ba' ∧ t'.free tier ba' offset size = (.ok (), t) := by
  have hbase := hw.base_eq
  rcases t.pool_or_ownBitmap tier with ⟨pool, rfl, hp⟩ | ho
  · have hpw := hw.pool_wf pool hp
    rw [TierMemCtx.alloc_pool hp] at h
    cases hr : ssdPoolAlloc pool size with
    | mk r pool' =>
      rw [hr] at h
      cases r with
      | error e => simp [Except.map] at h
      | ok voffset =>
        obtain ⟨hlt, hundo⟩ := ssdPoolFree_alloc hpw hr
        obtain ⟨hoff, rfl⟩ := by simpa [Except.map] using h
        rw [hbase, Nat.zero_add, u64_of_lt hlt] at hoff
        have hsub : sub64 offset t.baseOffset = voffset := by rw [← hoff, hbase, sub64_zero hlt]
        refine ⟨rfl, ba, ha, ?_⟩
        rw [TierMemCtx.free_pool rfl]
        dsimp only
        rw [hsub, hundo, ← hp]
  · obtain ⟨hbw, -⟩ := hw.allocator_wf ba ha
    rw [TierMemCtx.alloc_bitmap ho] at h
    cases hr : baAlloc ba size with
    | mk r ba' =>
      rw [hr] at h
      cases r with
      | error e => simp [Except.map] at h
      | ok off =>
        have hundo := baFree_baAlloc hbw hr
        obtain ⟨page, -, hpage, -, -, rfl, -⟩ := baAlloc_ok hbw hr
        have hlt : page * ba.pageSize < 2 ^ 64 := (hbw.mul_lt page hpage).trans hbw.total_lt
        obtain ⟨hoff, rfl⟩ := by simpa [Except.map] using h
        rw [hbase, Nat.zero_add, u64_of_lt hlt] at hoff
        have hsub : sub64 offset t.baseOffset = page * ba.pageSize := by
          rw [← hoff, hbase, sub64_zero hlt]
        have ho' : TierMemCtx.OwnBitmap { t with allocator := some ba' } tier := ho
        refine ⟨rfl, ba', rfl, ?_⟩
        rw [TierMemCtx.free_bitmap ho']
        dsimp only
        rw [hsub, hundo, ← ha]

namespace MemServiceCtx

/-- The allocators and pools of all tiers are the same: bitmaps, counters and devices. -/
def SameBooks (m m' : MemServiceCtx) : Prop :=
  ∀ tier, (m'.tiers tier).allocator = (m.tiers tier).allocator ∧
    (m'.tiers tier).ssdPool = (m.tiers tier).ssdPool

theorem SameBooks.refl (m : MemServiceCtx) : m.SameBooks m := fun _ => ⟨rfl, rfl⟩

theorem sameBooks_setTier {m : MemServiceCtx} {tier : Tier} {t : TierMemCtx}
    (ha : t.allocator = (m.tiers tier).allocator) (hp : t.ssdPool = (m.tiers tier).ssdPool) :
    m.SameBooks (m.setTier tier t) :=
  forall_setTier (fun tier t => t.allocator = (m.tiers tier).allocator ∧
    t.ssdPool = (m.tiers tier).ssdPool) (SameBooks.refl m) ⟨ha, hp⟩

end MemServiceCtx

section Calls

variable {m m' : MemServiceCtx} {tier : Tier} {size offset : ℕ}

theorem memsvcFreeTiered_of_online {t t' : TierMemCtx} {ba : BitmapAllocator} (hs : size ≠ 0)
    (ht : m.tiers tier = t) (hon : t.online = true) (ha : t.allocator = some ba)
    {r : Except Error Unit} (hf : t.free tier ba offset size = (r, t')) :
    memsvcFreeTiered m tier offset size = (r, m.setTier tier t') := by
  unfold memsvcFreeTiered
  dsimp only
  rw [if_neg hs, ht, hon, ha]
  dsimp only
  rw [hf]

/-- What a tier allocation took is given back exactly. -/
theorem memsvcAllocTiered_undo (hw : m.WF) {backing : Backing}
    (h : memsvcAllocTiered m tier size backing = (.ok offset, m')) :
    m.SameBooks (memsvcFreeTiered m' tier offset size).2 := by
  cases memsvcAllocTiered_cases h with
  | answered hs hon ha hprep hal =>
    obtain ⟨hon', ba', ha', hundo⟩ :=
      (hprep.kept (hw tier)).1.free_alloc (hprep.allocator.trans ha) hal
    have honline := hon'.trans (hprep.online.trans hon)
    rw [memsvcFreeTiered_of_online hs (MemServiceCtx.tiers_setTier_same _ _ _) honline ha' hundo,
      MemServiceCtx.setTier_setTier]
    exact MemServiceCtx.sameBooks_setTier hprep.allocator hprep.ssdPool

theorem memsvcAllocTiered_refused {backing : Backing} {e : Error}
    (h : memsvcAllocTiered m tier size backing = (.error e, m')) : m.SameBooks m' := by
  cases memsvcAllocTiered_cases h with
  | refused => exact .refl m
  | unprepared hprep => exact MemServiceCtx.sameBooks_setTier hprep.allocator hprep.ssdPool
  | answered _ _ ha hprep hal =>
    rw [TierMemCtx.alloc_error (hprep.allocator.trans ha) hal]
    exact MemServiceCtx.sameBooks_setTier hprep.allocator hprep.ssdPool

/-- What an allocation on a device took is given back exactly. -/
theorem memsvcAllocOnDevice_undo (hw : m.WF) (hsound : m.Sound) {deviceIdx : ℕ}
    (h : memsvcAllocOnDevice m tier deviceIdx size = (.ok offset, m')) :
    m.SameBooks (memsvcFreeTiered m' tier offset size).2 := by
  have hbase := (hw .ssd).base_eq
  cases memsvcAllocOnDevice_cases h with
  | @answered pool pool' voffset hs hon hp hr =>
    obtain ⟨ba, ha⟩ := (hsound .ssd).allocator hon
    obtain ⟨hlt, hundo⟩ := ssdPoolFree_allocOnDevice ((hw .ssd).pool_wf pool hp) hr
    rw [hbase, Nat.zero_add, u64_of_lt hlt]
    have hsub : sub64 voffset (m.tiers .ssd).baseOffset = voffset := by
      rw [hbase, sub64_zero hlt]
    have hfree : TierMemCtx.free { m.tiers .ssd with ssdPool := some pool' } .ssd ba voffset
        size = (.ok (), m.tiers .ssd) := by
      rw [TierMemCtx.free_pool rfl]
      dsimp only
      rw [hsub, hundo, ← hp]
    have htier := MemServiceCtx.tiers_setTier_same m .ssd
      { m.tiers .ssd with ssdPool := some pool' }
    rw [memsvcFreeTiered_of_online hs htier hon ha hfree, MemServiceCtx.setTier_setTier,
      MemServiceCtx.setTier_self]
    exact .refl m

/-- Pages beyond the offset field of an address go back to the pool. -/
theorem memsvcAllocOnDevice_refused (hw : m.WF) {deviceIdx : ℕ} {e : Error}
    (h : memsvcAllocOnDevice m tier deviceIdx size = (.error e, m')) : m.SameBooks m' := by
  cases memsvcAllocOnDevice_cases h with
  | refused => exact .refl m
  | full hp hr =>
    obtain rfl := ssdPoolAllocOnDevice_error hr
    exact MemServiceCtx.sameBooks_setTier rfl hp.symm
  | beyond hp hr =>
    refine MemServiceCtx.sameBooks_setTier rfl ?_
    rw [(ssdPoolFree_allocOnDevice ((hw .ssd).pool_wf _ hp) hr).2]
    exact hp.symm

end Calls

/-! Services whose tiers start at offset 0, as in one process with its clients. -/

namespace TierMemCtx

variable {t t' : TierMemCtx} {tier : Tier}

/-- The tier starts at offset 0, and its bitmap has pages of the default size. -/
structure Paged (t : TierMemCtx) : Prop where
  base_eq : t.baseOffset = 0
  allocator_wf : ∀ ba, t.allocator = some ba → ba.WF ∧ ba.pageSize = baDefaultPageSize

theorem Paged.wf (h : t.Paged) (hs : t.Sound tier) : t.WF :=
  ⟨h.base_eq, h.allocator_wf, fun pool hp => (hs.pool pool hp).2.wf⟩

theorem Paged.keep (h : t.Paged) (hb : t'.baseOffset = t.baseOffset)
    (ha : t'.allocator = none ∨ t'.allocator = t.allocator) : t'.Paged := by
  refine ⟨hb.trans h.base_eq, fun ba hba => ?_⟩
  rcases ha with hn | he
  · rw [hn] at hba
    cases hba
  · exact h.allocator_wf ba (he ▸ hba)

theorem Paged.withAllocator (h : t.Paged) {ba : BitmapAllocator} (hw : ba.WF)
    (hps : ba.pageSize = baDefaultPageSize) : Paged { t with allocator := some ba } := by
  refine ⟨h.base_eq, ?_⟩
  rintro _ ⟨⟩
  exact ⟨hw, hps⟩

theorem Paged.prepared (h : t.Paged) {tier : Tier} {r : Except Error Unit}
    (hprep : t.Prepared tier r t') : t'.Paged :=
  h.keep hprep.baseOffset (Or.inr hprep.allocator)

theorem Paged.alloc (h : t.Paged) {ba : BitmapAllocator} (ha : t.allocator = some ba)
    (size : ℕ) : (t.alloc tier ba size).2.Paged := by
  rcases t.pool_or_ownBitmap tier with ⟨pool, rfl, hp⟩ | ho
  · rw [alloc_pool hp]
    exact h.keep rfl (Or.inr rfl)
  · obtain ⟨hw, hps⟩ := h.allocator_wf ba ha
    rw [alloc_bitmap ho]
    cases hr : baAlloc ba size with
    | mk r ba' =>
      cases r with
      | error e =>
        rw [baAlloc_error hr]
        exact h.withAllocator hw hps
      | ok off =>
        obtain ⟨page, -, -, -, hl, -, rfl⟩ := baAlloc_ok hw hr
        exact h.withAllocator (hw.take hl.fits hl.free).1 hps

theorem Paged.free (h : t.Paged) {ba : BitmapAllocator} (ha : t.allocator = some ba)
    (offset size : ℕ) : (t.free tier ba offset size).2.Paged := by
  rcases t.pool_or_ownBitmap tier with ⟨pool, rfl, hp⟩ | ho
  · rw [free_pool hp]
    exact h.keep rfl (Or.inr rfl)
  · obtain ⟨hw, hps⟩ := h.allocator_wf ba ha
    rw [free_bitmap ho]
    cases hr : baFree ba (sub64 offset t.baseOffset) size with
    | mk r ba' =>
      cases r with
      | error e =>
        rw [baFree_error hr]
        exact h.withAllocator hw hps
      | ok u =>
        obtain ⟨-, hoff, hin, hall, rfl⟩ := baFree_ok hr
        have htotal := hw.total_lt
        have hsum := u64_lt (size + ba.pageSize - 1)
        rw [u64_of_lt (by
          unfold BitmapAllocator.npages
          rw [hps, baDefaultPageSize] at *
          omega)] at hin
        exact h.withAllocator (hw.give hin hall).1 hps

theorem Paged.registerDram (h : t.Paged) (device : Option BackendKind) (backing : Backing) :
    (t.registerDram device backing).2.Paged := by
  unfold TierMemCtx.registerDram
  split
  · exact h.keep rfl (Or.inr rfl)
  · exact h.keep rfl (Or.inl rfl)
  · exact h.keep rfl (Or.inr rfl)
  · exact h.keep rfl (Or.inl rfl)

theorem Paged.registerSsd (h : t.Paged) (kind : BackendKind) (capacity : ℕ) (firstReg : Bool)
    (env : RegisterEnv) : (t.registerSsd kind capacity firstReg env).2.Paged := by
  rcases t.registerSsd_cases kind capacity firstReg env with
    ⟨-, -, he⟩ | ⟨e, -, he⟩ | ⟨pool', -, he⟩
  · rw [he]
    exact h.keep rfl (Or.inl rfl)
  · rw [he]
    dsimp only
    split_ifs
    · exact h.keep rfl (Or.inl rfl)
    · exact h.keep rfl (Or.inr rfl)
  · rw [he]
    exact h.keep rfl (Or.inr rfl)

theorem Paged.registering (h : t.Paged) {res : StorageResource} (hcap : res.capacity < 2 ^ 64)
    (hbase : res.baseOffset = 0) : (t.registering res).Paged := by
  rcases t.registering_cases res with ⟨-, he⟩ | ⟨-, he⟩
  · rwa [he]
  · rw [he]
    refine ⟨hbase, fun ba hb => ?_⟩
    obtain ⟨hw, hps, -⟩ := baCreate_wf hcap hb
    exact ⟨hw, hps⟩

theorem Paged.registerTier (h : t.Paged) {res : StorageResource} (env : RegisterEnv)
    (hcap : res.capacity < 2 ^ 64) (hbase : res.baseOffset = 0) :
    (t.registerTier res env).2.Paged := by
  have hreg := h.registering hcap hbase
  unfold TierMemCtx.registerTier
  dsimp only
  split
  · exact hreg.keep rfl (Or.inl rfl)
  · split
    · exact hreg
    · exact hreg.registerSsd _ _ _ env
    · exact hreg
    · exact hreg.registerDram _ _
    · exact hreg.keep rfl (Or.inl rfl)

end TierMemCtx

namespace MemServiceCtx

variable {m m' : MemServiceCtx}

def Paged (m : MemServiceCtx) : Prop := ∀ tier, (m.tiers tier).Paged

theorem Paged.wf (h : m.Paged) (hs : m.Sound) : m.WF := fun tier => (h tier).wf (hs tier)

theorem Paged.setTier (h : m.Paged) {tier : Tier} {t : TierMemCtx} (ht : t.Paged) :
    (m.setTier tier t).Paged :=
  forall_setTier (fun _ => TierMemCtx.Paged) h ht

/-- A change to one tier that leaves its bitmap. -/
theorem Paged.setTier_keep (h : m.Paged) {tier : Tier} {t : TierMemCtx}
    (hb : t.baseOffset = (m.tiers tier).baseOffset)
    (ha : t.allocator = (m.tiers tier).allocator) : (m.setTier tier t).Paged :=
  h.setTier ((h tier).keep hb (Or.inr ha))

theorem Paged.allocTiered (h : m.Paged) (tier : Tier) (size : ℕ) (backing : Backing) :
    (memsvcAllocTiered m tier size backing).2.Paged := by
  cases hcall : memsvcAllocTiered m tier size backing with
  | mk r m' =>
    cases memsvcAllocTiered_cases hcall with
    | refused => exact h
    | unprepared hprep => exact h.setTier ((h tier).prepared hprep)
    | @answered ba t _ _ _ _ ha hprep hal =>
      have hp : (t.alloc tier ba size).2.Paged :=
        ((h tier).prepared hprep).alloc (hprep.allocator.trans ha) size
      rw [hal] at hp
      exact h.setTier hp

theorem Paged.freeTiered (h : m.Paged) (tier : Tier) (offset size : ℕ) :
    (memsvcFreeTiered m tier offset size).2.Paged := by
  cases hcall : memsvcFreeTiered m tier offset size with
  | mk r m' =>
    cases memsvcFreeTiered_cases hcall with
    | refused => exact h
    | @answered ba _ _ _ _ ha hf =>
      have hp : ((m.tiers tier).free tier ba offset size).2.Paged := (h tier).free ha offset size
      rw [hf] at hp
      exact h.setTier hp

theorem Paged.allocOnDevice (h : m.Paged) (tier : Tier) (deviceIdx size : ℕ) :
    (memsvcAllocOnDevice m tier deviceIdx size).2.Paged := by
  cases hcall : memsvcAllocOnDevice m tier deviceIdx size with
  | mk r m' =>
    cases memsvcAllocOnDevice_cases hcall with
    | refused => exact h
    | full => exact h.setTier_keep rfl rfl
    | beyond => exact h.setTier_keep rfl rfl
    | answered => exact h.setTier_keep rfl rfl

theorem Paged.registerStorage (h : m.Paged) {res : StorageResource} (env : RegisterEnv)
    (hcap : res.capacity < 2 ^ 64) (hbase : res.baseOffset = 0) :
    (memsvcRegisterStorage m res env).2.Paged := by
  rcases TierMemCtx.memsvcRegisterStorage_cases m res env with he | he
  · rw [he]
    exact h
  · rw [he]
    exact h.setTier ((h res.tier).registerTier env hcap hbase)

theorem Paged.mapDevice (h : m.Paged) (tier : Tier) (offset size : ℕ) (backing : Backing) :
    (memsvcMapDevice m tier offset size backing).2.Paged := by
  rcases memsvcMapDevice_cases m tier offset size backing with he | ⟨r, t, hprep, he⟩
  · rw [he]
    exact h
  · rw [he]
    exact h.setTier ((h tier).prepared hprep)

theorem Paged.ssdIo (h : m.Paged) {os : OsIo} {tier : Tier} {offset len : ℕ} {buf : List UInt8}
    {isWrite : Bool} {r : Except Error Unit × MemServiceCtx × List UInt8}
    (hio : memsvcSsdIo os m tier offset len buf isWrite = some r) : r.2.1.Paged := by
  cases memsvcSsdIo_cases hio with
  | refused => exact h
  | answered => exact h.setTier_keep rfl rfl

theorem Paged.store (h : m.Paged) (ptr : DevicePtr) (bytes : List UInt8) :
    (m.store ptr bytes).Paged := by
  unfold MemServiceCtx.store
  cases ptr with
  | window tier offset => exact h.setTier_keep rfl rfl
  | ssd device offset =>
    dsimp only
    split
    · exact h
    · split
      · exact h
      · exact h.setTier_keep rfl rfl

end MemServiceCtx

/-- Mapping, device I/O and copies to mapped memory. -/
def MemsvcCall.IsAccess : MemsvcCall → Prop
  | mapDevice .. | ssdIo .. | store .. => True
  | _ => False

theorem MemServiceCtx.Paged.access {m m' : MemServiceCtx} (h : m.Paged) {call : MemsvcCall}
    (ha : call.IsAccess) (hrun : call.run m = some m') : m'.Paged := by
  cases call with
  | mapDevice tier offset size backing =>
    obtain rfl := Option.some.inj hrun
    exact h.mapDevice tier offset.toNat size.toNat backing
  | ssdIo os tier offset len buf isWrite =>
    obtain ⟨r, hio, rfl⟩ := Option.map_eq_some_iff.mp hrun
    exact h.ssdIo hio
  | store ptr bytes =>
    simp only [MemsvcCall.run, MemServiceCtx.storeAt] at hrun
    split_ifs at hrun
    obtain rfl := Option.some.inj hrun
    exact h.store ptr bytes
  | registerStorage | allocTiered | allocOnDevice | freeTiered => cases ha

end Umm
