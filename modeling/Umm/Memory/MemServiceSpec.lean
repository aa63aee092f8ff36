import Umm.Memory.MemServiceSteps
import Umm.Common.BitmapAllocatorRuns
import Umm.Transport.SsdPoolSpec

/-! What the calls of the memory service do to the pages of its tiers, when all tiers start at
offset 0 and have pages of 4096 bytes. -/
namespace Umm
open Umm.Lib

namespace TierMemCtx

/-- The page is marked allocated by the allocator that serves the tier. -/
def pageUsed (t : TierMemCtx) (tier : Tier) (p : ℕ) : Bool :=
  match tier, t.ssdPool, t.allocator with
  | .ssd, some pool, _ => pool.used p
  | _, _, some ba => ba.used p
  | _, _, none => false

def pages (t : TierMemCtx) (tier : Tier) : ℕ :=
  match tier, t.ssdPool, t.allocator with
  | .ssd, some pool, _ => pool.totalPages
  | _, _, some ba => ba.numPages
  | _, _, none => 0

structure WF (t : TierMemCtx) : Prop where
  base_eq : t.baseOffset = 0
  allocator_wf : ∀ ba, t.allocator = some ba → ba.WF ∧ ba.pageSize = baDefaultPageSize
  pool_wf : ∀ pool, t.ssdPool = some pool → pool.WF

theorem WF.withAllocator {t : TierMemCtx} (hw : t.WF) {ba : BitmapAllocator} (hb : ba.WF)
    (hp : ba.pageSize = baDefaultPageSize) : WF { t with allocator := some ba } where
  base_eq := hw.base_eq
  allocator_wf := by
    intro ba' h
    obtain rfl := Option.some.inj h
    exact ⟨hb, hp⟩
  pool_wf := hw.pool_wf

theorem WF.withPool {t : TierMemCtx} (hw : t.WF) {pool : SsdPool} (hp : pool.WF) :
    WF { t with ssdPool := some pool } where
  base_eq := hw.base_eq
  allocator_wf := hw.allocator_wf
  pool_wf := by
    intro pool' h
    obtain rfl := Option.some.inj h
    exact hp

/-- The pages of the run were free and are allocated now. -/
structure Took (t t' : TierMemCtx) (tier : Tier) (r : Run) : Prop where
  wf : t'.WF
  free : FreeRun (t.pageUsed tier) r.start r.len
  used : ∀ p, t'.pageUsed tier p = (decide (r.Covers p) || t.pageUsed tier p)

/-- The pages of the run were allocated and are free now. -/
structure Gave (t t' : TierMemCtx) (tier : Tier) (r : Run) : Prop where
  wf : t'.WF
  taken : ∀ p, r.Covers p → t.pageUsed tier p = true
  used : ∀ p, t'.pageUsed tier p = (!decide (r.Covers p) && t.pageUsed tier p)

end TierMemCtx

section Pages

variable {size : ℕ}

/-- Whole pages are not rounded. -/
theorem npages_of_dvd {ba : BitmapAllocator} (hp : ba.pageSize = baDefaultPageSize)
    (hd : 4096 ∣ size) (hlt : size < 2 ^ 64) : ba.npages size = size / 4096 := by
  obtain ⟨k, rfl⟩ := hd
  unfold BitmapAllocator.npages u64
  rw [hp, baDefaultPageSize]
  omega

theorem ssdNpages_of_dvd (hd : 4096 ∣ size) (hlt : size < 2 ^ 64) :
    ssdNpages size = size / 4096 := by
  obtain ⟨k, rfl⟩ := hd
  unfold ssdNpages u64 ssdPageSize
  omega

end Pages

namespace TierMemCtx

variable {t t' : TierMemCtx} {tier : Tier}

theorem pageUsed_pool {pool : SsdPool} (hp : t.ssdPool = some pool) :
    t.pageUsed .ssd = pool.used := by
  funext p
  unfold pageUsed
  rw [hp]

theorem pages_pool {pool : SsdPool} (hp : t.ssdPool = some pool) :
    t.pages .ssd = pool.totalPages := by
  unfold pages
  rw [hp]

/-- The tier is served by its own bitmap. -/
def OwnBitmap (t : TierMemCtx) (tier : Tier) : Prop := tier ≠ .ssd ∨ t.ssdPool = none

theorem pageUsed_bitmap {ba : BitmapAllocator} (ho : t.OwnBitmap tier)
    (ha : t.allocator = some ba) : t.pageUsed tier = ba.used := by
  funext p
  unfold pageUsed
  rw [ha]
  rcases ho with hne | hn
  · cases tier <;> simp_all
  · rw [hn]
    cases tier <;> rfl

theorem pageUsed_withAllocator (ho : t.OwnBitmap tier) (ba : BitmapAllocator) :
    pageUsed { t with allocator := some ba } tier = ba.used :=
  pageUsed_bitmap (t := { t with allocator := some ba }) ho rfl

theorem pages_bitmap {ba : BitmapAllocator} (ho : t.OwnBitmap tier)
    (ha : t.allocator = some ba) : t.pages tier = ba.numPages := by
  unfold pages
  rw [ha]
  rcases ho with hne | hn
  · cases tier <;> simp_all
  · rw [hn]
    cases tier <;> rfl

theorem alloc_pool {pool : SsdPool} (hp : t.ssdPool = some pool) (ba : BitmapAllocator)
    (size : ℕ) : t.alloc .ssd ba size =
      ((ssdPoolAlloc pool size).1.map (fun voffset => u64 (t.baseOffset + voffset)),
        { t with ssdPool := some (ssdPoolAlloc pool size).2 }) := by
  unfold alloc
  rw [hp]

theorem alloc_bitmap (ho : t.OwnBitmap tier) (ba : BitmapAllocator) (size : ℕ) :
    t.alloc tier ba size =
      ((baAlloc ba size).1.map (fun offset => u64 (t.baseOffset + offset)),
        { t with allocator := some (baAlloc ba size).2 }) := by
  unfold alloc
  rcases ho with hne | hn
  · cases tier <;> simp_all
  · rw [hn]
    cases tier <;> rfl

theorem free_pool {pool : SsdPool} (hp : t.ssdPool = some pool) (ba : BitmapAllocator)
    (offset size : ℕ) : t.free .ssd ba offset size =
      ((ssdPoolFree pool (sub64 offset t.baseOffset) size).1,
        { t with ssdPool := some (ssdPoolFree pool (sub64 offset t.baseOffset) size).2 }) := by
  unfold free
  rw [hp]

theorem free_bitmap (ho : t.OwnBitmap tier) (ba : BitmapAllocator) (offset size : ℕ) :
    t.free tier ba offset size =
      ((baFree ba (sub64 offset t.baseOffset) size).1,
        { t with allocator := some (baFree ba (sub64 offset t.baseOffset) size).2 }) := by
  unfold free
  rcases ho with hne | hn
  · cases tier <;> simp_all
  · rw [hn]
    cases tier <;> rfl

theorem pool_or_ownBitmap (t : TierMemCtx) (tier : Tier) :
    (∃ pool, tier = .ssd ∧ t.ssdPool = some pool) ∨ t.OwnBitmap tier := by
  by_cases ht : tier = .ssd
  · cases hp : t.ssdPool with
    | none => exact Or.inr (Or.inr hp)
    | some pool => exact Or.inl ⟨pool, ht, rfl⟩
  · exact Or.inr (Or.inl ht)

variable {ba : BitmapAllocator} {size offset : ℕ}

theorem took_pool {pool : SsdPool} (hw : t.WF) (hp : t.ssdPool = some pool) {page n : ℕ}
    (hin : page + n ≤ pool.totalPages) (hfree : FreeRun pool.used page n) :
    t.Took { t with ssdPool := some (pool.take page n) } .ssd ⟨page, n⟩ := by
  obtain ⟨hpw, hused⟩ := (hw.pool_wf pool hp).take hin hfree
  refine ⟨hw.withPool hpw, ?_, fun p => ?_⟩
  · rw [pageUsed_pool hp]
    exact hfree
  · rw [pageUsed_pool rfl, pageUsed_pool hp]
    exact hused p

theorem gave_pool {pool : SsdPool} (hw : t.WF) (hp : t.ssdPool = some pool) {page n : ℕ}
    (hin : page + n ≤ pool.totalPages)
    (hall : ∀ p, page ≤ p → p < page + n → pool.used p = true) :
    t.Gave { t with ssdPool := some (pool.given page n) } .ssd ⟨page, n⟩ := by
  obtain ⟨hpw, hused⟩ := (hw.pool_wf pool hp).given hin hall
  refine ⟨hw.withPool hpw, fun p hc => ?_, fun p => ?_⟩
  · rw [pageUsed_pool hp]
    exact hall p hc.1 hc.2
  · rw [pageUsed_pool rfl, pageUsed_pool hp]
    exact hused p

theorem alloc_ok (hw : t.WF) (ha : t.allocator = some ba) (hd : 4096 ∣ size)
    (hlt : size < 2 ^ 64) (h : t.alloc tier ba size = (.ok offset, t')) :
    ∃ page, LowestFree (t.pageUsed tier) 0 (t.pages tier) (size / 4096) page ∧
      offset = page * 4096 ∧ t.Took t' tier ⟨page, size / 4096⟩ := by
  rcases t.pool_or_ownBitmap tier with ⟨pool, rfl, hp⟩ | ho
  · have hpw := hw.pool_wf pool hp
    rw [alloc_pool hp] at h
    cases hr : ssdPoolAlloc pool size with
    | mk r pool' =>
      rw [hr] at h
      cases r with
      | error e => simp [Except.map] at h
      | ok voffset =>
        obtain ⟨page, -, hl, rfl, rfl⟩ := ssdPoolAlloc_ok hpw hr
        rw [ssdNpages_of_dvd hd hlt] at hl h
        have hin := hl.fits
        have hpages := hpw.totalPages_lt
        obtain ⟨ho, rfl⟩ := by simpa [Except.map] using h
        refine ⟨page, ?_, ?_, took_pool hw hp hin hl.free⟩
        · rw [pageUsed_pool hp, pages_pool hp]
          exact hl
        · rw [← ho, hw.base_eq, Nat.zero_add, ssdPageSize, u64_of_lt (by omega)]
  · obtain ⟨hbw, hps⟩ := hw.allocator_wf ba ha
    rw [alloc_bitmap ho] at h
    cases hr : baAlloc ba size with
    | mk r ba' =>
      rw [hr] at h
      cases r with
      | error e => simp [Except.map] at h
      | ok off =>
        obtain ⟨page, -, hpage, -, hl, rfl, rfl⟩ := baAlloc_ok hbw hr
        rw [npages_of_dvd hps hd hlt] at hl h
        obtain ⟨hbw', hused⟩ := hbw.take hl.fits hl.free
        have hm := hbw.mul_lt page hpage
        have htot := hbw.total_lt
        obtain ⟨hoff, rfl⟩ := by simpa [Except.map] using h
        refine ⟨page, ?_, ?_, hw.withAllocator hbw' hps, ?_, ?_⟩
        · rw [pageUsed_bitmap ho ha, pages_bitmap ho ha]
          exact hl
        · rw [← hoff, hw.base_eq, Nat.zero_add, u64_of_lt (by omega), hps, baDefaultPageSize]
        · rw [pageUsed_bitmap ho ha]
          exact hl.free
        · intro p
          rw [pageUsed_withAllocator ho, pageUsed_bitmap ho ha]
          exact hused p

theorem alloc_error (ha : t.allocator = some ba) {e : Error}
    (h : t.alloc tier ba size = (.error e, t')) : t' = t := by
  rcases t.pool_or_ownBitmap tier with ⟨pool, rfl, hp⟩ | ho
  · rw [alloc_pool hp] at h
    cases hr : ssdPoolAlloc pool size with
    | mk r pool' =>
      rw [hr] at h
      cases r with
      | ok voffset => simp [Except.map] at h
      | error e =>
        obtain rfl := ssdPoolAlloc_error hr
        obtain ⟨-, rfl⟩ := by simpa [Except.map] using h
        rw [← hp]
  · rw [alloc_bitmap ho] at h
    cases hr : baAlloc ba size with
    | mk r ba' =>
      rw [hr] at h
      cases r with
      | ok off => simp [Except.map] at h
      | error e =>
        obtain rfl := baAlloc_error hr
        obtain ⟨-, rfl⟩ := by simpa [Except.map] using h
        rw [← ha]

theorem free_ok (hw : t.WF) (ha : t.allocator = some ba) (hd : 4096 ∣ size)
    (hlt : size < 2 ^ 64) (hoff : offset < 2 ^ 64)
    (h : t.free tier ba offset size = (.ok (), t')) :
    t.Gave t' tier ⟨offset / 4096, size / 4096⟩ := by
  have hsub : sub64 offset t.baseOffset = offset := by
    rw [hw.base_eq, sub64_zero hoff]
  rcases t.pool_or_ownBitmap tier with ⟨pool, rfl, hp⟩ | ho
  · rw [free_pool hp, hsub] at h
    cases hr : ssdPoolFree pool offset size with
    | mk r pool' =>
      rw [hr] at h
      obtain ⟨rfl, rfl⟩ := by simpa using h
      obtain ⟨-, -, hin, htaken, rfl⟩ := ssdPoolFree_ok hr
      rw [ssdNpages_of_dvd hd hlt, ssdPageSize] at hin htaken ⊢
      rw [u64_of_lt (by omega)] at hin
      exact gave_pool hw hp hin htaken
  · obtain ⟨hbw, hps⟩ := hw.allocator_wf ba ha
    rw [free_bitmap ho, hsub] at h
    cases hr : baFree ba offset size with
    | mk r ba' =>
      rw [hr] at h
      obtain ⟨rfl, rfl⟩ := by simpa using h
      obtain ⟨-, -, hin, htaken, rfl⟩ := baFree_ok hr
      have hpage : offset / ba.pageSize = offset / 4096 := by rw [hps, baDefaultPageSize]
      rw [npages_of_dvd hps hd hlt, hpage] at hin htaken ⊢
      rw [u64_of_lt (by omega)] at hin
      obtain ⟨hbw', hused⟩ := hbw.give hin htaken
      refine ⟨hw.withAllocator hbw' hps, fun p hc => ?_, fun p => ?_⟩
      · rw [pageUsed_bitmap ho ha]
        exact htaken p hc.1 hc.2
      · rw [pageUsed_withAllocator ho, pageUsed_bitmap ho ha]
        exact hused p

theorem free_error (ha : t.allocator = some ba) {e : Error}
    (h : t.free tier ba offset size = (.error e, t')) : t' = t := by
  rcases t.pool_or_ownBitmap tier with ⟨pool, rfl, hp⟩ | ho
  · rw [free_pool hp] at h
    cases hr : ssdPoolFree pool (sub64 offset t.baseOffset) size with
    | mk r pool' =>
      rw [hr] at h
      obtain ⟨rfl, rfl⟩ := by simpa using h
      obtain rfl := ssdPoolFree_error hr
      rw [← hp]
  · rw [free_bitmap ho] at h
    cases hr : baFree ba (sub64 offset t.baseOffset) size with
    | mk r ba' =>
      rw [hr] at h
      obtain ⟨rfl, rfl⟩ := by simpa using h
      obtain rfl := baFree_error hr
      rw [← ha]

end TierMemCtx

namespace MemServiceCtx

def WF (m : MemServiceCtx) : Prop := ∀ tier, (m.tiers tier).WF

def used (m : MemServiceCtx) (tier : Tier) (p : ℕ) : Bool := (m.tiers tier).pageUsed tier p

/-- Every allocated page stays allocated. -/
structure Kept (m m' : MemServiceCtx) : Prop where
  wf : m'.WF
  used : ∀ tier p, m.used tier p = true → m'.used tier p = true

structure Took (m m' : MemServiceCtx) (tier : Tier) (r : Run) : Prop where
  wf : m'.WF
  free : FreeRun (m.used tier) r.start r.len
  used : ∀ tier' p, m'.used tier' p =
    (decide (tier' = tier ∧ r.Covers p) || m.used tier' p)

structure Gave (m m' : MemServiceCtx) (tier : Tier) (r : Run) : Prop where
  wf : m'.WF
  taken : ∀ p, r.Covers p → m.used tier p = true
  used : ∀ tier' p, m'.used tier' p =
    (!decide (tier' = tier ∧ r.Covers p) && m.used tier' p)

variable {m : MemServiceCtx} {tier : Tier} {t t' : TierMemCtx} {r : Run}

theorem WF.setTier (hw : m.WF) (ht : t.WF) : (m.setTier tier t).WF :=
  forall_setTier (fun _ => TierMemCtx.WF) hw ht

theorem used_setTier_same (p : ℕ) : (m.setTier tier t).used tier p = t.pageUsed tier p := by
  rw [used, tiers_setTier_same]

theorem used_setTier_ne {tier' : Tier} (h : tier' ≠ tier) (p : ℕ) :
    (m.setTier tier t).used tier' p = m.used tier' p := by
  rw [used, tiers_setTier_ne _ _ h, used]

theorem Kept.refl (hw : m.WF) : m.Kept m := ⟨hw, fun _ _ h => h⟩

theorem kept_setTier (hw : m.WF) (ht : t.WF)
    (hu : ∀ p, (m.tiers tier).pageUsed tier p = true → t.pageUsed tier p = true) :
    m.Kept (m.setTier tier t) := by
  refine ⟨hw.setTier ht, fun tier' p hp => ?_⟩
  by_cases h : tier' = tier
  · subst h
    rw [used_setTier_same]
    exact hu p hp
  · rw [used_setTier_ne h]
    exact hp

theorem Took.kept {m' : MemServiceCtx} (h : m.Took m' tier r) : m.Kept m' :=
  ⟨h.wf, fun tier' p hp => by rw [h.used, hp, Bool.or_true]⟩

/-- Pages that were taken and given back leave all others as they were. -/
theorem Took.kept_gave {m' m'' : MemServiceCtx} (h : m.Took m' tier r)
    (hg : m'.Gave m'' tier r) : m.Kept m'' := by
  refine ⟨hg.wf, fun tier' p hp => ?_⟩
  have hn : ¬ (tier' = tier ∧ r.Covers p) := by
    rintro ⟨rfl, hc⟩
    rw [h.free p hc.1 hc.2] at hp
    cases hp
  rw [hg.used, h.used, hp, decide_eq_false hn]
  rfl

/-- Taking pages of one tier, after changes to it that left its pages alone. -/
theorem took_setTier (hw : m.WF) (hu : ∀ p, t.pageUsed tier p = (m.tiers tier).pageUsed tier p)
    (h : t.Took t' tier r) : m.Took (m.setTier tier t') tier r := by
  refine ⟨hw.setTier h.wf, fun p h1 h2 => ?_, fun tier' p => ?_⟩
  · rw [used, ← hu p]
    exact h.free p h1 h2
  · by_cases ht : tier' = tier
    · subst ht
      rw [used_setTier_same, h.used p, hu p, used]
      simp
    · rw [used_setTier_ne ht]
      simp [ht]

theorem gave_setTier (hw : m.WF) (h : (m.tiers tier).Gave t' tier r) :
    m.Gave (m.setTier tier t') tier r := by
  refine ⟨hw.setTier h.wf, h.taken, fun tier' p => ?_⟩
  by_cases ht : tier' = tier
  · subst ht
    rw [used_setTier_same, h.used p, used]
    simp
  · rw [used_setTier_ne ht]
    simp [ht]

end MemServiceCtx

theorem TierMemCtx.Prepared.kept {t t' : TierMemCtx} {tier : Tier} {r : Except Error Unit}
    (h : t.Prepared tier r t') (hw : t.WF) :
    t'.WF ∧ (∀ p, t'.pageUsed tier p = t.pageUsed tier p) ∧ t'.pages tier = t.pages tier := by
  obtain ⟨hbase, halloc, hpool⟩ := hw
  cases h <;> exact ⟨⟨hbase, halloc, hpool⟩, fun _ => rfl, rfl⟩

end Umm
