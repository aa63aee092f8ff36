import Umm.Memory.MemServicePaths
import Umm.Memory.MemServiceUndo

/-! How many pages of a tier are allocated, and what allocating, freeing and registering do to that
number. The tiers may start at any offset. -/
namespace Umm
open Umm.Lib

theorem BitmapAllocator.npages_eq {ba : BitmapAllocator} (hp : ba.pageSize = baDefaultPageSize)
    (size : ℕ) : ba.npages size = ssdNpages size := by
  unfold npages ssdNpages
  rw [hp]
  rfl

namespace TierMemCtx

/-- The number of allocated pages. -/
def taken (t : TierMemCtx) (tier : Tier) : ℕ :=
  t.pages tier - freeCount (t.pageUsed tier) (t.pages tier)

/-- A tier that is served by its own bitmap has the one that was created for its capacity. -/
def Booked (t : TierMemCtx) (tier : Tier) : Prop :=
  t.OwnBitmap tier → ∀ ba, t.allocator = some ba →
    ba.WF ∧ ba.Shape t.totalSize baDefaultPageSize

variable {t t' : TierMemCtx} {tier : Tier} {ba : BitmapAllocator} {pool : SsdPool}
  {size offset : ℕ}

theorem taken_pool (hw : pool.WF) (hp : t.ssdPool = some pool) :
    t.taken .ssd + pool.freePages = pool.totalPages := by
  have hle := freeCount_le pool.used pool.totalPages
  have hcount := hw.counted
  unfold taken
  rw [pageUsed_pool hp, pages_pool hp]
  omega

theorem taken_bitmap (hw : ba.WF) (ho : t.OwnBitmap tier) (ha : t.allocator = some ba) :
    t.taken tier + ba.freePages = ba.numPages := by
  have hle := freeCount_le ba.used ba.numPages
  have hcount := hw.counted
  unfold taken
  rw [pageUsed_bitmap ho ha, pages_bitmap ho ha]
  omega

theorem pages_withAllocator (ho : t.OwnBitmap tier) (ba : BitmapAllocator) :
    pages { t with allocator := some ba } tier = ba.numPages :=
  pages_bitmap (t := { t with allocator := some ba }) ho rfl

theorem taken_of_unused (hused : ∀ p < t.pages tier, t.pageUsed tier p = false) :
    t.taken tier = 0 := by
  unfold taken
  rw [freeCount_of_unused hused, Nat.sub_self]

/-- A tier without an allocator. -/
theorem taken_none (ho : t.OwnBitmap tier) (ha : t.allocator = none) : t.taken tier = 0 := by
  have hpages : t.pages tier = 0 := by
    unfold pages
    rw [ha]
    rcases ho with hne | hn
    · cases tier <;> simp_all
    · rw [hn]
      cases tier <;> rfl
  unfold taken
  rw [hpages]
  rfl

/-- Free pages were taken. -/
theorem taken_took {r : Run} (hpages : t'.pages tier = t.pages tier)
    (hin : r.start + r.len ≤ t.pages tier) (hfree : FreeRun (t.pageUsed tier) r.start r.len)
    (hused : ∀ p, t'.pageUsed tier p = (decide (r.Covers p) || t.pageUsed tier p)) :
    t'.taken tier = t.taken tier + r.len := by
  have hcount := freeCount_take r hin hfree (fun p _ => hused p)
  have hle := freeCount_le (t.pageUsed tier) (t.pages tier)
  unfold taken
  rw [hpages]
  omega

/-- Allocated pages were given back. -/
theorem taken_gave {r : Run} (hpages : t'.pages tier = t.pages tier)
    (hin : r.start + r.len ≤ t.pages tier) (hall : ∀ p, r.Covers p → t.pageUsed tier p = true)
    (hused : ∀ p, t'.pageUsed tier p = (!decide (r.Covers p) && t.pageUsed tier p)) :
    t'.taken tier + r.len = t.taken tier := by
  have hcount := freeCount_give r hin hall (fun p _ => hused p)
  have hle := freeCount_le (t'.pageUsed tier) (t.pages tier)
  unfold taken
  rw [hpages]
  omega

/-! The pool of an SSD tier. -/

theorem booked_pool (hp : t.ssdPool = some pool) : t.Booked .ssd := by
  intro ho
  rcases ho with hne | hn
  · exact absurd rfl hne
  · rw [hp] at hn
    cases hn

theorem taken_take (hw : pool.WF) (hp : t.ssdPool = some pool) {page n : ℕ}
    (hin : page + n ≤ pool.totalPages) (hfree : FreeRun pool.used page n) :
    taken { t with ssdPool := some (pool.take page n) } .ssd = t.taken .ssd + n := by
  refine taken_took (r := ⟨page, n⟩) ?_ ?_ ?_ ?_
  · rw [pages_pool hp, pages_pool rfl]
    rfl
  · rw [pages_pool hp]
    exact hin
  · rw [pageUsed_pool hp]
    exact hfree
  · intro p
    rw [pageUsed_pool hp, pageUsed_pool rfl]
    exact (hw.take hin hfree).2 p

theorem taken_given (hw : pool.WF) (hp : t.ssdPool = some pool) {page n : ℕ}
    (hin : page + n ≤ pool.totalPages)
    (hall : ∀ p, page ≤ p → p < page + n → pool.used p = true) :
    taken { t with ssdPool := some (pool.given page n) } .ssd + n = t.taken .ssd := by
  refine taken_gave (r := ⟨page, n⟩) ?_ ?_ ?_ ?_
  · rw [pages_pool hp, pages_pool rfl]
    rfl
  · rw [pages_pool hp]
    exact hin
  · rw [pageUsed_pool hp]
    exact fun p hc => hall p hc.1 hc.2
  · intro p
    rw [pageUsed_pool hp, pageUsed_pool rfl]
    exact (hw.given hin hall).2 p

/-! Allocating and freeing. -/

theorem Booked.alloc_ok (h : t.Booked tier) (hs : t.Sound tier) (ha : t.allocator = some ba)
    (hr : t.alloc tier ba size = (.ok offset, t')) :
    t'.Booked tier ∧ t'.taken tier = t.taken tier + ssdNpages size := by
  rcases t.pool_or_ownBitmap tier with ⟨pool, rfl, hp⟩ | ho
  · have hw := (hs.pool pool hp).2.wf
    rw [alloc_pool hp] at hr
    cases hpool : ssdPoolAlloc pool size with
    | mk r pool' =>
      rw [hpool] at hr
      cases r with
      | error e => simp [Except.map] at hr
      | ok voffset =>
        obtain ⟨page, -, hl, -, rfl⟩ := ssdPoolAlloc_ok hw hpool
        obtain ⟨-, rfl⟩ := by simpa [Except.map] using hr
        exact ⟨booked_pool rfl, taken_take hw hp hl.fits hl.free⟩
  · obtain ⟨hw, hshape⟩ := h ho ba ha
    rw [alloc_bitmap ho] at hr
    cases hbitmap : baAlloc ba size with
    | mk r ba' =>
      rw [hbitmap] at hr
      cases r with
      | error e => simp [Except.map] at hr
      | ok off =>
        have hshape' := hshape.alloc size
        rw [hbitmap] at hshape'
        obtain ⟨page, -, -, -, hl, -, rfl⟩ := baAlloc_ok hw hbitmap
        obtain ⟨hw', hused⟩ := hw.take hl.fits hl.free
        obtain ⟨-, rfl⟩ := by simpa [Except.map] using hr
        refine ⟨fun _ ba' hba => ?_, ?_⟩
        · obtain rfl := Option.some.inj hba
          exact ⟨hw', hshape'⟩
        · rw [← ba.npages_eq hshape.pageSize_eq]
          refine taken_took (r := ⟨page, ba.npages size⟩) ?_ ?_ ?_ ?_
          · rw [pages_bitmap ho ha, pages_withAllocator ho]
          · rw [pages_bitmap ho ha]
            exact hl.fits
          · rw [pageUsed_bitmap ho ha]
            exact hl.free
          · intro p
            rw [pageUsed_withAllocator ho, pageUsed_bitmap ho ha]
            exact hused p

theorem Booked.free_ok (h : t.Booked tier) (hs : t.Sound tier) (ha : t.allocator = some ba)
    (hr : t.free tier ba offset size = (.ok (), t')) :
    t'.Booked tier ∧ t'.taken tier + ssdNpages size = t.taken tier := by
  rcases t.pool_or_ownBitmap tier with ⟨pool, rfl, hp⟩ | ho
  · have hw := (hs.pool pool hp).2.wf
    rw [free_pool hp] at hr
    cases hpool : ssdPoolFree pool (sub64 offset t.baseOffset) size with
    | mk r pool' =>
      rw [hpool] at hr
      obtain ⟨rfl, rfl⟩ := by simpa using hr
      obtain ⟨-, hoff, hin, hall, rfl⟩ := ssdPoolFree_ok hpool
      rw [hw.free_end hoff] at hin
      exact ⟨booked_pool rfl, taken_given hw hp hin hall⟩
  · obtain ⟨hw, hshape⟩ := h ho ba ha
    rw [free_bitmap ho] at hr
    cases hbitmap : baFree ba (sub64 offset t.baseOffset) size with
    | mk r ba' =>
      rw [hbitmap] at hr
      obtain ⟨rfl, rfl⟩ := by simpa using hr
      have hshape' := hshape.free (sub64 offset t.baseOffset) size
      rw [hbitmap] at hshape'
      have hnp := ba.npages_eq hshape.pageSize_eq size
      obtain ⟨-, hoff, hin, hall, rfl⟩ := baFree_ok hbitmap
      have hdiv : sub64 offset t.baseOffset / ba.pageSize = sub64 offset t.baseOffset / 4096 := by
        rw [hshape.pageSize_eq]
        rfl
      have hend : u64 (sub64 offset t.baseOffset / ba.pageSize + ba.npages size) =
          sub64 offset t.baseOffset / ba.pageSize + ba.npages size := by
        have htotal := hw.total_lt
        have hsum := u64_lt (size + ssdPageSize - 1)
        refine u64_of_lt ?_
        rw [hdiv, hnp]
        unfold ssdNpages ssdPageSize at *
        omega
      rw [hend] at hin
      obtain ⟨hw', hused⟩ := hw.give hin hall
      refine ⟨fun _ ba' hba => ?_, ?_⟩
      · obtain rfl := Option.some.inj hba
        exact ⟨hw', hshape'⟩
      · rw [← hnp]
        refine taken_gave (r := ⟨sub64 offset t.baseOffset / ba.pageSize, ba.npages size⟩)
          ?_ ?_ ?_ ?_
        · rw [pages_bitmap ho ha, pages_withAllocator ho]
        · rw [pages_bitmap ho ha]
          exact hin
        · rw [pageUsed_bitmap ho ha]
          exact fun p hc => hall p hc.1 hc.2
        · intro p
          rw [pageUsed_withAllocator ho, pageUsed_bitmap ho ha]
          exact hused p

/-! Registering storage. -/

/-- The registration leaves the pages of the tier to those who hold them: it is refused for its
arguments, or the tier is online and keeps the bitmap or pool that serves it. -/
def KeepsPages (t : TierMemCtx) (res : StorageResource) (env : RegisterEnv) : Prop :=
  (res.tier = .ssd ∧ res.device = some .file ∧ env.blockRejected = true) ∨ res.capacity = 0 ∨
    t.online = true ∧
      match res.tier with
      | .cxl => True
      | .dram => ∃ content, env.backing = .bytes content
      | .ssd => res.device = none ∨ t.ssdPool.isSome = true
      | .resv => False

variable {res : StorageResource} {env : RegisterEnv}

theorem taken_dropped (t : TierMemCtx) (hne : tier ≠ .ssd) : t.dropped.taken tier = 0 :=
  taken_none (Or.inl hne) rfl

theorem booked_of_none (ha : t.allocator = none) : t.Booked tier := by
  intro _ ba hba
  rw [ha] at hba
  cases hba

/-- A tier that comes online has a new bitmap, with no page allocated. -/
theorem registering_offline (hoff : t.online = false) (hcap : res.capacity < 2 ^ 64) (tier : Tier) :
    (t.registering res).Booked tier ∧ (t.registering res).taken tier = 0 := by
  have hreg : t.registering res =
      { allocator := baCreate res.capacity baDefaultPageSize
        totalSize := res.capacity
        baseOffset := res.baseOffset
        online := true
        window := none
        ssdPool := none } := by
    unfold registering
    rw [hoff]
    rfl
  have ho : (t.registering res).OwnBitmap tier := by
    rw [hreg]
    exact Or.inr rfl
  cases hba : baCreate res.capacity baDefaultPageSize with
  | none =>
    have ha : (t.registering res).allocator = none := by rw [hreg, hba]
    exact ⟨booked_of_none ha, taken_none ho ha⟩
  | some ba =>
    have ha : (t.registering res).allocator = some ba := by rw [hreg, hba]
    obtain ⟨hw, -, -, -, hunused⟩ := baCreate_wf hcap hba
    refine ⟨fun _ ba' hba' => ?_, ?_⟩
    · obtain rfl := Option.some.inj (ha.symm.trans hba')
      rw [hreg]
      exact ⟨hw, BitmapAllocator.shape_create hcap hba⟩
    · refine taken_of_unused ?_
      rw [pages_bitmap ho ha, pageUsed_bitmap ho ha]
      exact hunused

/-- The pages of a new device are free. -/
theorem taken_added {kind : BackendKind} {capacity : ℕ} {add : AddEnv} {old : SsdPool}
    (hold : old.WF) (hw : pool.WF) (hadd : ssdPoolAddDevice old kind capacity add = (.ok (), pool))
    (hp : t.ssdPool = some pool) : t.taken .ssd + old.freePages = old.totalPages := by
  obtain ⟨sb, -, hcap, -, -, rfl⟩ := ssdPoolAddDevice_ok hadd
  have hsum : old.totalCapacity + roundUpPage capacity < 2 ^ 64 := by
    have htotal := hw.total_lt
    rw [hw.sumCapacity, SsdPool.sumCapacity_grown, ← hold.sumCapacity, hcap] at htotal
    exact htotal
  obtain ⟨-, hused, hle, -⟩ := ssdPoolAddDevice_wf hold hsum hadd
  have hgrow := freeCount_grow hle (fun p _ => hused p)
    (fun p h1 _ => (hused p).trans (hold.padding p h1))
  have hcount := hw.counted
  have hcount' := hold.counted
  have hroom := freeCount_le old.used old.totalPages
  have htaken := taken_pool hw hp
  omega

/-- A device that is registered leaves the pages of a pool alone. A tier without a pool gets one
with free pages, or is given up. -/
theorem registerSsd_taken (hs : t.Sound .ssd ∨ t.ssdPool = none) {kind : BackendKind}
    {capacity : ℕ} {firstReg : Bool}
    (hs' : (t.registerSsd kind capacity firstReg env).2.Sound .ssd) :
    (t.registerSsd kind capacity firstReg env).2.Booked .ssd ∧
      (t.registerSsd kind capacity firstReg env).2.taken .ssd =
        if t.ssdPool.isSome then t.taken .ssd else 0 := by
  have hold : (t.ssdPool.getD ssdPoolCreate).WF := by
    cases hp : t.ssdPool with
    | none => exact ssdPoolCreate_wf
    | some pool =>
      rcases hs with hs | hn
      · exact (hs.pool pool hp).2.wf
      · rw [hp] at hn
        cases hn
  rcases t.registerSsd_cases kind capacity firstReg env with
    ⟨hp, -, he⟩ | ⟨e, -, he⟩ | ⟨pool', hadd, he⟩
  · rw [he, hp]
    exact ⟨booked_of_none rfl, taken_none (Or.inr hp) rfl⟩
  · rw [he]
    dsimp only
    cases hp : t.ssdPool with
    | none => exact ⟨booked_of_none rfl, taken_none (Or.inr rfl) rfl⟩
    | some pool =>
      have hne : pool.devices ≠ [] := by
        rcases hs with hs | hn
        · exact (hs.pool pool hp).2.nonempty
        · rw [hp] at hn
          cases hn
      rw [Option.getD_some, if_neg (fun hlen => hne (List.length_eq_zero_iff.mp hlen)), ← hp,
        if_pos (by rw [hp]; rfl)]
      exact ⟨booked_pool hp, rfl⟩
  · rw [he] at hs' ⊢
    dsimp only at hs' ⊢
    have hw := (hs'.pool pool' rfl).2.wf
    refine ⟨booked_pool rfl, ?_⟩
    have hadded := taken_added hold hw hadd (t := { t with
      ssdPool := some pool'
      totalSize := if firstReg then t.totalSize else u64 (t.totalSize + capacity) }) rfl
    cases hp : t.ssdPool with
    | none =>
      rw [hp] at hadded
      exact hadded
    | some pool =>
      rw [hp, Option.getD_some] at hadded
      rw [hp, Option.getD_some] at hold
      have htaken := taken_pool hold hp
      simp only [Option.isSome_some, if_true]
      omega

theorem registerDram_taken (hb : t.Booked .dram) (device : Option BackendKind)
    (backing : Backing) :
    (t.registerDram device backing).2.Booked .dram ∧
      ((t.registerDram device backing).2.taken .dram = t.taken .dram ∨
        (¬ ∃ content, backing = .bytes content) ∧
          (t.registerDram device backing).2.taken .dram = 0) := by
  have hdropped : t.dropped.Booked .dram ∧ t.dropped.taken .dram = 0 :=
    ⟨booked_of_none rfl, t.taken_dropped (by decide)⟩
  unfold registerDram
  split
  · exact ⟨hb, Or.inl rfl⟩
  · exact ⟨hdropped.1, Or.inr ⟨by simp, hdropped.2⟩⟩
  · exact ⟨hb, Or.inl rfl⟩
  next hbytes _ hnone =>
    refine ⟨hdropped.1, Or.inr ⟨?_, hdropped.2⟩⟩
    rintro ⟨content, rfl⟩
    cases device with
    | none => exact hnone content rfl rfl
    | some kind => exact hbytes kind content rfl rfl

/-- A tier that is online keeps its pages, one that is not has none to lose. -/
theorem registering_taken {tier : Tier} (hb : t.Booked tier) (hcap : res.capacity < 2 ^ 64)
    (hoff : t.online = false → t.taken tier = 0) :
    (t.registering res).Booked tier ∧ (t.registering res).taken tier = t.taken tier := by
  cases hon : t.online with
  | true =>
    have hreg : t.registering res = t := by
      unfold registering
      rw [if_pos hon]
    rw [hreg]
    exact ⟨hb, rfl⟩
  | false =>
    obtain ⟨hb', hzero⟩ := registering_offline hon hcap tier
    exact ⟨hb', hzero.trans (hoff hon).symm⟩

/-- A registration that keeps the pages of a tier, or finds none of them allocated. -/
theorem registerTier_taken (hs : t.Sound res.tier) (hb : t.Booked res.tier)
    (hcap : res.capacity < 2 ^ 64) (hs' : (t.registerTier res env).2.Sound res.tier)
    (hargs : ¬ (res.tier = .ssd ∧ res.device = some .file ∧ env.blockRejected = true))
    (hcap0 : res.capacity ≠ 0) (hk : t.KeepsPages res env ∨ t.taken res.tier = 0) :
    (t.registerTier res env).2.Booked res.tier ∧
      (t.registerTier res env).2.taken res.tier = t.taken res.tier := by
  have hkeeps : t.taken res.tier ≠ 0 → t.online = true ∧
      match res.tier with
      | .cxl => True
      | .dram => ∃ content, env.backing = .bytes content
      | .ssd => res.device = none ∨ t.ssdPool.isSome = true
      | .resv => False := by
    intro hne
    rcases hk with (hc | hc | hc) | hc
    · exact absurd hc hargs
    · exact absurd hc hcap0
    · exact hc
    · exact absurd hc hne
  obtain ⟨hub, hut⟩ := registering_taken hb hcap fun hoff => by
    by_contra hne
    have hon := (hkeeps hne).1
    rw [hoff] at hon
    cases hon
  have hpool := ssdPool_registering t res
  unfold registerTier at hs' ⊢
  dsimp only at hs' ⊢
  cases ha : (t.registering res).allocator with
  | none =>
    have hoff : t.online = false := by
      by_contra hon
      rw [Bool.not_eq_false] at hon
      obtain ⟨ba, hba⟩ := hs.allocator hon
      unfold registering at ha
      rw [if_pos hon, hba] at ha
      cases ha
    have hnone : (t.registering res).dropped.ssdPool = none := by
      rw [show (t.registering res).dropped.ssdPool = t.poolInUse from hpool]
      unfold poolInUse
      rw [hoff]
      rfl
    refine ⟨booked_of_none rfl, ?_⟩
    rw [taken_none (Or.inr hnone) rfl, ← hut, (registering_offline hoff hcap res.tier).2]
  | some ba =>
    rw [ha] at hs'
    obtain ⟨tier, capacity, baseOffset, device⟩ := res
    dsimp only at *
    cases tier with
    | cxl => exact ⟨hub, hut⟩
    | resv =>
      refine ⟨booked_of_none rfl, ?_⟩
      rw [taken_dropped _ (by decide)]
      by_contra hne
      exact (hkeeps (Ne.symm hne)).2
    | dram =>
      obtain ⟨hb', htaken | ⟨hno, hzero⟩⟩ := registerDram_taken hub device env.backing
      · exact ⟨hb', htaken.trans hut⟩
      · refine ⟨hb', ?_⟩
        rw [hzero]
        by_contra hne
        exact hno (hkeeps (Ne.symm hne)).2
    | ssd =>
      cases device with
      | none => exact ⟨hub, hut⟩
      | some kind =>
        have hor : (t.registering ⟨.ssd, capacity, baseOffset, some kind⟩).Sound .ssd ∨
            (t.registering ⟨.ssd, capacity, baseOffset, some kind⟩).ssdPool = none := by
          unfold registering
          split_ifs
          · exact Or.inl hs
          · exact Or.inr rfl
        obtain ⟨hb', htaken⟩ := registerSsd_taken hor hs'
        refine ⟨hb', htaken.trans ?_⟩
        split_ifs with hsome
        · exact hut
        · by_contra hne
          obtain ⟨hon, hnone | hin⟩ := hkeeps (Ne.symm hne)
          · cases hnone
          · refine hsome ?_
            rw [hpool]
            unfold poolInUse
            rw [if_pos hon]
            exact hin

end TierMemCtx

end Umm
