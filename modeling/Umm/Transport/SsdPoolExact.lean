import Umm.Transport.SsdPoolReach
import Mathlib.Data.Set.Card

/-! When the calls of the page allocator succeed: an allocation finds every free run, and a
free goes by the page that it starts in and by a page count that may wrap around. -/
namespace Umm
open Umm.Lib

/-- The answer of an exact first fit for `n` pages in `[lo, hi)`. -/
structure SsdPool.FirstFit (pool : SsdPool) (lo hi n : ℕ) (r : Except Error ℕ × SsdPool) :
    Prop where
  succeeds : (∃ voffset, r.1 = .ok voffset) ↔
    ∃ p, lo ≤ p ∧ p + n ≤ hi ∧ FreeRun pool.used p n
  lowest : ∀ voffset, r.1 = .ok voffset → ∃ page, voffset = page * ssdPageSize ∧
    LowestFree pool.used lo hi n page ∧
    (∀ p, r.2.used p = (decide ((⟨page, n⟩ : Run).Covers p) || pool.used p)) ∧
    r.2.freePages + n = pool.freePages ∧ r.2.totalPages = pool.totalPages ∧
    r.2.devices = pool.devices
  unchanged : ∀ e, r.1 = .error e → r.2 = pool

theorem ssdNpages_eq {size : ℕ} (hlt : size + (ssdPageSize - 1) < 2 ^ 64) :
    ssdNpages size = (size + (ssdPageSize - 1)) / ssdPageSize := by
  unfold ssdNpages
  rw [u64_of_lt (by unfold ssdPageSize at *; omega)]
  rfl

theorem ssdNpages_pos {size : ℕ} (h0 : 0 < size) (hlt : size + (ssdPageSize - 1) < 2 ^ 64) :
    0 < ssdNpages size := by
  rw [ssdNpages_eq hlt]
  unfold ssdPageSize
  omega

namespace SsdPool

variable {pool : SsdPool} {size : ℕ}

theorem bmFindFree_lt {lo hi n p : ℕ} (hn : 0 < n) (hlo : lo ≤ p) (hhi : p + n ≤ hi)
    (hfree : FreeRun pool.used p n) : bmFindFree pool.bitmap hi lo n < hi := by
  rcases bmFindFree_spec pool.bitmap hn (by omega : lo < hi) with hl | ⟨-, hnone⟩
  · have hfits := hl.fits
    omega
  · exact absurd hfree (hnone p hlo hhi)

theorem WF.ssdPoolAlloc_complete (hw : pool.WF) (h0 : 0 < size)
    (hlt : size + (ssdPageSize - 1) < 2 ^ 64) {p : ℕ} (hin : p + ssdNpages size ≤ pool.totalPages)
    (hfree : FreeRun pool.used p (ssdNpages size)) :
    ∃ voffset, (ssdPoolAlloc pool size).1 = .ok voffset := by
  have henough : ssdNpages size ≤ pool.freePages := hw.counted ▸ hfree.le_freeCount hin
  have hfound := bmFindFree_lt (ssdNpages_pos h0 hlt) (Nat.zero_le p) hin hfree
  unfold ssdPoolAlloc
  dsimp only
  rw [if_neg (by omega), if_neg (by omega), if_neg (by omega)]
  exact ⟨_, rfl⟩

theorem WF.ssdPoolAllocOnDevice_complete (hw : pool.WF) (h0 : 0 < size)
    (hlt : size + (ssdPageSize - 1) < 2 ^ 64) {idx : ℕ} {dev : SsdDevice}
    (hdev : pool.devices[idx]? = some dev) {p : ℕ} (hlo : dev.virtualBase / ssdPageSize ≤ p)
    (hhi : p + ssdNpages size ≤ dev.virtualBase / ssdPageSize + dev.capacity / ssdPageSize)
    (hfree : FreeRun pool.used p (ssdNpages size)) :
    ∃ voffset, (ssdPoolAllocOnDevice pool idx size).1 = .ok voffset := by
  have hend := hw.device_pages (List.mem_of_getElem? hdev)
  have henough : ssdNpages size ≤ pool.freePages :=
    hw.counted ▸ hfree.le_freeCount (hhi.trans hend)
  have hfound := bmFindFree_lt (ssdNpages_pos h0 hlt) hlo hhi hfree
  unfold ssdPoolAllocOnDevice
  rw [if_neg (by unfold ssdPageSize at *; omega)]
  dsimp only
  rw [hdev]
  dsimp only
  rw [if_neg (by omega), if_neg (by omega)]
  exact ⟨_, rfl⟩

theorem WF.taken (hw : pool.WF) {lo hi n page : ℕ} (hl : LowestFree pool.used lo hi n page)
    (hhi : hi ≤ pool.totalPages) :
    (∀ p, (pool.take page n).used p = (decide ((⟨page, n⟩ : Run).Covers p) || pool.used p)) ∧
      (pool.take page n).freePages + n = pool.freePages := by
  have hin := hl.fits.trans hhi
  have henough : n ≤ pool.freePages := hw.counted ▸ hl.free.le_freeCount hin
  refine ⟨(hw.take hin hl.free).2, ?_⟩
  show pool.freePages - n + n = pool.freePages
  omega

theorem WF.firstFit (hw : pool.WF) {lo hi n : ℕ} (hhi : hi ≤ pool.totalPages)
    {r : Except Error ℕ × SsdPool}
    (hcomplete : ∀ p, lo ≤ p → p + n ≤ hi → FreeRun pool.used p n → ∃ voffset, r.1 = .ok voffset)
    (hok : ∀ voffset pool', r = (.ok voffset, pool') → ∃ page,
      LowestFree pool.used lo hi n page ∧ voffset = page * ssdPageSize ∧ pool' = pool.take page n)
    (herror : ∀ e pool', r = (.error e, pool') → pool' = pool) : pool.FirstFit lo hi n r := by
  obtain ⟨res, pool'⟩ := r
  refine ⟨⟨?_, ?_⟩, ?_, ?_⟩
  · rintro ⟨voffset, rfl⟩
    obtain ⟨page, hl, -, -⟩ := hok voffset pool' rfl
    exact ⟨page, hl.ge, hl.fits, hl.free⟩
  · rintro ⟨p, hlo, hend, hfree⟩
    exact hcomplete p hlo hend hfree
  · rintro voffset rfl
    obtain ⟨page, hl, hoff, rfl⟩ := hok voffset pool' rfl
    obtain ⟨hused, hcount⟩ := hw.taken hl hhi
    exact ⟨page, hoff, hl, hused, hcount, rfl, rfl⟩
  · rintro e rfl
    exact herror e pool' rfl

theorem WF.ssdPoolAlloc_firstFit (hw : pool.WF) (h0 : 0 < size)
    (hlt : size + (ssdPageSize - 1) < 2 ^ 64) :
    pool.FirstFit 0 pool.totalPages (ssdNpages size) (ssdPoolAlloc pool size) := by
  refine hw.firstFit le_rfl ?_ ?_ (fun e pool' h => ssdPoolAlloc_error h)
  · intro p _ hin hfree
    exact hw.ssdPoolAlloc_complete h0 hlt hin hfree
  · intro voffset pool' h
    obtain ⟨page, -, hl, hoff, hpool⟩ := ssdPoolAlloc_ok hw h
    exact ⟨page, hl, hoff, hpool⟩

theorem WF.ssdPoolAllocOnDevice_firstFit (hw : pool.WF) (h0 : 0 < size)
    (hlt : size + (ssdPageSize - 1) < 2 ^ 64) {idx : ℕ} {dev : SsdDevice}
    (hdev : pool.devices[idx]? = some dev) :
    pool.FirstFit (dev.virtualBase / ssdPageSize)
      (dev.virtualBase / ssdPageSize + dev.capacity / ssdPageSize) (ssdNpages size)
      (ssdPoolAllocOnDevice pool idx size) := by
  refine hw.firstFit (hw.device_pages (List.mem_of_getElem? hdev)) ?_ ?_
    (fun e pool' h => ssdPoolAllocOnDevice_error h)
  · intro p hlo hhi hfree
    exact hw.ssdPoolAllocOnDevice_complete h0 hlt hdev hlo hhi hfree
  · intro voffset pool' h
    obtain ⟨dev', page, hdev', -, hl, hoff, hpool⟩ := ssdPoolAllocOnDevice_ok hw h
    obtain rfl : dev = dev' := Option.some.inj (hdev.symm.trans hdev')
    exact ⟨page, hl, hoff, hpool⟩

end SsdPool

/-- Every call finds the lowest free run that is long enough, wherever there is one. -/
theorem ssdPool_firstFit {pool : SsdPool} (h : pool.Reachable) (size : UInt64)
    (h0 : 0 < size.toNat) (hlt : size.toNat + 4095 < 2 ^ 64) :
    pool.FirstFit 0 pool.totalPages ((size.toNat + 4095) / 4096)
        (ssdPoolAlloc pool size.toNat) ∧
      ∀ deviceIdx : UInt32, match pool.devices[deviceIdx.toNat]? with
        | some dev => pool.FirstFit (dev.virtualBase / 4096)
            (dev.virtualBase / 4096 + dev.capacity / 4096) ((size.toNat + 4095) / 4096)
            (ssdPoolAllocOnDevice pool deviceIdx.toNat size.toNat)
        | none => ssdPoolAllocOnDevice pool deviceIdx.toNat size.toNat =
            (.error .invalidArg, pool) := by
  have hpages := ssdNpages_eq hlt
  refine ⟨?_, fun deviceIdx => ?_⟩
  · have hfit := h.wf.ssdPoolAlloc_firstFit h0 hlt
    rw [hpages] at hfit
    exact hfit
  · cases hdev : pool.devices[deviceIdx.toNat]? with
    | none =>
      unfold ssdPoolAllocOnDevice
      rw [if_neg (by unfold ssdPageSize; omega)]
      dsimp only
      rw [hdev]
    | some dev =>
      have hfit := h.wf.ssdPoolAllocOnDevice_firstFit h0 hlt hdev
      rw [hpages] at hfit
      exact hfit

/-- A pool of one file with two pages, both handed out. -/
def SsdPool.twoPages : SsdPool :=
  PoolCall.run (PoolCall.run ssdPoolCreate (.add .file 8192 ⟨true, fun _ => 0, true⟩)) (.alloc 8192)

theorem SsdPool.twoPages_reachable : SsdPool.twoPages.Reachable := by
  refine (reachable_create.next (.add .file 8192 ⟨true, fun _ => 0, true⟩) ?_).next _ ?_
  · decide
  · decide

/-- After the second page of two is freed, the next page handed out is that page. -/
theorem ssdPool_firstFit_secondPage :
    ((PoolCall.run SsdPool.twoPages (.free 4096 4096)).FirstFit 0 2 1
      (ssdPoolAlloc (PoolCall.run SsdPool.twoPages (.free 4096 4096)) 100)) ∧
    (ssdPoolAlloc (PoolCall.run SsdPool.twoPages (.free 4096 4096)) 100).1 = .ok 4096 := by
  have hreach := SsdPool.twoPages_reachable.next (.free 4096 4096) (by decide)
  exact ⟨(ssdPool_firstFit hreach 100 (by decide) (by decide)).1, by decide⟩

/-- One of the bytes `[voffset, voffset + size)` is in the page. -/
def Touches (voffset size page : ℕ) : Prop :=
  ∃ b, voffset ≤ b ∧ b < voffset + size ∧ b / ssdPageSize = page

/-- The answer of a free that is exact and all or nothing. -/
structure SsdPool.ExactFree (pool : SsdPool) (voffset size : ℕ)
    (r : Except Error Unit × SsdPool) : Prop where
  succeeds : r.1 = .ok () ↔
    0 < size ∧ ∀ p, Touches voffset size p → p < pool.totalPages ∧ pool.used p = true
  freed : r.1 = .ok () →
    (∀ p, r.2.used p = true ↔ pool.used p = true ∧ ¬ Touches voffset size p) ∧
    r.2.freePages = pool.freePages + Set.ncard { p | Touches voffset size p } ∧
    r.2.totalPages = pool.totalPages ∧ r.2.devices = pool.devices
  unchanged : ∀ e, r.1 = .error e → r.2 = pool

/-- The pages that a free counts are those that the range touches, or one of them is not
allocated. -/
def SsdPool.FreeCounts (pool : SsdPool) (voffset size : ℕ) : Prop :=
  size + 4095 < 2 ^ 64 ∧
    (voffset % 4096 + size ≤ (size + 4095) / 4096 * 4096 ∨
      ∃ p, voffset / 4096 ≤ p ∧ p < voffset / 4096 + (size + 4095) / 4096 ∧ pool.used p = false)

theorem touches_iff {voffset size p : ℕ} (h0 : 0 < size) :
    Touches voffset size p ↔ voffset / 4096 ≤ p ∧ p ≤ (voffset + size - 1) / 4096 := by
  unfold Touches ssdPageSize
  constructor
  · rintro ⟨b, hlow, hhigh, rfl⟩
    exact ⟨Nat.div_le_div_right hlow, Nat.div_le_div_right (by omega)⟩
  · rintro ⟨hlow, hhigh⟩
    exact ⟨max voffset (p * 4096), by omega, by omega, by omega⟩

theorem touches_ncard {voffset size : ℕ} (h0 : 0 < size) :
    Set.ncard { p | Touches voffset size p } =
      (voffset + size - 1) / 4096 + 1 - voffset / 4096 := by
  have hset : { p | Touches voffset size p } =
      ↑(Finset.Icc (voffset / 4096) ((voffset + size - 1) / 4096)) := by
    ext p
    rw [Set.mem_ofPred_eq, touches_iff h0, Finset.coe_Icc, Set.mem_Icc]
  rw [hset, Set.ncard_coe_finset, Nat.card_Icc]

namespace SsdPool

variable {pool : SsdPool} {voffset size : ℕ}

theorem WF.lt_of_used (hw : pool.WF) {p : ℕ} (hused : pool.used p = true) :
    p < pool.totalPages := by
  by_contra hp
  rw [hw.padding p (Nat.le_of_not_lt hp)] at hused
  cases hused

/-- The free takes back the pages that it counts when all of them are allocated. -/
theorem WF.ssdPoolFree_eq (hw : pool.WF) (h0 : 0 < size) (hv : voffset < pool.totalCapacity) :
    ssdPoolFree pool voffset size =
      if bmAllSet pool.bitmap (voffset / 4096) (ssdNpages size) then
        (.ok (), pool.given (voffset / 4096) (ssdNpages size))
      else (.error .invalidArg, pool) := by
  unfold ssdPoolFree
  dsimp only
  rw [if_neg (by omega), hw.free_end hv]
  by_cases hall : bmAllSet pool.bitmap (voffset / ssdPageSize) (ssdNpages size) = true
  · have hend : voffset / ssdPageSize + ssdNpages size ≤ pool.totalPages := by
      have hpages := hw.pages_eq
      by_contra hc
      have hlast := (bmAllSet_iff _ _ _).mp hall pool.totalPages
        (by unfold ssdPageSize at *; omega) (by omega)
      exact absurd (hw.lt_of_used hlast) (lt_irrefl _)
    rw [if_neg (by omega)]
    rfl
  · have hfalse : ¬ bmAllSet pool.bitmap (voffset / 4096) (ssdNpages size) = true := hall
    rw [if_neg hall, if_neg hfalse, ite_self]

theorem ExactFree.of_error {e : Error}
    (hn : 0 < size → ∃ p, Touches voffset size p ∧ ¬(p < pool.totalPages ∧ pool.used p = true)) :
    pool.ExactFree voffset size (.error e, pool) where
  succeeds := by
    refine ⟨fun h => (by cases h), ?_⟩
    rintro ⟨h0, hall⟩
    obtain ⟨p, htouch, hbad⟩ := hn h0
    exact absurd (hall p htouch) hbad
  freed := fun h => by cases h
  unchanged := fun _ _ => rfl

/-- The pages that were taken back, where they are those that the range touches. -/
theorem WF.exactFree_given (hw : pool.WF) (h0 : 0 < size) {n : ℕ}
    (hlast : (voffset + size - 1) / 4096 + 1 = voffset / 4096 + n)
    (hall : ∀ p, voffset / 4096 ≤ p → p < voffset / 4096 + n → pool.used p = true) :
    pool.ExactFree voffset size (.ok (), pool.given (voffset / 4096) n) := by
  have htouches : ∀ p, Touches voffset size p ↔ (⟨voffset / 4096, n⟩ : Run).Covers p := by
    intro p
    rw [touches_iff h0]
    show _ ↔ voffset / 4096 ≤ p ∧ p < voffset / 4096 + n
    omega
  have hn : 0 < n := by omega
  have hin : voffset / 4096 + n ≤ pool.totalPages := by
    have := hw.lt_of_used (hall (voffset / 4096 + n - 1) (by omega) (by omega))
    omega
  obtain ⟨-, hused⟩ := hw.given hin hall
  refine ⟨⟨fun _ => ⟨h0, fun p hp => ?_⟩, fun _ => rfl⟩, fun _ => ⟨?_, ?_, rfl, rfl⟩,
    fun e h => by cases h⟩
  · have hp := (htouches p).mp hp
    have hset := hall p hp.1 hp.2
    exact ⟨hw.lt_of_used hset, hset⟩
  · intro p
    dsimp only
    rw [hused p, htouches p, Bool.and_eq_true, Bool.not_eq_true', decide_eq_false_iff_not, and_comm]
  · have hfree := freeCount_le pool.used pool.totalPages
    have hcount := hw.counted
    have hpages := hw.totalPages_lt
    rw [touches_ncard h0, hlast, Nat.add_sub_cancel_left]
    exact u64_of_lt (by omega)

/-- A page that the range touches but the free does not count stays allocated. -/
theorem not_exactFree_given (h0 : 0 < size) {n : ℕ} (hbits : voffset / 4096 + n ≤ 64 * pool.bitmap.length)
    (hlast : voffset / 4096 + n ≤ (voffset + size - 1) / 4096) :
    ¬ pool.ExactFree voffset size (.ok (), pool.given (voffset / 4096) n) := by
  intro h
  have htouch : Touches voffset size (voffset / 4096 + n) :=
    (touches_iff h0).mpr ⟨Nat.le_add_right _ _, hlast⟩
  have hset := ((h.succeeds.mp rfl).2 _ htouch).2
  have hkept : (pool.given (voffset / 4096) n).used (voffset / 4096 + n) =
      pool.used (voffset / 4096 + n) := by
    have hclear := Bitmap.test_clearRun (by norm_num) pool.bitmap (voffset / 4096) n
      (voffset / 4096 + n) hbits
    refine hclear.trans ?_
    rw [decide_eq_false (by omega)]
    rfl
  exact (((h.freed rfl).1 _).mp (hkept.trans hset)).2 htouch

theorem WF.exactFree_outside (hw : pool.WF) (hout : size = 0 ∨ pool.totalCapacity ≤ voffset) :
    pool.ExactFree voffset size (ssdPoolFree pool voffset size) := by
  have hpages := hw.pages_eq
  unfold ssdPageSize at hpages
  unfold ssdPoolFree
  rw [if_pos hout]
  refine .of_error fun hpos => ⟨voffset / 4096, (touches_iff hpos).mpr ⟨le_rfl, ?_⟩, by omega⟩
  exact Nat.div_le_div_right (by omega)

theorem WF.not_exactFree_wrapped (hw : pool.WF) (hv : voffset < pool.totalCapacity)
    (hlt : size < 2 ^ 64) (hwrap : 2 ^ 64 ≤ size + 4095) :
    ¬ pool.ExactFree voffset size (ssdPoolFree pool voffset size) := by
  have hbits := hw.pages_le
  have hpages := hw.pages_eq
  unfold ssdPageSize at hpages
  have hnone : ssdNpages size = 0 := by
    unfold ssdNpages u64 ssdPageSize
    omega
  have hall : bmAllSet pool.bitmap (voffset / 4096) 0 = true := rfl
  rw [hw.ssdPoolFree_eq (by omega) hv, hnone, if_pos hall]
  exact not_exactFree_given (by omega) (by omega) (by omega)

theorem WF.exactFree_iff (hw : pool.WF) (hpos : 0 < size) (hv : voffset < pool.totalCapacity)
    (hwrap : size + 4095 < 2 ^ 64) :
    pool.ExactFree voffset size (ssdPoolFree pool voffset size) ↔
      pool.FreeCounts voffset size := by
  have hbits := hw.pages_le
  have hpages : ssdNpages size = (size + 4095) / 4096 := ssdNpages_eq hwrap
  rw [hw.ssdPoolFree_eq hpos hv]
  split_ifs with hall
  · have hall := (bmAllSet_iff _ _ _).mp hall
    by_cases hfits : voffset % 4096 + size ≤ (size + 4095) / 4096 * 4096
    · refine iff_of_true (hw.exactFree_given hpos ?_ hall) ⟨hwrap, Or.inl hfits⟩
      rw [hpages]
      omega
    · have hlast := hw.lt_of_used (hall (voffset / 4096 + ssdNpages size - 1) (by omega) (by omega))
      refine iff_of_false (not_exactFree_given hpos (by omega) (by omega)) ?_
      rintro ⟨-, hfits' | ⟨p, hlow, hhigh, hfree⟩⟩
      · exact hfits hfits'
      · have hset := hall p hlow (by omega)
        exact Bool.noConfusion (hset.symm.trans hfree)
  · -- the double-free check stops at a page that the range touches
    have hsome : ∃ p, voffset / 4096 ≤ p ∧ p < voffset / 4096 + (size + 4095) / 4096 ∧
        pool.used p = false := by
      by_contra hnone
      refine hall ((bmAllSet_iff _ _ _).mpr fun p hlow hhigh => ?_)
      by_contra hfree
      exact hnone ⟨p, hlow, by omega, Bool.eq_false_of_not_eq_true hfree⟩
    obtain ⟨p, hlow, hhigh, hfree⟩ := hsome
    refine iff_of_true (.of_error fun _ => ⟨p, (touches_iff hpos).mpr ⟨hlow, by omega⟩, ?_⟩)
      ⟨hwrap, Or.inr ⟨p, hlow, hhigh, hfree⟩⟩
    rintro ⟨-, hset⟩
    exact Bool.noConfusion (hset.symm.trans hfree)

end SsdPool

/-- A free is exact when it starts outside the pool, or counts the pages that the range touches,
or finds one of those that it counts unallocated. -/
theorem ssdPoolFree_exact_iff {pool : SsdPool} (h : pool.Reachable) (voffset size : UInt64) :
    pool.ExactFree voffset.toNat size.toNat (ssdPoolFree pool voffset.toNat size.toNat) ↔
      size.toNat = 0 ∨ pool.totalCapacity ≤ voffset.toNat ∨
        pool.FreeCounts voffset.toNat size.toNat := by
  by_cases hout : size.toNat = 0 ∨ pool.totalCapacity ≤ voffset.toNat
  · exact iff_of_true (h.wf.exactFree_outside hout) (or_assoc.mp (Or.inl hout))
  · rw [← or_assoc, or_iff_right hout]
    by_cases hwrap : size.toNat + 4095 < 2 ^ 64
    · exact h.wf.exactFree_iff (by omega) (by omega) hwrap
    · refine iff_of_false ?_ fun hcounts => hwrap hcounts.1
      exact h.wf.not_exactFree_wrapped (by omega) size.toNat_lt (by omega)

theorem ssdPoolFree_exact_twoPages :
    SsdPool.twoPages.ExactFree 0 8192 (ssdPoolFree SsdPool.twoPages 0 8192) ∧
      ¬ SsdPool.twoPages.ExactFree 4095 2 (ssdPoolFree SsdPool.twoPages 4095 2) := by
  have hiff := ssdPoolFree_exact_iff SsdPool.twoPages_reachable
  refine ⟨(hiff 0 8192).mpr (Or.inr (Or.inr ⟨by decide, Or.inl (by decide)⟩)), fun h => ?_⟩
  rcases (hiff 4095 2).mp h with h0 | hv | ⟨-, hfits | ⟨p, hlow, hhigh, hfree⟩⟩
  · revert h0
    decide
  · revert hv
    decide
  · revert hfits
    decide
  · have hp : p = 0 := by
      have : p < 4095 / 4096 + (2 + 4095) / 4096 := hhigh
      omega
    rw [hp] at hfree
    revert hfree
    decide

/-- Two bytes across the border of two allocated pages: one page is freed, not both. -/
theorem ssdPoolFree_across_pages : ∃ pool : SsdPool, pool.Reachable ∧
    ∃ voffset size : UInt64,
      ¬ pool.ExactFree voffset.toNat size.toNat (ssdPoolFree pool voffset.toNat size.toNat) := by
  refine ⟨SsdPool.twoPages, SsdPool.twoPages_reachable, 4095, 2, fun h => ?_⟩
  have hok : (ssdPoolFree SsdPool.twoPages 4095 2).1 = .ok () := by decide
  have htouch : Touches 4095 2 1 := ⟨4096, by decide, by decide, by decide⟩
  have hused : (ssdPoolFree SsdPool.twoPages 4095 2).2.used 1 = true := by decide
  exact (((h.freed hok).1 1).mp hused).2 htouch

end Umm
