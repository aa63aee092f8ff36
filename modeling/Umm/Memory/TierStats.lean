import Umm.Memory.MemVtbl
import Umm.Memory.TierMoves

/-! The statistics of a tier against the sizes of what was allocated in it and not freed. -/
namespace Umm
open Umm.Lib

/-! Runs, with the sizes that were granted and given back. -/

/-- A size in whole pages of 4096 bytes. -/
def pageRounded (size : ℕ) : ℕ := (size + 4095) / 4096 * 4096

/-- The page-rounded sizes of one tier, added up. -/
def roundedSum (sizes : List (Tier × ℕ)) (tier : Tier) : ℕ :=
  ((sizes.filter (fun a => a.1 = tier)).map (fun a => pageRounded a.2)).sum

namespace MemsvcCall

/-- The allocation that the call makes. -/
def grant (m : MemServiceCtx) : MemsvcCall → Option (Tier × ℕ)
  | allocTiered tier size backing =>
    (answeredSize (memsvcAllocTiered m tier size.toNat backing).1 size.toNat).map (tier, ·)
  | allocOnDevice tier deviceIdx size =>
    (answeredSize (memsvcAllocOnDevice m tier deviceIdx.toNat size.toNat).1 size.toNat).map (tier, ·)
  | _ => none

/-- What the call frees. -/
def giveBack (m : MemServiceCtx) : MemsvcCall → Option (Tier × ℕ)
  | freeTiered tier offset size =>
    (answeredSize (memsvcFreeTiered m tier offset.toNat size.toNat).1 size.toNat).map (tier, ·)
  | _ => none

/-- A registration leaves allocated pages to those who hold them. -/
def Spares (m : MemServiceCtx) : MemsvcCall → Prop
  | registerStorage tier capacity baseOffset device env =>
    (m.tiers tier).KeepsPages (resource tier capacity baseOffset device) env ∨ m.taken tier = 0
  | _ => True

/-- No size that is granted or given back wraps when it is rounded up to pages, and no page is
lost to a registration. -/
structure KeepsBooks (m : MemServiceCtx) (call : MemsvcCall) : Prop where
  granted : ∀ a ∈ call.grant m, a.2 + 4095 < 2 ^ 64
  returned : ∀ a ∈ call.giveBack m, a.2 + 4095 < 2 ^ 64
  spares : call.Spares m

end MemsvcCall

/-- A service with the sizes of the allocations it made and of what was freed. -/
structure MemHistory where
  ctx : MemServiceCtx
  granted : List (Tier × ℕ)
  returned : List (Tier × ℕ)

namespace MemHistory

def start : MemHistory := ⟨memServiceDirectCreateV2, [], []⟩

def Step (h : MemHistory) (call : MemsvcCall) (h' : MemHistory) : Prop :=
  MemsvcCall.Step h.ctx call h'.ctx ∧
    h'.granted = (call.grant h.ctx).toList ++ h.granted ∧
    h'.returned = (call.giveBack h.ctx).toList ++ h.returned

def Reachable (h : MemHistory) : Prop := Reach (· = start) Step h

/-- The runs whose calls all keep the books. -/
def BooksKept (h : MemHistory) : Prop :=
  Reach (· = start) (Guarded (fun h call => call.KeepsBooks h.ctx) Step) h

/-- The page-rounded sizes of the live allocations of a tier, added up. -/
def live (h : MemHistory) (tier : Tier) : ℤ :=
  (roundedSum h.granted tier : ℤ) - roundedSum h.returned tier

end MemHistory

theorem pageRounded_eq {size : ℕ} (h : size + 4095 < 2 ^ 64) :
    pageRounded size = ssdNpages size * 4096 := by
  unfold ssdNpages ssdPageSize
  rw [u64_of_lt (by omega)]
  rfl

theorem roundedSum_append (o : Option (Tier × ℕ)) (sizes : List (Tier × ℕ)) (tier : Tier) :
    roundedSum (o.toList ++ sizes) tier = roundedSum o.toList tier + roundedSum sizes tier := by
  unfold roundedSum
  rw [List.filter_append, List.map_append, List.sum_append]

/-- The pages of a request that is counted, in bytes. -/
theorem roundedSum_answered {o : Option ℕ} {tier : Tier}
    (hfit : ∀ a ∈ o.map (tier, ·), a.2 + 4095 < 2 ^ 64) (tier' : Tier) :
    (roundedSum (o.map (tier, ·)).toList tier' : ℤ) =
      if tier' = tier then 4096 * pagesOf o else 0 := by
  cases o with
  | none => simp [roundedSum, pagesOf]
  | some size =>
    have hround := pageRounded_eq (hfit _ rfl)
    by_cases ht : tier' = tier
    · subst ht
      simp [roundedSum, pagesOf, hround, mul_comm]
    · simp [roundedSum, ht, Ne.symm ht]

namespace MemServiceCtx

variable {m m' : MemServiceCtx}

/-- One call moves as many bytes in whole pages as it grants or gives back. -/
theorem Booked.step (hb : m.Booked) (hs : m.Sound) {call : MemsvcCall}
    (hstep : MemsvcCall.Step m call m') (hk : call.KeepsBooks m) :
    m'.Booked ∧ ∀ tier, 4096 * (m'.taken tier : ℤ) = 4096 * m.taken tier +
      (roundedSum (call.grant m).toList tier - roundedSum (call.giveBack m).toList tier) := by
  have hmoves : ∃ tier pages, m.Moves m' tier pages ∧ ∀ tier',
      (roundedSum (call.grant m).toList tier' : ℤ) - roundedSum (call.giveBack m).toList tier' =
        if tier' = tier then 4096 * pages else 0 := by
    have hs' := hs.step hstep
    obtain ⟨hrun, -⟩ := hstep
    obtain ⟨hgrant, hback, hspares⟩ := hk
    have hnone : ∀ tier tier' : Tier, (roundedSum (none : Option (Tier × ℕ)).toList tier' : ℤ) -
        roundedSum (none : Option (Tier × ℕ)).toList tier' =
          if tier' = tier then 4096 * 0 else 0 := by
      intro tier tier'
      simp
    cases call with
    | registerStorage tier capacity baseOffset device env =>
      obtain rfl := Option.some.inj hrun
      exact ⟨tier, 0, hb.registerStorage hs capacity.toNat_lt hs' hspares, hnone tier⟩
    | allocTiered tier size backing =>
      obtain rfl := Option.some.inj hrun
      refine ⟨tier, _, hb.allocTiered hs tier size.toNat backing, fun tier' => ?_⟩
      rw [MemsvcCall.grant, roundedSum_answered hgrant]
      exact sub_zero _
    | allocOnDevice tier deviceIdx size =>
      obtain rfl := Option.some.inj hrun
      refine ⟨tier, _, hb.allocOnDevice hs tier deviceIdx.toNat size.toNat, fun tier' => ?_⟩
      rw [MemsvcCall.grant, roundedSum_answered hgrant]
      exact sub_zero _
    | freeTiered tier offset size =>
      obtain rfl := Option.some.inj hrun
      refine ⟨tier, _, hb.freeTiered hs tier offset.toNat size.toNat, fun tier' => ?_⟩
      rw [MemsvcCall.giveBack, roundedSum_answered hback]
      split_ifs
      · rw [mul_neg]
        exact zero_sub _
      · rfl
    | mapDevice tier offset size backing =>
      obtain rfl := Option.some.inj hrun
      exact ⟨tier, 0, hb.mapDevice tier offset.toNat size.toNat backing, hnone tier⟩
    | ssdIo os tier offset len buf isWrite =>
      obtain ⟨r, hio, rfl⟩ := Option.map_eq_some_iff.mp hrun
      exact ⟨tier, 0, hb.ssdIo hs hio, hnone tier⟩
    | store ptr bytes =>
      simp only [MemsvcCall.run, storeAt] at hrun
      split_ifs at hrun
      obtain rfl := Option.some.inj hrun
      obtain ⟨tier, hmoves⟩ := hb.store ptr bytes
      exact ⟨tier, 0, hmoves, hnone tier⟩
  obtain ⟨tier, pages, hmoves, hsizes⟩ := hmoves
  refine ⟨hmoves.booked, fun tier' => ?_⟩
  rw [hmoves.taken, hsizes]
  split_ifs
  · ring
  · ring

end MemServiceCtx

namespace MemHistory

variable {h h' : MemHistory} {tier : Tier}

/-- The allocated pages of each tier are those of its live allocations. -/
structure Balanced (h : MemHistory) : Prop where
  sound : h.ctx.Sound
  booked : h.ctx.Booked
  balance : ∀ tier, 4096 * (h.ctx.taken tier : ℤ) = h.live tier

theorem balanced_start : start.Balanced where
  sound := fun _ => TierMemCtx.sound_offline
  booked := fun _ => TierMemCtx.booked_of_none rfl
  balance := fun tier => by
    rw [MemServiceCtx.taken, TierMemCtx.taken_none (Or.inr rfl) rfl]
    simp [live, roundedSum, start]

theorem Balanced.step (hb : h.Balanced) {call : MemsvcCall} (hk : call.KeepsBooks h.ctx)
    (hstep : h.Step call h') : h'.Balanced := by
  obtain ⟨hctx, hgranted, hreturned⟩ := hstep
  obtain ⟨hbooked, htaken⟩ := hb.booked.step hb.sound hctx hk
  refine ⟨hb.sound.step hctx, hbooked, fun tier => ?_⟩
  have hbalance := hb.balance tier
  rw [htaken]
  unfold live at hbalance ⊢
  rw [hgranted, hreturned, roundedSum_append, roundedSum_append]
  push_cast
  linarith

theorem BooksKept.balanced (h' : h.BooksKept) : h.Balanced := by
  refine Reach.invariant (P := Balanced) ?_ (fun _ _ _ hb hs => hb.step hs.1 hs.2) h'
  rintro _ rfl
  exact balanced_start

/-- Where all that was freed had been granted with its size, the allocations that remain are the
live ones. -/
theorem live_eq_diff (hsub : h.returned.Subperm h.granted) (tier : Tier) :
    h.live tier = roundedSum (h.granted.diff h.returned) tier := by
  have hperm := List.subperm_append_diff_self_of_count_le (List.subperm_ext_iff.mp hsub)
  have hsum : roundedSum h.returned tier + roundedSum (h.granted.diff h.returned) tier =
      roundedSum h.granted tier := by
    unfold roundedSum
    rw [← List.sum_append, ← List.map_append, ← List.filter_append]
    exact ((hperm.filter _).map _).sum_eq
  unfold live
  omega

end MemHistory

/-- The statistics of a tier whose live allocations have this many bytes in whole pages: free and
used bytes are the total, and the used bytes are those of the allocations. -/
structure StatsConsistent (stats : Proto.MemStatsResp) (live : ℤ) : Prop where
  total_eq : stats.total.toNat = stats.used.toNat + stats.free.toNat
  used_le : stats.used.toNat ≤ stats.total.toNat
  used_eq : (stats.used.toNat : ℤ) = live

/-- The subtraction must not wrap. -/
theorem memStats_consistent_iff {total free : ℕ} (htotal : total < 2 ^ 64) (hfree : free < 2 ^ 64)
    (live : ℤ) :
    StatsConsistent (memStats total free) live ↔ free ≤ total ∧ (total : ℤ) = live + free := by
  have ht : (memStats total free).total.toNat = total := UInt64.toNat_ofNat_of_lt' htotal
  have hf : (memStats total free).free.toNat = free := UInt64.toNat_ofNat_of_lt' hfree
  have hu : (memStats total free).used.toNat = sub64 total free :=
    UInt64.toNat_ofNat_of_lt' (sub64_lt total free)
  constructor
  · rintro ⟨h1, -, h2⟩
    rw [ht, hf] at h1
    refine ⟨by omega, ?_⟩
    rw [h1]
    push_cast
    rw [h2]
  · rintro ⟨hle, hsum⟩
    rw [sub64_of_le hle htotal] at hu
    refine ⟨?_, ?_, ?_⟩
    · rw [ht, hf, hu]
      omega
    · rw [ht, hu]
      omega
    · rw [hu]
      omega

namespace TierMemCtx

variable {t : TierMemCtx} {tier : Tier}

/-- The total that is reported is a whole number of pages: that of a pool, or a capacity that is
one. -/
def WholePages (t : TierMemCtx) (tier : Tier) : Prop :=
  tier = .ssd ∧ t.ssdPool.isSome = true ∨ 4096 ∣ t.totalSize

/-- A bitmap has as many pages as its bytes, or one that is not whole. -/
theorem numPages_mul_iff {ba : BitmapAllocator} {total : ℕ} (h : ba.Shape total baDefaultPageSize) :
    ba.numPages * 4096 = total ↔ 4096 ∣ total := by
  have hps : ba.pageSize = 4096 := h.pageSize_eq
  have hnum := h.numPages_eq
  have hle := h.pageSize_le
  have hlt := h.total_lt
  rw [hps] at hnum hle
  unfold u64 at hnum
  omega

/-- The statistics of a tier with as many allocated pages as its live allocations have. -/
theorem Booked.stats_iff (hb : t.Booked tier) (hs : t.Sound tier) {m : MemServiceCtx}
    (hm : m.tiers tier = t) {stats : Proto.MemStatsResp}
    (hstats : memsvcGetTierStats m tier = .ok stats) :
    StatsConsistent stats (4096 * (t.taken tier : ℤ)) ↔ t.WholePages tier := by
  unfold memsvcGetTierStats at hstats
  rw [hm] at hstats
  dsimp only at hstats
  cases ha : t.allocator with
  | none =>
    rw [ha] at hstats
    simp at hstats
  | some ba =>
    cases hon : t.online with
    | false =>
      rw [ha, hon] at hstats
      simp at hstats
    | true =>
      rw [ha, hon] at hstats
      dsimp only at hstats
      rcases t.pool_or_ownBitmap tier with ⟨pool, rfl, hp⟩ | ho
      · have hw := (hs.pool pool hp).2.wf
        have htaken := taken_pool hw hp
        have hpages := hw.totalPages_lt
        rw [hp] at hstats
        obtain rfl := Except.ok.inj hstats
        refine iff_of_true ?_ (Or.inl ⟨rfl, by rw [hp]; rfl⟩)
        have htotal : (ssdPoolGetUsage pool).1 = pool.totalPages * 4096 :=
          u64_of_lt (by unfold ssdPageSize; omega)
        have hfree : (ssdPoolGetUsage pool).2 = pool.freePages * 4096 :=
          u64_of_lt (by unfold ssdPageSize; omega)
        rw [htotal, hfree, memStats_consistent_iff (by omega) (by omega)]
        refine ⟨by omega, ?_⟩
        push_cast
        omega
      · obtain ⟨hw, hshape⟩ := hb ho ba ha
        have htaken := taken_bitmap hw ho ha
        have hmul := numPages_mul_iff hshape
        have hlt := hshape.total_lt
        have hnum := hshape.numPages_eq
        have hstats' : memStats t.totalSize (u64 (ba.freePages * baDefaultPageSize)) = stats := by
          rcases ho with hne | hn
          · cases tier <;> simp_all
          · rw [hn] at hstats
            cases tier <;> exact Except.ok.inj hstats
        have hfree : u64 (ba.freePages * baDefaultPageSize) = ba.freePages * 4096 := by
          have hsum := u64_lt (t.totalSize + 4096 - 1)
          rw [show ba.pageSize = 4096 from hshape.pageSize_eq] at hnum
          refine u64_of_lt ?_
          unfold baDefaultPageSize
          omega
        have hnot : t.WholePages tier ↔ 4096 ∣ t.totalSize := by
          refine or_iff_right ?_
          rintro ⟨hssd, hsome⟩
          rcases ho with hne | hn
          · exact hne hssd
          · rw [hn] at hsome
            cases hsome
        rw [← hstats', hfree, hnot, ← hmul,
          memStats_consistent_iff hlt (by rw [← hfree]; exact u64_lt _)]
        omega

end TierMemCtx

/-- In a run that keeps the books, the statistics of a tier agree with its live allocations exactly
where the total is a whole number of pages. -/
theorem memsvcGetTierStats_consistent_iff {h : MemHistory} (hr : h.BooksKept) {tier : Tier}
    {stats : Proto.MemStatsResp} (hs : memsvcGetTierStats h.ctx tier = .ok stats) :
    StatsConsistent stats (h.live tier) ↔ (h.ctx.tiers tier).WholePages tier := by
  have hb := hr.balanced
  rw [← hb.balance tier]
  exact (hb.booked tier).stats_iff (hb.sound tier) rfl hs

namespace MemHistory

/-- One page of SSD storage without a path, after 100 bytes were allocated in it. -/
def onePage : MemHistory :=
  ⟨MemServiceCtx.ssdPage.setTier .ssd ⟨some ⟨4096, 4096, 1, 0, [0#8]⟩, 4096, 0, true, none, none⟩,
    [(.ssd, 100)], []⟩

theorem ssdPage_alloc : memsvcAllocTiered MemServiceCtx.ssdPage .ssd 100 .failed =
    (.ok 0, onePage.ctx) := by
  have hba : baAlloc ⟨4096, 4096, 1, 1, [1#8]⟩ 100 = (.ok 0, ⟨4096, 4096, 1, 0, [0#8]⟩) := by
    decide +kernel
  simp [memsvcAllocTiered, MemServiceCtx.ssdPage, onePage, TierMemCtx.alloc, hba, Except.map, u64]

theorem onePage_booksKept : onePage.BooksKept := by
  have hfits : ∀ m : MemServiceCtx, (m.tiers .ssd).ssdPool = none → m.FitsMemory := by
    intro m hnone pool hpool
    rw [hnone] at hpool
    cases hpool
  have hreg : (⟨MemServiceCtx.ssdPage, [], []⟩ : MemHistory).BooksKept := by
    refine Reach.next (.registerStorage .ssd 4096 0 none MemServiceCtx.notOpened)
      (Reach.start rfl) ⟨⟨?_, ?_, Or.inr ?_⟩, ⟨?_, hfits _ rfl⟩, rfl, rfl⟩
    · intro a ha
      cases ha
    · intro a ha
      cases ha
    · exact TierMemCtx.taken_none (Or.inr rfl) rfl
    · have hba : baCreate 4096 baDefaultPageSize = some ⟨4096, 4096, 1, 1, [1#8]⟩ := by
        decide +kernel
      simp [MemsvcCall.run, MemsvcCall.resource, memsvcRegisterStorage, memServiceDirectCreateV2,
        start, TierMemCtx.offline, hba, MemServiceCtx.ssdPage]
  have hgrant : (MemsvcCall.allocTiered .ssd 100 .failed).grant MemServiceCtx.ssdPage =
      some (.ssd, 100) := by
    change (answeredSize (memsvcAllocTiered MemServiceCtx.ssdPage .ssd 100 .failed).1 100).map _ = _
    rw [ssdPage_alloc]
    rfl
  refine Reach.next (.allocTiered .ssd 100 .failed) hreg
    ⟨⟨?_, ?_, trivial⟩, ⟨?_, hfits _ rfl⟩, ?_, rfl⟩
  · rw [hgrant]
    rintro a ⟨⟩
    decide
  · intro a ha
    cases ha
  · exact congrArg (fun r => some r.2) ssdPage_alloc
  · rw [hgrant]
    rfl

end MemHistory

/-- The page that is in use is the whole tier. -/
theorem memsvcGetTierStats_consistent_onePage :
    StatsConsistent ⟨4096, 4096, 0⟩ (MemHistory.onePage.live .ssd) :=
  (memsvcGetTierStats_consistent_iff MemHistory.onePage_booksKept rfl).mpr (Or.inr ⟨1, rfl⟩)

namespace MemHistory

/-- CXL memory of one byte more than a page. -/
def pageAndByte : MemHistory :=
  ⟨memServiceDirectCreateV2.setTier .cxl
    ⟨some ⟨4097, 4096, 2, 2, [3#8]⟩, 4097, 0, true, none, none⟩, [], []⟩

theorem pageAndByte_reachable : pageAndByte.Reachable := by
  have hba : baCreate 4097 baDefaultPageSize = some ⟨4097, 4096, 2, 2, [3#8]⟩ := by decide +kernel
  refine Reach.next (.registerStorage .cxl 4097 0 none MemServiceCtx.notOpened) (Reach.start rfl)
    ⟨⟨?_, ?_⟩, rfl, rfl⟩
  · simp [MemsvcCall.run, MemsvcCall.resource, memsvcRegisterStorage, memServiceDirectCreateV2,
      start, TierMemCtx.offline, hba, pageAndByte]
  · intro pool hpool
    cases hpool

end MemHistory

/-- Two free pages are more than the total, and the used bytes wrap. -/
theorem memsvcGetTierStats_wraps :
    ¬ ∀ h : MemHistory, h.Reachable → ∀ tier stats, memsvcGetTierStats h.ctx tier = .ok stats →
      StatsConsistent stats (h.live tier) := by
  intro hall
  have hstats : memsvcGetTierStats MemHistory.pageAndByte.ctx .cxl =
      .ok ⟨4097, 18446744073709547521, 8192⟩ := by
    decide +kernel
  have hc := hall _ MemHistory.pageAndByte_reachable .cxl _ hstats
  exact absurd hc.total_eq (by decide)

end Umm
