import Umm.Common.BitmapAllocator
import Umm.Lib.Reach

/-! Whole runs of the page allocator. The books kept by its callers, a list of live
ranges, agree with the bitmap and the free counter as long as no request size wraps
when it is rounded up to pages. -/
namespace Umm
open Umm.Lib

theorem baPageSize_pos (pageSize : ℕ) : 0 < baPageSize pageSize := by
  unfold baPageSize baDefaultPageSize
  split_ifs <;> omega

/-- The last page starts inside the arena, also when the rounded size wraps. -/
private theorem mul_lt_of_lt_div {total ps p : ℕ} (hps : 0 < ps) (hle : ps ≤ total)
    (hlt : total < 2 ^ 64) (hp : p < u64 (total + ps - 1) / ps) : p * ps < total := by
  have h1 : (p + 1) * ps ≤ u64 (total + ps - 1) := (Nat.le_div_iff_mul_le hps).mp hp
  have h2 : (p + 1) * ps = p * ps + ps := by ring
  unfold u64 at h1
  omega

theorem baCreate_wf {totalBytes pageSize : ℕ} {ba : BitmapAllocator}
    (hlt : totalBytes < 2 ^ 64) (h : baCreate totalBytes pageSize = some ba) :
    ba.WF ∧ ba.pageSize = baPageSize pageSize ∧
      ba.numPages = u64 (totalBytes + baPageSize pageSize - 1) / baPageSize pageSize ∧
      baPageSize pageSize ≤ totalBytes ∧ ∀ p < ba.numPages, ba.used p = false := by
  unfold baCreate at h
  split_ifs at h with h0
  dsimp only at h
  split_ifs at h with h1 h2
  obtain rfl := Option.some.inj h
  have hps := baPageSize_pos pageSize
  simp only [not_or, Nat.not_lt] at h1 h2 ⊢
  set n := u64 (totalBytes + baPageSize pageSize - 1) / baPageSize pageSize with hn
  set b := u64 (n + 7) / 8 with hbb
  have hlen : (List.replicate b 0xFF#8).length = b := List.length_replicate
  have hget : ∀ p, bitmapGet (Bitmap.clearRun (List.replicate b 0xFF#8) n (b * 8 - n)) p =
      decide (p < n) := by
    intro p
    have hones := Bitmap.test_replicate_ones (w := 8) (by norm_num) b p
    have hall : BitVec.allOnes 8 = 0xFF#8 := by decide
    rw [hall] at hones
    unfold bitmapGet
    rw [Bitmap.test_clearRun (by norm_num) _ _ _ _ (by rw [hlen]; omega), hones,
      ← decide_not, ← Bool.decide_and]
    exact decide_eq_decide.mpr (by omega)
  have hfree : ∀ p < n, pageTaken
      (Bitmap.clearRun (List.replicate b 0xFF#8) n (b * 8 - n)) p = false := by
    intro p hp
    rw [pageTaken, hget p, decide_eq_true hp]
    rfl
  refine ⟨?_, trivial, trivial, h1, hfree⟩
  constructor
  · exact hps
  · exact lt_of_le_of_lt h1 hlt
  · exact hlt
  · exact fun p hp => mul_lt_of_lt_div hps h1 hlt hp
  · dsimp only
    unfold addressSpace at h2
    omega
  · rw [Bitmap.length_clearRun, hlen]
    dsimp only
    omega
  · intro p hp
    dsimp only at hp
    rw [hget p, decide_eq_false (by omega)]
  · exact (freeCount_of_unused hfree).symm

/-! What one call does. -/

theorem baAlloc_error {ba ba' : BitmapAllocator} {n : ℕ} {e : Error}
    (h : baAlloc ba n = (.error e, ba')) : ba' = ba := by
  unfold baAlloc at h
  dsimp only at h
  split_ifs at h <;> simp_all

theorem baAlloc_ok {ba ba' : BitmapAllocator} {n off : ℕ} (hw : ba.WF)
    (h : baAlloc ba n = (.ok off, ba')) :
    ∃ page, n ≠ 0 ∧ page < ba.numPages ∧ ba.npages n ≤ ba.freePages ∧
      LowestFree ba.used 0 ba.numPages (ba.npages n) page ∧ off = page * ba.pageSize ∧
      ba' = { ba with bitmap := Bitmap.clearRun ba.bitmap page (ba.npages n),
                      freePages := ba.freePages - ba.npages n } := by
  unfold baAlloc at h
  dsimp only at h
  split_ifs at h with h0 h1 h2 h3 <;>
    simp only [Prod.mk.injEq, Except.ok.injEq, reduceCtorEq, false_and] at h
  obtain ⟨ho, hba⟩ := h
  have hp : findFreeRun ba.bitmap ba.numPages 0 (ba.npages n) < ba.numPages := by omega
  have hs := findFreeRun_spec ba.bitmap hw.numPages_lt (show ba.npages n ≤ ba.numPages by omega)
  refine ⟨_, h0, hp, by omega, ?_, ?_, hba.symm⟩
  · rcases hs with hs | ⟨he, _⟩
    · exact hs
    · omega
  · have hm := hw.mul_lt _ hp
    have hb := hw.total_lt
    rw [← ho, u64_of_lt (by omega)]

theorem baFree_error {ba ba' : BitmapAllocator} {off n : ℕ} {e : Error}
    (h : baFree ba off n = (.error e, ba')) : ba' = ba := by
  unfold baFree at h
  dsimp only at h
  split_ifs at h <;> simp_all

theorem baFree_ok {ba ba' : BitmapAllocator} {off n : ℕ}
    (h : baFree ba off n = (.ok (), ba')) :
    n ≠ 0 ∧ off < ba.totalBytes ∧
      u64 (off / ba.pageSize + ba.npages n) ≤ ba.numPages ∧
      (∀ p, off / ba.pageSize ≤ p → p < off / ba.pageSize + ba.npages n → ba.used p = true) ∧
      ba' = { ba with bitmap := Bitmap.setRun ba.bitmap (off / ba.pageSize) (ba.npages n),
                      freePages := u64 (ba.freePages + ba.npages n) } := by
  unfold baFree at h
  dsimp only at h
  split_ifs at h with h0 h1 h2 h3 <;>
    simp only [Prod.mk.injEq, true_and, reduceCtorEq, false_and] at h
  refine ⟨h0, by omega, by omega, ?_, h.symm⟩
  intro p hp1 hp2
  have := (allTaken_iff ba.bitmap _ _).mp h3 p hp1 hp2
  rw [BitmapAllocator.used, pageTaken, this]
  rfl

namespace BitmapAllocator

/-- The allocator with other pages in use, which are counted. -/
theorem WF.withPages {ba : BitmapAllocator} (hw : ba.WF) {bitmap : List (BitVec 8)} {freePages : ℕ}
    (hlen : bitmap.length = ba.bitmap.length)
    (hpadding : ∀ p, ba.numPages ≤ p → bitmapGet bitmap p = false)
    (hcounted : freePages = freeCount (pageTaken bitmap) ba.numPages) :
    WF { ba with bitmap, freePages } where
  pageSize_pos := hw.pageSize_pos
  pageSize_lt := hw.pageSize_lt
  total_lt := hw.total_lt
  mul_lt := hw.mul_lt
  numPages_lt := hw.numPages_lt
  numPages_le := hlen ▸ hw.numPages_le
  padding := hpadding
  counted := hcounted

/-- Handing out a run of free pages keeps the allocator well formed. -/
theorem WF.take {ba : BitmapAllocator} (hw : ba.WF) {page n : ℕ} (hin : page + n ≤ ba.numPages)
    (hfree : FreeRun ba.used page n) :
    (({ ba with bitmap := Bitmap.clearRun ba.bitmap page n,
                freePages := ba.freePages - n } : BitmapAllocator)).WF ∧
      ∀ p, (({ ba with bitmap := Bitmap.clearRun ba.bitmap page n,
                       freePages := ba.freePages - n } : BitmapAllocator)).used p =
        (decide ((⟨page, n⟩ : Run).Covers p) || ba.used p) := by
  have hle := hw.numPages_le
  have hget : ∀ p, bitmapGet (Bitmap.clearRun ba.bitmap page n) p =
      (!decide (page ≤ p ∧ p < page + n) && bitmapGet ba.bitmap p) := fun p =>
    Bitmap.test_clearRun (by norm_num) _ _ _ _ (by omega)
  have hused : ∀ p, pageTaken (Bitmap.clearRun ba.bitmap page n) p =
      (decide ((⟨page, n⟩ : Run).Covers p) || pageTaken ba.bitmap p) := by
    intro p
    rw [pageTaken, pageTaken, hget p, Bool.not_and, Bool.not_not]
    rfl
  refine ⟨hw.withPages (Bitmap.length_clearRun _ _ _) (fun p hp => ?_) ?_, hused⟩
  · rw [hget p, hw.padding p hp, Bool.and_false]
  · have hc : freeCount (pageTaken (Bitmap.clearRun ba.bitmap page n)) ba.numPages + n =
        freeCount ba.used ba.numPages := freeCount_take ⟨page, n⟩ hin hfree (fun p _ => hused p)
    have hb := hw.counted
    change ba.freePages - n = freeCount (pageTaken (Bitmap.clearRun ba.bitmap page n)) ba.numPages
    omega

/-- Taking back a run of used pages keeps the allocator well formed. -/
theorem WF.give {ba : BitmapAllocator} (hw : ba.WF) {page n : ℕ} (hin : page + n ≤ ba.numPages)
    (hall : ∀ p, page ≤ p → p < page + n → ba.used p = true) :
    (({ ba with bitmap := Bitmap.setRun ba.bitmap page n,
                freePages := u64 (ba.freePages + n) } : BitmapAllocator)).WF ∧
      ∀ p, (({ ba with bitmap := Bitmap.setRun ba.bitmap page n,
                       freePages := u64 (ba.freePages + n) } : BitmapAllocator)).used p =
        (!decide ((⟨page, n⟩ : Run).Covers p) && ba.used p) := by
  have hle := hw.numPages_le
  have hlt := hw.numPages_lt
  have hget : ∀ p, bitmapGet (Bitmap.setRun ba.bitmap page n) p =
      (decide (page ≤ p ∧ p < page + n) || bitmapGet ba.bitmap p) := fun p =>
    Bitmap.test_setRun (by norm_num) _ _ _ _ (by omega)
  have hused : ∀ p, pageTaken (Bitmap.setRun ba.bitmap page n) p =
      (!decide ((⟨page, n⟩ : Run).Covers p) && pageTaken ba.bitmap p) := by
    intro p
    rw [pageTaken, pageTaken, hget p, Bool.not_or]
    rfl
  refine ⟨hw.withPages (Bitmap.length_setRun _ _ _) (fun p hp => ?_) ?_, hused⟩
  · have hn : ¬(page ≤ p ∧ p < page + n) := by omega
    rw [hget p, hw.padding p hp, decide_eq_false hn, Bool.or_false]
  · have hc : freeCount (pageTaken (Bitmap.setRun ba.bitmap page n)) ba.numPages =
        freeCount ba.used ba.numPages + n :=
      freeCount_give ⟨page, n⟩ hin (fun p hp => hall p hp.1 hp.2) (fun p _ => hused p)
    have hb := hw.counted
    have hm := freeCount_le (pageTaken (Bitmap.setRun ba.bitmap page n)) ba.numPages
    change u64 (ba.freePages + n) =
      freeCount (pageTaken (Bitmap.setRun ba.bitmap page n)) ba.numPages
    rw [u64_of_lt (by omega)]
    omega

end BitmapAllocator

/-! Runs, with the caller's list of live ranges. -/

structure BaState where
  ba : BitmapAllocator
  /-- The ranges `(offset, numBytes)` returned by `ba_alloc` and not yet freed. -/
  live : List (ℕ × ℕ)

inductive BaOp where
  | alloc (numBytes : UInt64)
  | free (offset numBytes : ℕ)

inductive BaInit (totalBytes pageSize : ℕ) : BaState → Prop
  | create {ba : BitmapAllocator} : baCreate totalBytes pageSize = some ba →
      BaInit totalBytes pageSize ⟨ba, []⟩

/-- One call. A range is freed only while it is live, with the size it was asked for. -/
inductive BaStep : BaState → BaOp → BaState → Prop
  | alloc {s : BaState} {n : UInt64} {off : ℕ} {ba' : BitmapAllocator} : n ≠ 0 →
      baAlloc s.ba n.toNat = (.ok off, ba') →
      BaStep s (.alloc n) ⟨ba', (off, n.toNat) :: s.live⟩
  | allocFail {s : BaState} {n : UInt64} {e : Error} {ba' : BitmapAllocator} : n ≠ 0 →
      baAlloc s.ba n.toNat = (.error e, ba') → BaStep s (.alloc n) ⟨ba', s.live⟩
  | free {s : BaState} {off n : ℕ} {r : Except Error Unit} {ba' : BitmapAllocator} :
      (off, n) ∈ s.live → baFree s.ba off n = (r, ba') →
      BaStep s (.free off n) ⟨ba', s.live.erase (off, n)⟩

/-- The run of whole pages that a range of `a.2` bytes at offset `a.1` needs. -/
def BitmapAllocator.run (ba : BitmapAllocator) (a : ℕ × ℕ) : Run :=
  ⟨a.1 / ba.pageSize, (a.2 + ba.pageSize - 1) / ba.pageSize⟩

namespace BaState

/-- The run invariant: live ranges are aligned, large enough, inside the bitmap and
disjoint; the pages marked allocated are exactly theirs; the counter is right. -/
structure Sound (s : BaState) : Prop where
  aligned : ∀ a ∈ s.live, s.ba.pageSize ∣ a.1
  covers : ∀ a ∈ s.live, a.2 ≤ (s.ba.run a).len * s.ba.pageSize
  books : Books s.ba.run s.ba.used s.ba.numPages s.live
  counted : s.ba.freePages = freeCount s.ba.used s.ba.numPages

/-- Rounding the request up to whole pages does not wrap. -/
def RoundsUp (s : BaState) : BaOp → Prop
  | .alloc n => n.toNat + s.ba.pageSize - 1 < 2 ^ 64
  | .free _ _ => True

/-- `Sound`, with what the next call needs: a well-formed allocator of at least one page,
and live ranges whose sizes are positive and round up without wrapping. -/
structure Inv (s : BaState) : Prop where
  wf : s.ba.WF
  pages_pos : 0 < s.ba.numPages
  sound : s.Sound
  sizes : ∀ a ∈ s.live, a.2 ≠ 0 ∧ a.2 + s.ba.pageSize - 1 < 2 ^ 64

end BaState

theorem BitmapAllocator.npages_of_fits {ba : BitmapAllocator} {n : ℕ}
    (h : n + ba.pageSize - 1 < 2 ^ 64) : ba.npages n = (n + ba.pageSize - 1) / ba.pageSize := by
  unfold npages
  rw [u64_of_lt h]

/-- A size that wraps is rounded down to no page at all. -/
theorem BitmapAllocator.npages_of_wraps {ba : BitmapAllocator} {n : ℕ} (hp : 0 < ba.pageSize)
    (hn : n < 2 ^ 64) (h : 2 ^ 64 ≤ n + ba.pageSize - 1) (hps : ba.pageSize < 2 ^ 64) :
    ba.npages n = 0 := by
  unfold npages
  rw [Nat.div_eq_zero_iff]
  right
  unfold u64
  omega

theorem le_roundUp_mul {n ps : ℕ} (hps : 0 < ps) : n ≤ (n + ps - 1) / ps * ps := by
  have h := Nat.div_add_mod (n + ps - 1) ps
  have hm := Nat.mod_lt (n + ps - 1) hps
  rw [Nat.mul_comm] at h
  omega

theorem baStep_alloc_inv {s : BaState} (hi : s.Inv) {n : UInt64} {off : ℕ}
    {ba' : BitmapAllocator} (hg : n.toNat + s.ba.pageSize - 1 < 2 ^ 64)
    (h : baAlloc s.ba n.toNat = (.ok off, ba')) :
    (⟨ba', (off, n.toNat) :: s.live⟩ : BaState).Inv := by
  obtain ⟨page, hn0, hp, hf, hl, rfl, rfl⟩ := baAlloc_ok hi.wf h
  have hps := hi.wf.pageSize_pos
  have hdiv : page * s.ba.pageSize / s.ba.pageSize = page := Nat.mul_div_cancel page hps
  have hrun : s.ba.run (page * s.ba.pageSize, n.toNat) = ⟨page, s.ba.npages n.toNat⟩ := by
    unfold BitmapAllocator.run
    rw [hdiv, BitmapAllocator.npages_of_fits hg]
  obtain ⟨hwf, hused⟩ := hi.wf.take hl.fits hl.free
  refine ⟨hwf, hi.pages_pos, ⟨?_, ?_, ?_, hwf.counted⟩, ?_⟩
  · intro a ha
    rcases List.mem_cons.mp ha with rfl | ha
    · exact Dvd.intro_left page rfl
    · exact hi.sound.aligned a ha
  · intro a _
    exact le_roundUp_mul hps
  · refine hi.sound.books.alloc (page * s.ba.pageSize, n.toNat) ?_ ?_ ?_
    · rw [hrun]
      exact hl.fits
    · rw [hrun]
      exact hl.free
    · intro p _
      rw [hrun]
      exact hused p
  · intro a ha
    rcases List.mem_cons.mp ha with rfl | ha
    · exact ⟨hn0, hg⟩
    · exact hi.sizes a ha

/-- Freeing a live range succeeds. -/
theorem baFree_of_live {s : BaState} (hi : s.Inv) {off n : ℕ} (hm : (off, n) ∈ s.live) :
    baFree s.ba off n =
      (.ok (), { s.ba with
        bitmap := Bitmap.setRun s.ba.bitmap (off / s.ba.pageSize) (s.ba.npages n)
        freePages := u64 (s.ba.freePages + s.ba.npages n) }) := by
  obtain ⟨hn0, hg⟩ := hi.sizes _ hm
  have hps := hi.wf.pageSize_pos
  have hin := hi.sound.books.inside _ hm
  have hnp := BitmapAllocator.npages_of_fits hg
  have hpos : 0 < s.ba.npages n := by
    rw [hnp]
    exact Nat.div_pos (by omega) hps
  have hlt := hi.wf.numPages_lt
  have hin' : off / s.ba.pageSize + s.ba.npages n ≤ s.ba.numPages := by
    rw [hnp]
    exact hin
  have hoff : off < s.ba.totalBytes := by
    have h1 := hi.wf.mul_lt (off / s.ba.pageSize) (by omega)
    have h2 : off / s.ba.pageSize * s.ba.pageSize = off :=
      Nat.div_mul_cancel (hi.sound.aligned _ hm)
    omega
  have hall : allTaken s.ba.bitmap (off / s.ba.pageSize) (s.ba.npages n) = true := by
    refine (allTaken_iff _ _ _).mpr (fun p h1 h2 => ?_)
    have hc : (s.ba.run (off, n)).Covers p := ⟨h1, by rw [hnp] at h2; exact h2⟩
    have hu := hi.sound.books.used_of_mem hm hc
    simpa [BitmapAllocator.used, pageTaken] using hu
  unfold baFree
  dsimp only at hn0 ⊢
  rw [if_neg hn0, if_neg (by omega), u64_of_lt (by omega), if_neg (by omega), if_pos hall]

theorem baStep_free_inv {s : BaState} (hi : s.Inv) {off n : ℕ} {r : Except Error Unit}
    {ba' : BitmapAllocator} (hm : (off, n) ∈ s.live) (h : baFree s.ba off n = (r, ba')) :
    (⟨ba', s.live.erase (off, n)⟩ : BaState).Inv := by
  rw [baFree_of_live hi hm] at h
  obtain ⟨-, rfl⟩ := Prod.mk.inj h
  obtain ⟨hn0, hg⟩ := hi.sizes _ hm
  have hrun : s.ba.run (off, n) = ⟨off / s.ba.pageSize, s.ba.npages n⟩ := by
    unfold BitmapAllocator.run
    rw [BitmapAllocator.npages_of_fits hg]
  have hin := hi.sound.books.inside _ hm
  rw [hrun] at hin
  obtain ⟨hwf, hused⟩ := hi.wf.give hin (fun p h1 h2 =>
    hi.sound.books.used_of_mem hm (by rw [hrun]; exact ⟨h1, h2⟩))
  refine ⟨hwf, hi.pages_pos, ⟨?_, ?_, ?_, hwf.counted⟩, ?_⟩
  · intro a ha
    exact hi.sound.aligned a (List.mem_of_mem_erase ha)
  · intro a _
    exact le_roundUp_mul hi.wf.pageSize_pos
  · refine hi.sound.books.free _ hm (fun p _ => ?_)
    rw [hrun]
    exact hused p
  · intro a ha
    exact hi.sizes a (List.mem_of_mem_erase ha)

theorem baStep_inv {s t : BaState} {op : BaOp} (hi : s.Inv)
    (hs : Guarded BaState.RoundsUp BaStep s op t) : t.Inv := by
  obtain ⟨hg, hs⟩ := hs
  cases hs with
  | alloc _ h => exact baStep_alloc_inv hi hg h
  | allocFail _ h =>
    rw [baAlloc_error h]
    exact hi
  | free hm h => exact baStep_free_inv hi hm h

theorem baInit_inv {totalBytes pageSize : ℕ} (hb : totalBytes + baPageSize pageSize < 2 ^ 64)
    {s : BaState} (h : BaInit totalBytes pageSize s) : s.Inv := by
  obtain ⟨hc⟩ := h
  obtain ⟨hwf, -, hnp, hle, hfree⟩ := baCreate_wf (by omega) hc
  have hps := baPageSize_pos pageSize
  refine ⟨hwf, ?_, ⟨by simp, by simp, Books.empty hfree, hwf.counted⟩, by simp⟩
  rw [hnp, u64_of_lt (by omega)]
  exact Nat.div_pos (by omega) hps

/-- A request whose size wraps is granted at offset 0, without a page. -/
theorem baAlloc_of_wraps {ba : BitmapAllocator} (hw : ba.WF) (hpos : 0 < ba.numPages) {n : ℕ}
    (hn : n ≠ 0) (hlt : n < 2 ^ 64) (h : 2 ^ 64 ≤ n + ba.pageSize - 1) :
    ∃ ba', baAlloc ba n = (.ok 0, ba') ∧ ba'.bitmap = ba.bitmap ∧ ba'.numPages = ba.numPages ∧
      ba'.pageSize = ba.pageSize := by
  have hz := BitmapAllocator.npages_of_wraps hw.pageSize_pos hlt h hw.pageSize_lt
  have hp : findFreeRun ba.bitmap ba.numPages 0 0 = 0 := by
    have hs := findFreeRun_spec ba.bitmap hw.numPages_lt (Nat.zero_le ba.numPages)
    rcases hs with hs | ⟨-, hnone⟩
    · by_contra hne
      exact hs.lowest 0 le_rfl (by omega) (by intro q h1 h2; omega)
    · exact absurd (by intro q h1 h2; omega) (hnone 0 le_rfl (by omega))
  refine ⟨{ ba with bitmap := Bitmap.clearRun ba.bitmap 0 0, freePages := ba.freePages - 0 },
    ?_, rfl, rfl, rfl⟩
  unfold baAlloc
  dsimp only
  rw [hz, hp, if_neg hn, if_neg (by omega), if_neg (by omega), if_neg (by omega)]
  simp [u64]

/-- After a wrapped request the books are wrong: page 0 is either marked free although
the new range needs it, or marked for another range that the new one overlaps. -/
theorem not_sound_of_wraps {s : BaState} (hi : s.Inv) {n : UInt64} (hn : n ≠ 0)
    (h : 2 ^ 64 ≤ n.toNat + s.ba.pageSize - 1) :
    ∃ t, BaStep s (.alloc n) t ∧ ¬ t.Sound := by
  have hn0 : n.toNat ≠ 0 := fun hc => hn (UInt64.toNat_inj.mp hc)
  obtain ⟨ba', ha, hbm, hnp, hps⟩ := baAlloc_of_wraps hi.wf hi.pages_pos hn0 n.toNat_lt h
  refine ⟨_, BaStep.alloc hn ha, ?_⟩
  intro hs
  have hpos := hi.pages_pos
  have hcov : (ba'.run (0, n.toNat)).Covers 0 := by
    have h1 := hi.wf.pageSize_pos
    have h2 : 0 < (n.toNat + ba'.pageSize - 1) / ba'.pageSize :=
      Nat.div_pos (by omega) (by omega)
    exact ⟨by simp [BitmapAllocator.run], by simpa [BitmapAllocator.run] using h2⟩
  have hu : ba'.used 0 = true := hs.books.used_of_mem List.mem_cons_self hcov
  have hu' : s.ba.used 0 = true := by
    unfold BitmapAllocator.used at hu ⊢
    rwa [hbm] at hu
  obtain ⟨b, hm, hc⟩ := (hi.sound.books.exact 0 hpos).mp hu'
  have hrun : ba'.run b = s.ba.run b := by
    unfold BitmapAllocator.run
    rw [hps]
  exact (List.pairwise_cons.mp hs.books.apart).1 b hm 0 hcov (by rw [hrun]; exact hc)

/-- In every run whose requests round up without wrapping the allocator stays sound.
The condition is exact: in each state of such a run, an `alloc` of `n` bytes leads to
sound states only if and only if rounding `n` up does not wrap. -/
theorem baRun_sound {totalBytes pageSize : ℕ} (hb : totalBytes + baPageSize pageSize < 2 ^ 64)
    {s : BaState}
    (h : Reach (BaInit totalBytes pageSize) (Guarded BaState.RoundsUp BaStep) s) :
    s.Sound ∧ ∀ n : UInt64, n ≠ 0 →
      ((∀ t, BaStep s (.alloc n) t → t.Sound) ↔ n.toNat + s.ba.pageSize - 1 < 2 ^ 64) := by
  have hi : s.Inv := h.invariant (P := BaState.Inv) (fun _ h0 => baInit_inv hb h0)
    (fun _ _ _ hi hs => baStep_inv hi hs)
  refine ⟨hi.sound, fun n hn => ⟨?_, ?_⟩⟩
  · intro hall
    by_contra hc
    obtain ⟨t, hs, hns⟩ := not_sound_of_wraps hi hn (by omega)
    exact hns (hall t hs)
  · intro hg t hs
    have hstep : Guarded BaState.RoundsUp BaStep s (.alloc n) t := ⟨hg, hs⟩
    exact (baStep_inv hi hstep).sound

/-- A request for 2^64 - 1 bytes from two pages of 4 KiB is granted. -/
theorem baRun_not_sound :
    ¬ ∀ (totalBytes pageSize : ℕ) (s : BaState), totalBytes + baPageSize pageSize < 2 ^ 64 →
      Reach (BaInit totalBytes pageSize) BaStep s → s.Sound := by
  intro hall
  let n : UInt64 := 18446744073709551615
  have hstep : BaStep ⟨⟨8192, 4096, 2, 2, [3#8]⟩, []⟩ (.alloc n)
      ⟨⟨8192, 4096, 2, 2, [3#8]⟩, [(0, n.toNat)]⟩ :=
    BaStep.alloc (by decide) (by decide +kernel)
  have hreach : Reach (BaInit 8192 4096) BaStep ⟨⟨8192, 4096, 2, 2, [3#8]⟩, [(0, n.toNat)]⟩ :=
    .next _ (.start (.create (by decide +kernel))) hstep
  have hin := (hall 8192 4096 _ (by decide) hreach).books.inside (0, n.toNat) List.mem_cons_self
  revert hin
  decide

theorem baRun_sound_two_pages :
    (⟨⟨8192, 4096, 2, 1, [2#8]⟩, [(0, (4096 : UInt64).toNat)]⟩ : BaState).Sound := by
  have hstep : Guarded BaState.RoundsUp BaStep ⟨⟨8192, 4096, 2, 2, [3#8]⟩, []⟩ (.alloc 4096)
      ⟨⟨8192, 4096, 2, 1, [2#8]⟩, [(0, (4096 : UInt64).toNat)]⟩ :=
    ⟨show (4096 : UInt64).toNat + 4096 - 1 < 2 ^ 64 by decide,
      BaStep.alloc (by decide) (by decide +kernel)⟩
  have hreach : Reach (BaInit 8192 4096) (Guarded BaState.RoundsUp BaStep)
      ⟨⟨8192, 4096, 2, 1, [2#8]⟩, [(0, (4096 : UInt64).toNat)]⟩ :=
    .next _ (.start (.create (by decide +kernel))) hstep
  exact (baRun_sound (by decide) hreach).1

end Umm
