import Umm.Common.BitmapAllocatorEnds

/-! The search of the page allocator against one that tries page after page. -/
namespace Umm
open Umm.Lib

/-- The first page from which `npages` pages are free, each of them looked at, or `numPages`. -/
def naiveFreeRun (bitmap : List (BitVec 8)) (numPages npages : ℕ) : ℕ :=
  ((List.range (numPages + 1 - npages)).find? fun p =>
    (List.range npages).all fun i => bitmapGet bitmap (p + i)).getD numPages

variable {bitmap : List (BitVec 8)} {numPages npages : ℕ}

theorem all_free_iff (p : ℕ) :
    ((List.range npages).all fun i => bitmapGet bitmap (p + i)) = true ↔
      FreeRun (pageTaken bitmap) p npages := by
  simp only [List.all_eq_true, List.mem_range]
  constructor
  · intro h q h1 h2
    have hq := h (q - p) (by omega)
    rw [Nat.add_sub_cancel' h1] at hq
    rw [pageTaken, hq]
    rfl
  · intro h i hi
    have hq := h (p + i) (by omega) (by omega)
    unfold pageTaken at hq
    simpa using hq

variable (bitmap) in
theorem naiveFreeRun_spec (hn : npages ≤ numPages) :
    LowestFree (pageTaken bitmap) 0 numPages npages (naiveFreeRun bitmap numPages npages) ∨
      naiveFreeRun bitmap numPages npages = numPages ∧
        NoneFree (pageTaken bitmap) 0 numPages npages := by
  unfold naiveFreeRun
  cases hf : (List.range (numPages + 1 - npages)).find? fun p =>
      (List.range npages).all fun i => bitmapGet bitmap (p + i) with
  | none =>
    right
    refine ⟨rfl, fun q _ hq => ?_⟩
    have hnone := List.find?_eq_none.mp hf q (List.mem_range.mpr (by omega))
    rwa [all_free_iff] at hnone
  | some p =>
    left
    obtain ⟨hfree, hlow⟩ := List.find?_range_eq_some.mp hf
    have hp : p < numPages + 1 - npages := List.mem_range.mp (List.mem_of_find?_eq_some hf)
    rw [Option.getD_some]
    refine ⟨Nat.zero_le p, by omega, (all_free_iff p).mp hfree, fun q _ hq => ?_⟩
    have hmiss := hlow.2 q hq
    rw [← all_free_iff]
    simpa using hmiss

theorem naiveFreeRun_unique (hn : npages ≤ numPages) {r : ℕ}
    (hr : LowestFree (pageTaken bitmap) 0 numPages npages r ∨
      r = numPages ∧ NoneFree (pageTaken bitmap) 0 numPages npages) :
    r = naiveFreeRun bitmap numPages npages := by
  rcases naiveFreeRun_spec bitmap hn with hs | ⟨hs, hnone⟩
  · rcases hr with hr | ⟨-, hnone⟩
    · exact hr.unique hs
    · exact absurd hs.free (hnone _ (Nat.zero_le _) hs.fits)
  · rcases hr with hr | ⟨rfl, -⟩
    · exact absurd hr.free (hnone _ (Nat.zero_le _) hr.fits)
    · exact hs.symm

/-- On every bitmap that calls can leave behind, the search ends and finds what the page by
page search finds: the lowest free run below `num_pages`, or `num_pages` when there is none. -/
theorem findFreeRun_naive {totalBytes pageSize : UInt64} {s : BaHistory}
    (h : Reach (BaHistory.Init totalBytes pageSize) BaHistory.Step s) {npages : ℕ}
    (hn : npages ≤ s.ba.numPages) :
    (∃ r, findFreeRunLoop s.ba.bitmap s.ba.numPages npages (s.ba.numPages + 1) 0 = some r ∧
      findFreeRun s.ba.bitmap s.ba.numPages 0 npages = r) ∧
    findFreeRun s.ba.bitmap s.ba.numPages 0 npages =
      naiveFreeRun s.ba.bitmap s.ba.numPages npages ∧
    (LowestFree s.ba.used 0 s.ba.numPages npages
        (findFreeRun s.ba.bitmap s.ba.numPages 0 npages) ∨
      findFreeRun s.ba.bitmap s.ba.numPages 0 npages = s.ba.numPages ∧
        NoneFree s.ba.used 0 s.ba.numPages npages) := by
  have hlt := (BaHistory.shape h).numPages_lt
  have hspec := findFreeRun_spec s.ba.bitmap hlt hn
  obtain ⟨r, hr, -⟩ := findFreeRunLoop_spec s.ba.bitmap hlt hn (s.ba.numPages + 1) 0
    (Nat.zero_le _) (by omega) (by intro q hq; omega)
  refine ⟨⟨r, hr, ?_⟩, naiveFreeRun_unique hn hspec, hspec⟩
  unfold findFreeRun
  rw [hr, Option.getD_some]

/-- Three pages of which the first is taken. -/
theorem findFreeRun_naive_three : findFreeRun [6#8] 3 0 2 = naiveFreeRun [6#8] 3 2 := by
  have hcreate : BaHistory.Init 12288 4096 ⟨⟨12288, 4096, 3, 3, [7#8]⟩, []⟩ :=
    .create (by decide +kernel)
  have hreach : Reach (BaHistory.Init 12288 4096) BaHistory.Step
      ⟨⟨12288, 4096, 3, 2, [6#8]⟩, [(0, (4096 : UInt64).toNat)]⟩ :=
    .next (.alloc 4096) (.start hcreate) (by decide +kernel)
  have htwo : 2 ≤ 3 := by decide
  exact (findFreeRun_naive hreach htwo).2.1

end Umm
