import Umm.Common.BitmapAllocatorRuns

/-! Where the ranges of the page allocator end. The last page may reach past the arena, and a
request that wraps when it is rounded up is granted without a page. -/
namespace Umm
open Umm.Lib

/-- A call with any arguments, live or not. -/
inductive BaCall where
  | alloc (numBytes : UInt64)
  | free (offset numBytes : UInt64)

namespace BitmapAllocator

/-- What `ba_create` fixes and no call changes. -/
structure Shape (ba : BitmapAllocator) (totalBytes pageSize : ℕ) : Prop where
  total_eq : ba.totalBytes = totalBytes
  total_lt : totalBytes < 2 ^ 64
  pageSize_eq : ba.pageSize = baPageSize pageSize
  pageSize_le : ba.pageSize ≤ totalBytes
  numPages_eq : ba.numPages = u64 (totalBytes + ba.pageSize - 1) / ba.pageSize
  numPages_lt : ba.numPages < 2 ^ 61

/-- The range that the next `ba_alloc` of `n` bytes grants, if it does, ends in the arena. -/
def GrantsInside (ba : BitmapAllocator) (n : ℕ) : Prop :=
  ∀ off, (baAlloc ba n).1 = .ok off → off + n ≤ ba.totalBytes

/-- The request rounds up without wrapping. Where its pages are enough and the lowest free run
of them is the one at the very end, that run starts early enough for all bytes asked for. -/
def EndsInside (ba : BitmapAllocator) (n : ℕ) : Prop :=
  n + ba.pageSize - 1 < 2 ^ 64 ∧
    (ba.npages n ≤ ba.freePages →
      LowestFree ba.used 0 ba.numPages (ba.npages n) (ba.numPages - ba.npages n) →
      (ba.numPages - ba.npages n) * ba.pageSize + n ≤ ba.totalBytes)

/-- Nothing is granted, or what is granted ends in the arena. -/
def Roomy (ba : BitmapAllocator) (n : ℕ) : Prop :=
  n = 0 ∨ ba.numPages = 0 ∨ ba.EndsInside n

end BitmapAllocator

theorem baAlloc_granted_iff {ba : BitmapAllocator} (hlt : ba.numPages < 2 ^ 61) {n off : ℕ} :
    (baAlloc ba n).1 = .ok off ↔
      n ≠ 0 ∧ ba.npages n ≤ ba.freePages ∧
        ∃ page < ba.numPages, LowestFree ba.used 0 ba.numPages (ba.npages n) page ∧
          off = u64 (page * ba.pageSize) := by
  constructor
  · intro h
    unfold baAlloc at h
    dsimp only at h
    split_ifs at h with h0 h1 h2 h3
    have hp : findFreeRun ba.bitmap ba.numPages 0 (ba.npages n) < ba.numPages := by omega
    refine ⟨h0, by omega, _, hp, ?_, (Except.ok.inj h).symm⟩
    rcases findFreeRun_spec ba.bitmap hlt (show ba.npages n ≤ ba.numPages by omega) with hs | hs
    · exact hs
    · omega
  · rintro ⟨h0, hfree, page, hpage, hl, rfl⟩
    have hfits := hl.fits
    have hfound : findFreeRun ba.bitmap ba.numPages 0 (ba.npages n) = page := by
      rcases findFreeRun_spec ba.bitmap hlt (show ba.npages n ≤ ba.numPages by omega) with
        hs | ⟨-, hnone⟩
      · exact hs.unique hl
      · exact absurd hl.free (hnone page (Nat.zero_le _) hfits)
    unfold baAlloc
    dsimp only
    rw [if_neg h0, if_neg (by omega), if_neg (by omega), hfound, if_neg (by omega)]

namespace BitmapAllocator

variable {ba : BitmapAllocator} {totalBytes pageSize : ℕ}

theorem Shape.pageSize_pos (h : ba.Shape totalBytes pageSize) : 0 < ba.pageSize := by
  rw [h.pageSize_eq]
  exact baPageSize_pos pageSize

/-- Where there is a page, the byte count rounds up without wrapping: the last page starts
inside the arena and ends at its end or after it. -/
theorem Shape.last_page (h : ba.Shape totalBytes pageSize) (hpos : 0 < ba.numPages) :
    totalBytes + ba.pageSize - 1 < 2 ^ 64 ∧ (ba.numPages - 1) * ba.pageSize < totalBytes ∧
      totalBytes ≤ ba.numPages * ba.pageSize := by
  have hps := h.pageSize_pos
  have hle := h.pageSize_le
  have hlt := h.total_lt
  have hnum := h.numPages_eq
  have hfit : totalBytes + ba.pageSize - 1 < 2 ^ 64 := by
    by_contra hc
    have hz : u64 (totalBytes + ba.pageSize - 1) / ba.pageSize = 0 := by
      rw [Nat.div_eq_zero_iff]
      unfold u64
      omega
    omega
  rw [u64_of_lt hfit] at hnum
  have h1 := le_roundUp_mul (n := totalBytes) hps
  have h2 : ba.numPages * ba.pageSize ≤ totalBytes + ba.pageSize - 1 := by
    rw [hnum]
    exact Nat.div_mul_le_self _ _
  have h3 : (ba.numPages - 1) * ba.pageSize = ba.numPages * ba.pageSize - ba.pageSize := by
    rw [Nat.sub_mul, Nat.one_mul]
  rw [← hnum] at h1
  refine ⟨hfit, ?_, h1⟩
  omega

theorem Shape.page_lt (h : ba.Shape totalBytes pageSize) {page : ℕ} (hp : page < ba.numPages) :
    page * ba.pageSize < totalBytes := by
  have hlast := (h.last_page (by omega)).2.1
  have hmul : page * ba.pageSize ≤ (ba.numPages - 1) * ba.pageSize :=
    Nat.mul_le_mul_right _ (by omega)
  omega

/-- A request that wraps is granted at offset 0 and ends past the arena. -/
theorem Shape.not_grantsInside_of_wraps (h : ba.Shape totalBytes pageSize)
    (hpos : 0 < ba.numPages) {n : ℕ} (hn : n < 2 ^ 64) (hwrap : 2 ^ 64 ≤ n + ba.pageSize - 1) :
    ¬ ba.GrantsInside n := by
  intro hg
  have hfit := (h.last_page hpos).1
  have hle := h.pageSize_le
  have htotal := h.total_lt
  have hz := npages_of_wraps h.pageSize_pos hn hwrap (by omega)
  have hgranted : (baAlloc ba n).1 = .ok 0 := by
    refine (baAlloc_granted_iff h.numPages_lt).mpr
      ⟨by omega, by omega, 0, hpos, ⟨le_rfl, by omega, ?_, by omega⟩, by simp [u64]⟩
    intro q h1 h2
    omega
  have hin := hg 0 hgranted
  rw [h.total_eq] at hin
  omega

/-- A run that stops short of the last page lies inside the arena. -/
theorem Shape.inside_of_before_end (h : ba.Shape totalBytes pageSize) {page n : ℕ}
    (hfit : n + ba.pageSize - 1 < 2 ^ 64) (hend : page + ba.npages n < ba.numPages) :
    page * ba.pageSize + n ≤ totalBytes := by
  have hlast := (h.last_page (by omega)).2.1
  have hround := le_roundUp_mul (n := n) h.pageSize_pos
  rw [← npages_of_fits hfit] at hround
  have hmul : (page + ba.npages n) * ba.pageSize ≤ (ba.numPages - 1) * ba.pageSize :=
    Nat.mul_le_mul_right _ (by omega)
  rw [Nat.add_mul] at hmul
  omega

/-- Only a run at the very end of the bitmap can leave the arena. -/
theorem Shape.grantsInside_iff (h : ba.Shape totalBytes pageSize) {n : ℕ} (hn : n < 2 ^ 64) :
    ba.GrantsInside n ↔ ba.Roomy n := by
  have htotal := h.total_eq
  have hlt := h.total_lt
  constructor
  · intro hg
    by_contra hc
    unfold Roomy at hc
    push Not at hc
    obtain ⟨hn0, hpos, hends⟩ := hc
    by_cases hwrap : 2 ^ 64 ≤ n + ba.pageSize - 1
    · exact h.not_grantsInside_of_wraps (by omega) hn hwrap hg
    refine hends ⟨by omega, fun hfree hl => ?_⟩
    have hk : 0 < ba.npages n := by
      rw [npages_of_fits (by omega)]
      exact Nat.div_pos (by omega) h.pageSize_pos
    have hpage : ba.numPages - ba.npages n < ba.numPages := by omega
    have hbelow := h.page_lt hpage
    refine hg _ ((baAlloc_granted_iff h.numPages_lt).mpr ⟨hn0, hfree, _, hpage, hl, ?_⟩)
    exact (u64_of_lt (by omega)).symm
  · rintro hroomy off hgranted
    obtain ⟨hn0, hfree, page, hpage, hl, rfl⟩ :=
      (baAlloc_granted_iff h.numPages_lt).mp hgranted
    have hbelow := h.page_lt hpage
    rw [u64_of_lt (by omega)]
    rcases hroomy with rfl | hz | ⟨hfit, hend⟩
    · exact absurd rfl hn0
    · omega
    have hfits := hl.fits
    by_cases hlast : page + ba.npages n = ba.numPages
    · obtain rfl : page = ba.numPages - ba.npages n := by omega
      exact hend hfree hl
    · rw [htotal]
      exact h.inside_of_before_end hfit (by omega)

theorem Shape.endsInside_of_dvd (h : ba.Shape totalBytes pageSize) (hd : ba.pageSize ∣ totalBytes)
    {n : ℕ} (hfit : n + ba.pageSize - 1 < 2 ^ 64) (hpos : 0 < ba.numPages) : ba.EndsInside n := by
  refine ⟨hfit, fun _ hl => ?_⟩
  have hps := h.pageSize_pos
  obtain ⟨htotal, -, -⟩ := h.last_page hpos
  have hround := le_roundUp_mul (n := n) hps
  rw [← npages_of_fits hfit] at hround
  have hnum : ba.numPages * ba.pageSize = totalBytes := by
    obtain ⟨k, rfl⟩ := hd
    have hk : (ba.pageSize * k + ba.pageSize - 1) / ba.pageSize = k := by
      rw [Nat.add_sub_assoc hps, Nat.mul_add_div hps, Nat.div_eq_of_lt (by omega), Nat.add_zero]
    rw [h.numPages_eq, u64_of_lt htotal, hk, Nat.mul_comm]
  have hfits := hl.fits
  have hsplit : (ba.numPages - ba.npages n) * ba.pageSize + ba.npages n * ba.pageSize =
      totalBytes := by
    rw [← Nat.add_mul, Nat.sub_add_cancel (by omega), hnum]
  rw [h.total_eq]
  omega

/-! The shape over whole runs. -/

theorem shape_create (hlt : totalBytes < 2 ^ 64)
    (h : baCreate totalBytes pageSize = some ba) : ba.Shape totalBytes pageSize := by
  obtain ⟨hw, hps, hnum, hle, -⟩ := baCreate_wf hlt h
  refine ⟨?_, hlt, hps, by rw [hps]; exact hle, by rw [hps]; exact hnum, hw.numPages_lt⟩
  unfold baCreate at h
  split_ifs at h
  dsimp only at h
  split_ifs at h
  obtain rfl := Option.some.inj h
  rfl

theorem Shape.alloc (h : ba.Shape totalBytes pageSize) (n : ℕ) :
    (baAlloc ba n).2.Shape totalBytes pageSize := by
  unfold baAlloc
  dsimp only
  split_ifs
  · exact h
  · exact h
  · exact h
  · exact h
  · exact ⟨h.total_eq, h.total_lt, h.pageSize_eq, h.pageSize_le, h.numPages_eq, h.numPages_lt⟩

theorem Shape.free (h : ba.Shape totalBytes pageSize) (offset n : ℕ) :
    (baFree ba offset n).2.Shape totalBytes pageSize := by
  unfold baFree
  dsimp only
  split_ifs
  · exact h
  · exact h
  · exact h
  · exact ⟨h.total_eq, h.total_lt, h.pageSize_eq, h.pageSize_le, h.numPages_eq, h.numPages_lt⟩
  · exact h

end BitmapAllocator

/-- An allocator with all ranges it has ever handed out, freed or not. -/
structure BaHistory where
  ba : BitmapAllocator
  granted : List (ℕ × ℕ)
deriving DecidableEq

def BaHistory.next (s : BaHistory) : BaCall → BaHistory
  | .alloc n =>
    match baAlloc s.ba n.toNat with
    | (.ok off, ba') => ⟨ba', (off, n.toNat) :: s.granted⟩
    | (.error _, ba') => ⟨ba', s.granted⟩
  | .free off n => ⟨(baFree s.ba off.toNat n.toNat).2, s.granted⟩

inductive BaHistory.Init (totalBytes pageSize : UInt64) : BaHistory → Prop
  | create {ba : BitmapAllocator} : baCreate totalBytes.toNat pageSize.toNat = some ba →
      BaHistory.Init totalBytes pageSize ⟨ba, []⟩

def BaHistory.Step (s : BaHistory) (call : BaCall) (t : BaHistory) : Prop := t = s.next call

instance (s : BaHistory) (call : BaCall) (t : BaHistory) : Decidable (s.Step call t) := by
  unfold BaHistory.Step
  infer_instance

/-- Every allocation asks for no more than its run has. -/
def BaHistory.Roomy (s : BaHistory) : BaCall → Prop
  | .alloc n => s.ba.Roomy n.toNat
  | .free _ _ => True

namespace BaHistory

variable {s : BaHistory} {totalBytes pageSize : UInt64}

theorem shape_next {total ps : ℕ} (h : s.ba.Shape total ps) (call : BaCall) :
    (s.next call).ba.Shape total ps := by
  cases call with
  | alloc n =>
    have hs := h.alloc n.toNat
    dsimp only [next]
    split
    · next off ba' ha =>
      rw [ha] at hs
      exact hs
    · next e ba' ha =>
      rw [ha] at hs
      exact hs
  | free off n => exact h.free off.toNat n.toNat

theorem shape (h : Reach (Init totalBytes pageSize) Step s) :
    s.ba.Shape totalBytes.toNat pageSize.toNat := by
  refine Reach.invariant (P := fun s => s.ba.Shape totalBytes.toNat pageSize.toNat) ?_ ?_ h
  · rintro _ ⟨hc⟩
    exact BitmapAllocator.shape_create totalBytes.toNat_lt hc
  · rintro s call _ hs rfl
    exact shape_next hs call

theorem inside_next {total ps : ℕ} (h : s.ba.Shape total ps)
    (hin : ∀ r ∈ s.granted, r.1 + r.2 ≤ total) {call : BaCall} (hr : s.Roomy call) :
    ∀ r ∈ (s.next call).granted, r.1 + r.2 ≤ total := by
  cases call with
  | free off n => exact hin
  | alloc n =>
    have hg := (h.grantsInside_iff n.toNat_lt).mpr hr
    dsimp only [next]
    split
    · next off ba' ha =>
      intro r hm
      rcases List.mem_cons.mp hm with rfl | hm
      · have := hg off (by rw [ha])
        rwa [h.total_eq] at this
      · exact hin r hm
    · exact hin

/-- Runs whose requests are roomy hand out ranges of the arena only. -/
theorem granted_inside (h : Reach (Init totalBytes pageSize) (Guarded Roomy Step) s) :
    ∀ r ∈ s.granted, r.1 + r.2 ≤ totalBytes.toNat := by
  refine (Reach.invariant (P := fun s => s.ba.Shape totalBytes.toNat pageSize.toNat ∧
    ∀ r ∈ s.granted, r.1 + r.2 ≤ totalBytes.toNat) ?_ ?_ h).2
  · rintro _ ⟨hc⟩
    exact ⟨BitmapAllocator.shape_create totalBytes.toNat_lt hc, by simp⟩
  · rintro s call _ ⟨hs, hin⟩ ⟨hr, rfl⟩
    exact ⟨shape_next hs call, inside_next hs hin hr⟩

end BaHistory

end Umm
