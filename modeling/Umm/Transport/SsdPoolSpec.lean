import Umm.Transport.SsdPool
import Umm.Lib.Layout

/-! What one call does to a well-formed SSD pool. -/
namespace Umm
open Umm.Lib

theorem roundUpPage_dvd (n : ℕ) : ssdPageSize ∣ roundUpPage n := Dvd.intro_left _ rfl

theorem roundUpPage_of_dvd {n : ℕ} (hd : ssdPageSize ∣ n) (hn : n < 2 ^ 64) :
    roundUpPage n = n := by
  obtain ⟨k, rfl⟩ := hd
  unfold roundUpPage u64 ssdPageSize at *
  omega

theorem roundDownPage_of_dvd {n : ℕ} (hd : ssdPageSize ∣ n) : roundDownPage n = n :=
  Nat.div_mul_cancel hd

theorem roundUpPage_lt (n : ℕ) : roundUpPage n < 2 ^ 64 := by
  have h := u64_lt (n + ssdPageSize - 1)
  have h2 := Nat.div_mul_le_self (u64 (n + ssdPageSize - 1)) ssdPageSize
  exact h2.trans_lt h

/-- Every kind of backend keeps a capacity that is already a multiple of the page. -/
theorem ssdBackendCreate_some {kind : BackendKind} {capacity : ℕ} {env : AddEnv}
    {sb : SsdBackend} (hd : ssdPageSize ∣ capacity) (hlt : capacity < 2 ^ 64)
    (h : ssdBackendCreate kind capacity env = some sb) :
    sb.kind = kind ∧ sb.capacity = capacity ∧ sb.data.length = capacity := by
  unfold ssdBackendCreate at h
  split_ifs at h with h0 h1
  obtain rfl := Option.some.inj h
  cases kind <;> simp [roundDownPage_of_dvd hd, roundUpPage_of_dvd hd hlt]

namespace SsdPool

def used (pool : SsdPool) (p : ℕ) : Bool := bmTest pool.bitmap p

/-- What every pool built by `ssd_pool_create` and `ssd_pool_add_device` keeps. -/
structure WF (pool : SsdPool) : Prop where
  layout : EndToEnd SsdDevice.virtualBase SsdDevice.capacity 0 pool.devices pool.totalCapacity
  aligned : ∀ d ∈ pool.devices, ssdPageSize ∣ d.capacity
  backed : ∀ d ∈ pool.devices, d.backend.capacity = d.capacity ∧
    d.backend.data.length = d.capacity
  total_lt : pool.totalCapacity < 2 ^ 64
  pages_eq : pool.totalPages * ssdPageSize = pool.totalCapacity
  pages_le : pool.totalPages ≤ 64 * pool.bitmap.length
  padding : ∀ p, pool.totalPages ≤ p → pool.used p = false
  counted : pool.freePages = freeCount pool.used pool.totalPages

theorem WF.totalPages_lt {pool : SsdPool} (hw : pool.WF) : pool.totalPages < 2 ^ 52 := by
  have h1 := hw.pages_eq
  have h2 := hw.total_lt
  unfold ssdPageSize at h1
  omega

end SsdPool

theorem ssdPoolCreate_wf : ssdPoolCreate.WF where
  layout := rfl
  aligned := by simp [ssdPoolCreate]
  backed := by simp [ssdPoolCreate]
  total_lt := by decide
  pages_eq := rfl
  pages_le := by simp [ssdPoolCreate]
  padding := by
    intro p _
    exact Bitmap.test_replicate_zero 0 p
  counted := rfl

/-- The pool after the device `sb` was appended. -/
def SsdPool.grown (pool : SsdPool) (sb : SsdBackend) : SsdPool :=
  { devices := pool.devices ++
      [{ backend := sb, virtualBase := pool.totalCapacity, capacity := sb.capacity }]
    totalCapacity := u64 (pool.totalCapacity + sb.capacity)
    totalPages := u64 (pool.totalCapacity + sb.capacity) / ssdPageSize
    freePages := u64 (pool.freePages + sb.capacity / ssdPageSize)
    bitmap := pool.bitmap ++ List.replicate
      (u64 (u64 (pool.totalCapacity + sb.capacity) / ssdPageSize + 63) / 64 - pool.bitmap.length)
      0#64 }

theorem ssdPoolAddDevice_error {pool pool' : SsdPool} {kind : BackendKind} {capacity : ℕ}
    {env : AddEnv} {e : Error}
    (h : ssdPoolAddDevice pool kind capacity env = (.error e, pool')) : pool' = pool := by
  unfold ssdPoolAddDevice at h
  dsimp only at h
  split at h
  · exact (Prod.mk.inj h).2.symm
  · split at h
    · exact (Prod.mk.inj h).2.symm
    · split_ifs at h
      · exact (Prod.mk.inj h).2.symm
      · simp at h
      · exact (Prod.mk.inj h).2.symm

theorem ssdPoolAddDevice_ok {pool pool' : SsdPool} {kind : BackendKind} {capacity : ℕ}
    {env : AddEnv} (h : ssdPoolAddDevice pool kind capacity env = (.ok (), pool')) :
    ∃ sb : SsdBackend, sb.kind = kind ∧ sb.capacity = roundUpPage capacity ∧
      sb.data.length = sb.capacity ∧ sb.capacity ≠ 0 ∧ pool' = pool.grown sb := by
  have hcap : (if 0 < capacity then roundUpPage capacity else capacity) = roundUpPage capacity := by
    split_ifs with h0
    · rfl
    · obtain rfl : capacity = 0 := by omega
      rfl
  unfold ssdPoolAddDevice at h
  simp only [hcap] at h
  split at h
  · simp at h
  · split at h
    · simp at h
    · rename_i sb hsb
      obtain ⟨h1, h2, h3⟩ := ssdBackendCreate_some (roundUpPage_dvd _) (roundUpPage_lt _) hsb
      split_ifs at h with h4 h5
      · simp at h
      · exact ⟨sb, h1, h2, by rw [h3, h2], h4, (Prod.mk.inj h).2.symm⟩
      · simp at h

/-- A device of whole pages adds its pages behind those of the pool. -/
theorem SsdPool.WF.grown_pages {pool : SsdPool} (hw : pool.WF) {sb : SsdBackend}
    (hd : ssdPageSize ∣ sb.capacity) (hlt : pool.totalCapacity + sb.capacity < 2 ^ 64) :
    (pool.grown sb).totalCapacity = pool.totalCapacity + sb.capacity ∧
      (pool.grown sb).totalPages = pool.totalPages + sb.capacity / ssdPageSize := by
  have hcap : (pool.grown sb).totalCapacity = pool.totalCapacity + sb.capacity := u64_of_lt hlt
  have hpages : (pool.grown sb).totalPages = (pool.grown sb).totalCapacity / ssdPageSize := rfl
  refine ⟨hcap, ?_⟩
  rw [hpages, hcap, Nat.add_div_of_dvd_left hd, ← hw.pages_eq, Nat.mul_div_cancel _ (by decide)]

/-- The bitmap has a bit for each page. -/
theorem SsdPool.grown_bitmap {pool : SsdPool} {sb : SsdBackend}
    (hlt : pool.totalCapacity + sb.capacity < 2 ^ 64) :
    (pool.grown sb).totalPages ≤ 64 * (pool.grown sb).bitmap.length := by
  have hpages : (pool.grown sb).totalPages * ssdPageSize ≤ u64 (pool.totalCapacity + sb.capacity) :=
    Nat.div_mul_le_self _ _
  have hsum : u64 ((pool.grown sb).totalPages + 63) = (pool.grown sb).totalPages + 63 := by
    refine u64_of_lt ?_
    rw [u64_of_lt hlt] at hpages
    unfold ssdPageSize at hpages
    omega
  have hlen : (pool.grown sb).bitmap.length = pool.bitmap.length +
      (u64 ((pool.grown sb).totalPages + 63) / 64 - pool.bitmap.length) := by
    simp [SsdPool.grown]
  rw [hlen, hsum]
  omega

theorem SsdPool.WF.grown {pool : SsdPool} (hw : pool.WF) {sb : SsdBackend}
    (hd : ssdPageSize ∣ sb.capacity) (hdata : sb.data.length = sb.capacity)
    (hlt : pool.totalCapacity + sb.capacity < 2 ^ 64) :
    (pool.grown sb).WF ∧ (∀ p, (pool.grown sb).used p = pool.used p) ∧
      pool.totalPages ≤ (pool.grown sb).totalPages := by
  obtain ⟨hcap, hpages⟩ := hw.grown_pages hd hlt
  have hbits : ∀ p, (pool.grown sb).used p = pool.used p := fun p =>
    Bitmap.test_append_zero pool.bitmap _ p
  have hle : pool.totalPages ≤ (pool.grown sb).totalPages := by
    rw [hpages]
    exact Nat.le_add_right _ _
  have hnew : ∀ p, pool.totalPages ≤ p → p < (pool.grown sb).totalPages →
      (pool.grown sb).used p = false := fun p h1 _ => by rw [hbits p, hw.padding p h1]
  refine ⟨⟨?_, ?_, ?_, ?_, ?_, SsdPool.grown_bitmap hlt, ?_, ?_⟩, hbits, hle⟩
  · rw [hcap]
    exact hw.layout.snoc rfl
  · intro d hm
    rcases List.mem_append.mp hm with hm | hm
    · exact hw.aligned d hm
    · obtain rfl := List.mem_singleton.mp hm
      exact hd
  · intro d hm
    rcases List.mem_append.mp hm with hm | hm
    · exact hw.backed d hm
    · obtain rfl := List.mem_singleton.mp hm
      exact ⟨rfl, hdata⟩
  · rw [hcap]
    exact hlt
  · rw [hpages, hcap, Nat.add_mul, hw.pages_eq, Nat.div_mul_cancel hd]
  · intro p h1
    rw [hbits p]
    exact hw.padding p (hle.trans h1)
  · have hfree : (pool.grown sb).freePages = u64 (pool.freePages + sb.capacity / ssdPageSize) := rfl
    have hf := freeCount_le pool.used pool.totalPages
    have hpl := hw.totalPages_lt
    have hcount := hw.counted
    have hdiv : sb.capacity / ssdPageSize ≤ sb.capacity / 4096 := le_rfl
    rw [freeCount_grow hle (fun p _ => hbits p) hnew, hpages, hfree, u64_of_lt (by omega)]
    omega

/-- Adding a device keeps the pool well formed and changes no page. -/
theorem ssdPoolAddDevice_wf {pool pool' : SsdPool} (hw : pool.WF) {kind : BackendKind}
    {capacity : ℕ} {env : AddEnv} (hlt : pool.totalCapacity + roundUpPage capacity < 2 ^ 64)
    (h : ssdPoolAddDevice pool kind capacity env = (.ok (), pool')) :
    pool'.WF ∧ (∀ p, pool'.used p = pool.used p) ∧ pool.totalPages ≤ pool'.totalPages ∧
      ∃ d : SsdDevice, d.backend.kind = kind ∧ pool'.devices = pool.devices ++ [d] := by
  obtain ⟨sb, hkind, hcap, hdata, -, rfl⟩ := ssdPoolAddDevice_ok h
  have hd : ssdPageSize ∣ sb.capacity := by
    rw [hcap]
    exact roundUpPage_dvd capacity
  obtain ⟨hwf, hused, hle⟩ := hw.grown hd hdata (by rw [hcap]; exact hlt)
  exact ⟨hwf, hused, hle, _, hkind, rfl⟩

/-- A size that asks for at least one page did not wrap when it was rounded up. -/
theorem ssdNpages_of_pos {size : ℕ} (hlt : size < 2 ^ 64) (h : 0 < ssdNpages size) :
    ssdNpages size = (size + ssdPageSize - 1) / ssdPageSize ∧
      size ≤ ssdNpages size * ssdPageSize := by
  unfold ssdNpages u64 ssdPageSize at *
  omega

theorem ssdNpages_pos_of_le {size : ℕ} (h0 : size ≠ 0)
    (h : size ≤ 2 ^ 64 - 1 - (ssdPageSize - 1)) : 0 < ssdNpages size := by
  unfold ssdNpages u64 ssdPageSize at *
  omega

theorem ssdPoolAlloc_error {pool pool' : SsdPool} {size : ℕ} {e : Error}
    (h : ssdPoolAlloc pool size = (.error e, pool')) : pool' = pool := by
  unfold ssdPoolAlloc at h
  dsimp only at h
  split_ifs at h <;> simp_all

theorem ssdPoolAllocOnDevice_error {pool pool' : SsdPool} {idx size : ℕ} {e : Error}
    (h : ssdPoolAllocOnDevice pool idx size = (.error e, pool')) : pool' = pool := by
  unfold ssdPoolAllocOnDevice at h
  dsimp only at h
  split at h
  · exact (Prod.mk.inj h).2.symm
  · split at h
    · exact (Prod.mk.inj h).2.symm
    · split_ifs at h <;> simp_all

theorem ssdPoolAlloc_ok {pool pool' : SsdPool} {size off : ℕ} (hw : pool.WF)
    (h : ssdPoolAlloc pool size = (.ok off, pool')) :
    ∃ page, 0 < ssdNpages size ∧
      LowestFree pool.used 0 pool.totalPages (ssdNpages size) page ∧
      off = page * ssdPageSize ∧ pool' = pool.take page (ssdNpages size) := by
  unfold ssdPoolAlloc at h
  dsimp only at h
  split_ifs at h with h0 h1 h2 <;>
    simp only [Prod.mk.injEq, Except.ok.injEq, reduceCtorEq, false_and] at h
  obtain ⟨ho, hp⟩ := h
  have hn : 0 < ssdNpages size := by
    by_contra hc
    refine h2 ?_
    unfold bmFindFree
    rw [if_pos (Or.inl (by omega))]
  have ht : 0 < pool.totalPages := by omega
  have hlt := hw.totalPages_lt
  refine ⟨_, hn, ?_, ?_, hp.symm⟩
  · rcases bmFindFree_spec pool.bitmap hn ht with hs | ⟨he, -⟩
    · exact hs
    · omega
  · rw [← ho, u64_of_lt]
    unfold ssdPageSize
    omega

theorem ssdPoolAllocOnDevice_ok {pool pool' : SsdPool} {idx size off : ℕ} (hw : pool.WF)
    (h : ssdPoolAllocOnDevice pool idx size = (.ok off, pool')) :
    ∃ dev page, pool.devices[idx]? = some dev ∧ 0 < ssdNpages size ∧
      LowestFree pool.used (dev.virtualBase / ssdPageSize)
        (dev.virtualBase / ssdPageSize + dev.capacity / ssdPageSize) (ssdNpages size) page ∧
      off = page * ssdPageSize ∧ pool' = pool.take page (ssdNpages size) := by
  unfold ssdPoolAllocOnDevice at h
  dsimp only at h
  split at h
  · simp at h
  · rename_i hsize
    split at h
    · simp at h
    · rename_i dev hdev
      split_ifs at h with h1 h2 <;>
        simp only [Prod.mk.injEq, Except.ok.injEq, reduceCtorEq, false_and] at h
      obtain ⟨ho, hp⟩ := h
      have hn : 0 < ssdNpages size := ssdNpages_pos_of_le (by omega) (by omega)
      have hin := hw.layout.inside (List.mem_of_getElem? hdev)
      have hlt := hw.total_lt
      have hpos : dev.virtualBase / ssdPageSize <
          dev.virtualBase / ssdPageSize + dev.capacity / ssdPageSize := by omega
      refine ⟨dev, _, hdev, hn, ?_, ?_, hp.symm⟩
      · rcases bmFindFree_spec pool.bitmap hn hpos with hs | ⟨he, -⟩
        · exact hs
        · omega
      · rw [← ho, u64_of_lt]
        unfold ssdPageSize at *
        omega

namespace SsdPool

/-- Handing out a run of free pages keeps the pool well formed. -/
theorem WF.take {pool : SsdPool} (hw : pool.WF) {page n : ℕ} (hin : page + n ≤ pool.totalPages)
    (hfree : FreeRun pool.used page n) :
    (pool.take page n).WF ∧
      ∀ p, (pool.take page n).used p = (decide ((⟨page, n⟩ : Run).Covers p) || pool.used p) := by
  have hle := hw.pages_le
  have hused : ∀ p, (pool.take page n).used p =
      (decide ((⟨page, n⟩ : Run).Covers p) || pool.used p) := fun p =>
    Bitmap.test_setRun (by norm_num) _ _ _ _ (by omega)
  refine ⟨⟨hw.layout, hw.aligned, hw.backed, hw.total_lt, hw.pages_eq, ?_, ?_, ?_⟩, hused⟩
  · simp only [SsdPool.take, Bitmap.length_setRun]
    exact hle
  · intro p hp
    change pool.totalPages ≤ p at hp
    have hn : ¬ (⟨page, n⟩ : Run).Covers p := by
      unfold Run.Covers
      dsimp only
      omega
    rw [hused p, hw.padding p hp, decide_eq_false hn]
    rfl
  · have hc : freeCount (pool.take page n).used pool.totalPages + n =
        freeCount pool.used pool.totalPages := freeCount_take ⟨page, n⟩ hin hfree (fun p _ => hused p)
    have hb := hw.counted
    change pool.freePages - n = freeCount (pool.take page n).used pool.totalPages
    omega

/-- The pool after `n` pages from `page` on were given back. -/
def given (pool : SsdPool) (page n : ℕ) : SsdPool :=
  { pool with
    bitmap := Bitmap.clearRun pool.bitmap page n
    freePages := u64 (pool.freePages + n) }

/-- Taking back a run of used pages keeps the pool well formed. -/
theorem WF.given {pool : SsdPool} (hw : pool.WF) {page n : ℕ} (hin : page + n ≤ pool.totalPages)
    (hall : ∀ p, page ≤ p → p < page + n → pool.used p = true) :
    (pool.given page n).WF ∧
      ∀ p, (pool.given page n).used p = (!decide ((⟨page, n⟩ : Run).Covers p) && pool.used p) := by
  have hle := hw.pages_le
  have hlt := hw.totalPages_lt
  have hused : ∀ p, (pool.given page n).used p =
      (!decide ((⟨page, n⟩ : Run).Covers p) && pool.used p) := fun p =>
    Bitmap.test_clearRun (by norm_num) _ _ _ _ (by omega)
  refine ⟨⟨hw.layout, hw.aligned, hw.backed, hw.total_lt, hw.pages_eq, ?_, ?_, ?_⟩, hused⟩
  · simp only [SsdPool.given, Bitmap.length_clearRun]
    exact hle
  · intro p hp
    rw [hused p, hw.padding p hp, Bool.and_false]
  · have hc : freeCount (pool.given page n).used pool.totalPages =
        freeCount pool.used pool.totalPages + n :=
      freeCount_give ⟨page, n⟩ hin (fun p hp => hall p hp.1 hp.2) (fun p _ => hused p)
    have hb := hw.counted
    have hm := freeCount_le (pool.given page n).used pool.totalPages
    change u64 (pool.freePages + n) = freeCount (pool.given page n).used pool.totalPages
    rw [u64_of_lt (by omega)]
    omega

end SsdPool

theorem ssdPoolFree_error {pool pool' : SsdPool} {off size : ℕ} {e : Error}
    (h : ssdPoolFree pool off size = (.error e, pool')) : pool' = pool := by
  unfold ssdPoolFree at h
  dsimp only at h
  split_ifs at h <;> simp_all

theorem ssdPoolFree_ok {pool pool' : SsdPool} {off size : ℕ}
    (h : ssdPoolFree pool off size = (.ok (), pool')) :
    size ≠ 0 ∧ off < pool.totalCapacity ∧
      u64 (off / ssdPageSize + ssdNpages size) ≤ pool.totalPages ∧
      (∀ p, off / ssdPageSize ≤ p → p < off / ssdPageSize + ssdNpages size →
        pool.used p = true) ∧
      pool' = pool.given (off / ssdPageSize) (ssdNpages size) := by
  unfold ssdPoolFree at h
  dsimp only at h
  split_ifs at h with h0 h1 h2 <;>
    simp only [Prod.mk.injEq, true_and, reduceCtorEq, false_and] at h
  exact ⟨by omega, by omega, by omega, (bmAllSet_iff _ _ _).mp h2, h.symm⟩

end Umm
