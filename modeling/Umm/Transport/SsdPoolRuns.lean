import Umm.Transport.SsdPoolSpec
import Umm.Lib.Reach

/-! Whole runs of the SSD pool: devices are added at any time, ranges are allocated
anywhere or on one device, and live ranges are freed. -/
namespace Umm
open Umm.Lib

/-- A range handed out by the pool, with the device it was asked on. -/
structure PoolRange where
  voffset : ℕ
  size : ℕ
  device : Option ℕ
deriving DecidableEq, Repr

/-- The run of whole pages of a range. -/
def PoolRange.run (a : PoolRange) : Run :=
  ⟨a.voffset / ssdPageSize, (a.size + ssdPageSize - 1) / ssdPageSize⟩

structure PoolState where
  pool : SsdPool
  /-- The ranges that were returned and are not yet freed. -/
  live : List PoolRange

inductive PoolOp where
  | add (kind : BackendKind) (capacity : UInt64) (env : AddEnv)
  | alloc (size : UInt64)
  | allocOnDevice (deviceIdx : UInt32) (size : UInt64)
  | free (a : PoolRange)

inductive PoolInit : PoolState → Prop
  | create : PoolInit ⟨ssdPoolCreate, []⟩

/-- One call. The sum of the capacities stays below 2^64, and a range is freed only while
it is live, with the size it was asked for. -/
inductive PoolStep : PoolState → PoolOp → PoolState → Prop
  | add {s : PoolState} {kind : BackendKind} {capacity : UInt64} {env : AddEnv}
      {pool' : SsdPool} : s.pool.totalCapacity + roundUpPage capacity.toNat < 2 ^ 64 →
      ssdPoolAddDevice s.pool kind capacity.toNat env = (.ok (), pool') →
      PoolStep s (.add kind capacity env) ⟨pool', s.live⟩
  | addFail {s : PoolState} {kind : BackendKind} {capacity : UInt64} {env : AddEnv} {e : Error}
      {pool' : SsdPool} : ssdPoolAddDevice s.pool kind capacity.toNat env = (.error e, pool') →
      PoolStep s (.add kind capacity env) ⟨pool', s.live⟩
  | alloc {s : PoolState} {size : UInt64} {off : ℕ} {pool' : SsdPool} :
      ssdPoolAlloc s.pool size.toNat = (.ok off, pool') →
      PoolStep s (.alloc size) ⟨pool', ⟨off, size.toNat, none⟩ :: s.live⟩
  | allocFail {s : PoolState} {size : UInt64} {e : Error} {pool' : SsdPool} :
      ssdPoolAlloc s.pool size.toNat = (.error e, pool') →
      PoolStep s (.alloc size) ⟨pool', s.live⟩
  | allocOnDevice {s : PoolState} {idx : UInt32} {size : UInt64} {off : ℕ} {pool' : SsdPool} :
      ssdPoolAllocOnDevice s.pool idx.toNat size.toNat = (.ok off, pool') →
      PoolStep s (.allocOnDevice idx size) ⟨pool', ⟨off, size.toNat, some idx.toNat⟩ :: s.live⟩
  | allocOnDeviceFail {s : PoolState} {idx : UInt32} {size : UInt64} {e : Error}
      {pool' : SsdPool} : ssdPoolAllocOnDevice s.pool idx.toNat size.toNat = (.error e, pool') →
      PoolStep s (.allocOnDevice idx size) ⟨pool', s.live⟩
  | free {s : PoolState} {a : PoolRange} {r : Except Error Unit} {pool' : SsdPool} :
      a ∈ s.live → ssdPoolFree s.pool a.voffset a.size = (r, pool') →
      PoolStep s (.free a) ⟨pool', s.live.erase a⟩

namespace PoolState

/-- The address `v` belongs to the device at index `i`. -/
def OwnedBy (s : PoolState) (v i : ℕ) : Prop :=
  ∃ d, s.pool.devices[i]? = some d ∧ Within SsdDevice.virtualBase SsdDevice.capacity d v

structure Sound (s : PoolState) : Prop where
  counted : s.pool.freePages = freeCount s.pool.used s.pool.totalPages
  devicesAligned : ∀ d ∈ s.pool.devices, ssdPageSize ∣ d.virtualBase ∧ ssdPageSize ∣ d.capacity
  contiguous :
    EndToEnd SsdDevice.virtualBase SsdDevice.capacity 0 s.pool.devices s.pool.totalCapacity
  partition : ∀ v, v < s.pool.totalCapacity ↔ ∃! i, s.OwnedBy v i
  pages_eq : s.pool.totalPages * ssdPageSize = s.pool.totalCapacity
  aligned : ∀ a ∈ s.live, ssdPageSize ∣ a.voffset
  inside : ∀ a ∈ s.live, a.size ≤ a.run.len * ssdPageSize ∧
    a.voffset + a.run.len * ssdPageSize ≤ s.pool.totalCapacity
  books : Books PoolRange.run s.pool.used s.pool.totalPages s.live
  onDevice : ∀ a ∈ s.live, ∀ i, a.device = some i → ∃ d, s.pool.devices[i]? = some d ∧
    d.virtualBase ≤ a.voffset ∧
    a.voffset + a.run.len * ssdPageSize ≤ d.virtualBase + d.capacity

/-- The run invariant: a well-formed pool, and live ranges that are aligned, not empty, do
not wrap, lie on the device they were asked on and account for the used pages. -/
structure Inv (s : PoolState) : Prop where
  wf : s.pool.WF
  aligned : ∀ a ∈ s.live, ssdPageSize ∣ a.voffset
  sizes : ∀ a ∈ s.live, a.size ≠ 0 ∧ ssdNpages a.size = a.run.len
  books : Books PoolRange.run s.pool.used s.pool.totalPages s.live
  onDevice : ∀ a ∈ s.live, ∀ i, a.device = some i → ∃ d, s.pool.devices[i]? = some d ∧
    d.virtualBase / ssdPageSize ≤ a.run.start ∧
    a.run.start + a.run.len ≤ d.virtualBase / ssdPageSize + d.capacity / ssdPageSize

end PoolState

theorem poolInit_inv {s : PoolState} (h : PoolInit s) : s.Inv := by
  obtain ⟨⟩ := h
  refine ⟨ssdPoolCreate_wf, by simp, by simp, Books.empty ?_, by simp⟩
  intro p hp
  exact absurd hp (Nat.not_lt_zero p)

theorem poolStep_add_inv {s : PoolState} (hi : s.Inv) {kind : BackendKind} {capacity : ℕ}
    {env : AddEnv} {pool' : SsdPool}
    (hlt : s.pool.totalCapacity + roundUpPage capacity < 2 ^ 64)
    (h : ssdPoolAddDevice s.pool kind capacity env = (.ok (), pool')) :
    (⟨pool', s.live⟩ : PoolState).Inv := by
  obtain ⟨hwf, hused, hle, e, -, hdevs⟩ := ssdPoolAddDevice_wf hi.wf hlt h
  refine ⟨hwf, hi.aligned, hi.sizes, hi.books.grow hle (fun p _ => hused p) ?_, ?_⟩
  · intro p h1 _
    rw [hused p]
    exact hi.wf.padding p h1
  · intro a ha i hai
    obtain ⟨d, hd, h1, h2⟩ := hi.onDevice a ha i hai
    refine ⟨d, ?_, h1, h2⟩
    change pool'.devices[i]? = some d
    rw [hdevs, List.getElem?_append_left (List.getElem?_eq_some_iff.mp hd).1]
    exact hd

/-- Recording a range that was just taken. -/
theorem poolStep_take_inv {s : PoolState} (hi : s.Inv) {size page : ℕ} {device : Option ℕ}
    (hlt : size < 2 ^ 64) (hpos : 0 < ssdNpages size)
    (hin : page + ssdNpages size ≤ s.pool.totalPages)
    (hfree : FreeRun s.pool.used page (ssdNpages size))
    (hdev : ∀ i, device = some i → ∃ d, s.pool.devices[i]? = some d ∧
      d.virtualBase / ssdPageSize ≤ page ∧
      page + ssdNpages size ≤ d.virtualBase / ssdPageSize + d.capacity / ssdPageSize) :
    (⟨s.pool.take page (ssdNpages size), ⟨page * ssdPageSize, size, device⟩ :: s.live⟩ :
      PoolState).Inv := by
  obtain ⟨hwf, hused⟩ := hi.wf.take hin hfree
  obtain ⟨hnp, hcov⟩ := ssdNpages_of_pos hlt hpos
  have hrun : (⟨page * ssdPageSize, size, device⟩ : PoolRange).run = ⟨page, ssdNpages size⟩ := by
    unfold PoolRange.run
    rw [Nat.mul_div_cancel page (by decide), hnp]
  have hne : size ≠ 0 := by
    rintro rfl
    exact absurd hpos (by decide)
  refine ⟨hwf, ?_, ?_, ?_, ?_⟩
  · intro a ha
    rcases List.mem_cons.mp ha with rfl | ha
    · exact Dvd.intro_left page rfl
    · exact hi.aligned a ha
  · intro a ha
    rcases List.mem_cons.mp ha with rfl | ha
    · exact ⟨hne, hnp⟩
    · exact hi.sizes a ha
  · refine hi.books.alloc _ ?_ ?_ ?_
    · rw [hrun]
      exact hin
    · rw [hrun]
      exact hfree
    · intro p _
      rw [hrun]
      exact hused p
  · intro a ha i hai
    rcases List.mem_cons.mp ha with rfl | ha
    · obtain ⟨d, hd, h1, h2⟩ := hdev i hai
      refine ⟨d, hd, ?_, ?_⟩
      · rw [hrun]
        exact h1
      · rw [hrun]
        exact h2
    · exact hi.onDevice a ha i hai

/-- Freeing a live range succeeds. -/
theorem ssdPoolFree_of_live {s : PoolState} (hi : s.Inv) {a : PoolRange} (ha : a ∈ s.live) :
    ssdPoolFree s.pool a.voffset a.size =
      (.ok (), s.pool.given (a.voffset / ssdPageSize) (ssdNpages a.size)) := by
  obtain ⟨hne, hnp⟩ := hi.sizes a ha
  have hin := hi.books.inside a ha
  have hpg := hi.wf.pages_eq
  have hlt := hi.wf.totalPages_lt
  have hal := Nat.div_mul_cancel (hi.aligned a ha)
  have hpos : 0 < a.run.len := by
    unfold PoolRange.run ssdPageSize
    dsimp only
    omega
  have hstart : a.run.start = a.voffset / ssdPageSize := rfl
  have hoff : a.voffset < s.pool.totalCapacity := by
    rw [← hal, ← hpg]
    exact Nat.mul_lt_mul_of_pos_right (by omega) (by decide)
  have hall : bmAllSet s.pool.bitmap (a.voffset / ssdPageSize) (ssdNpages a.size) = true := by
    refine (bmAllSet_iff _ _ _).mpr (fun p h1 h2 => ?_)
    exact hi.books.used_of_mem ha ⟨h1, by rw [hnp] at h2; exact h2⟩
  unfold ssdPoolFree
  rw [if_neg (by omega)]
  dsimp only
  rw [hnp] at hall ⊢
  rw [u64_of_lt (by omega), if_neg (by omega), if_pos hall]
  rfl

theorem poolStep_free_inv {s : PoolState} (hi : s.Inv) {a : PoolRange} {r : Except Error Unit}
    {pool' : SsdPool} (ha : a ∈ s.live) (h : ssdPoolFree s.pool a.voffset a.size = (r, pool')) :
    (⟨pool', s.live.erase a⟩ : PoolState).Inv := by
  rw [ssdPoolFree_of_live hi ha] at h
  obtain ⟨-, rfl⟩ := Prod.mk.inj h
  have hnp := (hi.sizes a ha).2
  have hin : a.voffset / ssdPageSize + ssdNpages a.size ≤ s.pool.totalPages := by
    rw [hnp]
    exact hi.books.inside a ha
  obtain ⟨hwf, hused⟩ := hi.wf.given hin (fun p h1 h2 =>
    hi.books.used_of_mem ha ⟨h1, by rw [hnp] at h2; exact h2⟩)
  refine ⟨hwf, ?_, ?_, ?_, ?_⟩
  · exact fun b hb => hi.aligned b (List.mem_of_mem_erase hb)
  · exact fun b hb => hi.sizes b (List.mem_of_mem_erase hb)
  · refine hi.books.free a ha (fun p _ => ?_)
    rw [hused p, hnp]
    rfl
  · exact fun b hb => hi.onDevice b (List.mem_of_mem_erase hb)

theorem poolStep_inv {s t : PoolState} {op : PoolOp} (hi : s.Inv) (hs : PoolStep s op t) :
    t.Inv := by
  cases hs with
  | add hlt h => exact poolStep_add_inv hi hlt h
  | addFail h =>
    rw [ssdPoolAddDevice_error h]
    exact hi
  | alloc h =>
    obtain ⟨page, hpos, hl, rfl, rfl⟩ := ssdPoolAlloc_ok hi.wf h
    exact poolStep_take_inv hi (UInt64.toNat_lt _) hpos hl.fits hl.free (by simp)
  | allocFail h =>
    rw [ssdPoolAlloc_error h]
    exact hi
  | @allocOnDevice idx size _ _ h =>
    obtain ⟨dev, page, hdev, hpos, hl, rfl, rfl⟩ := ssdPoolAllocOnDevice_ok hi.wf h
    have hend := hi.wf.layout.inside (List.mem_of_getElem? hdev)
    have hfit : page + ssdNpages size.toNat ≤ s.pool.totalPages := by
      have h1 := hl.fits
      have h2 := hi.wf.pages_eq
      unfold ssdPageSize at h1 h2
      omega
    refine poolStep_take_inv hi (UInt64.toNat_lt _) hpos hfit hl.free ?_
    rintro i ⟨⟩
    exact ⟨dev, hdev, hl.ge, hl.fits⟩
  | allocOnDeviceFail h =>
    rw [ssdPoolAllocOnDevice_error h]
    exact hi
  | free ha h => exact poolStep_free_inv hi ha h

/-- A device starts at a page boundary, because those before it are whole pages. -/
theorem SsdPool.WF.base_dvd {pool : SsdPool} (hw : pool.WF) {d : SsdDevice}
    (hd : d ∈ pool.devices) : ssdPageSize ∣ d.virtualBase := by
  obtain ⟨i, hi⟩ := List.mem_iff_getElem?.mp hd
  rw [(hw.layout.before hi).end_eq, Nat.zero_add]
  refine List.dvd_sum fun n hn => ?_
  obtain ⟨e, he, rfl⟩ := List.mem_map.mp hn
  exact hw.aligned e (List.mem_of_mem_take he)

theorem PoolState.Inv.sound {s : PoolState} (hi : s.Inv) : s.Sound := by
  have hpg := hi.wf.pages_eq
  refine ⟨hi.wf.counted, ?_, hi.wf.layout, ?_, hpg, hi.aligned, ?_, hi.books, ?_⟩
  · exact fun d hd => ⟨hi.wf.base_dvd hd, hi.wf.aligned d hd⟩
  · intro v
    constructor
    · intro hv
      obtain ⟨i, d, hd, hin⟩ := hi.wf.layout.exists_within (Nat.zero_le v) hv
      refine ⟨i, ⟨d, hd, hin⟩, ?_⟩
      rintro j ⟨d', hd', hin'⟩
      exact hi.wf.layout.within_unique hd' hd hin' hin
    · rintro ⟨i, ⟨d, hd, hin⟩, -⟩
      have h1 := (hi.wf.layout.inside (List.mem_of_getElem? hd)).2
      exact hin.2.trans_le h1
  · intro a ha
    have hin := hi.books.inside a ha
    have hal := Nat.div_mul_cancel (hi.aligned a ha)
    unfold PoolRange.run ssdPageSize at *
    dsimp only at *
    omega
  · intro a ha i hai
    obtain ⟨d, hd, h1, h2⟩ := hi.onDevice a ha i hai
    have hb := Nat.div_mul_cancel (hi.wf.base_dvd (List.mem_of_getElem? hd))
    have hc := Nat.div_mul_cancel (hi.wf.aligned d (List.mem_of_getElem? hd))
    have hal := Nat.div_mul_cancel (hi.aligned a ha)
    refine ⟨d, hd, ?_, ?_⟩
    · unfold PoolRange.run ssdPageSize at *
      dsimp only at *
      omega
    · unfold PoolRange.run ssdPageSize at *
      dsimp only at *
      omega

/-- After every run the counter, the device layout, the live ranges and the bitmap agree. -/
theorem poolRun_sound {s : PoolState} (h : Reach PoolInit PoolStep s) : s.Sound := by
  have hi : s.Inv := h.invariant (P := PoolState.Inv) (fun _ h0 => poolInit_inv h0)
    (fun _ _ _ hi hs => poolStep_inv hi hs)
  exact hi.sound

/-- A page of the second device, then the two pages of the first one. -/
theorem poolRun_sound_twoRanges :
    ∃ s : PoolState, s.live = [⟨0, 8192, none⟩, ⟨8192, 4096, some 1⟩] ∧ s.Sound := by
  let env : AddEnv := ⟨true, fun _ => 0, true⟩
  let p1 := (ssdPoolAddDevice ssdPoolCreate .file (8192 : UInt64).toNat env).2
  let p2 := (ssdPoolAddDevice p1 .direct (4096 : UInt64).toNat env).2
  let p3 := (ssdPoolAllocOnDevice p2 (1 : UInt32).toNat (4096 : UInt64).toNat).2
  let p4 := (ssdPoolAlloc p3 (8192 : UInt64).toNat).2
  let second : PoolRange := ⟨8192, (4096 : UInt64).toNat, some (1 : UInt32).toNat⟩
  have hadd1 : PoolStep ⟨ssdPoolCreate, []⟩ (.add .file 8192 env) ⟨p1, []⟩ :=
    .add (by decide) (Prod.ext (by decide +kernel) rfl)
  have hadd2 : PoolStep ⟨p1, []⟩ (.add .direct 4096 env) ⟨p2, []⟩ :=
    .add (by decide +kernel) (Prod.ext (by decide +kernel) rfl)
  have halloc1 : PoolStep ⟨p2, []⟩ (.allocOnDevice 1 4096) ⟨p3, [second]⟩ :=
    .allocOnDevice (Prod.ext (by decide +kernel) rfl)
  have halloc2 : PoolStep ⟨p3, [second]⟩ (.alloc 8192)
      ⟨p4, [⟨0, (8192 : UInt64).toNat, none⟩, second]⟩ :=
    .alloc (Prod.ext (by decide +kernel) rfl)
  exact ⟨_, rfl, poolRun_sound (.next _ (.next _ (.next _ (.next _ (.start .create) hadd1) hadd2)
    halloc1) halloc2)⟩

end Umm
