import Umm.Transport.SsdPoolLayout
import Umm.Lib.Reach

/-! The pools that the calls of `ssd_pool.c` can build, whatever their arguments. -/
namespace Umm
open Umm.Lib

/-- Bytes written inside a device, by a pool call or through its mapping. -/
def SsdPool.storeAt (pool : SsdPool) (deviceIdx offset : ℕ) (bytes : List UInt8) : SsdPool :=
  match pool.devices[deviceIdx]? with
  | none => pool
  | some dev =>
    if offset + bytes.length ≤ dev.capacity then
      pool.setBackend deviceIdx
        { dev.backend with data := splice dev.backend.data offset bytes }
    else pool

inductive PoolCall where
  | add (kind : BackendKind) (capacity : UInt64) (env : AddEnv)
  | alloc (size : UInt64)
  | allocOnDevice (deviceIdx : UInt32) (size : UInt64)
  | free (voffset size : UInt64)
  | store (deviceIdx offset : ℕ) (bytes : List UInt8)

def PoolCall.run (pool : SsdPool) : PoolCall → SsdPool
  | add kind capacity env => (ssdPoolAddDevice pool kind capacity.toNat env).2
  | alloc size => (ssdPoolAlloc pool size.toNat).2
  | allocOnDevice deviceIdx size => (ssdPoolAllocOnDevice pool deviceIdx.toNat size.toNat).2
  | free voffset size => (ssdPoolFree pool voffset.toNat size.toNat).2
  | store deviceIdx offset bytes => pool.storeAt deviceIdx offset bytes

/-- What `calloc` gave for the bitmaps of the devices lies in the memory of the process. -/
def PoolCall.Step (pool : SsdPool) (call : PoolCall) (pool' : SsdPool) : Prop :=
  pool' = call.run pool ∧ pool'.bitmapBytes ≤ mmapWindow

def SsdPool.Reachable (pool : SsdPool) : Prop :=
  Reach (· = ssdPoolCreate) PoolCall.Step pool

namespace SsdPool

variable {pool : SsdPool}

/-- Devices that were added and whose bitmaps are in memory fit into the address space. -/
theorem WF.add (hw : pool.WF) (kind : BackendKind) (capacity : ℕ) (env : AddEnv)
    (hmem : (ssdPoolAddDevice pool kind capacity env).2.bitmapBytes ≤ mmapWindow) :
    (ssdPoolAddDevice pool kind capacity env).2.WF := by
  cases h : ssdPoolAddDevice pool kind capacity env with
  | mk r pool' =>
    rw [h] at hmem
    cases r with
    | error e =>
      rw [ssdPoolAddDevice_error h]
      exact hw
    | ok u =>
      refine (ssdPoolAddDevice_wf hw ?_ h).1
      obtain ⟨sb, -, hcap, -, -, rfl⟩ := ssdPoolAddDevice_ok h
      have hbacked : ∀ d ∈ (pool.grown sb).devices,
          d.backend.capacity = d.capacity ∧ ssdPageSize ∣ d.capacity := by
        intro d hd
        rcases List.mem_append.mp hd with hd | hd
        · exact ⟨(hw.backed d hd).1, hw.aligned d hd⟩
        · obtain rfl := List.mem_singleton.mp hd
          exact ⟨rfl, hcap ▸ roundUpPage_dvd capacity⟩
      have hsum := sumCapacity_lt hbacked hmem
      rw [sumCapacity_grown, ← hw.sumCapacity, hcap] at hsum
      exact hsum

theorem WF.alloc (hw : pool.WF) (size : ℕ) : (ssdPoolAlloc pool size).2.WF := by
  cases h : ssdPoolAlloc pool size with
  | mk r pool' =>
    cases r with
    | error e =>
      rw [ssdPoolAlloc_error h]
      exact hw
    | ok off =>
      obtain ⟨page, -, hl, -, rfl⟩ := ssdPoolAlloc_ok hw h
      exact (hw.take hl.fits hl.free).1

/-- The pages of a device are pages of the pool. -/
theorem WF.device_pages (hw : pool.WF) {dev : SsdDevice} (hd : dev ∈ pool.devices) :
    dev.virtualBase / ssdPageSize + dev.capacity / ssdPageSize ≤ pool.totalPages := by
  have hin := hw.layout.inside hd
  have hpages := hw.pages_eq
  unfold ssdPageSize at *
  omega

theorem WF.allocOnDevice (hw : pool.WF) (deviceIdx size : ℕ) :
    (ssdPoolAllocOnDevice pool deviceIdx size).2.WF := by
  cases h : ssdPoolAllocOnDevice pool deviceIdx size with
  | mk r pool' =>
    cases r with
    | error e =>
      rw [ssdPoolAllocOnDevice_error h]
      exact hw
    | ok off =>
      obtain ⟨dev, page, hdev, -, hl, -, rfl⟩ := ssdPoolAllocOnDevice_ok hw h
      have hend := hw.device_pages (List.mem_of_getElem? hdev)
      exact (hw.take (hl.fits.trans hend) hl.free).1

/-- The page counts of a free do not wrap when they are added up. -/
theorem WF.free_end (hw : pool.WF) {voffset : ℕ} (hv : voffset < pool.totalCapacity) (size : ℕ) :
    u64 (voffset / ssdPageSize + ssdNpages size) = voffset / ssdPageSize + ssdNpages size := by
  have htotal := hw.total_lt
  have hsum := u64_lt (size + ssdPageSize - 1)
  refine u64_of_lt ?_
  unfold ssdNpages ssdPageSize at *
  omega

theorem WF.free (hw : pool.WF) (voffset size : ℕ) : (ssdPoolFree pool voffset size).2.WF := by
  cases h : ssdPoolFree pool voffset size with
  | mk r pool' =>
    cases r with
    | error e =>
      rw [ssdPoolFree_error h]
      exact hw
    | ok u =>
      obtain ⟨-, hv, hin, hall, rfl⟩ := ssdPoolFree_ok h
      rw [hw.free_end hv] at hin
      exact (hw.given hin hall).1

theorem WF.storeAt (hw : pool.WF) (deviceIdx offset : ℕ) (bytes : List UInt8) :
    (pool.storeAt deviceIdx offset bytes).WF := by
  unfold SsdPool.storeAt
  split
  · exact hw
  next dev hdev =>
    split_ifs with hfit
    · have hdata := (hw.backed dev (List.mem_of_getElem? hdev)).2
      exact hw.setBackend hdev (by rw [length_splice (by omega), hdata])
    · exact hw

theorem Reachable.wf (h : pool.Reachable) : pool.WF := by
  refine Reach.invariant (P := WF) ?_ ?_ h
  · rintro _ rfl
    exact ssdPoolCreate_wf
  · rintro s call _ hs ⟨rfl, hmem⟩
    cases call with
    | add kind capacity env => exact hs.add kind capacity.toNat env hmem
    | alloc size => exact hs.alloc size.toNat
    | allocOnDevice deviceIdx size => exact hs.allocOnDevice deviceIdx.toNat size.toNat
    | free voffset size => exact hs.free voffset.toNat size.toNat
    | store deviceIdx offset bytes => exact hs.storeAt deviceIdx offset bytes

/-! Reads and writes, with any arguments. -/

section Io

variable {os : OsIo}

theorem length_pwriteLoop {dev offset len : ℕ} {buf : List UInt8} :
    ∀ done data, offset + len ≤ data.length →
      (pwriteLoop os dev buf offset len done data).length = data.length := by
  intro done data hfit
  fun_induction pwriteLoop os dev buf offset len done data with
  | case1 done data hlt n ih =>
    have hn : n ≤ len - done := os.le dev (offset + done) (len - done)
    have hpiece : (slice buf done n).length ≤ n := List.length_take_le _ _
    have hsplice := length_splice (show offset + done + (slice buf done n).length ≤ data.length by
      omega)
    rw [ih (by omega), hsplice]
  | case2 => rfl

/-- A write changes the data of its device only, and not how much there is of it. -/
theorem ssdBackendPwrite_shape (os : OsIo) {dev offset len : ℕ} {sb : SsdBackend}
    {buf : List UInt8} :
    ∃ data, (ssdBackendPwrite os dev sb offset len buf).2 = { sb with data } ∧
      (sb.data.length = sb.capacity → data.length = sb.capacity) := by
  unfold ssdBackendPwrite
  split_ifs with hout
  · exact ⟨sb.data, rfl, id⟩
  have hpart : ∀ n ≤ len, sb.data.length = sb.capacity →
      (splice sb.data offset (slice buf 0 n)).length = sb.capacity := by
    intro n hn hd
    have hpiece : (slice buf 0 n).length ≤ n := List.length_take_le _ _
    rw [length_splice (by omega), hd]
  cases sb.kind with
  | file => exact ⟨_, rfl, fun hd => (length_pwriteLoop 0 sb.data (by omega)).trans hd⟩
  | direct => exact ⟨_, rfl, hpart _ SsdBackend.io_part.1⟩
  | libnvm => exact ⟨_, rfl, hpart _ SsdBackend.io_part.1⟩
  | nds => exact ⟨_, rfl, hpart _ SsdBackend.io_part.1⟩
  | ndsMeta => exact ⟨_, rfl, hpart _ SsdBackend.io_part.1⟩

theorem WF.ioLoop {isWrite : Bool} {stop : ℕ} :
    ∀ fuel cur done (pool : SsdPool) buf r pool' buf', pool.WF →
      ssdPoolIoLoop os isWrite stop fuel cur done pool buf = some (r, pool', buf') →
      pool'.WF ∧ pool'.blank = pool.blank := by
  intro fuel
  induction fuel with
  | zero =>
    intro cur done pool buf r pool' buf' _ h
    cases h
  | succ fuel ih =>
    intro cur done pool buf r pool' buf' hw h
    have hself : pool.WF ∧ pool.blank = pool.blank := ⟨hw, rfl⟩
    unfold ssdPoolIoLoop at h
    by_cases hlt : cur < stop
    · rw [if_pos hlt] at h
      split at h
      · obtain ⟨-, rfl, -⟩ := by simpa using h
        exact hself
      · split at h
        · cases h
        next dev hdev =>
          dsimp only at h
          cases isWrite with
          | true =>
            rw [if_pos rfl] at h
            obtain ⟨data, hsb, hlen⟩ := ssdBackendPwrite_shape os
            obtain ⟨hcap, hdata⟩ := hw.backed dev (List.mem_of_getElem? hdev)
            rw [hsb] at h
            have hw₁ := hw.setBackend hdev ((hlen (by rw [hcap, hdata])).trans hcap)
            have hblank₁ : (pool.setBackend _ { dev.backend with data }).blank = pool.blank :=
              blank_setBackend hdev
            split at h
            · obtain ⟨-, rfl, -⟩ := by simpa using h
              exact ⟨hw₁, hblank₁⟩
            · obtain ⟨hw', hblank⟩ := ih _ _ _ _ _ _ _ hw₁ h
              exact ⟨hw', hblank.trans hblank₁⟩
          | false =>
            rw [if_neg (by decide)] at h
            split at h
            · obtain ⟨-, rfl, -⟩ := by simpa using h
              exact hself
            · exact ih _ _ _ _ _ _ _ hw h
    · rw [if_neg hlt] at h
      obtain ⟨-, rfl, -⟩ := by simpa using h
      exact hself

theorem WF.io {isWrite : Bool} {pool pool' : SsdPool} {voffset len : ℕ} {buf buf' : List UInt8}
    {r : Except Error Unit} (hw : pool.WF)
    (h : ssdPoolIo os pool voffset len buf isWrite = some (r, pool', buf')) :
    pool'.WF ∧ pool'.blank = pool.blank := by
  unfold ssdPoolIo at h
  split_ifs at h with hout
  · obtain ⟨-, rfl, -⟩ := by simpa using h
    exact ⟨hw, rfl⟩
  · exact WF.ioLoop _ _ _ _ _ _ _ _ hw h

end Io

@[simp] theorem ssdPoolAlloc_devices (size : ℕ) :
    (ssdPoolAlloc pool size).2.devices = pool.devices := by
  unfold ssdPoolAlloc
  dsimp only
  split_ifs <;> rfl

@[simp] theorem ssdPoolAllocOnDevice_devices (deviceIdx size : ℕ) :
    (ssdPoolAllocOnDevice pool deviceIdx size).2.devices = pool.devices := by
  unfold ssdPoolAllocOnDevice
  dsimp only
  split_ifs
  · rfl
  · split
    · rfl
    · split_ifs <;> rfl

@[simp] theorem ssdPoolFree_devices (voffset size : ℕ) :
    (ssdPoolFree pool voffset size).2.devices = pool.devices := by
  unfold ssdPoolFree
  dsimp only
  split_ifs <;> rfl

/-- Bytes that are stored change no device but for its data. -/
theorem mem_storeAt {deviceIdx offset : ℕ} {bytes : List UInt8} {d : SsdDevice}
    (hd : d ∈ (pool.storeAt deviceIdx offset bytes).devices) :
    ∃ d' ∈ pool.devices, d.capacity = d'.capacity := by
  unfold SsdPool.storeAt at hd
  split at hd
  · exact ⟨d, hd, rfl⟩
  next dev hdev =>
    split_ifs at hd
    · rcases mem_setBackend hdev hd with hd | rfl
      · exact ⟨d, hd, rfl⟩
      · exact ⟨dev, List.mem_of_getElem? hdev, rfl⟩
    · exact ⟨d, hd, rfl⟩

theorem mem_add {kind : BackendKind} {capacity : ℕ} {env : AddEnv} {d : SsdDevice}
    (hd : d ∈ (ssdPoolAddDevice pool kind capacity env).2.devices) :
    d ∈ pool.devices ∨ 0 < d.capacity := by
  cases h : ssdPoolAddDevice pool kind capacity env with
  | mk r pool' =>
    rw [h] at hd
    cases r with
    | error e =>
      rw [ssdPoolAddDevice_error h] at hd
      exact Or.inl hd
    | ok u =>
      obtain ⟨sb, -, -, -, hpos, rfl⟩ := ssdPoolAddDevice_ok h
      refine (List.mem_append.mp hd).imp_right fun hd => ?_
      obtain rfl := List.mem_singleton.mp hd
      exact Nat.pos_of_ne_zero hpos

/-- Devices are added with at least one page, and then stay as large as they are. -/
theorem Reachable.capacity_pos (h : pool.Reachable) : ∀ d ∈ pool.devices, 0 < d.capacity := by
  refine Reach.invariant (P := fun p => ∀ d ∈ p.devices, 0 < d.capacity) ?_ ?_ h
  · rintro _ rfl d hd
    cases hd
  · rintro s call _ hs ⟨rfl, -⟩ d hd
    cases call with
    | add kind capacity env => exact (mem_add hd).elim (hs d) id
    | alloc size =>
      rw [PoolCall.run, ssdPoolAlloc_devices] at hd
      exact hs d hd
    | allocOnDevice deviceIdx size =>
      rw [PoolCall.run, ssdPoolAllocOnDevice_devices] at hd
      exact hs d hd
    | free voffset size =>
      rw [PoolCall.run, ssdPoolFree_devices] at hd
      exact hs d hd
    | store deviceIdx offset bytes =>
      obtain ⟨d', hd', hcap⟩ := mem_storeAt hd
      exact hcap ▸ hs d' hd'

theorem reachable_create : ssdPoolCreate.Reachable := Reach.start rfl

theorem Reachable.next (h : pool.Reachable) (call : PoolCall)
    (hmem : (call.run pool).bitmapBytes ≤ mmapWindow) : (call.run pool).Reachable :=
  Reach.next call h ⟨rfl, hmem⟩

end SsdPool

end Umm
