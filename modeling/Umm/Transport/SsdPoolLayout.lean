import Umm.Transport.SsdPoolRefine
import Umm.Client.Init

/-! The address layout of a pool, and how a client builds it again from what
`ssd_pool_device_info` reports. -/
namespace Umm
open Umm.Lib

/-- `ssd_pool_device_info`, where `devicePath` is the path that the backend was opened with. -/
def ssdPoolDeviceInfo (pool : SsdPool) (devicePath : ℕ → CString) (deviceIdx : ℕ) :
    Except Error Proto.StorageResource :=
  match pool.devices[deviceIdx]? with
  | none => .error .invalidArg
  | some dev => .ok
      { tier := 2
        devicePath := CString.ofBytes ((devicePath deviceIdx).bytes.take 255)
        capacity := dev.capacity.toUInt64
        baseOffset := dev.virtualBase.toUInt64
        online := 1 }

/-- One call of `ssd_pool_add_device`. -/
structure AddCall where
  kind : BackendKind
  capacity : UInt64
  env : AddEnv

/-- The pool after the calls, where all of them succeed. -/
def addDevices : SsdPool → List AddCall → Option SsdPool
  | pool, [] => some pool
  | pool, c :: cs =>
    match ssdPoolAddDevice pool c.kind c.capacity.toNat c.env with
    | (.ok (), pool) => addDevices pool cs
    | (.error _, _) => none

/-- Without a hint the kernel maps the memory of a process below 2^47 (x86-64) or below this
address (arm64). -/
def mmapWindow : ℕ := 2 ^ 48

/-- The bitmap that `ssd_backend_create` keeps for its device. -/
def SsdBackend.bitmapBytes (sb : SsdBackend) : ℕ :=
  8 * ((sb.capacity / ssdPageSize + 63) / 64)

namespace SsdPool

variable {pool pool' : SsdPool}

/-- The bitmaps of the devices are all in memory at the same time. -/
def bitmapBytes (pool : SsdPool) : ℕ :=
  (pool.devices.map fun d => d.backend.bitmapBytes).sum

def sumCapacity (pool : SsdPool) : ℕ :=
  (pool.devices.map SsdDevice.capacity).sum

theorem sumCapacity_grown (sb : SsdBackend) :
    (pool.grown sb).sumCapacity = pool.sumCapacity + sb.capacity := by
  rw [sumCapacity, grown, List.map_append, List.sum_append]
  rfl

theorem WF.sumCapacity (hw : pool.WF) : pool.totalCapacity = pool.sumCapacity := by
  rw [hw.layout.end_eq, Nat.zero_add]
  rfl

end SsdPool

/-- Adding devices only adds to the capacities. -/
theorem addDevices_sumCapacity {pool pool' : SsdPool} {calls : List AddCall}
    (h : addDevices pool calls = some pool') : pool.sumCapacity ≤ pool'.sumCapacity := by
  induction calls generalizing pool with
  | nil =>
    obtain rfl := Option.some.inj h
    exact le_rfl
  | cons c cs ih =>
    unfold addDevices at h
    split at h
    next pool₁ hadd =>
      obtain ⟨sb, -, -, -, -, rfl⟩ := ssdPoolAddDevice_ok hadd
      have := ih h
      rw [SsdPool.sumCapacity_grown] at this
      omega
    next => cases h

theorem addDevices_wf {pool pool' : SsdPool} {calls : List AddCall} (hw : pool.WF)
    (h : addDevices pool calls = some pool') (hlt : pool'.sumCapacity < 2 ^ 64) : pool'.WF := by
  induction calls generalizing pool with
  | nil =>
    obtain rfl := Option.some.inj h
    exact hw
  | cons c cs ih =>
    unfold addDevices at h
    split at h
    next pool₁ hadd =>
      have hle := addDevices_sumCapacity h
      refine ih ?_ h
      refine (ssdPoolAddDevice_wf hw ?_ hadd).1
      obtain ⟨sb, -, hcap, -, -, rfl⟩ := ssdPoolAddDevice_ok hadd
      rw [SsdPool.sumCapacity_grown] at hle
      rw [← hcap, hw.sumCapacity]
      omega
    next => cases h

/-- The capacities of the devices are those asked for, rounded up. -/
theorem addDevices_capacities {pool pool' : SsdPool} {calls : List AddCall}
    (h : addDevices pool calls = some pool') :
    pool'.devices.map SsdDevice.capacity =
      pool.devices.map SsdDevice.capacity ++ calls.map fun c => roundUpPage c.capacity.toNat := by
  induction calls generalizing pool with
  | nil =>
    obtain rfl := Option.some.inj h
    exact (List.append_nil _).symm
  | cons c cs ih =>
    unfold addDevices at h
    split at h
    next pool₁ hadd =>
      obtain ⟨sb, -, hcap, -, -, rfl⟩ := ssdPoolAddDevice_ok hadd
      rw [ih h, SsdPool.grown, List.map_append, List.append_assoc]
      exact congrArg (fun n => pool.devices.map SsdDevice.capacity ++ n :: _) hcap
    next => cases h

theorem addDevices_backed {pool pool' : SsdPool} {calls : List AddCall}
    (hpool : ∀ d ∈ pool.devices, d.backend.capacity = d.capacity ∧ ssdPageSize ∣ d.capacity)
    (h : addDevices pool calls = some pool') :
    ∀ d ∈ pool'.devices, d.backend.capacity = d.capacity ∧ ssdPageSize ∣ d.capacity := by
  induction calls generalizing pool with
  | nil =>
    obtain rfl := Option.some.inj h
    exact hpool
  | cons c cs ih =>
    unfold addDevices at h
    split at h
    next pool₁ hadd =>
      obtain ⟨sb, -, hcap, -, -, rfl⟩ := ssdPoolAddDevice_ok hadd
      refine ih (fun d hd => ?_) h
      rcases List.mem_append.mp hd with hd | hd
      · exact hpool d hd
      · obtain rfl := List.mem_singleton.mp hd
        exact ⟨rfl, hcap ▸ roundUpPage_dvd c.capacity.toNat⟩
    next => cases h

/-- Where the bitmaps fit into memory the capacities do not wrap around. -/
theorem sumCapacity_lt {pool : SsdPool}
    (hbacked : ∀ d ∈ pool.devices, d.backend.capacity = d.capacity ∧ ssdPageSize ∣ d.capacity)
    (hmem : pool.bitmapBytes ≤ mmapWindow) : pool.sumCapacity < 2 ^ 64 := by
  have hone : ∀ d ∈ pool.devices, d.capacity ≤ 2 ^ 15 * d.backend.bitmapBytes := by
    intro d hd
    obtain ⟨hcap, k, hk⟩ := hbacked d hd
    rw [SsdBackend.bitmapBytes, hcap, hk, Nat.mul_div_cancel_left k (by decide)]
    unfold ssdPageSize
    omega
  have hsum : pool.sumCapacity ≤ 2 ^ 15 * pool.bitmapBytes := by
    unfold SsdPool.sumCapacity SsdPool.bitmapBytes
    rw [← List.sum_map_mul_left]
    exact List.sum_le_sum hone
  unfold mmapWindow at hmem
  omega

/-- The devices with these capacities, from `a` on. -/
theorem layout_congr {ds es : List SsdDevice} {a b c : ℕ}
    (hds : EndToEnd SsdDevice.virtualBase SsdDevice.capacity a ds b)
    (hes : EndToEnd SsdDevice.virtualBase SsdDevice.capacity a es c)
    (hsame : ds.map SsdDevice.capacity = es.map SsdDevice.capacity) :
    b = c ∧ ∀ voffset i, translateLoop voffset ds i = translateLoop voffset es i := by
  induction ds generalizing es a with
  | nil =>
    obtain rfl : es = [] := List.map_eq_nil_iff.mp hsame.symm
    exact ⟨hds.symm.trans hes, fun _ _ => rfl⟩
  | cons d ds ih =>
    cases es with
    | nil => cases hsame
    | cons e es =>
      obtain ⟨hhead, htail⟩ := List.cons.inj hsame
      have hbase : d.virtualBase = e.virtualBase := hds.1.trans hes.1.symm
      have hrest := ih hds.2 (hhead ▸ hes.2) htail
      refine ⟨hrest.1, fun voffset i => ?_⟩
      unfold translateLoop
      rw [hbase, hhead, hrest.2]

theorem ssdPoolTranslate_congr {pool pool' : SsdPool} (hw : pool.WF) (hw' : pool'.WF)
    (hsame : pool.devices.map SsdDevice.capacity = pool'.devices.map SsdDevice.capacity)
    (voffset : ℕ) : ssdPoolTranslate pool voffset = ssdPoolTranslate pool' voffset := by
  obtain ⟨htotal, hloop⟩ := layout_congr hw.layout hw'.layout hsame
  unfold ssdPoolTranslate
  rw [htotal, hloop]

/-- The addresses that the devices of the pool have. -/
def SsdPool.Located (pool : SsdPool) : Set (Except Error (ℕ × ℕ)) :=
  { r | ∃ i offset d, r = .ok (i, offset) ∧ pool.devices[i]? = some d ∧ offset < d.capacity }

theorem ssdPoolTranslate_bijOn {pool : SsdPool} (hw : pool.WF) :
    Set.BijOn (ssdPoolTranslate pool) { v | v < pool.totalCapacity } pool.Located := by
  refine ⟨?_, ?_, ?_⟩
  · intro v hv
    obtain ⟨i, d, hi, ⟨hlow, hhigh⟩, ht⟩ := ssdPoolTranslate_eq hw hv
    exact ⟨i, v - d.virtualBase, d, ht, hi, by omega⟩
  · intro v hv w hw' hsame
    obtain ⟨i, d, hi, ⟨hlow, hhigh⟩, ht⟩ := ssdPoolTranslate_eq hw hv
    obtain ⟨j, e, hj, ⟨hlow', hhigh'⟩, ht'⟩ := ssdPoolTranslate_eq hw hw'
    rw [ht, ht'] at hsame
    obtain ⟨rfl, hoffset⟩ := Prod.mk.inj (Except.ok.inj hsame)
    obtain rfl : d = e := Option.some.inj (hi.symm.trans hj)
    omega
  · rintro _ ⟨i, offset, d, rfl, hi, hlt⟩
    have hin := hw.layout.inside (List.mem_of_getElem? hi)
    have hv : d.virtualBase + offset < pool.totalCapacity := by omega
    obtain ⟨j, e, hj, hwithin, ht⟩ := ssdPoolTranslate_eq hw hv
    obtain rfl : i = j := hw.layout.within_unique hi hj ⟨by omega, by omega⟩ hwithin
    obtain rfl : d = e := Option.some.inj (hi.symm.trans hj)
    exact ⟨d.virtualBase + offset, hv, by rw [ht, Nat.add_sub_cancel_left]⟩

/-- The client lists the SSDs of its topology in order, unless one of them is for NDS. -/
theorem topologyDevices_eq {slots : List Proto.StorageResource} {devices listed : List SsdDevicePath}
    (h : topologyDevices slots devices = .ok (listed, none)) :
    listed = devices ++ (slots.filter (·.isOnlineSsd)).map fun r => ⟨r.devicePath, r.capacity⟩ := by
  induction slots generalizing devices with
  | nil =>
    obtain ⟨rfl, -⟩ := Prod.mk.inj (Except.ok.inj h)
    exact (List.append_nil _).symm
  | cons r slots ih =>
    unfold topologyDevices at h
    split at h
    next hoff =>
      rw [ih h, List.filter_cons_of_neg (by simpa using hoff)]
    next hon =>
      split at h
      · cases h
      · split at h
        · cases h
        · rw [ih h, List.filter_cons_of_pos (by simpa using hon), List.map_cons,
            List.append_assoc]
          rfl

/-- Capacities that `ssd_pool_device_info` reports are kept when devices are added with them. -/
theorem capacities_of_reported {pool pool' : SsdPool} (hw : pool.WF) {path : ℕ → CString}
    {calls : List AddCall}
    (hreport : ∀ i : ℕ, calls[i]?.map (·.capacity) =
      (ssdPoolDeviceInfo pool path i).toOption.map (·.capacity))
    (h : addDevices ssdPoolCreate calls = some pool') :
    pool'.devices.map SsdDevice.capacity = pool.devices.map SsdDevice.capacity := by
  rw [addDevices_capacities h]
  show calls.map _ = _
  apply List.ext_getElem?
  intro i
  have hi := hreport i
  rw [List.getElem?_map, List.getElem?_map]
  unfold ssdPoolDeviceInfo at hi
  cases hdev : pool.devices[i]? with
  | none =>
    rw [hdev] at hi
    rw [Option.map_eq_none_iff.mp hi]
    rfl
  | some d =>
    rw [hdev] at hi
    obtain ⟨c, hc, hcap⟩ := Option.map_eq_some_iff.mp hi
    have hin := hw.layout.inside (List.mem_of_getElem? hdev)
    have hlt : d.capacity < 2 ^ 64 := by
      have := hw.total_lt
      omega
    have hnat : c.capacity.toNat = d.capacity := by
      rw [hcap]
      exact UInt64.toNat_ofNat_of_lt' hlt
    rw [hc, Option.map_some, Option.map_some, hnat,
      roundUpPage_of_dvd (hw.aligned d (List.mem_of_getElem? hdev)) hlt]

/-- The pool puts the devices end to end, and who adds devices with the capacities that it reports,
from the topology of the client or by other means, gets the same addresses. -/
theorem ssdPool_layout {calls : List AddCall} {pool : SsdPool}
    (h : addDevices ssdPoolCreate calls = some pool) (hmem : pool.bitmapBytes ≤ mmapWindow)
    (path : ℕ → CString) :
    Set.BijOn (ssdPoolTranslate pool) { v | v < pool.totalCapacity } pool.Located ∧
    (∀ v, pool.totalCapacity ≤ v → ssdPoolTranslate pool v = .error .invalidArg) ∧
    (∀ calls' pool', (∀ i : ℕ, calls'[i]?.map (·.capacity) =
        (ssdPoolDeviceInfo pool path i).toOption.map (·.capacity)) →
      addDevices ssdPoolCreate calls' = some pool' →
      ∀ v, ssdPoolTranslate pool' v = ssdPoolTranslate pool v) ∧
    ∀ (slots : List Proto.StorageResource) (devices : List SsdDevicePath),
      (∀ i : ℕ, (slots.filter (·.isOnlineSsd))[i]? = (ssdPoolDeviceInfo pool path i).toOption) →
      topologyDevices slots [] = .ok (devices, none) →
      ∀ calls' pool', calls'.map (·.capacity) = devices.map (·.size) →
        addDevices ssdPoolCreate calls' = some pool' →
        ∀ v, ssdPoolTranslate pool' v = ssdPoolTranslate pool v := by
  have hempty : ∀ d ∈ ssdPoolCreate.devices, d.backend.capacity = d.capacity ∧
      ssdPageSize ∣ d.capacity := fun d hd => (by cases hd)
  have hbacked := addDevices_backed hempty h
  have hw : pool.WF := addDevices_wf ssdPoolCreate_wf h (sumCapacity_lt hbacked hmem)
  have hsecond : ∀ calls' pool', (∀ i : ℕ, calls'[i]?.map (·.capacity) =
        (ssdPoolDeviceInfo pool path i).toOption.map (·.capacity)) →
      addDevices ssdPoolCreate calls' = some pool' →
      ∀ v, ssdPoolTranslate pool' v = ssdPoolTranslate pool v := by
    intro calls' pool' hreport h' v
    have hsame := capacities_of_reported hw hreport h'
    have hw' : pool'.WF := by
      refine addDevices_wf ssdPoolCreate_wf h' ?_
      rw [SsdPool.sumCapacity, hsame]
      exact sumCapacity_lt hbacked hmem
    exact ssdPoolTranslate_congr hw' hw hsame v
  refine ⟨ssdPoolTranslate_bijOn hw, fun v hv => if_pos hv, hsecond, ?_⟩
  intro slots devices hslots hlist calls' pool' hcalls
  refine hsecond calls' pool' fun i => ?_
  rw [← hslots i, ← List.getElem?_map, hcalls, topologyDevices_eq hlist, List.nil_append,
    List.map_map, List.getElem?_map]
  rfl

/-- A page and three pages, kept by the server and driven by a client. -/
theorem ssdPool_layout_twoDevices :
    ∃ pool pool', addDevices ssdPoolCreate [⟨.ndsMeta, 4096, ⟨true, fun _ => 0, true⟩⟩,
        ⟨.ndsMeta, 10000, ⟨true, fun _ => 0, true⟩⟩] = some pool ∧
      addDevices ssdPoolCreate [⟨.nds, 4096, ⟨true, fun _ => 0, true⟩⟩,
        ⟨.nds, 12288, ⟨true, fun _ => 0, true⟩⟩] = some pool' ∧
      pool.totalCapacity = 16384 ∧
      Set.BijOn (ssdPoolTranslate pool) { v | v < pool.totalCapacity } pool.Located ∧
      ∀ v, ssdPoolTranslate pool' v = ssdPoolTranslate pool v := by
  have hpool : addDevices ssdPoolCreate [⟨.ndsMeta, 4096, ⟨true, fun _ => 0, true⟩⟩,
    ⟨.ndsMeta, 10000, ⟨true, fun _ => 0, true⟩⟩] = some _ := rfl
  have hlayout := ssdPool_layout hpool (by decide) fun _ => emptyString
  refine ⟨_, _, rfl, rfl, rfl, hlayout.1, hlayout.2.2.1 [⟨.nds, 4096, ⟨true, fun _ => 0, true⟩⟩,
    ⟨.nds, 12288, ⟨true, fun _ => 0, true⟩⟩] _ ?_ rfl⟩
  intro i
  match i with
  | 0 => rfl
  | 1 => rfl
  | _ + 2 => rfl

end Umm
