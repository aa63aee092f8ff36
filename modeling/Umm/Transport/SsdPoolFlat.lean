import Umm.Transport.SsdPoolIo

/-! The pool as one flat array of bytes: the devices' bytes in virtual order. -/
namespace Umm
open Umm.Lib

/-- The device takes what of a range of the pool lies on it. -/
def SsdDevice.TakesPiece (os : OsIo) (isWrite : Bool) (i : ℕ) (d : SsdDevice) (voffset len : ℕ) :
    Prop :=
  let first := max voffset d.virtualBase
  let stop := min (voffset + len) (d.virtualBase + d.capacity)
  first < stop → d.backend.Takes os isWrite i (first - d.virtualBase) (stop - first)

namespace SsdPool

def bytes (pool : SsdPool) : List UInt8 := pool.devices.flatMap (fun d => d.backend.data)

/-- The pool without its data: what no read or write changes. -/
def blank (pool : SsdPool) : SsdPool :=
  { pool with
    devices := pool.devices.map (fun d => { d with backend := { d.backend with data := [] } }) }

/-- Every device takes its piece of a range. -/
def Takes (os : OsIo) (isWrite : Bool) (pool : SsdPool) (voffset len : ℕ) : Prop :=
  ∀ (i : ℕ) (d : SsdDevice), pool.devices[i]? = some d → d.TakesPiece os isWrite i voffset len

theorem length_flatMap {ds : List SsdDevice} {a b : ℕ}
    (h : EndToEnd SsdDevice.virtualBase SsdDevice.capacity a ds b)
    (hd : ∀ d ∈ ds, d.backend.data.length = d.capacity) :
    a + (ds.flatMap (fun d => d.backend.data)).length = b := by
  rw [h.end_eq, List.length_flatMap, List.map_congr_left hd]

theorem WF.length_bytes {pool : SsdPool} (hw : pool.WF) :
    pool.bytes.length = pool.totalCapacity := by
  have h := length_flatMap hw.layout (fun d hd => (hw.backed d hd).2)
  rw [Nat.zero_add] at h
  exact h

theorem totalCapacity_of_blank {pool pool' : SsdPool} (h : pool'.blank = pool.blank) :
    pool'.totalCapacity = pool.totalCapacity := by
  have h1 : pool'.blank.totalCapacity = pool.blank.totalCapacity := by rw [h]
  exact h1

/-- The bytes before device `i`, its own, and those after it. -/
theorem bytes_split {pool : SsdPool} {i : ℕ} {d : SsdDevice} (hi : pool.devices[i]? = some d) :
    pool.bytes = (pool.devices.take i).flatMap (fun d => d.backend.data) ++
      (d.backend.data ++ (pool.devices.drop (i + 1)).flatMap (fun d => d.backend.data)) := by
  obtain ⟨hlt, hget⟩ := List.getElem?_eq_some_iff.mp hi
  unfold bytes
  conv_lhs => rw [← List.take_append_drop i pool.devices, List.drop_eq_getElem_cons hlt, hget]
  rw [List.flatMap_append, List.flatMap_cons]

theorem WF.length_before {pool : SsdPool} (hw : pool.WF) {i : ℕ} {d : SsdDevice}
    (hi : pool.devices[i]? = some d) :
    ((pool.devices.take i).flatMap (fun d => d.backend.data)).length = d.virtualBase := by
  have h := length_flatMap (hw.layout.before hi)
    (fun d hd => (hw.backed d (List.mem_of_mem_take hd)).2)
  omega

/-- Reading inside a device is reading the flat array at its virtual base. -/
theorem WF.slice_device {pool : SsdPool} (hw : pool.WF) {i o n : ℕ} {d : SsdDevice}
    (hi : pool.devices[i]? = some d) (hin : o + n ≤ d.capacity) :
    slice pool.bytes (d.virtualBase + o) n = slice d.backend.data o n := by
  have hd := (hw.backed d (List.mem_of_getElem? hi)).2
  rw [bytes_split hi, ← hw.length_before hi]
  exact slice_middle (by omega)

/-- Writing inside a device is writing the flat array at its virtual base. -/
theorem WF.splice_device {pool : SsdPool} (hw : pool.WF) {i o : ℕ} {d : SsdDevice}
    {xs : List UInt8} (hi : pool.devices[i]? = some d) (hin : o + xs.length ≤ d.capacity) :
    (pool.setBackend i { d.backend with data := splice d.backend.data o xs }).bytes =
      splice pool.bytes (d.virtualBase + o) xs := by
  have hd := (hw.backed d (List.mem_of_getElem? hi)).2
  have hlt := (List.getElem?_eq_some_iff.mp hi).1
  have hi' : (pool.setBackend i { d.backend with data := splice d.backend.data o xs }).devices[i]? =
      some { d with backend := { d.backend with data := splice d.backend.data o xs } } := by
    simp only [setBackend, List.getElem?_modify, hi]
    simp
  have htake : (pool.setBackend i { d.backend with data := splice d.backend.data o xs }).devices.take
      i = pool.devices.take i := by
    simp only [setBackend]
    rw [List.take_modify]
    exact List.modify_eq_self (by rw [List.length_take]; omega)
  have hdrop : (pool.setBackend i { d.backend with data := splice d.backend.data o xs }).devices.drop
      (i + 1) = pool.devices.drop (i + 1) := by
    simp only [setBackend]
    exact List.drop_modify_of_lt _ _ _ _ (Nat.lt_succ_self i)
  rw [bytes_split hi', htake, hdrop, bytes_split hi, ← hw.length_before hi]
  exact (splice_middle (by omega)).symm

/-- Rewriting the data of a device changes nothing but data. -/
theorem blank_setBackend {pool : SsdPool} {i : ℕ} {d : SsdDevice} {data : List UInt8}
    (hi : pool.devices[i]? = some d) :
    (pool.setBackend i { d.backend with data }).blank = pool.blank := by
  have hdev : (pool.setBackend i { d.backend with data }).devices.map
      (fun d => { d with backend := { d.backend with data := [] } }) =
      pool.devices.map (fun d => { d with backend := { d.backend with data := [] } }) := by
    refine List.ext_getElem? (fun j => ?_)
    simp only [setBackend, List.getElem?_map, List.getElem?_modify]
    by_cases hj : i = j
    · rw [← hj, hi]
      simp
    · simp only [if_neg hj]
      simp
  unfold blank
  rw [hdev]
  rfl

theorem mem_setBackend {pool : SsdPool} {i : ℕ} {d e : SsdDevice} {data : List UInt8}
    (hi : pool.devices[i]? = some d)
    (he : e ∈ (pool.setBackend i { d.backend with data }).devices) :
    e ∈ pool.devices ∨ e = { d with backend := { d.backend with data } } := by
  obtain ⟨j, hj⟩ := List.mem_iff_getElem?.mp he
  simp only [setBackend, List.getElem?_modify] at hj
  by_cases hij : i = j
  · subst hij
    rw [hi] at hj
    refine Or.inr (Option.some.inj ?_)
    rw [← hj]
    simp
  · simp only [if_neg hij] at hj
    exact Or.inl (List.mem_of_getElem? (by simpa using hj))

/-- What the devices take does not depend on their data. -/
theorem takes_of_blank {os : OsIo} {isWrite : Bool} {pool pool' : SsdPool} {voffset len : ℕ}
    (h : pool'.blank = pool.blank) (ht : pool.Takes os isWrite voffset len) :
    pool'.Takes os isWrite voffset len := by
  intro i d' hi'
  have hdevs : pool'.blank.devices[i]? = pool.blank.devices[i]? := by rw [h]
  simp only [blank, List.getElem?_map, hi', Option.map_some] at hdevs
  obtain ⟨d, hi, hd⟩ := Option.map_eq_some_iff.mp hdevs.symm
  have hbase : d.virtualBase = d'.virtualBase := congrArg (·.virtualBase) hd
  have hcap : d.capacity = d'.capacity := congrArg (·.capacity) hd
  have hkind : d.backend.kind = d'.backend.kind := congrArg (·.backend.kind) hd
  have hpiece := ht i d hi
  unfold SsdDevice.TakesPiece SsdBackend.Takes at hpiece ⊢
  rw [hbase, hcap] at hpiece
  rw [hkind] at hpiece
  exact hpiece

theorem takes_iff_of_blank {os : OsIo} {isWrite : Bool} {pool pool' : SsdPool} {voffset len : ℕ}
    (h : pool'.blank = pool.blank) :
    pool'.Takes os isWrite voffset len ↔ pool.Takes os isWrite voffset len :=
  ⟨takes_of_blank h.symm, takes_of_blank h⟩

theorem WF.setBackend {pool : SsdPool} (hw : pool.WF) {i : ℕ} {d : SsdDevice}
    {data : List UInt8} (hi : pool.devices[i]? = some d) (hlen : data.length = d.capacity) :
    (pool.setBackend i { d.backend with data }).WF := by
  have hm := List.mem_of_getElem? hi
  refine ⟨hw.layout.modify hi rfl rfl, ?_, ?_, hw.total_lt, hw.pages_eq, hw.pages_le,
    hw.padding, hw.counted⟩
  · intro e he
    rcases mem_setBackend hi he with he | rfl
    · exact hw.aligned e he
    · exact hw.aligned d hm
  · intro e he
    rcases mem_setBackend hi he with he | rfl
    · exact hw.backed e he
    · exact ⟨(hw.backed d hm).1, hlen⟩

end SsdPool

end Umm
