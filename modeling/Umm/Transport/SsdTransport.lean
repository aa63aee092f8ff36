import Umm.Memory.MemService
import Umm.Transport.SsdPoolRefine
import Umm.Lib.Reach

/-! The SSD transport of `transport_ssd.c`: a copy through the mapping of one device where
the memory service hands out a pointer, the pool's own reads and writes otherwise. -/
namespace Umm
open Umm.Lib

/-- The bytes behind a pointer. -/
def MemServiceCtx.load (m : MemServiceCtx) (ptr : DevicePtr) (len : ℕ) : List UInt8 :=
  match ptr with
  | .window tier offset => slice ((m.tiers tier).window.getD []) offset len
  | .ssd device offset =>
    match (m.tiers .ssd).ssdPool.bind (fun pool => pool.devices[device]?) with
    | none => []
    | some dev => slice dev.backend.data offset len

/-- A copy to a pointer. The mapping of a file and the file itself are one memory. -/
def MemServiceCtx.store (m : MemServiceCtx) (ptr : DevicePtr) (bytes : List UInt8) :
    MemServiceCtx :=
  match ptr with
  | .window tier offset =>
    let t := m.tiers tier
    m.setTier tier { t with window := t.window.map (fun w => splice w offset bytes) }
  | .ssd device offset =>
    let t := m.tiers .ssd
    match t.ssdPool with
    | none => m
    | some pool =>
      match pool.devices[device]? with
      | none => m
      | some dev =>
        m.setTier .ssd { t with ssdPool := some (pool.setBackend device
          { dev.backend with data := splice dev.backend.data offset bytes }) }

def ssdTransportGet (os : OsIo) (m : MemServiceCtx) (gpa len : ℕ) (outBuf : List UInt8) :
    Option (Except Error Unit × MemServiceCtx × List UInt8) :=
  match memsvcMapDevice m .ssd (gpaToOffset gpa) len .failed with
  | (.ok ptr, m) => some (.ok (), m, splice outBuf 0 (m.load ptr len))
  | (.error _, m) => memsvcSsdIo os m .ssd (gpaToOffset gpa) len outBuf false

def ssdTransportPut (os : OsIo) (m : MemServiceCtx) (gpa len : ℕ) (buf : List UInt8) :
    Option (Except Error Unit × MemServiceCtx) :=
  match memsvcMapDevice m .ssd (gpaToOffset gpa) len .failed with
  | (.ok ptr, m) => some (.ok (), m.store ptr buf)
  | (.error _, m) =>
    (memsvcSsdIo os m .ssd (gpaToOffset gpa) len buf true).map (fun r => (r.1, r.2.1))

/-- `ssd_transport_create` does not look at the answer of the registration. -/
def ssdTransportCreate (device : Option BackendKind) (maxBytes : ℕ) (env env' : RegisterEnv) :
    Option MemServiceCtx :=
  (memServiceDirectCreate maxBytes 0 env).map fun m =>
    (memsvcRegisterStorage m
      { tier := .ssd, capacity := maxBytes, baseOffset := 0, device } env').2

structure SsdDeviceConfig where
  kind : BackendKind
  size : ℕ
  env : RegisterEnv

def registerDevices : MemServiceCtx → List SsdDeviceConfig → Option MemServiceCtx
  | m, [] => some m
  | m, dev :: devs =>
    match memsvcRegisterStorage m
        { tier := .ssd, capacity := dev.size, baseOffset := 0, device := some dev.kind } dev.env with
    | (.ok (), m') => registerDevices m' devs
    | (.error _, _) => none

def ssdTransportCreateMulti (devs : List SsdDeviceConfig) (env : RegisterEnv) :
    Option MemServiceCtx :=
  if devs.length = 0 then none
  else
    match memServiceDirectCreate (devs.foldl (fun total dev => u64 (total + dev.size)) 0) 0 env with
    | none => none
    | some m => registerDevices m devs

/-- The SSD tier of `m` is served by `pool`, at offset 0. -/
structure SsdReady (m : MemServiceCtx) (pool : SsdPool) : Prop where
  online : (m.tiers .ssd).online = true
  base : (m.tiers .ssd).baseOffset = 0
  pool_eq : (m.tiers .ssd).ssdPool = some pool
  wf : pool.WF

/-- The context with another pool behind its SSD tier. -/
def MemServiceCtx.withPool (m : MemServiceCtx) (pool : SsdPool) : MemServiceCtx :=
  m.setTier .ssd { m.tiers .ssd with ssdPool := some pool }

theorem SsdReady.withPool_self {m : MemServiceCtx} {pool : SsdPool} (h : SsdReady m pool) :
    m.withPool pool = m := by
  unfold MemServiceCtx.withPool
  rw [← h.pool_eq]
  exact m.setTier_self .ssd

theorem SsdReady.withPool {m : MemServiceCtx} {pool pool' : SsdPool} (h : SsdReady m pool)
    (hw : pool'.WF) : SsdReady (m.withPool pool') pool' := by
  refine ⟨?_, ?_, ?_, hw⟩
  · simpa [MemServiceCtx.withPool] using h.online
  · simpa [MemServiceCtx.withPool] using h.base
  · simp [MemServiceCtx.withPool]

/-! Which path serves a call. -/

/-- A pointer is handed out where the span lies in one file device. -/
theorem ssdPool_maps_iff {pool : SsdPool} (hw : pool.WF) {v len : ℕ} (hv : v < 2 ^ 64)
    (hlen : 0 < len) {ptr : DevicePtr} :
    (¬ (0 < len ∧ (ssdPoolSpanInOneDevice pool v len).toOption.isNone = true) ∧
        ssdPoolGetPtr pool v = some ptr) ↔
      ∃ i d, pool.devices[i]? = some d ∧ d.backend.kind = .file ∧ d.virtualBase ≤ v ∧
        v + len ≤ d.virtualBase + d.capacity ∧ ptr = .ssd i (v - d.virtualBase) := by
  by_cases hin : v < pool.totalCapacity
  · obtain ⟨i, d, hi, hd, ht⟩ := ssdPoolTranslate_eq hw hin
    have hdev := hw.layout.inside (List.mem_of_getElem? hi)
    have htot := hw.total_lt
    have hbacked := (hw.backed d (List.mem_of_getElem? hi)).1
    have hend : u64 (d.virtualBase + d.capacity) = d.virtualBase + d.capacity :=
      u64_of_lt (by omega)
    have hspan : (ssdPoolSpanInOneDevice pool v len).toOption.isNone = true ↔
        ¬ v + len ≤ d.virtualBase + d.capacity := by
      unfold ssdPoolSpanInOneDevice
      rw [if_neg (by omega), ht]
      simp only [hi]
      rw [hend, sub64_of_le hd.2.le (by omega)]
      split_ifs with hfit
      · simpa [Except.toOption] using (show v + len ≤ d.virtualBase + d.capacity by
          have := hd.1
          omega)
      · simpa [Except.toOption] using (show d.virtualBase + d.capacity < v + len by
          have := hd.2
          omega)
    have hptr : ssdPoolGetPtr pool v = some ptr ↔
        d.backend.kind = .file ∧ ptr = .ssd i (v - d.virtualBase) := by
      unfold ssdPoolGetPtr
      rw [ht]
      simp only [hi]
      unfold ssdBackendGetPtr
      have hlt : v < d.virtualBase + d.capacity := hd.2
      split_ifs with hk
      · simp only [false_iff, not_and]
        rintro hfile
        rcases hk with hk | hk
        · have := hd.1
          omega
        · exact absurd hfile hk
      · push Not at hk
        rw [Option.some_inj, eq_comm, and_iff_right hk.2]
    rw [hspan, hptr]
    constructor
    · rintro ⟨hfit, hfile, rfl⟩
      exact ⟨i, d, hi, hfile, hd.1, by_contra fun hc => hfit ⟨hlen, hc⟩, rfl⟩
    · rintro ⟨j, e, hj, hfile, hlow, hfit, rfl⟩
      obtain rfl : i = j := hw.layout.within_unique hi hj hd ⟨hlow, by omega⟩
      obtain rfl : d = e := Option.some.inj (hi.symm.trans hj)
      exact ⟨fun hc => hc.2 hfit, hfile, rfl⟩
  · have ht : ssdPoolTranslate pool v = .error .invalidArg := if_pos (by omega)
    unfold ssdPoolGetPtr
    rw [ht]
    constructor
    · rintro ⟨-, hc⟩
      cases hc
    · rintro ⟨i, d, hi, -, hlow, hfit, -⟩
      have hdev := hw.layout.inside (List.mem_of_getElem? hi)
      omega

theorem memsvcMapDevice_pool {m m' : MemServiceCtx} {pool : SsdPool}
    (hon : (m.tiers .ssd).online = true) (hpool : (m.tiers .ssd).ssdPool = some pool)
    {offset size : ℕ} {backing : Backing} {ptr : DevicePtr} :
    memsvcMapDevice m .ssd offset size backing = (.ok ptr, m') ↔
      (¬ (0 < size ∧ (ssdPoolSpanInOneDevice pool (sub64 offset (m.tiers .ssd).baseOffset)
            size).toOption.isNone = true) ∧
        ssdPoolGetPtr pool (sub64 offset (m.tiers .ssd).baseOffset) = some ptr) ∧ m' = m := by
  unfold memsvcMapDevice
  simp only [hon, reduceCtorEq, if_false, if_true, hpool, MemServiceCtx.setTier_self]
  by_cases hspan : 0 < size ∧ (ssdPoolSpanInOneDevice pool
      (sub64 offset (m.tiers .ssd).baseOffset) size).toOption.isNone = true
  · rw [if_pos hspan]
    constructor
    · rintro ⟨⟩
    · rintro ⟨⟨hc, -⟩, -⟩
      exact absurd hspan hc
  · rw [if_neg hspan]
    cases ssdPoolGetPtr pool (sub64 offset (m.tiers .ssd).baseOffset) with
    | none =>
      constructor
      · rintro ⟨⟩
      · rintro ⟨⟨-, ⟨⟩⟩, -⟩
    | some p =>
      constructor
      · rintro ⟨⟩
        exact ⟨⟨hspan, rfl⟩, rfl⟩
      · rintro ⟨⟨-, ⟨⟩⟩, rfl⟩
        rfl

theorem memsvcMapDevice_pool_keeps {m : MemServiceCtx} {pool : SsdPool}
    (hon : (m.tiers .ssd).online = true) (hpool : (m.tiers .ssd).ssdPool = some pool)
    (offset size : ℕ) (backing : Backing) :
    (memsvcMapDevice m .ssd offset size backing).2 = m := by
  unfold memsvcMapDevice
  simp only [hon, reduceCtorEq, if_false, if_true, hpool, MemServiceCtx.setTier_self]
  split_ifs
  · rfl
  · split <;> rfl

theorem memsvcMapDevice_ssd {m : MemServiceCtx} {pool : SsdPool} (h : SsdReady m pool)
    {offset len : ℕ} (hoff : offset < 2 ^ 64) (hlen : 0 < len) (backing : Backing) :
    (∃ i d, pool.devices[i]? = some d ∧ d.backend.kind = .file ∧ d.virtualBase ≤ offset ∧
        offset + len ≤ d.virtualBase + d.capacity ∧
        memsvcMapDevice m .ssd offset len backing = (.ok (.ssd i (offset - d.virtualBase)), m)) ∨
      ∃ e, memsvcMapDevice m .ssd offset len backing = (.error e, m) := by
  cases hmap : memsvcMapDevice m .ssd offset len backing with
  | mk r m' =>
    have hkeep := memsvcMapDevice_pool_keeps h.online h.pool_eq offset len backing
    rw [hmap] at hkeep
    subst hkeep
    cases r with
    | error e => exact Or.inr ⟨e, rfl⟩
    | ok ptr =>
      have hspec := ((memsvcMapDevice_pool h.online h.pool_eq).mp hmap).1
      rw [h.base, sub64_zero hoff] at hspec
      obtain ⟨i, d, hi, hfile, hlow, hfit, rfl⟩ := (ssdPool_maps_iff h.wf hoff hlen).mp hspec
      exact Or.inl ⟨i, d, hi, hfile, hlow, hfit, rfl⟩

theorem memsvcSsdIo_ready {os : OsIo} {m : MemServiceCtx} {pool : SsdPool} (h : SsdReady m pool)
    {offset len : ℕ} (hoff : offset < 2 ^ 64) (buf : List UInt8) (isWrite : Bool) :
    memsvcSsdIo os m .ssd offset len buf isWrite =
      (ssdPoolIo os pool offset len buf isWrite).map (fun r => (r.1, m.withPool r.2.1, r.2.2)) := by
  unfold memsvcSsdIo
  simp only [ne_eq, not_true_eq_false, if_false, h.online, h.pool_eq, h.base, sub64_zero hoff,
    MemServiceCtx.withPool]

section Calls

variable {m : MemServiceCtx} {pool : SsdPool} {gpa len : ℕ} {buf : List UInt8}

theorem gpaToOffset_lt (gpa : ℕ) : gpaToOffset gpa < 2 ^ 64 := by
  rw [gpaToOffset_eq]
  omega

theorem takes_of_file {os : OsIo} {isWrite : Bool} (hw : pool.WF) {i v : ℕ} {d : SsdDevice}
    (hi : pool.devices[i]? = some d) (hfile : d.backend.kind = .file) (hlow : d.virtualBase ≤ v)
    (hfit : v + len ≤ d.virtualBase + d.capacity) : pool.Takes os isWrite v len := by
  intro j e hj hpiece
  have hin : Within SsdDevice.virtualBase SsdDevice.capacity d (max v e.virtualBase) :=
    ⟨by omega, by omega⟩
  obtain rfl : i = j := hw.layout.within_unique hi hj hin ⟨le_max_right _ _, by omega⟩
  obtain rfl : d = e := Option.some.inj (hi.symm.trans hj)
  unfold SsdBackend.Takes
  rw [hfile]
  trivial

/-- A get inside the pool returns the bytes of the flat array, on either path, where the devices
take it. -/
theorem ssdTransportGet_inside (os : OsIo) (h : SsdReady m pool) (hlen : 0 < len)
    (hb : buf.length = len) (hin : gpaToOffset gpa + len ≤ pool.totalCapacity) :
    ∃ r out, ssdTransportGet os m gpa len buf = some (r, m, out) ∧
      (r = .ok () ↔ pool.Takes os false (gpaToOffset gpa) len) ∧
      (r = .ok () → out = slice pool.bytes (gpaToOffset gpa) len) := by
  have hoff := gpaToOffset_lt gpa
  have hsl : (slice pool.bytes (gpaToOffset gpa) len).length = len := length_slice (by
    rw [h.wf.length_bytes]
    exact hin)
  unfold ssdTransportGet
  rcases memsvcMapDevice_ssd h hoff hlen .failed with ⟨i, d, hi, hfile, hd1, hd2, he⟩ | ⟨e, he⟩
  · have hload : m.load (.ssd i (gpaToOffset gpa - d.virtualBase)) len =
        slice pool.bytes (gpaToOffset gpa) len := by
      unfold MemServiceCtx.load
      rw [h.pool_eq]
      simp only [Option.bind_some, hi]
      rw [← h.wf.slice_device hi (by omega), Nat.add_sub_cancel' hd1]
    rw [he]
    dsimp only
    rw [hload, splice_self (by omega)]
    exact ⟨.ok (), _, rfl, iff_of_true rfl (takes_of_file h.wf hi hfile hd1 hd2), fun _ => rfl⟩
  · obtain ⟨r, out, hread, hok, hout⟩ := ssdPoolPread_inside os h.wf hb hin
    unfold ssdPoolPread at hread
    rw [he]
    dsimp only
    rw [memsvcSsdIo_ready h hoff, hread]
    simp only [Option.map_some, h.withPool_self]
    exact ⟨r, out, rfl, hok, hout⟩

/-- A put inside the pool writes a first part of its bytes to the flat array, on either path, and
all of them where the devices take it. -/
theorem ssdTransportPut_inside (os : OsIo) (h : SsdReady m pool) (hlen : 0 < len)
    (hb : buf.length = len) (hin : gpaToOffset gpa + len ≤ pool.totalCapacity) :
    ∃ r pool' n, ssdTransportPut os m gpa len buf = some (r, m.withPool pool') ∧
      SsdReady (m.withPool pool') pool' ∧ pool'.blank = pool.blank ∧ n ≤ len ∧
      pool'.bytes = splice pool.bytes (gpaToOffset gpa) (buf.take n) ∧
      (r = .ok () ↔ pool.Takes os true (gpaToOffset gpa) len) ∧ (r = .ok () → n = len) := by
  have hoff := gpaToOffset_lt gpa
  unfold ssdTransportPut
  rcases memsvcMapDevice_ssd h hoff hlen .failed with ⟨i, d, hi, hfile, hd1, hd2, he⟩ | ⟨e, he⟩
  · have hdata := (h.wf.backed d (List.mem_of_getElem? hi)).2
    have hstore : m.store (.ssd i (gpaToOffset gpa - d.virtualBase)) buf =
        m.withPool (pool.setBackend i { d.backend with
          data := splice d.backend.data (gpaToOffset gpa - d.virtualBase) buf }) := by
      unfold MemServiceCtx.store
      simp only [h.pool_eq, hi]
      rfl
    have hfit : gpaToOffset gpa - d.virtualBase + buf.length ≤ d.capacity := by omega
    have hbytes := h.wf.splice_device hi hfit
    rw [Nat.add_sub_cancel' hd1] at hbytes
    rw [he]
    dsimp only
    rw [hstore]
    refine ⟨.ok (), _, len, rfl, ?_, SsdPool.blank_setBackend hi, le_rfl, ?_,
      iff_of_true rfl (takes_of_file h.wf hi hfile hd1 hd2), fun _ => rfl⟩
    · exact h.withPool (h.wf.setBackend hi (by rw [length_splice (by omega)]; exact hdata))
    · rw [hbytes, ← hb, List.take_length]
  · obtain ⟨r, pool', n, hwrite, hw', hblank, hn, hbytes, hok, hall⟩ :=
      ssdPoolPwrite_inside os h.wf hb hin
    unfold ssdPoolPwrite at hwrite
    rw [he]
    dsimp only
    rw [memsvcSsdIo_ready h hoff, hwrite]
    exact ⟨r, pool', n, rfl, h.withPool hw', hblank, hn, hbytes, hok, hall⟩

/-- A call whose range leaves the pool fails and changes nothing. -/
theorem ssdTransport_outside (buf : List UInt8) (os : OsIo) (h : SsdReady m pool) (hlen : 0 < len)
    (hlt : gpaToOffset gpa + len < 2 ^ 64) (hout : pool.totalCapacity < gpaToOffset gpa + len) :
    (∃ e, ssdTransportGet os m gpa len buf = some (.error e, m, buf)) ∧
      ∃ e, ssdTransportPut os m gpa len buf = some (.error e, m) := by
  have hoff := gpaToOffset_lt gpa
  have hio : ∀ isWrite, ssdPoolIo os pool (gpaToOffset gpa) len buf isWrite =
      some (.error .invalidArg, pool, buf) := fun isWrite =>
    ssdPoolIo_outside (by rw [u64_of_lt hlt]; exact hout)
  unfold ssdTransportGet ssdTransportPut
  rcases memsvcMapDevice_ssd h hoff hlen .failed with ⟨i, d, hi, -, hd1, hd2, he⟩ | ⟨e, he⟩
  · have hend := (h.wf.layout.inside (List.mem_of_getElem? hi)).2
    omega
  · rw [he]
    simp only [memsvcSsdIo_ready h hoff, hio, Option.map_some, h.withPool_self]
    exact ⟨⟨_, rfl⟩, ⟨_, rfl⟩⟩

end Calls

end Umm
