import Umm.Transport.SsdPoolFlat

/-! The pool's reads and writes are those of the flat array, except where the end of the
request wraps around 2^64. -/
namespace Umm
open Umm.Lib


theorem translateLoop_eq {voffset i : ℕ} {ds : List SsdDevice} {a b : ℕ}
    (h : EndToEnd SsdDevice.virtualBase SsdDevice.capacity a ds b) (hb : b < 2 ^ 64)
    (ha : a ≤ voffset) (hv : voffset < b) :
    ∃ j d, ds[j]? = some d ∧ Within SsdDevice.virtualBase SsdDevice.capacity d voffset ∧
      translateLoop voffset ds i = .ok (i + j, voffset - d.virtualBase) := by
  induction ds generalizing a i with
  | nil =>
    have : a = b := h
    omega
  | cons x xs ih =>
    have hx := h.inside List.mem_cons_self
    have hu : u64 (x.virtualBase + x.capacity) = x.virtualBase + x.capacity :=
      u64_of_lt (by omega)
    have hbase : x.virtualBase = a := h.1
    unfold translateLoop
    rw [hu]
    by_cases hin : voffset < x.virtualBase + x.capacity
    · refine ⟨0, x, rfl, ⟨by omega, hin⟩, ?_⟩
      rw [if_pos ⟨by omega, hin⟩]
      rfl
    · rw [if_neg (by omega)]
      obtain ⟨j, d, hj, hd, ht⟩ := ih (i := i + 1) h.2 (by omega)
      refine ⟨j + 1, d, hj, hd, ?_⟩
      rw [ht, Nat.add_assoc, Nat.add_comm 1 j]

theorem ssdPoolTranslate_eq {pool : SsdPool} (hw : pool.WF) {voffset : ℕ}
    (hv : voffset < pool.totalCapacity) :
    ∃ i d, pool.devices[i]? = some d ∧
      Within SsdDevice.virtualBase SsdDevice.capacity d voffset ∧
      ssdPoolTranslate pool voffset = .ok (i, voffset - d.virtualBase) := by
  obtain ⟨i, d, hi, hd, ht⟩ :=
    translateLoop_eq (i := 0) hw.layout hw.total_lt (Nat.zero_le _) hv
  refine ⟨i, d, hi, hd, ?_⟩
  unfold ssdPoolTranslate
  rw [if_neg (by omega), ht, Nat.zero_add]

theorem ioChunk_eq {d : SsdDevice} {cur stop : ℕ} (hd : d.virtualBase + d.capacity < 2 ^ 64)
    (hs : stop < 2 ^ 64) (hlt : cur < stop) :
    ioChunk d cur stop = min (stop - cur) (d.virtualBase + d.capacity - cur) := by
  unfold ioChunk
  dsimp only
  rw [u64_of_lt hd, u64_of_lt (by omega)]
  split_ifs <;> omega

section Loop

variable (os : OsIo) {stop : ℕ}

/-- One round of the loop reaches `cur + chunk`, past `cur` and not past `stop`, inside the
device that holds `cur`. -/
theorem chunk_bounds {pool : SsdPool} (hw : pool.WF) (hs : stop ≤ pool.totalCapacity)
    {cur i : ℕ} {d : SsdDevice} (hi : pool.devices[i]? = some d) (hlt : cur < stop)
    (hd : Within SsdDevice.virtualBase SsdDevice.capacity d cur) :
    0 < ioChunk d cur stop ∧ cur + ioChunk d cur stop ≤ stop ∧
      cur - d.virtualBase + ioChunk d cur stop ≤ d.capacity := by
  have h1 := (hw.layout.inside (List.mem_of_getElem? hi)).2
  have h2 := hw.total_lt
  rw [ioChunk_eq (by omega) (by omega) hlt]
  unfold Within at hd
  omega

theorem behind_round {pool : SsdPool} (hw : pool.WF) (hs : stop ≤ pool.totalCapacity)
    {cur i j : ℕ} {d e : SsdDevice} (hi : pool.devices[i]? = some d) (hlt : cur < stop)
    (hd : Within SsdDevice.virtualBase SsdDevice.capacity d cur) (hj : pool.devices[j]? = some e)
    (hne : i ≠ j) (hpiece : max cur e.virtualBase < min stop (e.virtualBase + e.capacity)) :
    cur + ioChunk d cur stop ≤ e.virtualBase := by
  obtain ⟨-, h2, h3⟩ := chunk_bounds hw hs hi hlt hd
  have hbase := hd.1
  have hend : d.virtualBase + d.capacity ≤ max cur e.virtualBase := by
    by_contra hc
    have hin : Within SsdDevice.virtualBase SsdDevice.capacity d (max cur e.virtualBase) :=
      ⟨by omega, by omega⟩
    exact hne (hw.layout.within_unique hi hj hin ⟨le_max_right _ _, by omega⟩)
  have hcur := hd.2
  omega

theorem takes_round (isWrite : Bool) {pool : SsdPool} (hw : pool.WF)
    (hs : stop ≤ pool.totalCapacity) {cur i : ℕ} {d : SsdDevice} (hi : pool.devices[i]? = some d)
    (hlt : cur < stop) (hd : Within SsdDevice.virtualBase SsdDevice.capacity d cur) :
    pool.Takes os isWrite cur (stop - cur) ↔
      d.backend.Takes os isWrite i (cur - d.virtualBase) (ioChunk d cur stop) ∧
        pool.Takes os isWrite (cur + ioChunk d cur stop)
          (stop - (cur + ioChunk d cur stop)) := by
  obtain ⟨h1, h2, h3⟩ := chunk_bounds hw hs hi hlt hd
  have hchunk : ioChunk d cur stop = min (stop - cur) (d.virtualBase + d.capacity - cur) := by
    have hin := (hw.layout.inside (List.mem_of_getElem? hi)).2
    have htot := hw.total_lt
    exact ioChunk_eq (by omega) (by omega) hlt
  have hbase := hd.1
  have hcur := hd.2
  set n := ioChunk d cur stop with hn
  have hfirst : max cur d.virtualBase = cur := by omega
  have hstop : min (cur + (stop - cur)) (d.virtualBase + d.capacity) = cur + n := by omega
  have hown : d.TakesPiece os isWrite i cur (stop - cur) ↔
      d.backend.Takes os isWrite i (cur - d.virtualBase) n := by
    unfold SsdDevice.TakesPiece
    dsimp only
    rw [hfirst, hstop, Nat.add_sub_cancel_left]
    exact ⟨fun h => h (by omega), fun h _ => h⟩
  have hother : ∀ {j e}, pool.devices[j]? = some e → i ≠ j →
      (e.TakesPiece os isWrite j (cur + n) (stop - (cur + n)) ↔
        e.TakesPiece os isWrite j cur (stop - cur)) := by
    intro j e hj hne
    have hbehind := behind_round hw hs hi hlt hd hj hne
    unfold SsdDevice.TakesPiece
    dsimp only
    rw [show cur + n + (stop - (cur + n)) = cur + (stop - cur) by omega]
    constructor
    · intro h hpiece
      have hle := hbehind (by omega)
      rw [show max cur e.virtualBase = max (cur + n) e.virtualBase by omega] at hpiece ⊢
      exact h hpiece
    · intro h hpiece
      have hle := hbehind (by omega)
      rw [show max (cur + n) e.virtualBase = max cur e.virtualBase by omega] at hpiece ⊢
      exact h hpiece
  constructor
  · intro h
    refine ⟨hown.mp (h i d hi), fun j e hj => ?_⟩
    by_cases hne : i = j
    · subst hne
      obtain rfl := Option.some.inj (hi.symm.trans hj)
      intro hpiece
      omega
    · exact (hother hj hne).mpr (h j e hj)
  · rintro ⟨hpiece, hrest⟩ j e hj
    by_cases hne : i = j
    · subst hne
      obtain rfl := Option.some.inj (hi.symm.trans hj)
      exact hown.mpr hpiece
    · exact (hother hj hne).mp (hrest j e hj)

theorem takes_nothing {isWrite : Bool} {pool : SsdPool} {voffset : ℕ} :
    pool.Takes os isWrite voffset 0 := by
  intro j e hj hpiece
  omega

/-- A read changes no device; it fills a first part of the buffer, and all of it where every device
takes its piece. -/
theorem ssdPoolIoLoop_read {pool : SsdPool} (hw : pool.WF) (hs : stop ≤ pool.totalCapacity) :
    ∀ fuel cur done buf, cur ≤ stop → stop - cur < fuel → done + (stop - cur) ≤ buf.length →
      ∃ r n, ssdPoolIoLoop os false stop fuel cur done pool buf =
          some (r, pool, splice buf done (slice pool.bytes cur n)) ∧ n ≤ stop - cur ∧
        (r = .ok () ↔ pool.Takes os false cur (stop - cur)) ∧ (r = .ok () → n = stop - cur) := by
  intro fuel
  induction fuel with
  | zero =>
    intro cur done buf _ hf
    omega
  | succ fuel ih =>
    intro cur done buf hc hf hb
    unfold ssdPoolIoLoop
    by_cases hlt : cur < stop
    · obtain ⟨i, d, hi, hd, ht⟩ := ssdPoolTranslate_eq hw (hlt.trans_le hs)
      obtain ⟨h1, h2, h3⟩ := chunk_bounds hw hs hi hlt hd
      have hround := takes_round os false hw hs hi hlt hd
      set n := ioChunk d cur stop with hn
      obtain ⟨hcap, hdata⟩ := hw.backed d (List.mem_of_getElem? hi)
      have hbytes := hw.length_bytes
      obtain ⟨r, k, hread, hle, hok, hall⟩ := ssdBackendPread_part os i (hdata.trans hcap.symm)
        (show cur - d.virtualBase + n ≤ d.backend.capacity by omega)
        (length_slice (show done + n ≤ buf.length by omega))
      have hpiece : slice d.backend.data (cur - d.virtualBase) k = slice pool.bytes cur k := by
        rw [← hw.slice_device hi (by omega), Nat.add_sub_cancel' hd.1]
      have hinner : splice buf done (splice (slice buf done n) 0 (slice pool.bytes cur k)) =
          splice buf done (slice pool.bytes cur k) := by
        rw [splice_splice_slice (by omega) (by rw [length_slice (by omega)]; omega), Nat.add_zero]
      rw [if_pos hlt, ht]
      simp only [hi, ← hn, hread, Bool.false_eq_true, if_false, hpiece, hinner]
      cases r with
      | error e =>
        refine ⟨.error e, k, rfl, by omega, iff_of_false (by simp) fun htakes => ?_, by simp⟩
        have hcontra := hok.mpr (hround.mp htakes).1
        cases hcontra
      | ok u =>
        obtain rfl : k = n := hall rfl
        have hlen : (slice pool.bytes cur n).length = n := length_slice (by omega)
        obtain ⟨r, m, he, hm, htakes, hfull⟩ := ih (cur + n) (done + n)
          (splice buf done (slice pool.bytes cur n)) h2 (by omega)
          (by rw [length_splice (by omega)]; omega)
        have hrest : (slice pool.bytes (cur + n) m).length = m := length_slice (by omega)
        have hfit : done + (slice pool.bytes cur n ++ slice pool.bytes (cur + n) m).length ≤
            buf.length := by
          rw [List.length_append, hlen, hrest]
          omega
        have hjoin := splice_splice hfit
        rw [hlen] at hjoin
        refine ⟨r, n + m, ?_, by omega, ?_, fun hr => by rw [hfull hr]; omega⟩
        · rw [he, hjoin, ← slice_add]
        · rw [htakes, hround, and_iff_right (hok.mp rfl)]
    · obtain rfl : cur = stop := by omega
      rw [if_neg hlt, Nat.sub_self]
      exact ⟨.ok (), 0, by simp, le_rfl, iff_of_true rfl (takes_nothing os), fun _ => rfl⟩

/-- A write stores a first part of its bytes, and all of them where every device takes its
piece. -/
theorem ssdPoolIoLoop_write (buf : List UInt8) :
    ∀ fuel cur done (pool : SsdPool), pool.WF → stop ≤ pool.totalCapacity →
      cur ≤ stop → stop - cur < fuel → done + (stop - cur) ≤ buf.length →
      ∃ r pool' n, ssdPoolIoLoop os true stop fuel cur done pool buf = some (r, pool', buf) ∧
        pool'.WF ∧ pool'.blank = pool.blank ∧ n ≤ stop - cur ∧
        pool'.bytes = splice pool.bytes cur (slice buf done n) ∧
        (r = .ok () ↔ pool.Takes os true cur (stop - cur)) ∧ (r = .ok () → n = stop - cur) := by
  intro fuel
  induction fuel with
  | zero =>
    intro cur done pool _ _ _ hf
    omega
  | succ fuel ih =>
    intro cur done pool hw hs hc hf hb
    unfold ssdPoolIoLoop
    by_cases hlt : cur < stop
    · obtain ⟨i, d, hi, hd, ht⟩ := ssdPoolTranslate_eq hw (hlt.trans_le hs)
      obtain ⟨h1, h2, h3⟩ := chunk_bounds hw hs hi hlt hd
      have hround := takes_round os true hw hs hi hlt hd
      set n := ioChunk d cur stop with hn
      obtain ⟨hcap, hdata⟩ := hw.backed d (List.mem_of_getElem? hi)
      have hbytes := hw.length_bytes
      obtain ⟨r, k, hwrite, hle, hok, hall⟩ := ssdBackendPwrite_part os i (hdata.trans hcap.symm)
        (show cur - d.virtualBase + n ≤ d.backend.capacity by omega)
        (length_slice (show done + n ≤ buf.length by omega))
      rw [slice_slice (by omega), Nat.add_zero] at hwrite
      have hlen : (slice buf done k).length = k := length_slice (by omega)
      set pool₁ := pool.setBackend i { d.backend with
        data := splice d.backend.data (cur - d.virtualBase) (slice buf done k) } with hpool
      have hw₁ : pool₁.WF := hw.setBackend hi (by rw [length_splice (by omega)]; exact hdata)
      have hblank : pool₁.blank = pool.blank := SsdPool.blank_setBackend hi
      have hstored : pool₁.bytes = splice pool.bytes cur (slice buf done k) := by
        rw [hpool, hw.splice_device hi (by omega), Nat.add_sub_cancel' hd.1]
      rw [if_pos hlt, ht]
      simp only [hi, ← hn, hwrite, if_true, ← hpool]
      cases r with
      | error e =>
        refine ⟨.error e, pool₁, k, rfl, hw₁, hblank, by omega, hstored,
          iff_of_false (by simp) fun htakes => ?_, by simp⟩
        have hcontra := hok.mpr (hround.mp htakes).1
        cases hcontra
      | ok u =>
        obtain rfl : k = n := hall rfl
        obtain ⟨r, pool₂, m, he, hw₂, hblank₂, hm, hstored₂, htakes, hfull⟩ :=
          ih (cur + n) (done + n) pool₁ hw₁ hs h2 (by omega) (by omega)
        have hrest : (slice buf (done + n) m).length = m := length_slice (by omega)
        have hfit : cur + (slice buf done n ++ slice buf (done + n) m).length ≤
            pool.bytes.length := by
          rw [List.length_append, hlen, hrest]
          omega
        have hjoin := splice_splice hfit
        rw [hlen] at hjoin
        refine ⟨r, pool₂, n + m, he, hw₂, hblank₂.trans hblank, by omega, ?_, ?_,
          fun hr => by rw [hfull hr]; omega⟩
        · rw [hstored₂, hstored, hjoin, ← slice_add]
        · rw [htakes, SsdPool.takes_iff_of_blank hblank, hround, and_iff_right (hok.mp rfl)]
    · obtain rfl : cur = stop := by omega
      rw [if_neg hlt, Nat.sub_self]
      exact ⟨.ok (), pool, 0, rfl, hw, rfl, le_rfl, by simp, iff_of_true rfl (takes_nothing os),
        fun _ => rfl⟩

end Loop

theorem ssdPoolPread_inside (os : OsIo) {pool : SsdPool} (hw : pool.WF) {voffset len : ℕ}
    {buf : List UInt8} (hb : buf.length = len) (hin : voffset + len ≤ pool.totalCapacity) :
    ∃ r out, ssdPoolPread os pool voffset len buf = some (r, pool, out) ∧
      (r = .ok () ↔ pool.Takes os false voffset len) ∧
      (r = .ok () → out = slice pool.bytes voffset len) := by
  have hu : u64 (voffset + len) = voffset + len := u64_of_lt (hin.trans_lt hw.total_lt)
  have hlen : (slice pool.bytes voffset len).length = len := length_slice (by
    rw [hw.length_bytes]
    exact hin)
  unfold ssdPoolPread ssdPoolIo
  rw [hu, if_neg (by omega)]
  obtain ⟨r, n, he, -, htakes, hfull⟩ := ssdPoolIoLoop_read os hw hin (len + 1) voffset 0 buf
    (by omega) (by omega) (by omega)
  rw [Nat.add_sub_cancel_left] at htakes hfull
  refine ⟨r, _, he, htakes, fun hr => ?_⟩
  rw [hfull hr, splice_self (by omega)]

theorem ssdPoolPwrite_inside (os : OsIo) {pool : SsdPool} (hw : pool.WF) {voffset len : ℕ}
    {buf : List UInt8} (hb : buf.length = len) (hin : voffset + len ≤ pool.totalCapacity) :
    ∃ r pool' n, ssdPoolPwrite os pool voffset len buf = some (r, pool', buf) ∧
      pool'.WF ∧ pool'.blank = pool.blank ∧ n ≤ len ∧
      pool'.bytes = splice pool.bytes voffset (buf.take n) ∧
      (r = .ok () ↔ pool.Takes os true voffset len) ∧ (r = .ok () → n = len) := by
  have hu : u64 (voffset + len) = voffset + len := u64_of_lt (hin.trans_lt hw.total_lt)
  unfold ssdPoolPwrite ssdPoolIo
  rw [hu, if_neg (by omega)]
  have hloop := ssdPoolIoLoop_write os buf (len + 1) voffset 0 pool hw hin (by omega) (by omega)
    (by omega)
  rw [Nat.add_sub_cancel_left] at hloop
  exact hloop

theorem ssdPoolIo_outside {os : OsIo} {pool : SsdPool} {voffset len : ℕ} {buf : List UInt8}
    {isWrite : Bool} (hout : pool.totalCapacity < u64 (voffset + len)) :
    ssdPoolIo os pool voffset len buf isWrite = some (.error .invalidArg, pool, buf) := by
  unfold ssdPoolIo
  rw [if_pos hout]

/-- A request whose end wraps to an offset inside the pool is accepted without being served. -/
theorem ssdPoolIo_wraps {os : OsIo} {pool : SsdPool} {voffset len : ℕ} {buf : List UInt8}
    {isWrite : Bool} (hv : voffset < 2 ^ 64) (hl : len < 2 ^ 64) (hwrap : 2 ^ 64 ≤ voffset + len)
    (hin : u64 (voffset + len) ≤ pool.totalCapacity) :
    ssdPoolIo os pool voffset len buf isWrite = some (.ok (), pool, buf) := by
  have hlt : u64 (voffset + len) < voffset := by
    unfold u64
    omega
  unfold ssdPoolIo
  rw [if_neg (by omega)]
  unfold ssdPoolIoLoop
  rw [if_neg (by omega)]

/-- The byte interface of a flat array: a call is accepted exactly when its range lies in the
array, reads return the range, writes replace it, and rejected calls change nothing. -/
structure FlatIo (os : OsIo) (pool : SsdPool) (voffset len : ℕ) (buf : List UInt8) : Prop where
  readReturns : (ssdPoolPread os pool voffset len buf).isSome
  readOk : (∃ s, ssdPoolPread os pool voffset len buf = some (.ok (), s)) ↔
    voffset + len ≤ pool.totalCapacity
  read : ∀ pool' out, ssdPoolPread os pool voffset len buf = some (.ok (), pool', out) →
    pool'.bytes = pool.bytes ∧ out = slice pool.bytes voffset len
  readRejected : ∀ e pool' out, ssdPoolPread os pool voffset len buf =
    some (.error e, pool', out) → pool'.bytes = pool.bytes
  writeReturns : (ssdPoolPwrite os pool voffset len buf).isSome
  writeOk : (∃ s, ssdPoolPwrite os pool voffset len buf = some (.ok (), s)) ↔
    voffset + len ≤ pool.totalCapacity
  write : ∀ pool' out, ssdPoolPwrite os pool voffset len buf = some (.ok (), pool', out) →
    pool'.bytes = splice pool.bytes voffset buf
  writeRejected : ∀ e pool' out, ssdPoolPwrite os pool voffset len buf =
    some (.error e, pool', out) → pool'.bytes = pool.bytes

theorem flatIo_inside {os : OsIo} {pool : SsdPool} (hw : pool.WF) {voffset len : ℕ}
    {buf : List UInt8} (hb : buf.length = len) (hin : voffset + len ≤ pool.totalCapacity)
    (htakes : ∀ isWrite, pool.Takes os isWrite voffset len) : FlatIo os pool voffset len buf := by
  obtain ⟨r, out, hr, hok, hout⟩ := ssdPoolPread_inside os hw hb hin
  obtain rfl := hok.mpr (htakes false)
  obtain ⟨r, pool', n, hwr, -, -, -, hbytes, hok, hall⟩ := ssdPoolPwrite_inside os hw hb hin
  obtain rfl := hok.mpr (htakes true)
  rw [hall rfl, ← hb, List.take_length] at hbytes
  constructor
  · rw [hr]
    rfl
  · rw [hr]
    exact ⟨fun _ => hin, fun _ => ⟨_, rfl⟩⟩
  · intro p out' h
    rw [hr] at h
    simp only [Option.some.injEq, Prod.mk.injEq, true_and] at h
    exact ⟨by rw [h.1], by rw [← h.2, hout rfl]⟩
  · intro e p out' h
    rw [hr] at h
    simp at h
  · rw [hwr]
    rfl
  · rw [hwr]
    exact ⟨fun _ => hin, fun _ => ⟨_, rfl⟩⟩
  · intro p out' h
    rw [hwr] at h
    simp only [Option.some.injEq, Prod.mk.injEq, true_and] at h
    rw [← h.1]
    exact hbytes
  · intro e p out' h
    rw [hwr] at h
    simp at h

theorem flatIo_outside {os : OsIo} {pool : SsdPool} {voffset len : ℕ} {buf : List UInt8}
    (hlt : pool.totalCapacity < voffset + len)
    (hout : pool.totalCapacity < u64 (voffset + len)) : FlatIo os pool voffset len buf := by
  have hr : ssdPoolPread os pool voffset len buf = _ := ssdPoolIo_outside hout
  have hwr : ssdPoolPwrite os pool voffset len buf = _ := ssdPoolIo_outside hout
  constructor
  · rw [hr]
    rfl
  · rw [hr]
    simp only [Option.some.injEq, Prod.mk.injEq, reduceCtorEq, false_and, exists_false, false_iff]
    omega
  · intro p out h
    rw [hr] at h
    simp at h
  · intro e p out h
    rw [hr] at h
    simp only [Option.some.injEq, Prod.mk.injEq] at h
    rw [h.2.1]
  · rw [hwr]
    rfl
  · rw [hwr]
    simp only [Option.some.injEq, Prod.mk.injEq, reduceCtorEq, false_and, exists_false, false_iff]
    omega
  · intro p out h
    rw [hwr] at h
    simp at h
  · intro e p out h
    rw [hwr] at h
    simp only [Option.some.injEq, Prod.mk.injEq] at h
    rw [h.2.1]

theorem takes_of_files {os : OsIo} {isWrite : Bool} {pool : SsdPool}
    (hf : ∀ d ∈ pool.devices, d.backend.kind = .file) (voffset len : ℕ) :
    pool.Takes os isWrite voffset len := by
  intro i d hi _
  unfold SsdBackend.Takes
  rw [hf d (List.mem_of_getElem? hi)]
  trivial

/-- Devices that are neither `direct` nor `nds-meta` take everything while no driver fails. -/
theorem takes_of_kinds {os : OsIo} {pool : SsdPool} (hos : os.driver = fun _ _ _ _ => none)
    (hk : ∀ d ∈ pool.devices, d.backend.kind ≠ .direct ∧ d.backend.kind ≠ .ndsMeta)
    (isWrite : Bool) (voffset len : ℕ) : pool.Takes os isWrite voffset len := by
  intro i d hi _
  obtain ⟨hdirect, hbooks⟩ := hk d (List.mem_of_getElem? hi)
  unfold SsdBackend.Takes
  rw [hos]
  cases hkind : d.backend.kind with
  | direct => exact absurd hkind hdirect
  | ndsMeta => exact absurd hkind hbooks
  | libnvm => rfl
  | nds => rfl
  | file => trivial

/-- Over file devices a call behaves as on a flat array if and only if the end of its range
does not wrap, or wraps to an offset past the end of the pool. -/
theorem ssdPoolIo_flat_iff {pool : SsdPool} (hw : pool.WF)
    (hf : ∀ d ∈ pool.devices, d.backend.kind = .file) (os : OsIo) (voffset len : UInt64)
    (buf : List UInt8) (hb : buf.length = len.toNat) :
    FlatIo os pool voffset.toNat len.toNat buf ↔
      voffset.toNat + len.toNat < 2 ^ 64 ∨
        pool.totalCapacity < (voffset.toNat + len.toNat) % 2 ^ 64 := by
  have hv := voffset.toNat_lt
  have hl := len.toNat_lt
  have ht := hw.total_lt
  constructor
  · intro h
    by_contra hc
    rw [not_or, Nat.not_lt, Nat.not_lt] at hc
    have hok : ssdPoolPread os pool voffset.toNat len.toNat buf = some (.ok (), pool, buf) :=
      ssdPoolIo_wraps hv hl hc.1 hc.2
    have := h.readOk.mp ⟨_, hok⟩
    omega
  · intro h
    by_cases hin : voffset.toNat + len.toNat ≤ pool.totalCapacity
    · exact flatIo_inside hw hb hin fun isWrite => takes_of_files hf _ _
    · refine flatIo_outside (by omega) ?_
      unfold u64
      omega

/-- One byte at offset 2^64 - 1 is read from a pool of one page. -/
theorem ssdPoolIo_not_flat :
    ¬ ∀ (pool : SsdPool) (os : OsIo) (voffset len : UInt64) (buf : List UInt8), pool.WF →
      (∀ d ∈ pool.devices, d.backend.kind = .file) → buf.length = len.toNat →
      FlatIo os pool voffset.toNat len.toNat buf := by
  intro hall
  have hadd : ssdPoolAddDevice ssdPoolCreate .file 4096 ⟨true, fun _ => 0, true⟩ =
      (.ok (), (ssdPoolAddDevice ssdPoolCreate .file 4096 ⟨true, fun _ => 0, true⟩).2) :=
    Prod.ext (by decide +kernel) rfl
  have hcap : (ssdPoolAddDevice ssdPoolCreate .file 4096 ⟨true, fun _ => 0, true⟩).2.totalCapacity =
      4096 := by decide +kernel
  obtain ⟨hw, -, -, d, hkind, hdevs⟩ := ssdPoolAddDevice_wf ssdPoolCreate_wf (by decide) hadd
  have hflat := hall _ OsIo.whole 18446744073709551615 1 [0] hw
    (by rw [hdevs]; simpa [ssdPoolCreate] using hkind) rfl
  have hin := hflat.readOk.mp ⟨_, ssdPoolIo_wraps (by decide) (by decide) (by decide)
    (by rw [hcap]; decide)⟩
  rw [hcap] at hin
  exact absurd hin (by decide)

/-- Two files of one page each. -/
def filePair : SsdPool :=
  (ssdPoolAddDevice (ssdPoolAddDevice ssdPoolCreate .file 4096 ⟨true, fun _ => 0, true⟩).2
    .file 4096 ⟨true, fun _ => 0, true⟩).2

theorem ssdPoolIo_flat_two_files :
    FlatIo OsIo.whole filePair (4095 : UInt64).toNat (2 : UInt64).toNat [7, 9] := by
  set env : AddEnv := ⟨true, fun _ => 0, true⟩ with henv
  set one := (ssdPoolAddDevice ssdPoolCreate .file 4096 env).2 with hone
  have hadd : ssdPoolAddDevice ssdPoolCreate .file 4096 env = (.ok (), one) :=
    Prod.ext (by decide +kernel) rfl
  have hcap : one.totalCapacity = 4096 := by decide +kernel
  have hadd' : ssdPoolAddDevice one .file 4096 env = (.ok (), filePair) :=
    Prod.ext (by decide +kernel) rfl
  obtain ⟨hw, -, -, d, hkind, hdevs⟩ := ssdPoolAddDevice_wf ssdPoolCreate_wf (by decide) hadd
  obtain ⟨hw', -, -, d', hkind', hdevs'⟩ := ssdPoolAddDevice_wf hw (by rw [hcap]; decide) hadd'
  have hfiles : ∀ e ∈ filePair.devices, e.backend.kind = .file := by
    rw [hdevs', hdevs]
    intro e he
    rcases List.mem_pair.mp he with rfl | rfl
    · exact hkind
    · exact hkind'
  exact (ssdPoolIo_flat_iff hw' hfiles OsIo.whole 4095 2 [7, 9] rfl).mpr (Or.inl (by decide))

end Umm
