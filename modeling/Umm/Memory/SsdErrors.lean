import Umm.Memory.MemVtbl

/-! Writes to the SSD tier on devices that can fail. -/
namespace Umm
open Umm.Lib

/-- How the world answers the writes of a device. -/
structure DiskIo where
  /-- How many bytes one `pwrite` of the OS moves: a positive prefix, or none where it fails with an
  error other than `EINTR`. -/
  transfer : ℕ → ℕ → ℕ → Option ℕ
  driver : Bool → ℕ → ℕ → ℕ → Option (Error × ℕ)
  pos : ∀ dev offset len n, 0 < len → transfer dev offset len = some n → 0 < n
  le : ∀ dev offset len n, transfer dev offset len = some n → n ≤ len

theorem some_transfer_pos (os : OsIo) (dev offset len n : ℕ) (hlen : 0 < len)
    (h : some (os.transfer dev offset len) = some n) : 0 < n := by
  obtain rfl := Option.some.inj h
  exact os.pos dev offset len hlen

theorem some_transfer_le (os : OsIo) (dev offset len n : ℕ)
    (h : some (os.transfer dev offset len) = some n) : n ≤ len := by
  obtain rfl := Option.some.inj h
  exact os.le dev offset len

theorem no_transfer_pos (_ _ len n : ℕ) (_ : 0 < len) (h : (none : Option ℕ) = some n) : 0 < n := by
  cases h

theorem no_transfer_le (_ _ len n : ℕ) (h : (none : Option ℕ) = some n) : n ≤ len := by
  cases h

/-- The devices on which no `pwrite` fails. -/
def DiskIo.ofOs (os : OsIo) : DiskIo where
  transfer dev offset len := some (os.transfer dev offset len)
  driver := os.driver
  pos := some_transfer_pos os
  le := some_transfer_le os

/-- The devices that fail at every write. -/
def DiskIo.broken : DiskIo where
  transfer _ _ _ := none
  driver _ _ _ _ := some (.transportError, 0)
  pos := no_transfer_pos
  le := no_transfer_le

/-- The loop of `ssd_backend_pwrite`. What was written before an error stays. -/
def diskPwriteLoop (disk : DiskIo) (dev : ℕ) (buf : List UInt8) (offset len done : ℕ)
    (data : List UInt8) : Except Error Unit × List UInt8 :=
  if _hlt : done < len then
    match _h : disk.transfer dev (offset + done) (len - done) with
    | none => (.error .transportError, data)
    | some n =>
      diskPwriteLoop disk dev buf offset len (done + n)
        (splice data (offset + done) (slice buf done n))
  else (.ok (), data)
termination_by len - done
decreasing_by
  have := disk.pos dev (offset + done) (len - done) n (by omega) _h
  omega

/-- The world as the drivers see it. -/
def DiskIo.drivers (disk : DiskIo) : OsIo := { OsIo.whole with driver := disk.driver }

/-- `ssd_backend_pwrite` -/
def ssdBackendPwriteDisk (disk : DiskIo) (dev : ℕ) (sb : SsdBackend) (offset len : ℕ)
    (buf : List UInt8) : Except Error Unit × SsdBackend :=
  if sb.capacity < offset ∨ sb.capacity - offset < len then (.error .invalidArg, sb)
  else
    match sb.kind with
    | .direct | .ndsMeta | .libnvm | .nds =>
      let (r, n) := sb.io disk.drivers true dev offset len
      (r, { sb with data := splice sb.data offset (slice buf 0 n) })
    | .file =>
      let r := diskPwriteLoop disk dev buf offset len 0 sb.data
      (r.1, { sb with data := r.2 })

/-- The loop of `ssd_pool_io` for a write. -/
def ssdPoolWriteLoop (disk : DiskIo) (stop : ℕ) : ℕ → ℕ → ℕ → SsdPool → List UInt8 →
    Option (Except Error Unit × SsdPool)
  | 0, _, _, _, _ => none
  | fuel + 1, cur, done, pool, buf =>
    if cur < stop then
      match ssdPoolTranslate pool cur with
      | .error e => some (.error e, pool)
      | .ok (devIdx, poff) =>
        match pool.devices[devIdx]? with
        | none => none
        | some dev =>
          let chunk := ioChunk dev cur stop
          let r := ssdBackendPwriteDisk disk devIdx dev.backend poff chunk (slice buf done chunk)
          match r.1 with
          | .error e => some (.error e, pool.setBackend devIdx r.2)
          | .ok () =>
            ssdPoolWriteLoop disk stop fuel (cur + chunk) (done + chunk)
              (pool.setBackend devIdx r.2) buf
    else some (.ok (), pool)

def ssdPoolWrite (disk : DiskIo) (pool : SsdPool) (voffset : ℕ) (buf : List UInt8) :
    Option (Except Error Unit × SsdPool) :=
  if pool.totalCapacity < u64 (voffset + buf.length) then some (.error .invalidArg, pool)
  else ssdPoolWriteLoop disk (u64 (voffset + buf.length)) (buf.length + 1) voffset 0 pool buf

def memsvcSsdWriteDisk (disk : DiskIo) (m : MemServiceCtx) (offset : UInt64) (buf : List UInt8) :
    Option (Except Error Unit × MemServiceCtx) :=
  let t := m.tiers .ssd
  match t.online, t.ssdPool with
  | true, some pool =>
    (ssdPoolWrite disk pool (sub64 offset.toNat t.baseOffset) buf).map fun r =>
      (r.1, m.setTier .ssd { t with ssdPool := some r.2 })
  | _, _ => some (.error .notInitialized, m)

/-- The table of the direct service on devices that can fail. -/
def memsvcDiskVtbl (disk : DiskIo) (env : MemEnv) : MemoryServiceVtbl MemServiceCtx :=
  { memsvcVtbl env with ssdWrite := some (memsvcSsdWriteDisk disk) }

/-! Where no `pwrite` fails the calls are those of the plain service. -/

section Total

variable {os : OsIo}

theorem diskPwriteLoop_ofOs (dev : ℕ) (buf : List UInt8) (offset len done : ℕ)
    (data : List UInt8) : diskPwriteLoop (.ofOs os) dev buf offset len done data =
      (.ok (), pwriteLoop os dev buf offset len done data) := by
  fun_induction pwriteLoop os dev buf offset len done data with
  | case1 done data hlt n ih =>
    rw [diskPwriteLoop, dif_pos hlt]
    exact ih
  | case2 done data hlt => rw [diskPwriteLoop, dif_neg hlt]

theorem ssdBackendPwriteDisk_ofOs (dev : ℕ) (sb : SsdBackend) (offset len : ℕ) (buf : List UInt8) :
    ssdBackendPwriteDisk (.ofOs os) dev sb offset len buf =
      ssdBackendPwrite os dev sb offset len buf := by
  unfold ssdBackendPwriteDisk ssdBackendPwrite
  split_ifs
  · rfl
  · have hio : sb.io (DiskIo.ofOs os).drivers true dev offset len = sb.io os true dev offset len :=
      rfl
    rw [hio]
    cases sb.kind with
    | file =>
      dsimp only
      rw [diskPwriteLoop_ofOs]
    | direct => rfl
    | libnvm => rfl
    | nds => rfl
    | ndsMeta => rfl

theorem ssdPoolWriteLoop_ofOs {stop : ℕ} (fuel cur done : ℕ) (pool : SsdPool) (buf : List UInt8) :
    ssdPoolWriteLoop (.ofOs os) stop fuel cur done pool buf =
      (ssdPoolIoLoop os true stop fuel cur done pool buf).map fun r => (r.1, r.2.1) := by
  induction fuel generalizing cur done pool with
  | zero => rfl
  | succ fuel ih =>
    unfold ssdPoolWriteLoop ssdPoolIoLoop
    by_cases hlt : cur < stop
    · rw [if_pos hlt, if_pos hlt]
      cases ssdPoolTranslate pool cur with
      | error e => rfl
      | ok p =>
        obtain ⟨i, poff⟩ := p
        dsimp only
        cases hdev : pool.devices[i]? with
        | none => rfl
        | some dev =>
          dsimp only
          rw [ssdBackendPwriteDisk_ofOs, if_pos rfl]
          cases (ssdBackendPwrite os i dev.backend poff (ioChunk dev cur stop)
              (slice buf done (ioChunk dev cur stop))).1 with
          | error e => rfl
          | ok u => exact ih _ _ _
    · rw [if_neg hlt, if_neg hlt]
      rfl

theorem memsvcSsdWriteDisk_ofOs (env : MemEnv) (m : MemServiceCtx) (offset : UInt64)
    (buf : List UInt8) :
    memsvcSsdWriteDisk (.ofOs env.os) m offset buf = memsvcSsdWrite env m offset buf := by
  have hwrite : ∀ pool voffset, ssdPoolWrite (.ofOs env.os) pool voffset buf =
      (ssdPoolIo env.os pool voffset buf.length buf true).map fun r => (r.1, r.2.1) := by
    intro pool voffset
    unfold ssdPoolWrite ssdPoolIo
    split_ifs
    · rfl
    · exact ssdPoolWriteLoop_ofOs _ _ _ _ _
  unfold memsvcSsdWriteDisk memsvcSsdWrite memsvcSsdIo
  rw [if_neg (not_not.mpr rfl)]
  dsimp only
  cases (m.tiers .ssd).online with
  | false => rfl
  | true =>
    cases (m.tiers .ssd).ssdPool with
    | none => rfl
    | some pool =>
      dsimp only
      rw [hwrite, Option.map_map, Option.map_map]
      rfl

end Total

end Umm
