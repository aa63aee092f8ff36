import Umm.Transport.SsdPoolSpec
import Umm.Lib.Splice

/-! Byte access to the SSD pool: the partial-transfer loops of a backend, the translation of
virtual offsets, and the loop that splits a request at the device boundaries. -/
namespace Umm
open Umm.Lib

/-- How the world answers the transfers of a device, at an offset, when `len` bytes are asked
for. -/
structure OsIo where
  /-- How many bytes one `pread` or `pwrite` of the OS moves: a positive prefix. -/
  transfer : ℕ → ℕ → ℕ → ℕ
  /-- How a driver fails a read or a write, and after how many bytes; `none` moves them all. -/
  driver : Bool → ℕ → ℕ → ℕ → Option (Error × ℕ)
  pos : ∀ dev offset len, 0 < len → 0 < transfer dev offset len
  le : ∀ dev offset len, transfer dev offset len ≤ len

/-- The OS that moves all that is asked for. -/
def OsIo.whole : OsIo where
  transfer _ _ len := len
  driver _ _ _ _ := none
  pos _ _ _ h := h
  le _ _ _ := le_rfl

def preadLoop (os : OsIo) (dev : ℕ) (data : List UInt8) (offset len done : ℕ)
    (buf : List UInt8) : List UInt8 :=
  if done < len then
    let n := os.transfer dev (offset + done) (len - done)
    preadLoop os dev data offset len (done + n) (splice buf done (slice data (offset + done) n))
  else buf
termination_by len - done
decreasing_by
  have := os.pos dev (offset + done) (len - done) (by omega)
  omega

def pwriteLoop (os : OsIo) (dev : ℕ) (buf : List UInt8) (offset len done : ℕ)
    (data : List UInt8) : List UInt8 :=
  if done < len then
    let n := os.transfer dev (offset + done) (len - done)
    pwriteLoop os dev buf offset len (done + n) (splice data (offset + done) (slice buf done n))
  else data
termination_by len - done
decreasing_by
  have := os.pos dev (offset + done) (len - done) (by omega)
  omega

def ioAlign : ℕ := 4096

/-- The answer of a driver, and how many bytes it moved. -/
def OsIo.driverIo (os : OsIo) (isWrite : Bool) (dev offset len : ℕ) : Except Error Unit × ℕ :=
  match os.driver isWrite dev offset len with
  | none => (.ok (), len)
  | some (e, n) => (.error e, min n len)

/-- `direct_io` inside of its window: whole blocks only. -/
def OsIo.directIo (os : OsIo) (isWrite : Bool) (dev offset len : ℕ) : Except Error Unit × ℕ :=
  if offset % ioAlign ≠ 0 ∨ len % ioAlign ≠ 0 then (.error .invalidArg, 0)
  else os.driverIo isWrite dev offset len

/-- How a device answers a request inside of it, and how many bytes it moves. `nds-meta` keeps
books only; the loops over a file end when all is moved. -/
def SsdBackend.io (os : OsIo) (isWrite : Bool) (dev : ℕ) (sb : SsdBackend) (offset len : ℕ) :
    Except Error Unit × ℕ :=
  match sb.kind with
  | .direct => os.directIo isWrite dev offset len
  | .ndsMeta => (.error .unsupported, 0)
  | .libnvm | .nds => os.driverIo isWrite dev offset len
  | .file => (.ok (), len)

/-- `ssd_backend_pread` into a buffer of `len` bytes. -/
def ssdBackendPread (os : OsIo) (dev : ℕ) (sb : SsdBackend) (offset len : ℕ)
    (buf : List UInt8) : Except Error Unit × List UInt8 :=
  if sb.capacity < offset ∨ sb.capacity - offset < len then (.error .invalidArg, buf)
  else
    match sb.kind with
    | .direct | .ndsMeta | .libnvm | .nds =>
      let (r, n) := sb.io os false dev offset len
      (r, splice buf 0 (slice sb.data offset n))
    | .file => (.ok (), preadLoop os dev sb.data offset len 0 buf)

def ssdBackendPwrite (os : OsIo) (dev : ℕ) (sb : SsdBackend) (offset len : ℕ)
    (buf : List UInt8) : Except Error Unit × SsdBackend :=
  if sb.capacity < offset ∨ sb.capacity - offset < len then (.error .invalidArg, sb)
  else
    match sb.kind with
    | .direct | .ndsMeta | .libnvm | .nds =>
      let (r, n) := sb.io os true dev offset len
      (r, { sb with data := splice sb.data offset (slice buf 0 n) })
    | .file => (.ok (), { sb with data := pwriteLoop os dev buf offset len 0 sb.data })

def translateLoop (voffset : ℕ) : List SsdDevice → ℕ → Except Error (ℕ × ℕ)
  | [], _ => .error .invalidArg
  | dev :: devs, i =>
    if dev.virtualBase ≤ voffset ∧ voffset < u64 (dev.virtualBase + dev.capacity) then
      .ok (i, voffset - dev.virtualBase)
    else translateLoop voffset devs (i + 1)

def ssdPoolTranslate (pool : SsdPool) (voffset : ℕ) : Except Error (ℕ × ℕ) :=
  if pool.totalCapacity ≤ voffset then .error .invalidArg
  else translateLoop voffset pool.devices 0

/-- The bytes from `cur` on that lie before both `stop` and the end of the device. -/
def ioChunk (dev : SsdDevice) (cur stop : ℕ) : ℕ :=
  let devEnd := u64 (dev.virtualBase + dev.capacity)
  let chunk := stop - cur
  if devEnd < u64 (cur + chunk) then devEnd - cur else chunk

def SsdPool.setBackend (pool : SsdPool) (i : ℕ) (sb : SsdBackend) : SsdPool :=
  { pool with devices := pool.devices.modify i (fun d => { d with backend := sb }) }

/-- The loop of `ssd_pool_io`, with `none` when the fuel does not suffice. -/
def ssdPoolIoLoop (os : OsIo) (isWrite : Bool) (stop : ℕ) : ℕ → ℕ → ℕ → SsdPool → List UInt8 →
    Option (Except Error Unit × SsdPool × List UInt8)
  | 0, _, _, _, _ => none
  | fuel + 1, cur, done, pool, buf =>
    if cur < stop then
      match ssdPoolTranslate pool cur with
      | .error e => some (.error e, pool, buf)
      | .ok (devIdx, poff) =>
        match pool.devices[devIdx]? with
        | none => none
        | some dev =>
          let chunk := ioChunk dev cur stop
          if isWrite then
            let (r, sb) :=
              ssdBackendPwrite os devIdx dev.backend poff chunk (slice buf done chunk)
            let pool := pool.setBackend devIdx sb
            match r with
            | .error e => some (.error e, pool, buf)
            | .ok () => ssdPoolIoLoop os isWrite stop fuel (cur + chunk) (done + chunk) pool buf
          else
            let (r, bytes) :=
              ssdBackendPread os devIdx dev.backend poff chunk (slice buf done chunk)
            let buf := splice buf done bytes
            match r with
            | .error e => some (.error e, pool, buf)
            | .ok () => ssdPoolIoLoop os isWrite stop fuel (cur + chunk) (done + chunk) pool buf
    else some (.ok (), pool, buf)

def ssdPoolIo (os : OsIo) (pool : SsdPool) (voffset len : ℕ) (buf : List UInt8)
    (isWrite : Bool) : Option (Except Error Unit × SsdPool × List UInt8) :=
  if pool.totalCapacity < u64 (voffset + len) then some (.error .invalidArg, pool, buf)
  else ssdPoolIoLoop os isWrite (u64 (voffset + len)) (len + 1) voffset 0 pool buf

def ssdPoolPread (os : OsIo) (pool : SsdPool) (voffset len : ℕ) (buf : List UInt8) :
    Option (Except Error Unit × SsdPool × List UInt8) :=
  ssdPoolIo os pool voffset len buf false

def ssdPoolPwrite (os : OsIo) (pool : SsdPool) (voffset len : ℕ) (buf : List UInt8) :
    Option (Except Error Unit × SsdPool × List UInt8) :=
  ssdPoolIo os pool voffset len buf true

/-! The backend loops move the whole range, in whatever pieces the OS hands out. -/

section Backend

variable {os : OsIo} {dev offset len : ℕ}

theorem preadLoop_eq {data : List UInt8} (hd : offset + len ≤ data.length) :
    ∀ done buf, buf.length = len → done ≤ len →
      preadLoop os dev data offset len done buf =
        splice buf done (slice data (offset + done) (len - done)) := by
  intro done buf hb hle
  fun_induction preadLoop os dev data offset len done buf with
  | case1 done buf hlt n ih =>
    have hn : n ≤ len - done := os.le dev (offset + done) (len - done)
    have hs : (slice data (offset + done) n).length = n := length_slice (by omega)
    have hr : (slice data (offset + (done + n)) (len - (done + n))).length = len - (done + n) :=
      length_slice (by omega)
    have hsplit : len - done = n + (len - (done + n)) := by omega
    have hpos : done + (slice data (offset + done) n).length = done + n := by rw [hs]
    rw [ih (by rw [length_splice (by omega)]; exact hb) (by omega), ← hpos, splice_splice, hpos,
      hsplit, slice_add, Nat.add_assoc]
    rw [List.length_append, hs, hr]
    omega
  | case2 done buf hge =>
    obtain rfl : done = len := by omega
    simp

theorem pwriteLoop_eq {buf : List UInt8} (hb : buf.length = len) :
    ∀ done data, offset + len ≤ data.length → done ≤ len →
      pwriteLoop os dev buf offset len done data =
        splice data (offset + done) (slice buf done (len - done)) := by
  intro done data hd hle
  fun_induction pwriteLoop os dev buf offset len done data with
  | case1 done data hlt n ih =>
    have hn : n ≤ len - done := os.le dev (offset + done) (len - done)
    have hs : (slice buf done n).length = n := length_slice (by omega)
    have hr : (slice buf (done + n) (len - (done + n))).length = len - (done + n) :=
      length_slice (by omega)
    have hsplit : len - done = n + (len - (done + n)) := by omega
    have hpos : offset + (done + n) = offset + done + (slice buf done n).length := by
      rw [hs]
      omega
    rw [ih (by rw [length_splice (by omega)]; exact hd) (by omega), hpos, splice_splice, hsplit,
      slice_add]
    rw [List.length_append, hs, hr]
    omega
  | case2 done data hge =>
    obtain rfl : done = len := by omega
    simp

end Backend

/-! What a device takes, and how much of it. -/

section Device

variable {os : OsIo} {isWrite : Bool} {dev offset len : ℕ} {sb : SsdBackend} {buf : List UInt8}

/-- The device takes a request: a file always does, `direct` takes whole blocks, `nds-meta`
nothing, and a driver may fail. -/
def SsdBackend.Takes (os : OsIo) (isWrite : Bool) (dev : ℕ) (sb : SsdBackend) (offset len : ℕ) :
    Prop :=
  match sb.kind with
  | .direct => offset % ioAlign = 0 ∧ len % ioAlign = 0 ∧ os.driver isWrite dev offset len = none
  | .ndsMeta => False
  | .libnvm | .nds => os.driver isWrite dev offset len = none
  | .file => True

theorem OsIo.driverIo_ok_iff : (os.driverIo isWrite dev offset len).1 = .ok () ↔
    os.driver isWrite dev offset len = none := by
  unfold driverIo
  split
  next h => simp [h]
  next h => simp [h]

theorem SsdBackend.io_ok_iff :
    (sb.io os isWrite dev offset len).1 = .ok () ↔ sb.Takes os isWrite dev offset len := by
  unfold io Takes
  cases sb.kind with
  | file => exact iff_of_true rfl trivial
  | direct =>
    dsimp only
    unfold OsIo.directIo
    split_ifs with h
    · refine iff_of_false (by simp) fun hc => ?_
      rcases h with h | h
      · exact h hc.1
      · exact h hc.2.1
    · push Not at h
      rw [OsIo.driverIo_ok_iff]
      exact ⟨fun hd => ⟨h.1, h.2, hd⟩, fun hc => hc.2.2⟩
  | libnvm => exact OsIo.driverIo_ok_iff
  | nds => exact OsIo.driverIo_ok_iff
  | ndsMeta => exact iff_of_false (by simp) id

theorem OsIo.driverIo_part : (os.driverIo isWrite dev offset len).2 ≤ len ∧
    ((os.driverIo isWrite dev offset len).1 = .ok () →
      (os.driverIo isWrite dev offset len).2 = len) := by
  unfold driverIo
  split
  · exact ⟨le_rfl, fun _ => rfl⟩
  · exact ⟨min_le_right _ _, by simp⟩

theorem SsdBackend.io_part : (sb.io os isWrite dev offset len).2 ≤ len ∧
    ((sb.io os isWrite dev offset len).1 = .ok () → (sb.io os isWrite dev offset len).2 = len) := by
  unfold io
  cases sb.kind with
  | file => exact ⟨le_rfl, fun _ => rfl⟩
  | direct =>
    dsimp only
    unfold OsIo.directIo
    split_ifs
    · exact ⟨Nat.zero_le _, by simp⟩
    · exact OsIo.driverIo_part
  | libnvm => exact OsIo.driverIo_part
  | nds => exact OsIo.driverIo_part
  | ndsMeta => exact ⟨Nat.zero_le _, by simp⟩

theorem ssdBackendPread_ok_iff (os : OsIo) (dev : ℕ) (buf : List UInt8)
    (hin : offset + len ≤ sb.capacity) : (ssdBackendPread os dev sb offset len buf).1 = .ok () ↔
      sb.Takes os false dev offset len := by
  rw [← SsdBackend.io_ok_iff]
  unfold ssdBackendPread
  rw [if_neg (by omega)]
  cases hk : sb.kind with
  | file =>
    unfold SsdBackend.io
    rw [hk]
  | direct => rfl
  | libnvm => rfl
  | nds => rfl
  | ndsMeta => rfl

theorem ssdBackendPwrite_ok_iff (os : OsIo) (dev : ℕ) (buf : List UInt8)
    (hin : offset + len ≤ sb.capacity) : (ssdBackendPwrite os dev sb offset len buf).1 = .ok () ↔
      sb.Takes os true dev offset len := by
  rw [← SsdBackend.io_ok_iff]
  unfold ssdBackendPwrite
  rw [if_neg (by omega)]
  cases hk : sb.kind with
  | file =>
    unfold SsdBackend.io
    rw [hk]
  | direct => rfl
  | libnvm => rfl
  | nds => rfl
  | ndsMeta => rfl

/-- A read fills a first part of the buffer, and all of it where the device takes the request. -/
theorem ssdBackendPread_part (os : OsIo) (dev : ℕ) (hc : sb.data.length = sb.capacity)
    (hin : offset + len ≤ sb.capacity) (hb : buf.length = len) :
    ∃ r n, ssdBackendPread os dev sb offset len buf =
        (r, splice buf 0 (slice sb.data offset n)) ∧ n ≤ len ∧
      (r = .ok () ↔ sb.Takes os false dev offset len) ∧ (r = .ok () → n = len) := by
  refine ⟨(sb.io os false dev offset len).1, (sb.io os false dev offset len).2, ?_,
    SsdBackend.io_part.1, SsdBackend.io_ok_iff, SsdBackend.io_part.2⟩
  unfold ssdBackendPread
  rw [if_neg (by omega)]
  cases hk : sb.kind with
  | file =>
    have hio : sb.io os false dev offset len = (.ok (), len) := by
      unfold SsdBackend.io
      rw [hk]
    dsimp only
    rw [preadLoop_eq (by omega) 0 buf hb (Nat.zero_le _), Nat.add_zero, Nat.sub_zero, hio]
  | direct => rfl
  | libnvm => rfl
  | nds => rfl
  | ndsMeta => rfl

/-- A write stores a first part of its bytes, and all of them where the device takes the
request. -/
theorem ssdBackendPwrite_part (os : OsIo) (dev : ℕ) (hc : sb.data.length = sb.capacity)
    (hin : offset + len ≤ sb.capacity) (hb : buf.length = len) :
    ∃ r n, ssdBackendPwrite os dev sb offset len buf =
        (r, { sb with data := splice sb.data offset (slice buf 0 n) }) ∧ n ≤ len ∧
      (r = .ok () ↔ sb.Takes os true dev offset len) ∧ (r = .ok () → n = len) := by
  refine ⟨(sb.io os true dev offset len).1, (sb.io os true dev offset len).2, ?_,
    SsdBackend.io_part.1, SsdBackend.io_ok_iff, SsdBackend.io_part.2⟩
  unfold ssdBackendPwrite
  rw [if_neg (by omega)]
  cases hk : sb.kind with
  | file =>
    have hio : sb.io os true dev offset len = (.ok (), len) := by
      unfold SsdBackend.io
      rw [hk]
    dsimp only
    rw [pwriteLoop_eq hb 0 sb.data (by omega) (Nat.zero_le _), Nat.add_zero, Nat.sub_zero, hio]
  | direct => rfl
  | libnvm => rfl
  | nds => rfl
  | ndsMeta => rfl

end Device

end Umm
