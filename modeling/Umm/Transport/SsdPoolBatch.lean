import Umm.Transport.SsdPoolReach
import Umm.Transport.SsdPoolRefine
import Mathlib.Data.List.SplitBy

/-! The batch calls of `ssd_pool.c`: every iovec is checked and translated first, and then each
run of iovecs on one device goes to its backend, which checks them once more. -/
namespace Umm
open Umm.Lib

/-- A buffer, and the bytes of the pool that it goes with. `NULL` is the address 0. -/
structure UmmNdsIOVec where
  vaddr : UInt64
  offset : UInt64
  length : UInt64
deriving DecidableEq, Repr

/-- Bytes by address. -/
abbrev Buffers := ℕ → UInt8

def Buffers.read (m : Buffers) (addr n : ℕ) : List UInt8 :=
  (List.range n).map fun i => m (addr + i)

def Buffers.write (m : Buffers) (addr : ℕ) (bytes : List UInt8) : Buffers := fun a =>
  if addr ≤ a then (bytes[a - addr]?).getD (m a) else m a

namespace Buffers

variable (m : Buffers) (addr n : ℕ)

theorem length_read : (m.read addr n).length = n := by
  rw [Buffers.read, List.length_map, List.length_range]

theorem getElem?_read (i : ℕ) :
    (m.read addr n)[i]? = if i < n then some (m (addr + i)) else none := by
  unfold Buffers.read
  rw [List.getElem?_map]
  split_ifs with hi
  · rw [List.getElem?_range hi]
    rfl
  · rw [List.getElem?_eq_none (by simpa using hi)]
    rfl

@[simp] theorem read_zero : m.read addr 0 = [] := rfl

theorem write_nil : m.write addr [] = m := by
  funext a
  simp [Buffers.write]

/-- Two reads, the second where the first stops, are one read. -/
theorem read_add (k : ℕ) : m.read addr (n + k) = m.read addr n ++ m.read (addr + n) k := by
  unfold Buffers.read
  rw [List.range_add, List.map_append, List.map_map]
  congr 1
  apply List.map_congr_left
  intro i _
  exact congrArg m (Nat.add_assoc addr n i).symm

/-- Two writes, the second where the first stops, are one write. -/
theorem write_write (xs ys : List UInt8) :
    (m.write addr xs).write (addr + xs.length) ys = m.write addr (xs ++ ys) := by
  funext a
  unfold Buffers.write
  rw [List.getElem?_append]
  by_cases hfirst : a < addr + xs.length
  · rw [if_neg (show ¬ addr + xs.length ≤ a by omega)]
    by_cases hin : addr ≤ a
    · rw [if_pos hin, if_pos hin, if_pos (by omega)]
    · rw [if_neg hin, if_neg hin]
  · have hnone : xs[a - addr]? = none := List.getElem?_eq_none (by omega)
    rw [if_pos (show addr + xs.length ≤ a by omega), if_pos (show addr ≤ a by omega),
      if_pos (show addr ≤ a by omega), if_neg (by omega), hnone, Nat.sub_sub]
    rfl

/-- What was written is read back. -/
theorem read_write (xs : List UInt8) : (m.write addr xs).read addr xs.length = xs := by
  refine List.ext_getElem? fun i => ?_
  rw [getElem?_read]
  split_ifs with hi
  · unfold Buffers.write
    rw [if_pos (by omega), Nat.add_sub_cancel_left, List.getElem?_eq_getElem hi]
    rfl
  · exact (List.getElem?_eq_none (by omega)).symm

end Buffers

/-- Why a batch fails, with the index that the message names. -/
inductive BatchFault where
  | noMemory
  /-- `invalid vaddr/length` -/
  | invalidIov (i : ℕ)
  /-- No device has the offset. -/
  | outOfRange (i : ℕ)
  | acrossDevices (i : ℕ)
  /-- The bounds check of the backend. -/
  | outOfBounds (dev i : ℕ)
  | unsupported (dev : ℕ)
  /-- The driver accepts no such address, alignment or size. -/
  | refused (dev : ℕ)
  | transfer (e : Error)
deriving DecidableEq, Repr

def BatchFault.code : BatchFault → Error
  | noMemory => .noMemory
  | invalidIov _ | outOfRange _ | acrossDevices _ | outOfBounds _ _ | refused _ => .invalidArg
  | unsupported _ => .unsupported
  | transfer e => e

/-- Some iovec is empty, out of range or crosses the end of its device. -/
def BatchFault.Rejects : BatchFault → Prop
  | invalidIov _ | outOfRange _ | acrossDevices _ | outOfBounds _ _ => True
  | _ => False

theorem BatchFault.Rejects.code {f : BatchFault} (h : f.Rejects) : f.code = .invalidArg := by
  cases f with
  | invalidIov i => rfl
  | outOfRange i => rfl
  | acrossDevices i => rfl
  | outOfBounds dev i => rfl
  | noMemory => cases h
  | unsupported dev => cases h
  | refused dev => cases h
  | transfer e => cases h

/-- One request to the OS or to a driver. -/
structure Transfer where
  isWrite : Bool
  dev : ℕ
  iov : UmmNdsIOVec
deriving DecidableEq, Repr

/-- What an NDS backend checks requests against. -/
structure NdsDevice where
  pageSize : ℕ
  maxIo : ℕ
  /-- Base and size of the memory that was registered. -/
  regions : List (ℕ × ℕ)

structure BatchState where
  pool : SsdPool
  nds : ℕ → NdsDevice
  host : Buffers
  /-- The memory of the accelerator, where the buffers of NDS devices are. -/
  npu : Buffers
  /-- The array of the caller. -/
  iovs : List UmmNdsIOVec
  /-- The requests so far. -/
  issued : List Transfer

/-- What the world answers to a batch. -/
structure BatchEnv where
  os : OsIo
  gotArrays : Bool
  /-- `malloc` in the NDS backend. -/
  gotNdsArray : List Transfer → Bool
  /-- A request that fails after some bytes, by the requests before it. -/
  fails : List Transfer → Transfer → Option (Error × ℕ)
  /-- What the NDS library does to the bytes of the device and to the memory. -/
  ndsBatch : Bool → List UmmNdsIOVec → List UInt8 → Buffers → List UInt8 × Buffers

/-- `direct_io` takes whole blocks. -/
def DirectAccepts (iov : UmmNdsIOVec) : Prop :=
  iov.offset.toNat % ioAlign = 0 ∧ iov.length.toNat % ioAlign = 0

instance (iov : UmmNdsIOVec) : Decidable (DirectAccepts iov) := by
  unfold DirectAccepts
  infer_instance

/-- `nds_vaddr_in_region` -/
def ndsVaddrInRegion (nds : NdsDevice) (vaddr len : ℕ) : Bool :=
  nds.regions.any fun r =>
    decide (r.1 ≤ vaddr ∧ vaddr - r.1 ≤ r.2 ∧ len ≤ r.2 - (vaddr - r.1))

def NdsAccepts (nds : NdsDevice) (iov : UmmNdsIOVec) : Prop :=
  iov.vaddr ≠ 0 ∧ iov.length ≠ 0 ∧ iov.length.toNat % nds.pageSize = 0 ∧
    iov.offset.toNat % nds.pageSize = 0 ∧ iov.length.toNat ≤ nds.maxIo ∧
    ndsVaddrInRegion nds iov.vaddr.toNat iov.length.toNat = true

instance (nds : NdsDevice) (iov : UmmNdsIOVec) : Decidable (NdsAccepts nds iov) := by
  unfold NdsAccepts
  infer_instance

def ssdNdsBatch (env : BatchEnv) (isWrite : Bool) (dev : ℕ) (d : SsdDevice)
    (iovs : List UmmNdsIOVec) (st : BatchState) : Except BatchFault Unit × BatchState :=
  if (st.nds dev).regions = [] then (.error (.refused dev), st)
  else if ∀ iov ∈ iovs, NdsAccepts (st.nds dev) iov then
    if env.gotNdsArray st.issued then
      let moved := env.ndsBatch isWrite iovs d.backend.data st.npu
      (.ok (), { st with
        pool := st.pool.setBackend dev { d.backend with data := moved.1 }
        npu := moved.2
        issued := st.issued ++ iovs.map fun iov => ⟨isWrite, dev, iov⟩ })
    else (.error .noMemory, st)
  else (.error (.refused dev), st)

/-- One `ssd_backend_pread` or `ssd_backend_pwrite` of the loop over a group. -/
def BatchState.transfer (env : BatchEnv) (isWrite : Bool) (dev : ℕ) (d : SsdDevice)
    (iov : UmmNdsIOVec) (st : BatchState) : Except BatchFault Unit × BatchState :=
  let offset := iov.offset.toNat
  let length := iov.length.toNat
  let buf := st.host.read iov.vaddr.toNat length
  let request : Transfer := ⟨isWrite, dev, iov⟩
  let issued := st.issued ++ [request]
  if d.backend.kind = .direct ∧ ¬ DirectAccepts iov then (.error (.refused dev), st)
  else if isWrite then
    let (r, sb) := ssdBackendPwrite env.os dev d.backend offset length buf
    match r with
    | .error e =>
      (.error (.transfer e), { st with pool := st.pool.setBackend dev sb, issued })
    | .ok () =>
      match env.fails st.issued request with
      | none => (.ok (), { st with pool := st.pool.setBackend dev sb, issued })
      | some (e, n) => (.error (.transfer e), { st with
          pool := st.pool.setBackend dev { d.backend with
            data := splice d.backend.data offset (buf.take n) }
          issued })
  else
    let (r, bytes) := ssdBackendPread env.os dev d.backend offset length buf
    match r with
    | .error e =>
      (.error (.transfer e), { st with host := st.host.write iov.vaddr.toNat bytes, issued })
    | .ok () =>
      match env.fails st.issued request with
      | none => (.ok (), { st with host := st.host.write iov.vaddr.toNat bytes, issued })
      | some (e, n) => (.error (.transfer e), { st with
          host := st.host.write iov.vaddr.toNat (bytes.take n)
          issued })

def transferLoop (env : BatchEnv) (isWrite : Bool) (dev : ℕ) :
    List UmmNdsIOVec → BatchState → Except BatchFault Unit × BatchState
  | [], st => (.ok (), st)
  | iov :: iovs, st =>
    match st.pool.devices[dev]? with
    | none => (.error (.refused dev), st)
    | some d =>
      match st.transfer env isWrite dev d iov with
      | (.error e, st) => (.error e, st)
      | (.ok (), st) => transferLoop env isWrite dev iovs st

/-- `ssd_backend_batch_check_bounds`, without an addition that could wrap around. -/
def batchCheckBounds (dev : ℕ) (sb : SsdBackend) : ℕ → List UmmNdsIOVec → Except BatchFault Unit
  | _, [] => .ok ()
  | i, iov :: iovs =>
    if sb.capacity < iov.length.toNat ∨ sb.capacity - iov.length.toNat < iov.offset.toNat then
      .error (.outOfBounds dev i)
    else batchCheckBounds dev sb (i + 1) iovs

/-- `ssd_backend_batch_read` and `ssd_backend_batch_write`. -/
def ssdBackendBatch (env : BatchEnv) (isWrite : Bool) (dev : ℕ) (iovs : List UmmNdsIOVec)
    (st : BatchState) : Except BatchFault Unit × BatchState :=
  match st.pool.devices[dev]? with
  | none => (.error (.refused dev), st)
  | some d =>
    match batchCheckBounds dev d.backend 0 iovs with
    | .error e => (.error e, st)
    | .ok () =>
      match d.backend.kind with
      | .ndsMeta => (.error (.unsupported dev), st)
      | .nds => ssdNdsBatch env isWrite dev d iovs st
      | .file | .direct | .libnvm => transferLoop env isWrite dev iovs st

/-- The first check of an iovec, and the device and the offset on it. -/
def checkIov (pool : SsdPool) (i : ℕ) (iov : UmmNdsIOVec) :
    Except BatchFault (ℕ × UmmNdsIOVec) :=
  if iov.vaddr = 0 ∨ iov.length = 0 then .error (.invalidIov i)
  else
    match ssdPoolTranslate pool iov.offset.toNat with
    | .error _ => .error (.outOfRange i)
    | .ok (dev, poff) =>
      match pool.devices[dev]? with
      | none => .error (.outOfRange i)
      | some d =>
        if d.capacity < u64 (poff + iov.length.toNat) then .error (.acrossDevices i)
        else .ok (dev, { iov with offset := poff.toUInt64 })

/-- The arrays `tmp` and `dev_of`. -/
def checkIovs (pool : SsdPool) : ℕ → List UmmNdsIOVec → Except BatchFault (List (ℕ × UmmNdsIOVec))
  | _, [] => .ok []
  | i, iov :: iovs =>
    match checkIov pool i iov with
    | .error e => .error e
    | .ok x =>
      match checkIovs pool (i + 1) iovs with
      | .error e => .error e
      | .ok xs => .ok (x :: xs)

def sameDevice (x y : ℕ × UmmNdsIOVec) : Bool := x.1 == y.1

/-- The loop over the groups, each of them for the device of its first iovec. -/
def groupLoop (env : BatchEnv) (isWrite : Bool) :
    List (List (ℕ × UmmNdsIOVec)) → BatchState → Except BatchFault Unit × BatchState
  | [], st => (.ok (), st)
  | [] :: groups, st => groupLoop env isWrite groups st
  | ((dev, iov) :: group) :: groups, st =>
    match ssdBackendBatch env isWrite dev (iov :: group.map (·.2)) st with
    | (.error e, st) => (.error e, st)
    | (.ok (), st) => groupLoop env isWrite groups st

def ssdPoolBatchIo (env : BatchEnv) (isWrite : Bool) (st : BatchState) :
    Except BatchFault Unit × BatchState :=
  if st.iovs = [] then (.ok (), st)
  else if env.gotArrays then
    match checkIovs st.pool 0 st.iovs with
    | .error e => (.error e, st)
    | .ok tmp => groupLoop env isWrite (tmp.splitBy sameDevice) st
  else (.error .noMemory, st)

def ssdPoolBatchRead (env : BatchEnv) (st : BatchState) : Except BatchFault Unit × BatchState :=
  ssdPoolBatchIo env false st

def ssdPoolBatchWrite (env : BatchEnv) (st : BatchState) : Except BatchFault Unit × BatchState :=
  ssdPoolBatchIo env true st

end Umm
