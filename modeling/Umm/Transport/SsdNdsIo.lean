import Umm.Transport.SsdBackendNdsRuns
import Umm.Transport.SsdPoolBatch

/-! The requests of an NDS backend: what is checked before the library of the vendor is called,
and how a request is split into calls. -/
namespace Umm
open Umm.Lib

/-- A call into the library that moves bytes. -/
inductive NdsIoCall where
  | single (isWrite : Bool) (iov : UmmNdsIOVec)
  | batch (isWrite : Bool) (iovs : List UmmNdsIOVec)
deriving DecidableEq

/-- The transfers that a call asks for. -/
def NdsIoCall.transfers : NdsIoCall → List UmmNdsIOVec
  | single _ iov => [iov]
  | batch _ iovs => iovs

/-- A region that holds the bytes, compared by offsets. -/
def NdsRegion.holds (r : NdsRegion) (vaddr len : UInt64) : Bool :=
  r.base ≤ vaddr && vaddr - r.base ≤ r.size && len ≤ r.size - (vaddr - r.base)

namespace SsdNdsBackend

variable (b : SsdNdsBackend)

/-- `nds_is_registered` -/
def isRegistered (devs : NdsDevices) : Bool := (devs b.dev).regions ≠ []

/-- `nds_vaddr_in_region` -/
def vaddrInRegion (devs : NdsDevices) (vaddr len : UInt64) : Bool :=
  (devs b.dev).regions.any fun r => r.holds vaddr len

/-- The part of a request from `done` on that one call moves. -/
def chunk (vaddr offset len done : UInt64) : UmmNdsIOVec where
  vaddr := vaddr + done
  offset := b.baseOff + offset + done
  length := if len - done > b.maxIo then b.maxIo else len - done

/-- The loop of `ssd_nds_io`. With a limit of 0 it is never done. -/
def ioLoop (isWrite : Bool) (vaddr offset len : UInt64) : ℕ → UInt64 → Option (List NdsIoCall)
  | fuel, done =>
    if done < len then
      match fuel with
      | 0 => none
      | fuel + 1 =>
        let iov := b.chunk vaddr offset len done
        (ioLoop isWrite vaddr offset len fuel (done + iov.length)).map
          fun calls => .single isWrite iov :: calls
    else some []

/-- `ssd_nds_io`, with the calls that it makes. `NULL` is the address 0. -/
def io (devs : NdsDevices) (isWrite : Bool) (offset len vaddr : UInt64) :
    Option (Except Error Unit × List NdsIoCall) :=
  if vaddr = 0 ∧ 0 < len then some (.error .invalidArg, [])
  else if len = 0 then some (.ok (), [])
  else if offset % b.pageSize ≠ 0 ∨ len % b.pageSize ≠ 0 then some (.error .invalidArg, [])
  else if ¬ b.isRegistered devs then some (.error .invalidArg, [])
  else if ¬ b.vaddrInRegion devs vaddr len then some (.error .invalidArg, [])
  else (b.ioLoop isWrite vaddr offset len len.toNat 0).map fun calls => (.ok (), calls)

/-- The checks of one iovec. -/
def iovCheck (devs : NdsDevices) (iov : UmmNdsIOVec) : Bool :=
  if iov.vaddr = 0 ∨ iov.length = 0 then false
  else if iov.length % b.pageSize ≠ 0 ∨ iov.offset % b.pageSize ≠ 0 then false
  else if iov.length > b.maxIo then false
  else b.vaddrInRegion devs iov.vaddr iov.length

/-- `ssd_nds_batch`, with the calls that it makes. -/
def batch (devs : NdsDevices) (gotArray isWrite : Bool) (iovs : List UmmNdsIOVec) :
    Except Error Unit × List NdsIoCall :=
  if iovs = [] then (.ok (), [])
  else if ¬ b.isRegistered devs then (.error .invalidArg, [])
  else if ¬ iovs.all (b.iovCheck devs) then (.error .invalidArg, [])
  else if ¬ gotArray then (.error .noMemory, [])
  else
    let tmp := iovs.map fun iov => { iov with offset := iov.offset + b.baseOff }
    if (isWrite && b.batchWriteEmulate) || (!isWrite && b.batchReadEmulate) then
      (.ok (), tmp.map fun iov => .single isWrite iov)
    else (.ok (), [.batch isWrite tmp])

/-- A transfer that the library takes: its offset and its length are pages, no more than the
limit, and its buffer lies in one region. -/
structure Admissible (devs : NdsDevices) (iov : UmmNdsIOVec) : Prop where
  offset : b.pageSize.toNat ∣ iov.offset.toNat
  length : b.pageSize.toNat ∣ iov.length.toNat
  pos : 0 < iov.length.toNat
  le : iov.length.toNat ≤ b.maxIo.toNat
  region : ∃ r ∈ (devs b.dev).regions, r.base.toNat ≤ iov.vaddr.toNat ∧
    iov.vaddr.toNat + iov.length.toNat ≤ r.base.toNat + r.size.toNat

/-- The transfers move `len` bytes between the buffer and the device, one after another. -/
def Consecutive : ℕ → ℕ → ℕ → List UmmNdsIOVec → Prop
  | _, _, len, [] => len = 0
  | vaddr, offset, len, iov :: iovs => iov.vaddr.toNat = vaddr ∧ iov.offset.toNat = offset ∧
    iov.length.toNat ≤ len ∧ Consecutive (vaddr + iov.length.toNat) (offset + iov.length.toNat)
      (len - iov.length.toNat) iovs

/-- The calls of a request are admissible and move its range in order. -/
def IoAdmissible (devs : NdsDevices) (offset len vaddr : UInt64) (calls : List NdsIoCall) : Prop :=
  (∀ iov ∈ calls.flatMap NdsIoCall.transfers, b.Admissible devs iov) ∧
    Consecutive vaddr.toNat (b.baseOff.toNat + offset.toNat) len.toNat
      (calls.flatMap NdsIoCall.transfers)

/-- The calls of a batch are admissible and move its ranges in order. -/
def BatchAdmissible (devs : NdsDevices) (iovs : List UmmNdsIOVec) (calls : List NdsIoCall) : Prop :=
  (∀ iov ∈ calls.flatMap NdsIoCall.transfers, b.Admissible devs iov) ∧
    List.Forall₂ (fun iov moved : UmmNdsIOVec => moved.vaddr = iov.vaddr ∧
      moved.length = iov.length ∧ moved.offset.toNat = b.baseOff.toNat + iov.offset.toNat)
      iovs (calls.flatMap NdsIoCall.transfers)

/-- Where the last part of a request starts. -/
def lastStart (len : UInt64) : ℕ := (len.toNat - 1) / b.maxIo.toNat * b.maxIo.toNat

/-- The window starts at a page, the parts of the request are pages, and no part starts behind the
last address of the device or of the memory. -/
def IoFits (offset len vaddr : UInt64) : Prop :=
  len = 0 ∨ b.pageSize.toNat ∣ b.baseOff.toNat ∧
    (b.pageSize.toNat ∣ b.maxIo.toNat ∨ len.toNat ≤ b.maxIo.toNat) ∧
    b.baseOff.toNat + offset.toNat + b.lastStart len < 2 ^ 64 ∧
    vaddr.toNat + b.lastStart len < 2 ^ 64

/-- The window starts at a page, and no iovec lies behind the last address of the device. -/
def BatchFits (iovs : List UmmNdsIOVec) : Prop :=
  ∀ iov ∈ iovs, b.pageSize.toNat ∣ b.baseOff.toNat ∧ b.baseOff.toNat + iov.offset.toNat < 2 ^ 64

section Loop

variable {len done : UInt64} {fuel : ℕ}

theorem toNat_chunk_length (vaddr offset : UInt64) (h : done < len) :
    (b.chunk vaddr offset len done).length.toNat =
      min b.maxIo.toNat (len.toNat - done.toNat) := by
  have hlt : done.toNat < len.toNat := h
  have hsub : (len - done).toNat = len.toNat - done.toNat := UInt64.toNat_sub_of_le _ _ hlt.le
  unfold chunk
  dsimp only
  split_ifs with hgt
  · have hgt' : b.maxIo.toNat < (len - done).toNat := hgt
    omega
  · have hle : ¬ b.maxIo.toNat < (len - done).toNat := hgt
    omega

theorem le_lastStart {start : ℕ} (hdvd : b.maxIo.toNat ∣ start) (h : start < len.toNat) :
    start ≤ b.lastStart len := by
  obtain ⟨k, rfl⟩ := hdvd
  unfold lastStart
  rcases Nat.eq_zero_or_pos b.maxIo.toNat with hz | hpos
  · simp [hz]
  · rw [Nat.mul_comm]
    exact Nat.mul_le_mul_right _ ((Nat.le_div_iff_mul_le hpos).mpr (by rw [Nat.mul_comm]; omega))

theorem lastStart_eq {start : ℕ} (hdvd : b.maxIo.toNat ∣ start) (h : start < len.toNat)
    (hlast : len.toNat ≤ start + b.maxIo.toNat) : b.lastStart len = start := by
  obtain ⟨k, rfl⟩ := hdvd
  have hdiv : (len.toNat - 1) / b.maxIo.toNat = k := by
    refine Nat.div_eq_of_lt_le ?_ ?_
    · rw [Nat.mul_comm]
      omega
    · rw [Nat.succ_mul, Nat.mul_comm]
      omega
  unfold lastStart
  rw [hdiv, Nat.mul_comm]

/-- The address and the offset of a part are those that are asked for, if they did not wrap. -/
theorem toNat_chunk_vaddr (vaddr offset len done : UInt64) :
    (b.chunk vaddr offset len done).vaddr.toNat = vaddr.toNat + done.toNat ↔
      vaddr.toNat + done.toNat < 2 ^ 64 := by
  have hv := (b.chunk vaddr offset len done).vaddr.toNat_lt
  unfold chunk at hv ⊢
  dsimp only at hv ⊢
  rw [UInt64.toNat_add] at hv ⊢
  omega

theorem toNat_chunk_offset (vaddr offset len done : UInt64) :
    (b.chunk vaddr offset len done).offset.toNat =
        b.baseOff.toNat + offset.toNat + done.toNat ↔
      b.baseOff.toNat + offset.toNat + done.toNat < 2 ^ 64 := by
  have hv := (b.chunk vaddr offset len done).offset.toNat_lt
  unfold chunk at hv ⊢
  dsimp only at hv ⊢
  rw [UInt64.toNat_add, UInt64.toNat_add] at hv ⊢
  omega

/-- The loop makes its calls: the transfers are the parts that start at multiples of the limit. -/
theorem ioLoop_spec (isWrite : Bool) (vaddr offset : UInt64) (hm : b.maxIo ≠ 0) (hfuel : len.toNat - done.toNat ≤ fuel)
    (hle : done.toNat ≤ len.toNat)
    (hdvd : done.toNat < len.toNat → b.maxIo.toNat ∣ done.toNat) :
    ∃ calls, b.ioLoop isWrite vaddr offset len fuel done = some calls ∧
      (∀ iov ∈ calls.flatMap NdsIoCall.transfers, ∃ start : UInt64, start.toNat < len.toNat ∧
        b.maxIo.toNat ∣ start.toNat ∧ iov = b.chunk vaddr offset len start) ∧
      (done < len → b.chunk vaddr offset len done ∈ calls.flatMap NdsIoCall.transfers) ∧
      (Consecutive (vaddr.toNat + done.toNat) (b.baseOff.toNat + offset.toNat + done.toNat)
        (len.toNat - done.toNat) (calls.flatMap NdsIoCall.transfers) ↔
          (done.toNat < len.toNat → vaddr.toNat + b.lastStart len < 2 ^ 64 ∧
            b.baseOff.toNat + offset.toNat + b.lastStart len < 2 ^ 64)) := by
  induction fuel generalizing done with
  | zero =>
    have hdone : ¬ done < len := fun hlt => by
      have : done.toNat < len.toNat := hlt
      omega
    unfold ioLoop
    rw [if_neg hdone]
    refine ⟨[], rfl, by simp, fun hlt => absurd hlt hdone, ?_⟩
    unfold Consecutive
    simp
    omega
  | succ fuel ih =>
    unfold ioLoop
    by_cases hlt : done < len
    · have hlt' : done.toNat < len.toNat := hlt
      have hpos : 0 < b.maxIo.toNat := Nat.pos_of_ne_zero fun hz => hm (UInt64.toNat_inj.mp hz)
      have hlen := b.toNat_chunk_length vaddr offset hlt
      have hbound := len.toNat_lt
      have hnext : (done + (b.chunk vaddr offset len done).length).toNat =
          done.toNat + (b.chunk vaddr offset len done).length.toNat := by
        rw [UInt64.toNat_add]
        omega
      have hstart := hdvd hlt'
      obtain ⟨calls, hloop, hparts, -, hcover⟩ :=
        @ih (done + (b.chunk vaddr offset len done).length) (by omega) (by omega) (by
          rw [hnext, hlen]
          intro hrest
          rw [Nat.min_eq_left (by omega)]
          exact hstart.add (Nat.dvd_refl _))
      have hflat : (NdsIoCall.single isWrite (b.chunk vaddr offset len done) :: calls).flatMap
          NdsIoCall.transfers =
            b.chunk vaddr offset len done :: calls.flatMap NdsIoCall.transfers := by
        rw [List.flatMap_cons]
        rfl
      rw [if_pos hlt]
      dsimp only
      rw [hloop]
      refine ⟨_, rfl, ?_, fun _ => ?_, ?_⟩
      · rw [hflat]
        intro iov hiov
        rcases List.mem_cons.mp hiov with rfl | hiov
        · exact ⟨done, hlt', hstart, rfl⟩
        · exact hparts iov hiov
      · rw [hflat]
        exact List.mem_cons_self
      · rw [hflat]
        unfold Consecutive
        rw [toNat_chunk_vaddr, toNat_chunk_offset]
        have hlow := b.le_lastStart hstart hlt'
        rw [hnext] at hcover
        rw [Nat.add_assoc vaddr.toNat, Nat.add_assoc (b.baseOff.toNat + offset.toNat), Nat.sub_sub,
          hcover]
        constructor
        · rintro ⟨hv, ho, -, hrest⟩ -
          by_cases hmore : done.toNat + (b.chunk vaddr offset len done).length.toNat < len.toNat
          · exact hrest hmore
          · rw [b.lastStart_eq hstart hlt' (by omega)]
            exact ⟨hv, ho⟩
        · intro hall
          obtain ⟨hv, ho⟩ := hall hlt'
          exact ⟨by omega, by omega, by omega, fun _ => ⟨hv, ho⟩⟩
    · have hge : ¬ done.toNat < len.toNat := hlt
      rw [if_neg hlt]
      refine ⟨[], rfl, by simp, fun h => absurd h hlt, ?_⟩
      unfold Consecutive
      simp
      omega

/-- The whole loop. -/
theorem ioLoop_start (hm : b.maxIo ≠ 0) (isWrite : Bool) (vaddr offset : UInt64)
    (hlen : 0 < len.toNat) : ∃ calls, b.ioLoop isWrite vaddr offset len len.toNat 0 = some calls ∧
      (∀ iov ∈ calls.flatMap NdsIoCall.transfers, ∃ start : UInt64, start.toNat < len.toNat ∧
        b.maxIo.toNat ∣ start.toNat ∧ iov = b.chunk vaddr offset len start) ∧
      b.chunk vaddr offset len 0 ∈ calls.flatMap NdsIoCall.transfers ∧
      (Consecutive vaddr.toNat (b.baseOff.toNat + offset.toNat) len.toNat
        (calls.flatMap NdsIoCall.transfers) ↔ vaddr.toNat + b.lastStart len < 2 ^ 64 ∧
          b.baseOff.toNat + offset.toNat + b.lastStart len < 2 ^ 64) := by
  obtain ⟨calls, hloop, hparts, hfirst, hcover⟩ := b.ioLoop_spec isWrite vaddr offset hm
    (Nat.sub_le len.toNat (0 : UInt64).toNat) (Nat.zero_le _) fun _ => Nat.dvd_zero _
  exact ⟨calls, hloop, hparts, hfirst (UInt64.lt_iff_toNat_lt.mpr hlen),
    hcover.trans ⟨fun h => h hlen, fun h _ => h⟩⟩

end Loop

section Requests

variable {devs : NdsDevices} {isWrite : Bool} {vaddr offset len : UInt64}

theorem mod_eq_zero_iff {x page : UInt64} : x % page = 0 ↔ page.toNat ∣ x.toNat := by
  rw [← UInt64.toNat_inj, UInt64.toNat_mod, Nat.dvd_iff_mod_eq_zero]
  rfl

theorem holds_iff {r : NdsRegion} : r.holds vaddr len = true ↔
    r.base.toNat ≤ vaddr.toNat ∧
      vaddr.toNat + len.toNat ≤ r.base.toNat + r.size.toNat := by
  unfold NdsRegion.holds
  rw [Bool.and_eq_true, Bool.and_eq_true, decide_eq_true_eq, decide_eq_true_eq, decide_eq_true_eq,
    UInt64.le_iff_toNat_le, UInt64.le_iff_toNat_le, UInt64.le_iff_toNat_le]
  by_cases hbase : r.base.toNat ≤ vaddr.toNat
  · have hoff : (vaddr - r.base).toNat = vaddr.toNat - r.base.toNat :=
      UInt64.toNat_sub_of_le _ _ hbase
    rw [hoff]
    by_cases hsize : vaddr.toNat - r.base.toNat ≤ r.size.toNat
    · have hrest : (r.size - (vaddr - r.base)).toNat =
          r.size.toNat - (vaddr.toNat - r.base.toNat) := by
        rw [UInt64.toNat_sub_of_le _ _ (by rw [UInt64.le_iff_toNat_le, hoff]; exact hsize), hoff]
      rw [hrest]
      omega
    · omega
  · omega

theorem vaddrInRegion_iff : b.vaddrInRegion devs vaddr len = true ↔
    ∃ r ∈ (devs b.dev).regions, r.base.toNat ≤ vaddr.toNat ∧
      vaddr.toNat + len.toNat ≤ r.base.toNat + r.size.toNat := by
  unfold vaddrInRegion
  rw [List.any_eq_true]
  simp only [holds_iff]

/-- A request is refused without a call, or its checks have passed and the loop makes its
calls. -/
theorem io_cases (hm : b.maxIo ≠ 0) (devs : NdsDevices) (isWrite : Bool)
    (offset len vaddr : UInt64) : ∃ r calls, b.io devs isWrite offset len vaddr =
    some (r, calls) ∧ ((∃ e, r = .error e ∧ calls = []) ∨ r = .ok () ∧ (len = 0 ∧ calls = [] ∨
      len ≠ 0 ∧ b.pageSize.toNat ∣ offset.toNat ∧ b.pageSize.toNat ∣ len.toNat ∧
        b.vaddrInRegion devs vaddr len = true ∧
        b.ioLoop isWrite vaddr offset len len.toNat 0 = some calls)) := by
  unfold io
  split_ifs with hnull hlen hpage hreg hin
  · exact ⟨_, _, rfl, .inl ⟨_, rfl, rfl⟩⟩
  · exact ⟨_, _, rfl, .inr ⟨rfl, .inl ⟨hlen, rfl⟩⟩⟩
  · exact ⟨_, _, rfl, .inl ⟨_, rfl, rfl⟩⟩
  · have hpos : 0 < len.toNat := Nat.pos_of_ne_zero fun hz => hlen (UInt64.toNat_inj.mp hz)
    obtain ⟨calls, hloop, -⟩ := b.ioLoop_start hm isWrite vaddr offset hpos
    rw [not_or, not_not, not_not, mod_eq_zero_iff, mod_eq_zero_iff] at hpage
    rw [hloop]
    exact ⟨_, calls, rfl, .inr ⟨rfl, .inr ⟨hlen, hpage.1, hpage.2, hin, rfl⟩⟩⟩
  · exact ⟨_, _, rfl, .inl ⟨_, rfl, rfl⟩⟩
  · exact ⟨_, _, rfl, .inl ⟨_, rfl, rfl⟩⟩

/-- The calls of a request that passed its checks are admissible and in order exactly if its parts
fit. -/
theorem ioAdmissible_iff (hm : b.maxIo ≠ 0) (hlen : len ≠ 0)
    (hoffset : b.pageSize.toNat ∣ offset.toNat) (hpages : b.pageSize.toNat ∣ len.toNat)
    (hin : b.vaddrInRegion devs vaddr len = true) {calls : List NdsIoCall}
    (hloop : b.ioLoop isWrite vaddr offset len len.toNat 0 = some calls) :
    b.IoAdmissible devs offset len vaddr calls ↔ b.IoFits offset len vaddr := by
  have hpos : 0 < len.toNat := Nat.pos_of_ne_zero fun hz => hlen (UInt64.toNat_inj.mp hz)
  have hmpos : 0 < b.maxIo.toNat := Nat.pos_of_ne_zero fun hz => hm (UInt64.toNat_inj.mp hz)
  obtain ⟨calls', hloop', hparts, hfirst, hcover⟩ := b.ioLoop_start hm isWrite vaddr offset hpos
  obtain rfl := Option.some.inj (hloop.symm.trans hloop')
  unfold IoAdmissible IoFits
  constructor
  · rintro ⟨hall, hcons⟩
    obtain ⟨hv, ho⟩ := hcover.mp hcons
    have hlow := b.le_lastStart (Nat.dvd_zero _) hpos
    have hchunk := hall _ hfirst
    have hoff := b.toNat_chunk_offset vaddr offset len 0
    have hzero : (0 : UInt64) < len := UInt64.lt_iff_toNat_lt.mpr hpos
    have hlength := b.toNat_chunk_length vaddr offset hzero
    have hpage := hchunk.offset
    rw [hoff.mpr (by change _ + 0 < _; omega)] at hpage
    refine .inr ⟨?_, ?_, ho, hv⟩
    · exact (Nat.dvd_add_left hoffset).mp hpage
    · have hdvd := hchunk.length
      rw [hlength] at hdvd
      by_cases hle : len.toNat ≤ b.maxIo.toNat
      · exact .inr hle
      · rw [Nat.min_eq_left (by change _ ≤ len.toNat - 0; omega)] at hdvd
        exact .inl hdvd
  · rintro (hz | ⟨hbase, hunits, ho, hv⟩)
    · exact absurd hz hlen
    refine ⟨fun iov hiov => ?_, hcover.mpr ⟨hv, ho⟩⟩
    obtain ⟨start, hlt, hdvd, rfl⟩ := hparts iov hiov
    have hstart := b.le_lastStart hdvd hlt
    have hlength := b.toNat_chunk_length vaddr offset (UInt64.lt_iff_toNat_lt.mpr hlt)
    have hoff := (b.toNat_chunk_offset vaddr offset len start).mpr (by omega)
    have haddr := (b.toNat_chunk_vaddr vaddr offset len start).mpr (by omega)
    -- A part starts and ends at a page: the limit is a number of pages, or there is one part.
    have hpage : b.pageSize.toNat ∣ start.toNat ∧
        b.pageSize.toNat ∣ min b.maxIo.toNat (len.toNat - start.toNat) := by
      rcases hunits with hunits | hone
      · have hs := hunits.trans hdvd
        refine ⟨hs, ?_⟩
        rcases min_choice b.maxIo.toNat (len.toNat - start.toNat) with hmin | hmin
        · rwa [hmin]
        · rw [hmin]
          exact Nat.dvd_sub hpages hs
      · have hz : start.toNat = 0 := Nat.eq_zero_of_dvd_of_lt hdvd (by omega)
        rw [hz, Nat.sub_zero, Nat.min_eq_right hone]
        exact ⟨Nat.dvd_zero _, hpages⟩
    obtain ⟨r, hr, hlow, hhigh⟩ := b.vaddrInRegion_iff.mp hin
    refine ⟨?_, ?_, ?_, ?_, r, hr, ?_, ?_⟩
    · rw [hoff]
      exact (hbase.add hoffset).add hpage.1
    · rw [hlength]
      exact hpage.2
    · omega
    · omega
    · omega
    · omega

theorem iovCheck_iff {iov : UmmNdsIOVec} : b.iovCheck devs iov = true ↔ iov.vaddr ≠ 0 ∧
    iov.length ≠ 0 ∧ b.pageSize.toNat ∣ iov.length.toNat ∧ b.pageSize.toNat ∣ iov.offset.toNat ∧
    iov.length.toNat ≤ b.maxIo.toNat ∧ b.vaddrInRegion devs iov.vaddr iov.length = true := by
  rw [← mod_eq_zero_iff, ← mod_eq_zero_iff, ← UInt64.le_iff_toNat_le]
  unfold iovCheck
  split_ifs with hnull hpage hle
  · simp only [false_iff]
    tauto
  · simp only [false_iff]
    tauto
  · simp only [false_iff]
    have hnot : ¬ iov.length ≤ b.maxIo := UInt64.not_le.mpr hle
    tauto
  · have hnot : iov.length ≤ b.maxIo := UInt64.not_lt.mp hle
    tauto

/-- The backend as the pool sees it. -/
def device (devs : NdsDevices) : NdsDevice where
  pageSize := b.pageSize.toNat
  maxIo := b.maxIo.toNat
  regions := (devs b.dev).regions.map fun r => (r.base.toNat, r.size.toNat)

theorem vaddrInRegion_device : b.vaddrInRegion devs vaddr len =
    ndsVaddrInRegion (b.device devs) vaddr.toNat len.toNat := by
  rw [Bool.eq_iff_iff, vaddrInRegion_iff]
  unfold ndsVaddrInRegion device
  simp only [List.any_map, List.any_eq_true, Function.comp_apply, decide_eq_true_eq]
  constructor
  · rintro ⟨r, hr, hlow, hhigh⟩
    exact ⟨r, hr, hlow, by omega, by omega⟩
  · rintro ⟨r, hr, hlow, hoff, hhigh⟩
    exact ⟨r, hr, hlow, by omega⟩

/-- The checks of an iovec are those that the pool relies on. -/
theorem iovCheck_device {iov : UmmNdsIOVec} :
    b.iovCheck devs iov = true ↔ NdsAccepts (b.device devs) iov := by
  rw [iovCheck_iff, vaddrInRegion_device, Nat.dvd_iff_mod_eq_zero, Nat.dvd_iff_mod_eq_zero]
  rfl

/-- The calls of a batch that passed its checks are admissible and in order exactly if its iovecs
fit. -/
theorem batchAdmissible_iff {gotArray : Bool} {iovs : List UmmNdsIOVec} {calls : List NdsIoCall}
    (h : b.batch devs gotArray isWrite iovs = (.ok (), calls)) :
    b.BatchAdmissible devs iovs calls ↔ b.BatchFits iovs := by
  have hcalls : calls.flatMap NdsIoCall.transfers =
      iovs.map (fun iov => { iov with offset := iov.offset + b.baseOff }) ∧
        ∀ iov ∈ iovs, b.iovCheck devs iov = true := by
    unfold batch at h
    split_ifs at h with hempty hreg hall hgot hemulate
    · obtain ⟨-, rfl⟩ := Prod.mk.inj h
      rw [hempty]
      exact ⟨rfl, by simp⟩
    · dsimp only at h
      obtain ⟨-, rfl⟩ := Prod.mk.inj h
      refine ⟨?_, List.all_eq_true.mp hall⟩
      rw [List.flatMap_map]
      exact (List.flatMap_pure_eq_map id _).trans (List.map_id _)
    · dsimp only at h
      obtain ⟨-, rfl⟩ := Prod.mk.inj h
      refine ⟨?_, List.all_eq_true.mp hall⟩
      exact List.append_nil _
    · cases (Prod.mk.inj h).1
    · cases (Prod.mk.inj h).1
    · cases (Prod.mk.inj h).1
  obtain ⟨hflat, hchecks⟩ := hcalls
  have hoffset : ∀ iov : UmmNdsIOVec, (iov.offset + b.baseOff).toNat =
      b.baseOff.toNat + iov.offset.toNat ↔ b.baseOff.toNat + iov.offset.toNat < 2 ^ 64 := by
    intro iov
    have hv := (iov.offset + b.baseOff).toNat_lt
    rw [UInt64.toNat_add] at hv ⊢
    omega
  unfold BatchAdmissible BatchFits
  rw [hflat, List.forall₂_map_right_iff, List.forall₂_same]
  constructor
  · rintro ⟨hall, hmoves⟩ iov hiov
    obtain ⟨-, -, hmoved⟩ := hmoves iov hiov
    obtain ⟨-, -, -, hpage, -⟩ := b.iovCheck_iff.mp (hchecks iov hiov)
    have hadm := (hall _ (List.mem_map_of_mem hiov)).offset
    dsimp only at hadm hmoved
    rw [hmoved] at hadm
    exact ⟨(Nat.dvd_add_left hpage).mp hadm, (hoffset iov).mp hmoved⟩
  · intro hfits
    refine ⟨fun moved hmoved => ?_, fun iov hiov =>
      ⟨rfl, rfl, (hoffset iov).mpr (hfits iov hiov).2⟩⟩
    obtain ⟨iov, hiov, rfl⟩ := List.mem_map.mp hmoved
    obtain ⟨-, hlen, hunits, hpage, hle, hin⟩ := b.iovCheck_iff.mp (hchecks iov hiov)
    obtain ⟨hbase, hlt⟩ := hfits iov hiov
    refine ⟨?_, hunits, ?_, hle, b.vaddrInRegion_iff.mp hin⟩
    · dsimp only
      rw [(hoffset iov).mpr hlt]
      exact hbase.add hpage
    · exact Nat.pos_of_ne_zero fun hz => hlen (UInt64.toNat_inj.mp hz)

end Requests

end SsdNdsBackend

theorem envU64_ne {value : Option CString} {dflt : UInt64} (h : dflt ≠ 0) :
    envU64 value dflt ≠ 0 := by
  unfold envU64
  cases value with
  | none => exact h
  | some e =>
    dsimp only
    split_ifs with hempty hzero
    · exact h
    · exact h
    · exact hzero

/-- The page sizes of the entries in use are positive. -/
def NdsDevices.Sized (devs : NdsDevices) : Prop := ∀ i, (devs i).used = true → (devs i).pageSize ≠ 0

theorem NdsDevices.Sized.update {devs : NdsDevices} (h : devs.Sized) {i : Fin ndsMaxDevices}
    {e : NdsDeviceEntry} (he : e.used = true → e.pageSize ≠ 0) :
    NdsDevices.Sized (Function.update devs i e) := by
  intro j hj
  rw [Function.update_apply] at hj ⊢
  split_ifs at hj ⊢ with hji
  · exact he hj
  · exact h j hj

theorem NdsDevices.Sized.acquire {devs devs' : NdsDevices} (h : devs.Sized) {env : NdsOpenEnv}
    {nds : UInt64} {id : UInt32} {i : Fin ndsMaxDevices} {calls : List NdsCall}
    (hacq : devs.acquire env nds id = (.ok i, calls, devs')) :
    devs'.Sized ∧ (devs' i).pageSize ≠ 0 := by
  unfold NdsDevices.acquire at hacq
  split at hacq
  next i' hi =>
    have hfound := NdsDevices.findEntry_some hi
    rw [Bool.and_eq_true] at hfound
    obtain ⟨hok, hrest⟩ := Prod.mk.inj hacq
    obtain ⟨-, rfl⟩ := Prod.mk.inj hrest
    obtain rfl := Except.ok.inj hok
    refine ⟨h.update fun _ => h _ hfound.1, ?_⟩
    rw [Function.update_self]
    exact h _ hfound.1
  next =>
    split at hacq
    next => cases (Prod.mk.inj hacq).1
    next i' hi =>
      split at hacq
      next => cases (Prod.mk.inj hacq).1
      next rpcCtx rpcDisconnect hrpc =>
        dsimp only at hacq
        obtain ⟨hok, hrest⟩ := Prod.mk.inj hacq
        obtain ⟨-, rfl⟩ := Prod.mk.inj hrest
        obtain rfl := Except.ok.inj hok
        refine ⟨h.update fun _ => envU64_ne (by decide), ?_⟩
        rw [Function.update_self]
        exact envU64_ne (by decide)

/-- A backend that is opened has a page size and a limit that are positive. -/
theorem ssdNdsOpen_sized {spec : CString} {env : NdsOpenEnv} {devs devs' : NdsDevices}
    (h : devs.Sized) {r : Except Error SsdNdsBackend} {calls : List NdsCall}
    (hopen : ssdNdsOpen spec env devs = (r, calls, devs')) :
    devs'.Sized ∧ ∀ b, r = .ok b → b.pageSize ≠ 0 ∧ b.maxIo ≠ 0 := by
  obtain ⟨e, he⟩ | ⟨b, calls', devs₁, hok, -⟩ := ssdNdsOpen_cases spec env devs
  · rw [he] at hopen
    obtain ⟨rfl, hrest⟩ := Prod.mk.inj hopen
    obtain ⟨-, rfl⟩ := Prod.mk.inj hrest
    exact ⟨h, fun b hb => by cases hb⟩
  · have hres := hopen
    rw [hok] at hres
    obtain ⟨rfl, hrest⟩ := Prod.mk.inj hres
    unfold ssdNdsOpen at hopen
    split at hopen
    next => cases (Prod.mk.inj hopen).1
    split_ifs at hopen
    · cases (Prod.mk.inj hopen).1
    · split at hopen
      next => cases (Prod.mk.inj hopen).1
      next => cases (Prod.mk.inj hopen).1
    split at hopen
    next => cases (Prod.mk.inj hopen).1
    split at hopen
    next => cases (Prod.mk.inj hopen).1
    next i calls₂ devs₂ hacq =>
      obtain ⟨hsized, hpage⟩ := h.acquire hacq
      obtain ⟨hb, hrest⟩ := Prod.mk.inj hopen
      obtain ⟨-, rfl⟩ := Prod.mk.inj hrest
      obtain rfl := Except.ok.inj hb
      refine ⟨hsized, fun b' hb' => ?_⟩
      obtain rfl := Except.ok.inj hb'
      exact ⟨hpage, envU64_ne (by decide)⟩

namespace NdsWorld

/-- The page sizes and the limits that are in use are positive. -/
structure Sized (w : NdsWorld) : Prop where
  entry : w.devs.Sized
  backend : ∀ b ∈ w.opened, b.pageSize ≠ 0 ∧ b.maxIo ≠ 0

theorem Sized.step {w w' : NdsWorld} (h : w.Sized) {e : NdsEvent} (hs : Step w e w') :
    w'.Sized := by
  obtain ⟨r, calls, hrun⟩ := hs
  cases e with
  | «open» spec env =>
    obtain rfl := (Prod.mk.inj (Prod.mk.inj (Option.some.inj hrun)).2).2
    cases hopen : ssdNdsOpen spec env w.devs with
    | mk q rest =>
      obtain ⟨calls, devs⟩ := rest
      obtain ⟨hsized, hb⟩ := ssdNdsOpen_sized h.entry hopen
      cases q with
      | error e => exact ⟨hsized, h.backend⟩
      | ok b =>
        refine ⟨hsized, fun b' hb' => ?_⟩
        rcases List.mem_append.mp hb' with hb' | hb'
        · exact h.backend b' hb'
        · obtain rfl := List.mem_singleton.mp hb'
          exact hb b' rfl
  | registerMem i devMem alignedSize =>
    obtain ⟨b, hi, heq⟩ := Option.map_eq_some_iff.mp hrun
    obtain rfl := (Prod.mk.inj (Prod.mk.inj heq).2).2
    unfold ssdNdsRegisterMem
    split_ifs
    · exact ⟨h.entry, h.backend⟩
    · exact ⟨h.entry, h.backend⟩
    · exact ⟨h.entry, h.backend⟩
    · exact ⟨h.entry, h.backend⟩
    · exact ⟨h.entry.update fun hused => h.entry _ hused, h.backend⟩
  | close i =>
    obtain ⟨b, hi, heq⟩ := Option.map_eq_some_iff.mp hrun
    obtain rfl := (Prod.mk.inj (Prod.mk.inj heq).2).2
    refine ⟨?_, fun b' hb' => h.backend b' (List.mem_of_mem_eraseIdx hb')⟩
    change (ssdNdsClose b w.devs).2.Sized
    unfold ssdNdsClose
    split_ifs with hused hlast
    · exact h.entry.update fun hgone => by cases hgone
    · exact h.entry.update fun _ => h.entry _ hused
    · exact h.entry

theorem sized_of_reach {w : NdsWorld} (h : Reach Init Step w) : w.Sized := by
  refine h.invariant (P := Sized) ?_ fun w e w' hw hs => hw.step hs
  rintro w rfl
  exact ⟨fun i hi => (by cases hi), fun b hb => (by cases hb)⟩

end NdsWorld

open NdsWorld in
/-- Every request to an open backend is refused without a call, or makes calls that are admissible
and move its range in order exactly if it fits. -/
theorem ndsIo_admissible_iff {w : NdsWorld} (h : Reach Init Step w) {b : SsdNdsBackend}
    (hb : b ∈ w.opened) :
    (∀ isWrite offset len vaddr, ∃ r calls, b.io w.devs isWrite offset len vaddr = some (r, calls) ∧
      ((∃ e, r = .error e ∧ calls = []) ∨
        r = .ok () ∧ (b.IoAdmissible w.devs offset len vaddr calls ↔ b.IoFits offset len vaddr))) ∧
    ∀ gotArray isWrite iovs calls, b.batch w.devs gotArray isWrite iovs = (.ok (), calls) →
      (b.BatchAdmissible w.devs iovs calls ↔ b.BatchFits iovs) := by
  obtain ⟨-, hm⟩ := (sized_of_reach h).backend b hb
  refine ⟨fun isWrite offset len vaddr => ?_,
    fun gotArray isWrite iovs calls hok => b.batchAdmissible_iff hok⟩
  obtain ⟨r, calls, hio, hcases⟩ := b.io_cases hm w.devs isWrite offset len vaddr
  refine ⟨r, calls, hio, ?_⟩
  rcases hcases with herr | ⟨rfl, ⟨rfl, rfl⟩ | ⟨hlen, hoffset, hpages, hin, hloop⟩⟩
  · exact .inl herr
  · refine .inr ⟨rfl, iff_of_true ⟨?_, rfl⟩ (.inl rfl)⟩
    intro iov hiov
    cases hiov
  · exact .inr ⟨rfl, b.ioAdmissible_iff hm hlen hoffset hpages hin hloop⟩

namespace NdsWorld

/-- One backend is opened, and one region is registered with it. -/
def oneRegion (spec : CString) (b : SsdNdsBackend) : NdsWorld :=
  ((init.open' spec plainOpen).2.2.registerMem b 0x100000 0x10000).2.2

theorem oneRegion_reach {spec : CString} {b : SsdNdsBackend}
    (h : (init.open' spec plainOpen).2.2.opened = [b]) : Reach Init Step (oneRegion spec b) := by
  have hopen : Step init (.open spec plainOpen) (init.open' spec plainOpen).2.2 := ⟨_, _, rfl⟩
  have hfirst : (init.open' spec plainOpen).2.2.opened[0]? = some b := by
    rw [h]
    rfl
  have hregister : Step (init.open' spec plainOpen).2.2 (.registerMem 0 0x100000 0x10000)
      (oneRegion spec b) :=
    ⟨((init.open' spec plainOpen).2.2.registerMem b 0x100000 0x10000).1,
      ((init.open' spec plainOpen).2.2.registerMem b 0x100000 0x10000).2.1,
      Option.map_eq_some_iff.mpr ⟨b, hfirst, rfl⟩⟩
  exact .next _ (.next _ (.start rfl) hopen) hregister

end NdsWorld

open NdsWorld in
/-- Two pages of device 0 are read. -/
theorem ndsIo_admissible_two_pages : ∃ calls,
    zeroBackend.io (oneRegion deviceZero zeroBackend).devs false 4096 8192 0x100000 =
      some (.ok (), calls) ∧
    zeroBackend.IoAdmissible (oneRegion deviceZero zeroBackend).devs 4096 8192 0x100000 calls := by
  have hreach : Reach Init Step (oneRegion deviceZero zeroBackend) :=
    oneRegion_reach (by decide +kernel)
  have hb : zeroBackend ∈ (oneRegion deviceZero zeroBackend).opened := by decide +kernel
  have hok : ((zeroBackend.io (oneRegion deviceZero zeroBackend).devs false 4096 8192
      0x100000).bind fun p => p.1.toOption) = some () := by
    decide +kernel
  have hfits : zeroBackend.IoFits 4096 8192 0x100000 :=
    .inr ⟨by decide, .inl (by decide), by decide, by decide⟩
  obtain ⟨r, calls, hio, ⟨e, rfl, -⟩ | ⟨rfl, hiff⟩⟩ :=
    (ndsIo_admissible_iff hreach hb).1 false 4096 8192 0x100000
  · rw [hio] at hok
    cases hok
  · exact ⟨calls, hio, hiff.mpr hfits⟩

/-- A window of device 0 that starts within a page. -/
def unalignedSpec : CString := ⟨[48, 43, 53, 49, 50], by decide⟩

open NdsWorld in
/-- The window starts at byte 512, and so does the call for its first page. -/
theorem ndsIo_unaligned :
    (init.open' unalignedSpec plainOpen).1 = .ok () ∧
    (init.open' unalignedSpec plainOpen).2.2.opened = [{ zeroBackend with baseOff := 512 }] ∧
    ({ zeroBackend with baseOff := 512 } : SsdNdsBackend).io
      (oneRegion unalignedSpec { zeroBackend with baseOff := 512 }).devs false 0 4096 0x100000 =
        some (.ok (), [.single false ⟨0x100000, 512, 4096⟩]) ∧
    ¬ ({ zeroBackend with baseOff := 512 } : SsdNdsBackend).IoAdmissible
      (oneRegion unalignedSpec { zeroBackend with baseOff := 512 }).devs 0 4096 0x100000
        [.single false ⟨0x100000, 512, 4096⟩] := by
  refine ⟨by decide +kernel, by decide +kernel, by decide +kernel, ?_⟩
  rintro ⟨hall, -⟩
  have hoffset := (hall _ List.mem_cons_self).offset
  revert hoffset
  decide

end Umm
