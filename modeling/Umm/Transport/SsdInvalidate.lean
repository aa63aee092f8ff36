import Umm.Client.TierRouter
import Umm.Transport.SsdFence
import Umm.Transport.SsdPoolRuns

/-! The invalidation of cached SSD pages: `umm_invalidate` goes down to one
`msync(MS_INVALIDATE)` on every device that the range touches. -/
namespace Umm
open Umm.Lib

/-- A `msync(MS_INVALIDATE)` on the mapping of a device. -/
structure InvalOp where
  dev : ℕ
  offset : ℕ
  size : ℕ
deriving DecidableEq, Repr

/-- `ssd_backend_invalidate`, with the request that it issues. A direct device is not mapped, and
has no branch of its own here as it has in `ssd_backend_sync`. -/
def ssdBackendInvalidate (fails : InvalOp → Bool) (dev : ℕ) (sb : SsdBackend) (offset size : ℕ) :
    Except Error Unit × List InvalOp :=
  match sb.kind with
  | .direct | .libnvm | .nds | .ndsMeta => (.error .invalidArg, [])
  | .file =>
    let size := if sb.capacity < u64 (offset + size) then sub64 sb.capacity offset else size
    (if fails ⟨dev, offset, size⟩ then .error .transportError else .ok (), [⟨dev, offset, size⟩])

/-- The loop of `ssd_pool_invalidate`, with `none` when the fuel does not suffice. -/
def ssdPoolInvalidateLoop (fails : InvalOp → Bool) (pool : SsdPool) (stop : ℕ) :
    ℕ → ℕ → List InvalOp → Option (Except Error Unit × List InvalOp)
  | 0, _, _ => none
  | fuel + 1, cur, ops =>
    if cur < stop then
      match ssdPoolTranslate pool cur with
      | .error e => some (.error e, ops)
      | .ok (devIdx, poff) =>
        match pool.devices[devIdx]? with
        | none => none
        | some dev =>
          let chunk := ioChunk dev cur stop
          match ssdBackendInvalidate fails devIdx dev.backend poff chunk with
          | (.error e, issued) => some (.error e, ops ++ issued)
          | (.ok (), issued) =>
            ssdPoolInvalidateLoop fails pool stop fuel (cur + chunk) (ops ++ issued)
    else some (.ok (), ops)

def ssdPoolInvalidate (fails : InvalOp → Bool) (pool : SsdPool) (voffset size : ℕ) :
    Option (Except Error Unit × List InvalOp) :=
  if size = 0 then some (.error .invalidArg, [])
  else
    let stop := u64 (voffset + size)
    let stop := if pool.totalCapacity < stop then pool.totalCapacity else stop
    ssdPoolInvalidateLoop fails pool stop (size + 1) voffset []

def ssdTransportInvalidate (fails : InvalOp → Bool) (m : MemServiceCtx) (gpa len : ℕ) :
    Option (Except Error Unit × List InvalOp) :=
  if len = 0 then some (.error .invalidArg, [])
  else
    match (m.tiers .ssd).ssdPool with
    | none => some (.error .unsupported, [])
    | some pool => ssdPoolInvalidate fails pool (gpaToOffset gpa) len

/-- `umm_invalidate`, where `m` is the memory service of the SSD transport. -/
def UmmState.ummInvalidate (fails : InvalOp → Bool) (s : UmmState) (m : MemServiceCtx)
    (desc : Option ChunkDescriptor) (offset len : UInt64) :
    Option (Except Error Unit × List InvalOp) :=
  if s.initialized = false then some (.error .notInitialized, [])
  else
    match desc with
    | none => some (.error .invalidArg, [])
    | some desc =>
      if len = 0 then some (.error .invalidArg, [])
      else if desc.userSize = 0 then some (.error .invalidArg, [])
      else if offset + len < offset ∨ desc.userSize < (offset + len).toNat then
        some (.error .invalidArg, [])
      else if gpaToTier desc.baseGpa ≠ Tier.ssd.id then some (.ok (), [])
      else if s.ssdTransport.isNone then some (.error .unsupported, [])
      else ssdTransportInvalidate fails m (u64 (desc.baseGpa + offset.toNat)) len.toNat

/-- What `msync` documents: an address that is no multiple of the page size is refused, and the
mapping of a device starts at one. -/
def MsyncAligned (fails : InvalOp → Bool) : Prop := ∀ op, fails op = true ↔ ¬ ssdPageSize ∣ op.offset

namespace SsdPool

/-- Every byte from `a` on, up to `b`, is on a device that is mapped. -/
def MappedOn (pool : SsdPool) (a b : ℕ) : Prop :=
  ∀ v, a ≤ v → v < b → ∀ d ∈ pool.devices,
    Within SsdDevice.virtualBase SsdDevice.capacity d v → d.backend.kind = .file

/-- Where in the pool a request starts. -/
def invalBase (pool : SsdPool) (op : InvalOp) : ℕ :=
  (pool.devices[op.dev]?.map SsdDevice.virtualBase).getD 0 + op.offset

/-- The requests follow each other from `a` to `b`, each of them on one mapped device. -/
structure Invalidated (pool : SsdPool) (a : ℕ) (ops : List InvalOp) (b : ℕ) : Prop where
  tiles : EndToEnd pool.invalBase InvalOp.size a ops b
  onDevice : ∀ op ∈ ops, ∃ d, pool.devices[op.dev]? = some d ∧ d.backend.kind = .file ∧
    ssdPageSize ∣ op.offset ∧ op.offset + op.size ≤ d.capacity

variable {pool : SsdPool} {fails : InvalOp → Bool}

theorem Invalidated.cons {op : InvalOp} {a b : ℕ} {ops : List InvalOp} {d : SsdDevice}
    (hdev : pool.devices[op.dev]? = some d) (hfile : d.backend.kind = .file)
    (hal : ssdPageSize ∣ op.offset) (hfit : op.offset + op.size ≤ d.capacity)
    (ha : d.virtualBase + op.offset = a) (h : pool.Invalidated (a + op.size) ops b) :
    pool.Invalidated a (op :: ops) b := by
  refine ⟨⟨?_, h.tiles⟩, fun o ho => ?_⟩
  · rw [invalBase, hdev]
    exact ha
  · rcases List.mem_cons.mp ho with rfl | ho
    · exact ⟨d, hdev, hfile, hal, hfit⟩
    · exact h.onDevice o ho

/-- The device that holds `cur` decides for its part of the range, the rest for itself. -/
theorem WF.mappedOn_split (hw : pool.WF) {i cur chunk stop : ℕ} {d : SsdDevice}
    (hi : pool.devices[i]? = some d) (hd : Within SsdDevice.virtualBase SsdDevice.capacity d cur)
    (hpos : 0 < chunk) (hstop : cur + chunk ≤ stop)
    (hend : cur + chunk ≤ d.virtualBase + d.capacity) :
    pool.MappedOn cur stop ↔ d.backend.kind = .file ∧ pool.MappedOn (cur + chunk) stop := by
  have hm := List.mem_of_getElem? hi
  constructor
  · intro h
    exact ⟨h cur le_rfl (by omega) d hm hd, fun v hv => h v (by omega)⟩
  · rintro ⟨hfile, h⟩ v hv hlt e he hin
    by_cases hlater : cur + chunk ≤ v
    · exact h v hlater hlt e he hin
    · obtain ⟨j, hj⟩ := List.mem_iff_getElem?.mp he
      have hsame : i = j := hw.layout.within_unique hi hj ⟨by have := hd.1; omega, by omega⟩ hin
      subst hsame
      obtain rfl := Option.some.inj (hi.symm.trans hj)
      exact hfile

end SsdPool

theorem ssdBackendInvalidate_file {fails : InvalOp → Bool} {i offset size : ℕ} {sb : SsdBackend}
    (hfile : sb.kind = .file) (hlt : sb.capacity < 2 ^ 64) (hfit : offset + size ≤ sb.capacity) :
    ssdBackendInvalidate fails i sb offset size =
      (if fails ⟨i, offset, size⟩ then .error .transportError else .ok (), [⟨i, offset, size⟩]) := by
  have hsize : (if sb.capacity < u64 (offset + size) then sub64 sb.capacity offset else size) =
      size := by
    rw [u64_of_lt (by omega), if_neg (by omega)]
  unfold ssdBackendInvalidate
  rw [hfile]
  dsimp only
  rw [hsize]

theorem ssdBackendInvalidate_other {fails : InvalOp → Bool} {i offset size : ℕ} {sb : SsdBackend}
    (hfile : sb.kind ≠ .file) :
    ssdBackendInvalidate fails i sb offset size = (.error .invalidArg, []) := by
  unfold ssdBackendInvalidate
  cases hk : sb.kind with
  | file => exact absurd hk hfile
  | direct | libnvm | nds | ndsMeta => rfl

section Loop

variable {pool : SsdPool} {fails : InvalOp → Bool} {stop : ℕ}

/-- The loop succeeds where the whole range is mapped and starts at a page: it can stop inside of
the range only at the end of a device, which is the end of a page. -/
theorem ssdPoolInvalidateLoop_spec (hos : MsyncAligned fails) (hw : pool.WF)
    (hs : stop ≤ pool.totalCapacity) :
    ∀ fuel cur ops, cur ≤ stop → stop - cur < fuel →
      ∃ r issued, ssdPoolInvalidateLoop fails pool stop fuel cur ops = some (r, ops ++ issued) ∧
        (r = .ok () ↔ pool.MappedOn cur stop ∧ (cur < stop → ssdPageSize ∣ cur)) ∧
        (r = .ok () → pool.Invalidated cur issued stop) := by
  intro fuel
  induction fuel with
  | zero =>
    intro cur ops _ hf
    omega
  | succ fuel ih =>
    intro cur ops hc hf
    unfold ssdPoolInvalidateLoop
    by_cases hlt : cur < stop
    swap
    · obtain rfl : cur = stop := by omega
      rw [if_neg hlt]
      refine ⟨.ok (), [], by rw [List.append_nil], ?_, fun _ => ⟨rfl, by simp⟩⟩
      refine iff_of_true rfl ⟨fun v h1 h2 => absurd h1 (by omega), fun h => absurd h hlt⟩
    obtain ⟨i, d, hi, hd, ht⟩ := ssdPoolTranslate_eq hw (hlt.trans_le hs)
    have hm := List.mem_of_getElem? hi
    obtain ⟨hpos, hle, hfit⟩ := chunk_bounds hw hs hi hlt hd
    have hcap := (hw.backed d hm).1
    have hin := (hw.layout.inside hm).2
    have htotal := hw.total_lt
    have hbase := hw.base_dvd hm
    have hchunk := ioChunk_eq (d := d) (by omega) (by omega) hlt
    set n := ioChunk d cur stop with hn
    have hend : cur + n ≤ d.virtualBase + d.capacity := by
      have := hd.1
      omega
    rw [if_pos hlt, ht]
    simp only [hi, ← hn]
    rw [hw.mappedOn_split hi hd hpos hle hend]
    by_cases hfile : d.backend.kind = .file
    swap
    · rw [ssdBackendInvalidate_other hfile]
      refine ⟨.error .invalidArg, [], rfl, ?_, fun h => nomatch h⟩
      exact iff_of_false (fun h => nomatch h) fun h => hfile h.1.1
    rw [ssdBackendInvalidate_file hfile (by omega) (by omega)]
    have haligned : ssdPageSize ∣ cur - d.virtualBase ↔ ssdPageSize ∣ cur :=
      ⟨fun h => by simpa [Nat.sub_add_cancel hd.1] using Nat.dvd_add h hbase,
        fun h => Nat.dvd_sub h hbase⟩
    by_cases hal : ssdPageSize ∣ cur
    swap
    · rw [if_pos ((hos _).mpr fun h => hal (haligned.mp h))]
      refine ⟨.error .transportError, _, rfl, ?_, fun h => nomatch h⟩
      exact iff_of_false (fun h => nomatch h) fun h => hal (h.2 hlt)
    rw [if_neg fun h => (hos _).mp h (haligned.mpr hal)]
    obtain ⟨r, issued, he, hr, hok⟩ := ih (cur + n) (ops ++ [⟨i, cur - d.virtualBase, n⟩]) hle
      (by omega)
    refine ⟨r, ⟨i, cur - d.virtualBase, n⟩ :: issued, ?_, ?_, fun h => ?_⟩
    · dsimp only
      rw [he, List.append_assoc]
      rfl
    · have hnext : cur + n < stop → ssdPageSize ∣ cur + n := by
        intro hbefore
        rw [show cur + n = d.virtualBase + d.capacity by omega]
        exact Nat.dvd_add hbase (hw.aligned d hm)
      rw [hr]
      exact ⟨fun h => ⟨⟨hfile, h.1⟩, fun _ => hal⟩, fun h => ⟨h.1.2, hnext⟩⟩
    · exact (hok h).cons hi hfile (haligned.mpr hal) (by omega) (Nat.add_sub_cancel' hd.1)

theorem ssdPoolInvalidate_spec (hos : MsyncAligned fails) (hw : pool.WF) {voffset size : ℕ}
    (hsize : 0 < size) (hin : voffset + size ≤ pool.totalCapacity) :
    ∃ r ops, ssdPoolInvalidate fails pool voffset size = some (r, ops) ∧
      (r = .ok () ↔ pool.MappedOn voffset (voffset + size) ∧ ssdPageSize ∣ voffset) ∧
      (r = .ok () → pool.Invalidated voffset ops (voffset + size)) := by
  have htotal := hw.total_lt
  unfold ssdPoolInvalidate
  rw [if_neg (by omega), u64_of_lt (by omega)]
  dsimp only
  rw [if_neg (by omega)]
  obtain ⟨r, ops, he, hr, hok⟩ := ssdPoolInvalidateLoop_spec hos hw hin (size + 1) voffset []
    (by omega) (by omega)
  refine ⟨r, ops, he, ?_, hok⟩
  rw [hr]
  exact and_congr_right fun _ => ⟨fun h => h (by omega), fun h _ => h⟩

end Loop

/-- The checks of `umm_invalidate` on an SSD chunk. -/
theorem ummInvalidate_checks {fails : InvalOp → Bool} {s : UmmState} {m : MemServiceCtx}
    (hinit : s.initialized = true) {desc : ChunkDescriptor}
    (htier : gpaToTier desc.baseGpa = Tier.ssd.id) (hsize : desc.userSize < 2 ^ 64)
    (offset len : UInt64) :
    s.ummInvalidate fails m (some desc) offset len =
      if 0 < len.toNat ∧ offset.toNat + len.toNat ≤ desc.userSize then
        if s.ssdTransport.isNone then some (.error .unsupported, [])
        else ssdTransportInvalidate fails m (u64 (desc.baseGpa + offset.toNat)) len.toNat
      else some (.error .invalidArg, []) := by
  have hlen0 : len = 0 ↔ ¬ 0 < len.toNat := by
    rw [← UInt64.toNat_inj]
    simp
  have hcheck : (desc.userSize = 0 ∨ offset + len < offset ∨
      desc.userSize < (offset + len).toNat) ∨ ¬ 0 < len.toNat ↔
      ¬ (0 < len.toNat ∧ offset.toNat + len.toNat ≤ desc.userSize) := by
    rw [UInt64.lt_iff_toNat_lt, UInt64.toNat_add]
    have := offset.toNat_lt
    have := len.toNat_lt
    omega
  unfold UmmState.ummInvalidate
  rw [if_neg (by rw [hinit]; decide)]
  dsimp only
  by_cases hok : 0 < len.toNat ∧ offset.toNat + len.toNat ≤ desc.userSize
  · have hpass := mt hcheck.mp (not_not.mpr hok)
    push Not at hpass
    rw [if_neg fun h => hlen0.mp h hok.1, if_neg hpass.1.1,
      if_neg (not_or.mpr ⟨hpass.1.2.1, not_lt.mpr hpass.1.2.2⟩),
      if_neg (not_not.mpr htier), if_pos hok]
  · rw [if_neg hok]
    split_ifs with h1 h2 h3
    · rfl
    · rfl
    · rfl
    all_goals exact absurd (hcheck.mpr hok) (by tauto)

theorem ummInvalidate_spec {pool : SsdPool} (hw : pool.WF) {m : MemServiceCtx}
    (hpool : (m.tiers .ssd).ssdPool = some pool) {fails : InvalOp → Bool}
    (hos : MsyncAligned fails) {s : UmmState} (hinit : s.initialized = true)
    {desc : ChunkDescriptor} (htier : gpaToTier desc.baseGpa = Tier.ssd.id)
    (hgpa : gpaToOffset desc.baseGpa + desc.userSize ≤ 2 ^ 56)
    (hin : gpaToOffset desc.baseGpa + desc.userSize ≤ pool.totalCapacity) (offset len : UInt64) :
    ∃ r ops, s.ummInvalidate fails m (some desc) offset len = some (r, ops) ∧
      (r = .ok () ↔ s.ssdTransport.isSome ∧ 0 < len.toNat ∧
        offset.toNat + len.toNat ≤ desc.userSize ∧
        ssdPageSize ∣ gpaToOffset desc.baseGpa + offset.toNat ∧
        pool.MappedOn (gpaToOffset desc.baseGpa + offset.toNat)
          (gpaToOffset desc.baseGpa + offset.toNat + len.toNat)) ∧
      (r = .ok () → pool.Invalidated (gpaToOffset desc.baseGpa + offset.toNat) ops
        (gpaToOffset desc.baseGpa + offset.toNat + len.toNat)) := by
  rw [ummInvalidate_checks hinit htier (by omega)]
  by_cases hok : 0 < len.toNat ∧ offset.toNat + len.toNat ≤ desc.userSize
  swap
  · rw [if_neg hok]
    exact ⟨_, _, rfl, iff_of_false (fun h => nomatch h) fun h => hok ⟨h.2.1, h.2.2.1⟩,
      fun h => nomatch h⟩
  rw [if_pos hok]
  cases htransport : s.ssdTransport with
  | none =>
    refine ⟨_, _, rfl, iff_of_false (fun h => nomatch h) fun h => ?_, fun h => nomatch h⟩
    exact absurd h.1 (by decide)
  | some transport =>
    have hoffset : gpaToOffset (u64 (desc.baseGpa + offset.toNat)) =
        gpaToOffset desc.baseGpa + offset.toNat := by
      unfold u64
      rw [gpaToOffset_eq] at hgpa ⊢
      rw [gpaToOffset_eq]
      omega
    obtain ⟨r, ops, he, hr, hops⟩ := ssdPoolInvalidate_spec hos hw hok.1
      (show gpaToOffset desc.baseGpa + offset.toNat + len.toNat ≤ pool.totalCapacity by omega)
    refine ⟨r, ops, ?_, ?_, hops⟩
    · unfold ssdTransportInvalidate
      rw [if_neg (by simp), if_neg (by omega), hpool]
      dsimp only
      rw [hoffset, he]
    · rw [hr]
      exact ⟨fun h => ⟨rfl, hok.1, hok.2, h.2, h.1⟩, fun h => ⟨h.2.2.2.2, h.2.2.2.1⟩⟩

/-- On a chunk of the pool, an invalidation succeeds exactly where the SSD transport is there, the
range is not empty and inside of the chunk, it starts at a page, and all of it is mapped; and then
every byte of the range is dropped from the cache, once, and nothing else is. -/
theorem ummInvalidate_exact {pool : SsdPool} (h : pool.Reachable) {m : MemServiceCtx}
    (hpool : (m.tiers .ssd).ssdPool = some pool) {fails : InvalOp → Bool}
    (hos : MsyncAligned fails) {s : UmmState} (hinit : s.initialized = true)
    {desc : ChunkDescriptor} (htier : gpaToTier desc.baseGpa = Tier.ssd.id)
    (hgpa : gpaToOffset desc.baseGpa + desc.userSize ≤ 2 ^ 56)
    (hin : gpaToOffset desc.baseGpa + desc.userSize ≤ pool.totalCapacity) (offset len : UInt64) :
    ∃ r ops, s.ummInvalidate fails m (some desc) offset len = some (r, ops) ∧
      (r = .ok () ↔ s.ssdTransport.isSome ∧ 0 < len.toNat ∧
        offset.toNat + len.toNat ≤ desc.userSize ∧
        ssdPageSize ∣ gpaToOffset desc.baseGpa + offset.toNat ∧
        pool.MappedOn (gpaToOffset desc.baseGpa + offset.toNat)
          (gpaToOffset desc.baseGpa + offset.toNat + len.toNat)) ∧
      (r = .ok () → pool.Invalidated (gpaToOffset desc.baseGpa + offset.toNat) ops
        (gpaToOffset desc.baseGpa + offset.toNat + len.toNat)) :=
  ummInvalidate_spec h.wf hpool hos hinit htier hgpa hin offset len

/-- The OS that refuses unaligned addresses and nothing else. -/
def msyncUnaligned (op : InvalOp) : Bool := ¬ ssdPageSize ∣ op.offset

theorem msyncUnaligned_aligned : MsyncAligned msyncUnaligned := fun op => by
  simp [msyncUnaligned]

/-- A client that has been initialized with SSD devices. -/
def UmmState.withSsd : UmmState :=
  { UmmState.fresh with initialized := true, ssdTransport := some (.multi []) }

/-- A chunk of two pages, at the start of a pool. -/
def twoPageChunk : ChunkDescriptor := ⟨1, 0x0200000000000000, 8192⟩

/-- Where the second page is on a device that is not mapped, what is on the first can be dropped,
from its start. -/
theorem ummInvalidate_exact_twoDevices :
    (∃ ops, UmmState.withSsd.ummInvalidate msyncUnaligned (.ofPool (PoolCall.runTwo .file .nds))
      (some twoPageChunk) 0 100 = some (.ok (), ops)) ∧
    (¬ ∃ ops, UmmState.withSsd.ummInvalidate msyncUnaligned (.ofPool (PoolCall.runTwo .file .nds))
      (some twoPageChunk) 8 100 = some (.ok (), ops)) ∧
    ¬ ∃ ops, UmmState.withSsd.ummInvalidate msyncUnaligned (.ofPool (PoolCall.runTwo .file .nds))
      (some twoPageChunk) 0 4097 = some (.ok (), ops) := by
  have hdevs : (PoolCall.runTwo .file .nds).devices.map
      (fun d => (d.virtualBase, d.capacity, d.backend.kind)) =
      [(0, 4096, .file), (4096, 4096, .nds)] := rfl
  have hrun := fun offset len => ummInvalidate_exact (PoolCall.runTwo_reachable .file .nds)
    (show ((MemServiceCtx.ofPool _).tiers .ssd).ssdPool = some _ from rfl) msyncUnaligned_aligned
    (show UmmState.withSsd.initialized = true from rfl)
    (show gpaToTier twoPageChunk.baseGpa = Tier.ssd.id by decide) (by decide) (by decide) offset len
  refine ⟨?_, ?_, ?_⟩
  · obtain ⟨r, ops, he, hr, -⟩ := hrun 0 100
    refine ⟨ops, he.trans (congrArg (fun r => some (r, ops)) (hr.mpr ⟨rfl, ?_, ?_, ?_, ?_⟩))⟩
    · decide
    · decide
    · decide
    · intro v _ hv d hd hin
      have hmem := List.mem_map_of_mem (f := fun d => (d.virtualBase, d.capacity, d.backend.kind)) hd
      rw [hdevs] at hmem
      have hlt : v < 100 := hv
      simp only [List.mem_cons, Prod.mk.injEq, List.not_mem_nil, or_false] at hmem
      rcases hmem with ⟨-, -, hk⟩ | ⟨hbase, -, -⟩
      · exact hk
      · have := hin.1
        omega
  · obtain ⟨r, ops, he, hr, -⟩ := hrun 8 100
    rintro ⟨ops', he'⟩
    obtain ⟨rfl, -⟩ := Prod.mk.inj (Option.some.inj (he.symm.trans he'))
    exact absurd (hr.mp rfl).2.2.2.1 (by decide)
  · obtain ⟨r, ops, he, hr, -⟩ := hrun 0 4097
    rintro ⟨ops', he'⟩
    obtain ⟨rfl, -⟩ := Prod.mk.inj (Option.some.inj (he.symm.trans he'))
    have hsecond : ((PoolCall.runTwo .file .nds).devices.getLast (by decide)).backend.kind = .file :=
      (hr.mp rfl).2.2.2.2 4096 (by decide) (by decide) _ (List.getLast_mem _)
        ⟨by decide, by decide⟩
    cases hsecond

end Umm
