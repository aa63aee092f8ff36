import Umm.Transport.SsdPoolBatchChecks

/-! A batch that succeeds over file devices does what its iovecs do one by one. -/
namespace Umm
open Umm.Lib

/-- `ssd_pool_pwrite` for every iovec in turn, where all of them succeed. -/
def pwriteEach (os : OsIo) (host : Buffers) : SsdPool → List UmmNdsIOVec → Option SsdPool
  | pool, [] => some pool
  | pool, iov :: iovs =>
    match ssdPoolPwrite os pool iov.offset.toNat iov.length.toNat
        (host.read iov.vaddr.toNat iov.length.toNat) with
    | some (.ok (), pool, _) => pwriteEach os host pool iovs
    | _ => none

/-- `ssd_pool_pread` for every iovec in turn, each into its buffer. -/
def preadEach (os : OsIo) (pool : SsdPool) : Buffers → List UmmNdsIOVec → Option Buffers
  | host, [] => some host
  | host, iov :: iovs =>
    match ssdPoolPread os pool iov.offset.toNat iov.length.toNat
        (host.read iov.vaddr.toNat iov.length.toNat) with
    | some (.ok (), _, buf) => preadEach os pool (host.write iov.vaddr.toNat buf) iovs
    | _ => none

/-- The iovecs one by one, whatever group they are in. -/
def transferEach (env : BatchEnv) (isWrite : Bool) :
    List (ℕ × UmmNdsIOVec) → BatchState → Except BatchFault Unit × BatchState
  | [], st => (.ok (), st)
  | x :: xs, st =>
    match transferLoop env isWrite x.1 [x.2] st with
    | (.error e, st) => (.error e, st)
    | (.ok (), st) => transferEach env isWrite xs st

/-- Every device is a file. -/
def SsdPool.Files (pool : SsdPool) : Prop := ∀ d ∈ pool.devices, d.backend.kind = .file

namespace SsdPool

variable {pool pool' : SsdPool}

theorem Files.of_blank (hf : pool.Files) (h : pool'.blank = pool.blank) : pool'.Files := by
  intro d hd
  obtain ⟨i, hi⟩ := List.mem_iff_getElem?.mp hd
  obtain ⟨data, hi'⟩ := device_of_blank h.symm hi
  have hkind := hf _ (List.mem_of_getElem? hi')
  exact hkind

/-- The bytes of a device, found in those of the pool. -/
theorem WF.data_eq (hw : pool.WF) {i : ℕ} {d : SsdDevice} (hi : pool.devices[i]? = some d) :
    d.backend.data = slice pool.bytes d.virtualBase d.capacity := by
  have hd := (hw.backed d (List.mem_of_getElem? hi)).2
  have hs := hw.slice_device hi (show 0 + d.capacity ≤ d.capacity by omega)
  rw [Nat.add_zero] at hs
  rw [hs, ← hd, slice_self]

/-- A pool is what it is without its data, and its bytes. -/
theorem WF.ext_bytes (hw : pool.WF) (hw' : pool'.WF) (hblank : pool'.blank = pool.blank)
    (hbytes : pool'.bytes = pool.bytes) : pool' = pool := by
  have hdevices : pool'.devices = pool.devices := by
    refine List.ext_getElem? fun i => ?_
    cases hi : pool.devices[i]? with
    | none =>
      have hlen := congrArg (fun p => p.devices.length) hblank
      simp only [blank, List.length_map] at hlen
      rw [List.getElem?_eq_none_iff] at hi ⊢
      omega
    | some d =>
      obtain ⟨data, hi'⟩ := device_of_blank hblank hi
      have hdata : data = d.backend.data := by
        rw [hw.data_eq hi, ← hbytes]
        exact hw'.data_eq hi'
      rw [hi', hdata]
  obtain ⟨devices, totalCapacity, totalPages, freePages, bitmap⟩ := pool
  obtain ⟨devices', totalCapacity', totalPages', freePages', bitmap'⟩ := pool'
  simp only [blank, SsdPool.mk.injEq] at hblank ⊢
  exact ⟨hdevices, hblank.2⟩

end SsdPool

section Each

variable {env : BatchEnv} {isWrite : Bool} {dev : ℕ} {st st' : BatchState}

theorem transferLoop_cons (iov : UmmNdsIOVec) (iovs : List UmmNdsIOVec) :
    transferLoop env isWrite dev (iov :: iovs) st =
      match transferLoop env isWrite dev [iov] st with
      | (.error e, st) => (.error e, st)
      | (.ok (), st) => transferLoop env isWrite dev iovs st := by
  rw [transferLoop, transferLoop]
  cases st.pool.devices[dev]? with
  | none => rfl
  | some d =>
    dsimp only
    obtain ⟨r, st₁⟩ := st.transfer env isWrite dev d iov
    cases r with
    | error e => rfl
    | ok u => rfl

theorem transferLoop_each (iovs : List UmmNdsIOVec) :
    transferLoop env isWrite dev iovs st =
      transferEach env isWrite (iovs.map fun iov => (dev, iov)) st := by
  induction iovs generalizing st with
  | nil => rfl
  | cons iov iovs ih =>
    rw [transferLoop_cons, List.map_cons, transferEach]
    obtain ⟨r, st₁⟩ := transferLoop env isWrite dev [iov] st
    cases r with
    | error e => rfl
    | ok u => exact ih

theorem transferEach_append {xs ys : List (ℕ × UmmNdsIOVec)}
    (h : transferEach env isWrite xs st = (.ok (), st')) :
    transferEach env isWrite (xs ++ ys) st = transferEach env isWrite ys st' := by
  induction xs generalizing st with
  | nil =>
    obtain rfl := (Prod.mk.inj h).2
    rfl
  | cons x xs ih =>
    rw [transferEach] at h
    rw [List.cons_append, transferEach]
    split at h
    · cases (Prod.mk.inj h).1
    · exact ih h

theorem transferEach_like {xs : List (ℕ × UmmNdsIOVec)}
    (h : transferEach env isWrite xs st = (.ok (), st')) : st'.Like st := by
  induction xs generalizing st with
  | nil =>
    obtain rfl := (Prod.mk.inj h).2
    exact .refl _
  | cons x xs ih =>
    rw [transferEach] at h
    split at h
    · cases (Prod.mk.inj h).1
    next st₁ hone => exact (ih h).trans (transferLoop_ok hone).2

/-- Over files the groups are loops over their iovecs. -/
theorem ssdBackendBatch_files (hf : st.pool.Files) {iovs : List UmmNdsIOVec}
    (h : ssdBackendBatch env isWrite dev iovs st = (.ok (), st')) :
    transferLoop env isWrite dev iovs st = (.ok (), st') := by
  unfold ssdBackendBatch at h
  split at h
  · cases (Prod.mk.inj h).1
  next d hd =>
    split at h
    · cases (Prod.mk.inj h).1
    · rw [hf d (List.mem_of_getElem? hd)] at h
      exact h

/-- The groups, one after the other, are the iovecs in the order of the list. -/
theorem groupLoop_each (hf : st.pool.Files) {groups : List (List (ℕ × UmmNdsIOVec))}
    (hone : ∀ group ∈ groups, OneDevice group)
    (h : groupLoop env isWrite groups st = (.ok (), st')) :
    transferEach env isWrite groups.flatten st = (.ok (), st') ∧
      ∀ x ∈ groups.flatten, OnDevice st.pool x := by
  induction groups generalizing st with
  | nil => exact ⟨h, fun x hx => (by cases hx)⟩
  | cons group groups ih =>
    obtain ⟨hgroup, hgroups⟩ := List.forall_mem_cons.mp hone
    cases group with
    | nil => exact ih hf hgroups h
    | cons x group =>
      obtain ⟨dev, iov⟩ := x
      rw [groupLoop] at h
      split at h
      · cases (Prod.mk.inj h).1
      next st₁ hfirst =>
        obtain ⟨haccept, hlike⟩ := ssdBackendBatch_ok hfirst
        obtain ⟨hrest, hon⟩ := ih (hf.of_blank hlike.1) hgroups h
        have hloop := ssdBackendBatch_files hf hfirst
        have hmap : (iov :: group.map (·.2)).map (fun iov => (dev, iov)) = (dev, iov) :: group := by
          rw [List.map_cons, List.map_map]
          refine congrArg _ ((List.map_congr_left fun y hy => ?_).trans (List.map_id group))
          have hdev : y.1 = dev := hgroup y (List.mem_cons_of_mem _ hy) _ List.mem_cons_self
          exact Prod.ext hdev.symm rfl
        rw [transferLoop_each, hmap] at hloop
        refine ⟨(transferEach_append hloop).trans hrest, fun y hy => ?_⟩
        rcases List.mem_append.mp hy with hy | hy
        · obtain ⟨iov', hm, rfl⟩ := hgroup.map hy
          exact (haccept iov' hm).1
        · exact hlike.onDevice.mp (hon y hy)

end Each

section Single

variable {env : BatchEnv} {st st' : BatchState} {iov : UmmNdsIOVec} {x : ℕ × UmmNdsIOVec}
  {d : SsdDevice}

/-- Only data is written, so that what is located stays where it is. -/
theorem Located.of_blank {pool pool' : SsdPool} (hloc : Located pool iov x d)
    (h : pool'.blank = pool.blank) : ∃ d', Located pool' iov x d' := by
  obtain ⟨data, hd⟩ := SsdPool.device_of_blank h hloc.device
  exact ⟨_, hd, hloc.offset, hloc.starts, hloc.fits, hloc.nonempty, hloc.length, hloc.vaddr⟩

/-- An iovec that ends on its device ends in the pool. -/
theorem Located.inside {pool : SsdPool} (hw : pool.WF) (hloc : Located pool iov x d)
    (hon : OnDevice pool x) : x.2.offset.toNat + x.2.length.toNat ≤ d.capacity ∧
      iov.offset.toNat + iov.length.toNat ≤ pool.totalCapacity := by
  have hm := List.mem_of_getElem? hloc.device
  obtain ⟨d', hd', hin⟩ := hon
  obtain rfl : d = d' := Option.some.inj (hloc.device.symm.trans hd')
  rw [(hw.backed d hm).1] at hin
  have hend := (hw.layout.inside hm).2
  have hoff := hloc.offset
  rw [hloc.length] at hin ⊢
  exact ⟨hin, by omega⟩

theorem transferLoop_one {isWrite : Bool} {dev : ℕ} (hd : st.pool.devices[dev]? = some d)
    (h : transferLoop env isWrite dev [iov] st = (.ok (), st')) :
    st.transfer env isWrite dev d iov = (.ok (), st') := by
  rw [transferLoop, hd] at h
  dsimp only at h
  split at h
  · cases (Prod.mk.inj h).1
  next hone => exact hone.trans h

/-- One request of a batch writes what `ssd_pool_pwrite` writes. -/
theorem transfer_pwrite (os : OsIo) (hw : st.pool.WF) (hf : st.pool.Files)
    (hloc : Located st.pool iov x d) (hon : OnDevice st.pool x)
    (h : transferLoop env true x.1 [x.2] st = (.ok (), st')) :
    ssdPoolPwrite os st.pool iov.offset.toNat iov.length.toNat
        (st.host.read iov.vaddr.toNat iov.length.toNat) =
      some (.ok (), st'.pool, st.host.read iov.vaddr.toNat iov.length.toNat) ∧
    st'.pool.WF ∧ st'.pool.blank = st.pool.blank ∧ st'.host = st.host := by
  obtain ⟨hin, hend⟩ := hloc.inside hw hon
  have hm := List.mem_of_getElem? hloc.device
  obtain ⟨hcap, hdata⟩ := hw.backed d hm
  set buf := st.host.read iov.vaddr.toNat iov.length.toNat with hbuf
  have hlen : buf.length = iov.length.toNat := Buffers.length_read _ _ _
  obtain ⟨-, sb, hsb, rfl⟩ := transfer_write (transferLoop_one hloc.device h)
  rw [hloc.length, hloc.vaddr, ← hbuf] at hsb
  obtain ⟨r, n, hpart, -, -, hall⟩ := ssdBackendPwrite_part env.os x.1 (hdata.trans hcap.symm)
    (show x.2.offset.toNat + iov.length.toNat ≤ d.backend.capacity by
      rw [← hloc.length]
      omega) hlen
  rw [hsb] at hpart
  obtain ⟨rfl, rfl⟩ := Prod.mk.inj hpart
  have hwhole : slice buf 0 n = buf := by
    rw [hall rfl, ← hlen]
    exact slice_self buf
  rw [hwhole]
  rw [hloc.length, ← hlen] at hin
  have hw' : (st.pool.setBackend x.1 { d.backend with
      data := splice d.backend.data x.2.offset.toNat buf }).WF :=
    hw.setBackend hloc.device (by rw [length_splice (by omega)]; exact hdata)
  have hblank : (st.pool.setBackend x.1 { d.backend with
      data := splice d.backend.data x.2.offset.toNat buf }).blank = st.pool.blank :=
    SsdPool.blank_setBackend hloc.device
  obtain ⟨r, pool', n, hpool, hw'', hblank', -, hbytes', hok, hall'⟩ :=
    ssdPoolPwrite_inside os hw hlen hend
  obtain rfl := hok.mpr (takes_of_files hf _ _)
  rw [hall' rfl, ← hlen, List.take_length] at hbytes'
  have hsame : st.pool.setBackend x.1 { d.backend with
      data := splice d.backend.data x.2.offset.toNat buf } = pool' := by
    refine hw''.ext_bytes hw' (hblank.trans hblank'.symm) ?_
    rw [hbytes', hw.splice_device hloc.device hin, hloc.offset]
  refine ⟨?_, hw', hblank, rfl⟩
  rw [hpool, ← hsame]

/-- One request of a batch reads what `ssd_pool_pread` reads. -/
theorem transfer_pread (os : OsIo) (hw : st.pool.WF) (hf : st.pool.Files)
    (hloc : Located st.pool iov x d) (hon : OnDevice st.pool x)
    (h : transferLoop env false x.1 [x.2] st = (.ok (), st')) :
    ∃ buf, ssdPoolPread os st.pool iov.offset.toNat iov.length.toNat
        (st.host.read iov.vaddr.toNat iov.length.toNat) = some (.ok (), st.pool, buf) ∧
      st'.host = st.host.write iov.vaddr.toNat buf ∧ st'.pool = st.pool := by
  obtain ⟨hin, hend⟩ := hloc.inside hw hon
  have hm := List.mem_of_getElem? hloc.device
  obtain ⟨hcap, hdata⟩ := hw.backed d hm
  have hlen : (st.host.read iov.vaddr.toNat iov.length.toNat).length = iov.length.toNat :=
    Buffers.length_read _ _ _
  obtain ⟨-, bytes, hbytes, rfl⟩ := transfer_read (transferLoop_one hloc.device h)
  rw [hloc.length, hloc.vaddr] at hbytes
  obtain ⟨r, n, hpart, -, -, hall⟩ := ssdBackendPread_part env.os x.1 (hdata.trans hcap.symm)
    (show x.2.offset.toNat + iov.length.toNat ≤ d.backend.capacity by
      rw [← hloc.length]
      omega) hlen
  rw [hbytes] at hpart
  obtain ⟨rfl, rfl⟩ := Prod.mk.inj hpart
  obtain ⟨r, out, hpool, hok, hout⟩ := ssdPoolPread_inside os hw hlen hend
  obtain rfl := hok.mpr (takes_of_files hf _ _)
  rw [hout rfl] at hpool
  refine ⟨_, hpool, ?_, rfl⟩
  rw [hloc.length] at hin
  have hslice : (slice d.backend.data x.2.offset.toNat iov.length.toNat).length =
      iov.length.toNat := length_slice (by omega)
  rw [hall rfl, splice_self (hslice.trans hlen.symm), hloc.vaddr, hloc.offset,
    hw.slice_device hloc.device hin]

theorem transferEach_pwrite (os : OsIo) {iovs : List UmmNdsIOVec} {tmp : List (ℕ × UmmNdsIOVec)}
    (hloc : List.Forall₂ (fun iov x => ∃ d, Located st.pool iov x d) iovs tmp) (hw : st.pool.WF)
    (hf : st.pool.Files) (hon : ∀ x ∈ tmp, OnDevice st.pool x)
    (h : transferEach env true tmp st = (.ok (), st')) :
    pwriteEach os st.host st.pool iovs = some st'.pool ∧ st'.host = st.host := by
  induction tmp generalizing st iovs with
  | nil =>
    cases hloc
    obtain rfl := (Prod.mk.inj h).2
    exact ⟨rfl, rfl⟩
  | cons x tmp ih =>
    obtain ⟨iov, iovs, ⟨d, hhead⟩, htail, rfl⟩ := List.forall₂_cons_right_iff.mp hloc
    obtain ⟨honx, hon⟩ := List.forall_mem_cons.mp hon
    rw [transferEach] at h
    split at h
    · cases (Prod.mk.inj h).1
    next st₁ hone =>
      obtain ⟨hwrite, hw₁, hblank, hhost⟩ := transfer_pwrite os hw hf hhead honx hone
      have htail₁ := htail.imp fun iov x h => h.elim fun _ hl => hl.of_blank hblank
      obtain ⟨hrest, hhost'⟩ := ih htail₁ hw₁ (hf.of_blank hblank)
        (fun y hy => (hon y hy).of_blank hblank) h
      refine ⟨?_, hhost'.trans hhost⟩
      rw [pwriteEach, hwrite, ← hhost]
      exact hrest

theorem transferEach_pread (os : OsIo) {iovs : List UmmNdsIOVec} {tmp : List (ℕ × UmmNdsIOVec)}
    (hloc : List.Forall₂ (fun iov x => ∃ d, Located st.pool iov x d) iovs tmp) (hw : st.pool.WF)
    (hf : st.pool.Files) (hon : ∀ x ∈ tmp, OnDevice st.pool x)
    (h : transferEach env false tmp st = (.ok (), st')) :
    preadEach os st.pool st.host iovs = some st'.host ∧ st'.pool = st.pool := by
  induction tmp generalizing st iovs with
  | nil =>
    cases hloc
    obtain rfl := (Prod.mk.inj h).2
    exact ⟨rfl, rfl⟩
  | cons x tmp ih =>
    obtain ⟨iov, iovs, ⟨d, hhead⟩, htail, rfl⟩ := List.forall₂_cons_right_iff.mp hloc
    obtain ⟨honx, hon⟩ := List.forall_mem_cons.mp hon
    rw [transferEach] at h
    split at h
    · cases (Prod.mk.inj h).1
    next st₁ hone =>
      obtain ⟨buf, hread, hhost, hpool⟩ := transfer_pread os hw hf hhead honx hone
      rw [← hpool] at htail hw hf hon
      obtain ⟨hrest, hpool'⟩ := ih htail hw hf hon h
      refine ⟨?_, hpool'.trans hpool⟩
      rw [hhost, hpool] at hrest
      rw [preadEach, hread]
      exact hrest

end Single

/-- The iovecs of a batch that succeeds over files are answered one by one, and the array of the
caller stays as it is. -/
theorem ssdPoolBatchIo_each {env : BatchEnv} {isWrite : Bool} {st st' : BatchState}
    (hw : st.pool.WF) (hf : st.pool.Files)
    (h : ssdPoolBatchIo env isWrite st = (.ok (), st')) :
    st'.iovs = st.iovs ∧ ∃ tmp, transferEach env isWrite tmp st = (.ok (), st') ∧
      List.Forall₂ (fun iov x => ∃ d, Located st.pool iov x d) st.iovs tmp ∧
      ∀ x ∈ tmp, OnDevice st.pool x := by
  unfold ssdPoolBatchIo at h
  split_ifs at h with hempty hgot
  · obtain rfl := (Prod.mk.inj h).2
    rw [hempty]
    exact ⟨rfl, [], rfl, .nil, fun x hx => (by cases hx)⟩
  · split at h
    · cases (Prod.mk.inj h).1
    next tmp htmp =>
      obtain ⟨heach, hon⟩ := groupLoop_each hf (oneDevice_of_splitBy tmp) h
      rw [List.flatten_splitBy] at heach hon
      exact ⟨(transferEach_like heach).2.2.1, tmp, heach, checkIovs_ok hw htmp, hon⟩
  · cases (Prod.mk.inj h).1

/-- A batch over files leaves the pool, and the buffers, as its iovecs do one by one, whatever
the OS transfers at a time. -/
theorem ssdPoolBatch_eq_each {pool : SsdPool} (h : pool.Reachable)
    (hf : ∀ d ∈ pool.devices, d.backend.kind = .file) (env : BatchEnv) (os : OsIo)
    (nds : ℕ → NdsDevice) (host npu : Buffers) (iovs : List UmmNdsIOVec) :
    (∀ st', ssdPoolBatchWrite env (.start pool nds host npu iovs) = (.ok (), st') →
      pwriteEach os host pool iovs = some st'.pool ∧ st'.host = host ∧ st'.iovs = iovs) ∧
    ∀ st', ssdPoolBatchRead env (.start pool nds host npu iovs) = (.ok (), st') →
      preadEach os pool host iovs = some st'.host ∧ st'.pool = pool ∧ st'.iovs = iovs := by
  have hw : (BatchState.start pool nds host npu iovs).pool.WF := h.wf
  have hf : (BatchState.start pool nds host npu iovs).pool.Files := hf
  constructor
  · intro st' hrun
    obtain ⟨hiovs, tmp, heach, hloc, hon⟩ := ssdPoolBatchIo_each hw hf hrun
    obtain ⟨hpool, hhost⟩ := transferEach_pwrite os hloc hw hf hon heach
    exact ⟨hpool, hhost, hiovs⟩
  · intro st' hrun
    obtain ⟨hiovs, tmp, heach, hloc, hon⟩ := ssdPoolBatchIo_each hw hf hrun
    obtain ⟨hhost, hpool⟩ := transferEach_pread os hloc hw hf hon heach
    exact ⟨hhost, hpool, hiovs⟩

/-- Two writes that overlap in the first file, with one for the second file between them. -/
theorem ssdPoolBatch_eq_each_overlap :
    ∃ st', ssdPoolBatchWrite .calm (.start SsdPool.twoFiles (fun _ => ⟨4096, 4096, []⟩)
        (fun a => if a < 3 then 7 else 9) (fun _ => 0) [⟨1, 0, 2⟩, ⟨1, 4096, 1⟩, ⟨3, 1, 2⟩]) =
          (.ok (), st') ∧
      pwriteEach .whole (fun a => if a < 3 then 7 else 9) SsdPool.twoFiles
        [⟨1, 0, 2⟩, ⟨1, 4096, 1⟩, ⟨3, 1, 2⟩] = some st'.pool := by
  have heach := ssdPoolBatch_eq_each SsdPool.twoFiles_reachable (by decide) .calm .whole
    (fun _ => ⟨4096, 4096, []⟩) (fun a => if a < 3 then 7 else 9) (fun _ => 0)
    [⟨1, 0, 2⟩, ⟨1, 4096, 1⟩, ⟨3, 1, 2⟩]
  exact ⟨_, rfl, (heach.1 _ rfl).1⟩

end Umm
