import Umm.Lib.PageCache
import Umm.Transport.SsdInvalidate
import Umm.Transport.SsdTransport

/-! Processes on several nodes that open the same SSDs, in the same order, as one pool. Every node
has the pages of the mapped files in a cache of its own: a write of one node gets to another by
`umm_fence` on the one and `umm_invalidate` on the other. -/
namespace Umm
open Umm.Lib

/-- The bytes of a page, by their offset in it. -/
abbrev Page := ℕ → UInt8

/-- The nodes and the pages of the pool by their numbers. -/
abbrev PageOp := CacheOp ℕ ℕ Page

/-- The pages that hold some of `len` bytes from `a` on. -/
def touchedPages (a len : ℕ) : List ℕ :=
  if len = 0 then []
  else List.range' (a / ssdPageSize) ((a + len - 1) / ssdPageSize + 1 - a / ssdPageSize)

/-- The part of a store that falls on a page. -/
def storePage (a : ℕ) (buf : List UInt8) (p : ℕ) (page : Page) : Page := fun i =>
  let v := p * ssdPageSize + i
  if a ≤ v ∧ v < a + buf.length then buf.getD (v - a) 0 else page i

/-- What a copy to the mapped files does to the cache of a node. -/
def putOps (n a : ℕ) (buf : List UInt8) : List PageOp :=
  (touchedPages a buf.length).map fun p => .write n p (storePage a buf p)

/-- What a sync asks of the cache of a node. -/
def syncPages (pool : SsdPool) (n : ℕ) : SyncOp → List PageOp
  | .msync dev offset size =>
    (touchedPages ((pool.devices[dev]?.map SsdDevice.virtualBase).getD 0 + offset) size).map (.writeback n)
  | .fdatasync _ => []

/-- What `msync(MS_INVALIDATE)` asks of it, as POSIX has it: the cached copies go. -/
def invalPages (pool : SsdPool) (n : ℕ) (op : InvalOp) : List PageOp :=
  (touchedPages (pool.invalBase op) op.size).map (.drop n)

/-- The bytes that a process on the node finds in its mappings. -/
def seenBytes (c : Caches ℕ ℕ Page) (n total : ℕ) : List UInt8 :=
  (List.range total).map fun v => c.view n (v / ssdPageSize) (v % ssdPageSize)

/-- The pool with these bytes on its devices. -/
def SsdPool.seeing (pool : SsdPool) (bytes : List UInt8) : SsdPool :=
  { pool with
    devices := pool.devices.map fun d =>
      { d with backend := { d.backend with data := slice bytes d.virtualBase d.capacity } } }

/-! Pages. -/

theorem mem_touchedPages {a len p : ℕ} :
    p ∈ touchedPages a len ↔ ∃ v, a ≤ v ∧ v < a + len ∧ v / ssdPageSize = p := by
  unfold touchedPages
  split_ifs with h0
  · simp only [List.not_mem_nil, false_iff]
    rintro ⟨v, h1, h2, -⟩
    omega
  · rw [List.mem_range'_1]
    unfold ssdPageSize
    constructor
    · rintro ⟨h1, h2⟩
      by_cases hfirst : a ≤ p * 4096
      · exact ⟨p * 4096, by omega, by omega, by omega⟩
      · exact ⟨a, le_rfl, by omega, by omega⟩
    · rintro ⟨v, h1, h2, rfl⟩
      omega

theorem page_mem {a len v : ℕ} (h1 : a ≤ v) (h2 : v < a + len) : v / ssdPageSize ∈ touchedPages a len :=
  mem_touchedPages.mpr ⟨v, h1, h2, rfl⟩

/-! The pool that a node sees. -/

section Seeing

variable {pool : SsdPool} {bytes : List UInt8}

theorem seeing_bytes (hw : pool.WF) (hlen : bytes.length = pool.totalCapacity) :
    (pool.seeing bytes).bytes = bytes := by
  have hcut : ∀ (ds : List SsdDevice) (a b : ℕ),
      EndToEnd SsdDevice.virtualBase SsdDevice.capacity a ds b →
      ds.flatMap (fun d => slice bytes d.virtualBase d.capacity) = slice bytes a (b - a) := by
    intro ds
    induction ds with
    | nil =>
      intro a b h
      obtain rfl : a = b := h
      rw [Nat.sub_self, slice_zero]
      rfl
    | cons d ds ih =>
      intro a b h
      have hle := h.2.le
      rw [List.flatMap_cons, ih _ _ h.2, h.1, show b - a = d.capacity + (b - (a + d.capacity)) by
        omega, slice_add]
  have hall := hcut pool.devices 0 pool.totalCapacity hw.layout
  rw [Nat.sub_zero, ← hlen, slice_self] at hall
  unfold SsdPool.bytes SsdPool.seeing
  rw [List.flatMap_map, hall]

theorem mem_seeing {d : SsdDevice} (hd : d ∈ (pool.seeing bytes).devices) :
    ∃ e ∈ pool.devices, d.virtualBase = e.virtualBase ∧ d.capacity = e.capacity ∧
      d.backend.kind = e.backend.kind ∧ d.backend.capacity = e.backend.capacity ∧
      d.backend.data = slice bytes e.virtualBase e.capacity := by
  obtain ⟨e, he, rfl⟩ := List.mem_map.mp hd
  exact ⟨e, he, rfl, rfl, rfl, rfl, rfl⟩

theorem seeing_layout {a b : ℕ} {ds : List SsdDevice} :
    EndToEnd SsdDevice.virtualBase SsdDevice.capacity a (ds.map fun d =>
      { d with backend := { d.backend with data := slice bytes d.virtualBase d.capacity } }) b ↔
      EndToEnd SsdDevice.virtualBase SsdDevice.capacity a ds b := by
  induction ds generalizing a with
  | nil => exact Iff.rfl
  | cons d ds ih => exact and_congr_right fun _ => ih

theorem SsdPool.WF.seeing (hw : pool.WF) (hlen : bytes.length = pool.totalCapacity) :
    (pool.seeing bytes).WF := by
  refine ⟨seeing_layout.mpr hw.layout, ?_, ?_, hw.total_lt, hw.pages_eq, hw.pages_le, hw.padding,
    hw.counted⟩
  · intro d hd
    obtain ⟨e, he, -, hcap, -⟩ := mem_seeing hd
    rw [hcap]
    exact hw.aligned e he
  · intro d hd
    obtain ⟨e, he, -, hcap, -, hback, hdata⟩ := mem_seeing hd
    have hin := (hw.layout.inside he).2
    rw [hcap, hback, hdata, length_slice (by omega)]
    exact ⟨(hw.backed e he).1, rfl⟩

theorem seeing_capacity_pos (h : pool.Reachable) (bytes : List UInt8) :
    ∀ d ∈ (pool.seeing bytes).devices, 0 < d.capacity := by
  intro d hd
  obtain ⟨e, he, -, hcap, -⟩ := mem_seeing hd
  rw [hcap]
  exact h.capacity_pos e he

theorem seeing_mappedOn {a b : ℕ} : (pool.seeing bytes).MappedOn a b ↔ pool.MappedOn a b := by
  unfold SsdPool.MappedOn SsdPool.seeing
  simp only [List.forall_mem_map]
  exact Iff.rfl

theorem syncAll_seeing : ∀ (i : ℕ) (ds : List SsdDevice), syncAll i (ds.map fun d =>
    { d with backend := { d.backend with data := slice bytes d.virtualBase d.capacity } }) =
      syncAll i ds
  | _, [] => rfl
  | i, d :: ds => by
    have hop : syncOp i { d with backend :=
        { d.backend with data := slice bytes d.virtualBase d.capacity } } = syncOp i d := rfl
    rw [List.map_cons, syncAll, syncAll, hop, syncAll_seeing (i + 1) ds]

theorem seeing_base (i : ℕ) : ((pool.seeing bytes).devices[i]?.map SsdDevice.virtualBase) =
    pool.devices[i]?.map SsdDevice.virtualBase := by
  unfold SsdPool.seeing
  rw [List.getElem?_map, Option.map_map]
  rfl

theorem invalPages_seeing (n : ℕ) (invals : List InvalOp) :
    invals.flatMap (invalPages (pool.seeing bytes) n) = invals.flatMap (invalPages pool n) := by
  refine List.flatMap_congr fun op _ => ?_
  rw [invalPages, invalPages, SsdPool.invalBase, SsdPool.invalBase, seeing_base]

end Seeing

theorem length_seenBytes (c : Caches ℕ ℕ Page) (n total : ℕ) :
    (seenBytes c n total).length = total := by
  rw [seenBytes, List.length_map, List.length_range]

theorem getElem?_seenBytes {c : Caches ℕ ℕ Page} {n total v : ℕ} (hv : v < total) :
    (seenBytes c n total)[v]? = some (c.view n (v / ssdPageSize) (v % ssdPageSize)) := by
  rw [seenBytes, List.getElem?_map, List.getElem?_range hv]
  rfl

theorem slice_seenBytes {c : Caches ℕ ℕ Page} {n total start : ℕ} {buf : List UInt8}
    (hfit : start + buf.length ≤ total) (hseen : ∀ i (hi : i < buf.length),
      c.view n ((start + i) / ssdPageSize) ((start + i) % ssdPageSize) = buf[i]) :
    slice (seenBytes c n total) start buf.length = buf := by
  refine List.ext_getElem? fun i => ?_
  rw [getElem?_slice]
  split_ifs with hi
  · rw [getElem?_seenBytes (by omega), hseen i hi, List.getElem?_eq_getElem hi]
  · rw [List.getElem?_eq_none (by omega)]

theorem storePage_apply {a : ℕ} {buf : List UInt8} (v : ℕ) (page : Page) :
    storePage a buf (v / ssdPageSize) page (v % ssdPageSize) =
      if a ≤ v ∧ v < a + buf.length then buf.getD (v - a) 0 else page (v % ssdPageSize) := by
  simp only [storePage, Nat.div_add_mod']

/-- What the node sees after a copy, byte by byte. -/
theorem seenBytes_putOps {c : Caches ℕ ℕ Page} {n a total : ℕ} {buf : List UInt8}
    (hin : a + buf.length ≤ total) :
    seenBytes (c.run (putOps n a buf)) n total = splice (seenBytes c n total) a buf := by
  have hnodup : (touchedPages a buf.length).Nodup := by
    unfold touchedPages
    split_ifs
    · exact List.nodup_nil
    · exact List.nodup_range'
  have hlen := length_seenBytes c n total
  refine List.ext_getElem? fun v => ?_
  by_cases hv : v < total
  swap
  · rw [List.getElem?_eq_none (by rw [length_seenBytes]; omega),
      List.getElem?_eq_none (by rw [length_splice (by omega)]; omega)]
  rw [getElem?_seenBytes hv, getElem?_splice (by omega), getElem?_seenBytes hv, putOps,
    Caches.view_run_writes hnodup]
  by_cases hrange : a ≤ v ∧ v < a + buf.length
  · rw [if_pos (page_mem hrange.1 hrange.2), storePage_apply, if_pos hrange, if_pos hrange,
      List.getD_eq_getElem?_getD, List.getElem?_eq_getElem (by omega)]
    rfl
  · rw [if_neg hrange]
    split_ifs with hp
    · rw [storePage_apply, if_neg hrange]
    · rfl

/-- A range of mapped files is taken. -/
theorem takes_of_mappedOn {os : OsIo} {isWrite : Bool} {pool : SsdPool} {v len : ℕ}
    (hmapped : pool.MappedOn v (v + len)) : pool.Takes os isWrite v len := by
  intro i d hi hpiece
  have hfile : d.backend.kind = .file :=
    hmapped (max v d.virtualBase) (by omega) (by omega) d (List.mem_of_getElem? hi)
      ⟨by omega, by omega⟩
  unfold SsdBackend.Takes
  rw [hfile]
  trivial

/-- The copy of a put on what the node sees is these writes to its cache. -/
theorem ssdTransportPut_seen (os : OsIo) {c : Caches ℕ ℕ Page} {n gpa len : ℕ} {pool : SsdPool}
    {m : MemServiceCtx} {buf : List UInt8}
    (h : SsdReady m (pool.seeing (seenBytes c n pool.totalCapacity))) (hw : pool.WF)
    (hlen : 0 < len) (hb : buf.length = len) (hin : gpaToOffset gpa + len ≤ pool.totalCapacity)
    (hmapped : pool.MappedOn (gpaToOffset gpa) (gpaToOffset gpa + len)) :
    ∃ pool', ssdTransportPut os m gpa len buf = some (.ok (), m.withPool pool') ∧
      pool'.bytes = seenBytes (c.run (putOps n (gpaToOffset gpa) buf)) n pool.totalCapacity := by
  obtain ⟨r, pool', written, hput, -, -, -, hbytes, hok, hall⟩ :=
    ssdTransportPut_inside os h hlen hb hin
  obtain rfl := hok.mpr (takes_of_mappedOn (seeing_mappedOn.mpr hmapped))
  refine ⟨pool', hput, ?_⟩
  rw [hbytes, hall rfl, ← hb, List.take_length, seeing_bytes hw (length_seenBytes c n _),
    seenBytes_putOps (by omega)]

/-! Chunks, and the stretches of a run in which the calls are made. -/

/-- The page is in another chunk, which is allocated at the same time as `a`. -/
def Elsewhere (a : PoolRange) (p : ℕ) : Prop :=
  ∃ u, Reach PoolInit PoolStep u ∧ a ∈ u.live ∧ ∃ b ∈ u.live, b ≠ a ∧ b.run.Covers p

/-- A stretch of a run in which a call is made, from its begin to its end. What else happens
meanwhile, on all nodes and in any order, writes to other chunks only. -/
structure Stretch (a : PoolRange) (call ops : List PageOp) : Prop where
  made : call ⊆ ops
  elsewhere : ∀ op ∈ ops, op ∈ call ∨ ∀ n p f, op = .write n p f → Elsewhere a p

theorem poolReach_inv {u : PoolState} (h : Reach PoolInit PoolStep u) : u.Inv :=
  h.invariant (fun _ h0 => poolInit_inv h0) fun _ _ _ hi hs => poolStep_inv hi hs

/-- Chunks share no page. -/
theorem quiet_of_elsewhere {a : PoolRange} {op : PageOp} {p : ℕ}
    (h : ∀ n p f, op = .write n p f → Elsewhere a p) (hp : a.run.Covers p) : op.Quiet p := by
  cases op with
  | write n q f =>
    rintro rfl
    obtain ⟨u, hu, ha, b, hb, hne, hcover⟩ := h n q f rfl
    have : Std.Symm fun a b : PoolRange => a.run.Apart b.run := ⟨fun _ _ h => h.symm⟩
    exact (poolReach_inv hu).books.apart.forall ha hb (Ne.symm hne) q hp hcover
  | load | writeback | evict | drop => trivial

theorem Stretch.quiet {a : PoolRange} {call ops : List PageOp} (h : Stretch a call ops) {p : ℕ}
    (hp : a.run.Covers p) (hcall : ∀ op ∈ call, op.Quiet p) : ∀ op ∈ ops, op.Quiet p := by
  intro op hop
  rcases h.elsewhere op hop with hop | hother
  · exact hcall op hop
  · exact quiet_of_elsewhere hother hp

section Calls

variable {pool : SsdPool} {n p : ℕ}

theorem mem_syncPages {ops : List SyncOp} {op : PageOp}
    (hop : op ∈ ops.flatMap (syncPages pool n)) : ∃ q, op = .writeback n q := by
  obtain ⟨o, -, hop⟩ := List.mem_flatMap.mp hop
  cases o with
  | msync dev offset size =>
    obtain ⟨q, -, rfl⟩ := List.mem_map.mp hop
    exact ⟨q, rfl⟩
  | fdatasync dev => cases hop

theorem quiet_invalPages (ops : List InvalOp) :
    ∀ op ∈ ops.flatMap (invalPages pool n), op.Quiet p := by
  intro op hop
  obtain ⟨o, -, hop⟩ := List.mem_flatMap.mp hop
  obtain ⟨q, -, rfl⟩ := List.mem_map.mp hop
  trivial

/-- Every device before one that the range lies on has a sync of its own. -/
def SsdPool.SyncedOn (pool : SsdPool) (a b : ℕ) : Prop :=
  ∀ (i : ℕ) (d : SsdDevice), pool.devices[i]? = some d →
    (∃ v, a ≤ v ∧ v < b ∧ Within SsdDevice.virtualBase SsdDevice.capacity d v) →
      ∀ e ∈ pool.devices.take i, e.backend.Cached

/-- A fence that gets to a mapped file writes every page of it back. -/
theorem writeback_of_syncAll {i v : ℕ} {d : SsdDevice} (hi : pool.devices[i]? = some d)
    (hfile : d.backend.kind = .file) (hbefore : ∀ e ∈ pool.devices.take i, e.backend.Cached)
    (hd : Within SsdDevice.virtualBase SsdDevice.capacity d v) :
    .writeback n (v / ssdPageSize) ∈ (syncAll 0 pool.devices).flatMap (syncPages pool n) := by
  obtain ⟨hlow, hhigh⟩ := hd
  have hop : SyncOp.msync i 0 d.capacity ∈ syncAll 0 pool.devices := by
    refine mem_syncAll.mpr ⟨i, d, hi, ?_, hbefore⟩
    rw [syncOp, hfile, Nat.zero_add]
  refine List.mem_flatMap.mpr ⟨_, hop, List.mem_map.mpr ⟨_, page_mem ?_ ?_, rfl⟩⟩
  all_goals
    rw [hi]
    simp only [Option.map_some, Option.getD_some]
    omega

/-- An invalidation drops every page of its range. -/
theorem drop_of_invalidated {a b v : ℕ} {ops : List InvalOp} (h : pool.Invalidated a ops b)
    (ha : a ≤ v) (hb : v < b) : .drop n (v / ssdPageSize) ∈ ops.flatMap (invalPages pool n) := by
  obtain ⟨i, op, hi, hlow, hhigh⟩ := h.tiles.exists_within ha hb
  exact List.mem_flatMap.mpr ⟨op, List.mem_of_getElem? hi,
    List.mem_map.mpr ⟨_, page_mem hlow hhigh, rfl⟩⟩

end Calls

/-- What was put is read: on every byte of the range the reader has what the writer put there. -/
theorem seen_of_published {pool : SsdPool} {a : PoolRange} {c : Caches ℕ ℕ Page} {w r start : ℕ}
    {buf : List UInt8} {syncs : List SyncOp} {invals : List InvalOp}
    (hcovers : ∀ v, start ≤ v → v < start + buf.length → a.run.Covers (v / ssdPageSize))
    (hsole : ∀ p, a.run.Covers p → c.Sole w p)
    (hback : ∀ v, start ≤ v → v < start + buf.length →
      .writeback w (v / ssdPageSize) ∈ syncs.flatMap (syncPages pool w))
    (hdrop : ∀ v, start ≤ v → v < start + buf.length →
      .drop r (v / ssdPageSize) ∈ invals.flatMap (invalPages pool r))
    {written synced dropped later : List PageOp} (hwritten : Stretch a (putOps w start buf) written)
    (hsynced : Stretch a (syncs.flatMap (syncPages pool w)) synced)
    (hdropped : Stretch a (invals.flatMap (invalPages pool r)) dropped)
    (hlater : Stretch a [] later)
    (hkeep : ∀ p, a.run.Covers p → .drop w p ∉ written ∧ .drop w p ∉ synced) {i : ℕ}
    (hi : i < buf.length) :
    (c.run (written ++ synced ++ dropped ++ later)).view r ((start + i) / ssdPageSize)
      ((start + i) % ssdPageSize) = buf[i] := by
  have h1 : start ≤ start + i := Nat.le_add_right start i
  have h2 : start + i < start + buf.length := by omega
  have hp := hcovers (start + i) h1 h2
  refine (hsole _ hp).published (g := fun page : Page => page ((start + i) % ssdPageSize))
    (x := buf[i]) ?_ ?_ ?_ ?_ ?_ (hkeep _ hp) (hsynced.made (hback _ h1 h2))
    (hdropped.made (hdrop _ h1 h2))
  · intro op hop
    rcases hwritten.elsewhere op hop with hput | hother
    · obtain ⟨q, -, rfl⟩ := List.mem_map.mp hput
      by_cases hq : q = (start + i) / ssdPageSize
      · subst hq
        refine Or.inr ⟨_, rfl, fun page => ?_⟩
        rw [storePage_apply, if_pos ⟨h1, h2⟩, Nat.add_sub_cancel_left, List.getD_eq_getElem?_getD,
          List.getElem?_eq_getElem hi]
        rfl
      · exact Or.inl hq
    · exact Or.inl (quiet_of_elsewhere hother hp)
  · exact ⟨_, hwritten.made (List.mem_map.mpr ⟨_, page_mem h1 h2, rfl⟩)⟩
  · refine hsynced.quiet hp fun op hop => ?_
    obtain ⟨q, rfl⟩ := mem_syncPages hop
    trivial
  · exact hdropped.quiet hp (quiet_invalPages invals)
  · exact hlater.quiet hp fun _ h => nomatch h

/-- A chunk lies on whole pages of its own, as far as its bytes go. -/
theorem chunk_covers {u : PoolState} (hu : Reach PoolInit PoolStep u) {a : PoolRange}
    (ha : a ∈ u.live) :
    a.voffset + a.size ≤ u.pool.totalCapacity ∧
      ∀ v, a.voffset ≤ v → v < a.voffset + a.size → a.run.Covers (v / ssdPageSize) := by
  have hsound := (poolReach_inv hu).sound
  obtain ⟨k, hk⟩ := hsound.aligned a ha
  have hin := hsound.inside a ha
  refine ⟨by omega, fun v h1 h2 => ?_⟩
  unfold PoolRange.run Run.Covers ssdPageSize at *
  dsimp only at *
  omega

/-- The fence of a process writes back what its node has of a mapped file that it gets to. -/
theorem ssdTransportFence_writeback {pool : SsdPool} (h : pool.Reachable) {fails : SyncOp → Bool}
    (hsync : ∀ op, fails op = false) {m : MemServiceCtx} {bytes : List UInt8}
    (hm : (m.tiers .ssd).ssdPool = some (pool.seeing bytes))
    (hlen : bytes.length = pool.totalCapacity) {syncs : List SyncOp}
    (hfence : ssdTransportFence fails m = some syncs) {a b v : ℕ} (hin : b ≤ pool.totalCapacity)
    (hmapped : pool.MappedOn a b) (hbefore : pool.SyncedOn a b) (ha : a ≤ v) (hb : v < b) (n : ℕ) :
    .writeback n (v / ssdPageSize) ∈ syncs.flatMap (syncPages pool n) := by
  have heq := ssdTransportFence_eq hsync (h.wf.seeing hlen) (seeing_capacity_pos h bytes) hm
  obtain rfl : syncs = syncAll 0 pool.devices :=
    (Option.some.inj (hfence.symm.trans heq)).trans (syncAll_seeing 0 pool.devices)
  obtain ⟨i, d, hi, hd⟩ := h.wf.layout.exists_within (Nat.zero_le v) (by omega)
  exact writeback_of_syncAll hi (hmapped v ha hb d (List.mem_of_getElem? hi) hd)
    (hbefore i d hi ⟨v, ha, hb, hd⟩) hd

/-- Flush and invalidate. One node puts bytes into its chunk, which is a write to each page in its
cache, and then fences; another invalidates its view of the range and then reads: it reads what was
put. Every other operation, of any node and of the kernels' own loading, eviction and write-back,
may come in between at any time, as long as nobody else writes to the chunk, no other node has
changes in it from before, and the writer does not invalidate what it has not fenced. -/
theorem sharedDisks_publish (os : OsIo) {pool : SsdPool} (h : pool.Reachable)
    {syncFails : SyncOp → Bool} (hsync : ∀ op, syncFails op = false) {invalFails : InvalOp → Bool}
    (hinval : MsyncAligned invalFails) {u : PoolState} (hu : Reach PoolInit PoolStep u)
    (hsame : u.pool.totalCapacity = pool.totalCapacity) {a : PoolRange} (ha : a ∈ u.live)
    {desc : ChunkDescriptor} (htier : gpaToTier desc.baseGpa = Tier.ssd.id)
    (hbase : gpaToOffset desc.baseGpa = a.voffset) (hsize : desc.userSize = a.size)
    (hgpa : a.voffset + a.size ≤ 2 ^ 56) {offset len : UInt64} {buf out : List UInt8}
    (hbuf : buf.length = len.toNat) (hout : out.length = len.toNat)
    (hbefore : pool.SyncedOn (a.voffset + offset.toNat) (a.voffset + offset.toNat + len.toNat))
    {mw mr m : MemServiceCtx} {bytesW bytesR : List UInt8}
    (hmw : (mw.tiers .ssd).ssdPool = some (pool.seeing bytesW))
    (hlenW : bytesW.length = pool.totalCapacity)
    (hmr : (mr.tiers .ssd).ssdPool = some (pool.seeing bytesR))
    (hlenR : bytesR.length = pool.totalCapacity) {s : UmmState} (hinit : s.initialized = true)
    {syncs : List SyncOp} (hfence : ssdTransportFence syncFails mw = some syncs)
    {invals : List InvalOp}
    (hinvalidate : s.ummInvalidate invalFails mr (some desc) offset len = some (.ok (), invals))
    {w r : ℕ} {c : Caches ℕ ℕ Page} (hsole : ∀ p, a.run.Covers p → c.Sole w p)
    {written synced dropped later : List PageOp}
    (hwritten : Stretch a (putOps w (a.voffset + offset.toNat) buf) written)
    (hsynced : Stretch a (syncs.flatMap (syncPages pool w)) synced)
    (hdropped : Stretch a (invals.flatMap (invalPages pool r)) dropped)
    (hlater : Stretch a [] later)
    (hkeep : ∀ p, a.run.Covers p → .drop w p ∉ written ∧ .drop w p ∉ synced)
    (hm : SsdReady m (pool.seeing (seenBytes (c.run (written ++ synced ++ dropped ++ later)) r
      pool.totalCapacity))) :
    (∀ (c' : Caches ℕ ℕ Page) (mp : MemServiceCtx),
      SsdReady mp (pool.seeing (seenBytes c' w pool.totalCapacity)) →
      ∃ pool', ssdTransportPut os mp (u64 (desc.baseGpa + offset.toNat)) len.toNat buf =
          some (.ok (), mp.withPool pool') ∧
        pool'.bytes = seenBytes (c'.run (putOps w (a.voffset + offset.toNat) buf)) w
          pool.totalCapacity) ∧
    ssdTransportGet os m (u64 (desc.baseGpa + offset.toNat)) len.toNat out =
      some (.ok (), m, buf) := by
  have hw := h.wf
  obtain ⟨hin, hcovers⟩ := chunk_covers hu ha
  -- the invalidation succeeded, so the range is in the chunk and mapped
  obtain ⟨r', ops, he, hr, hops⟩ := ummInvalidate_spec (hw.seeing hlenR) hmr hinval hinit htier
    (by omega) (show _ ≤ pool.totalCapacity by omega) offset len
  obtain ⟨rfl, rfl⟩ := Prod.mk.inj (Option.some.inj (hinvalidate.symm.trans he))
  obtain ⟨-, hpos, hfit, -, hmapped⟩ := hr.mp rfl
  have htiles := hops rfl
  rw [seeing_mappedOn] at hmapped
  rw [hbase] at hmapped htiles
  have hoffset : gpaToOffset (u64 (desc.baseGpa + offset.toNat)) = a.voffset + offset.toNat := by
    unfold u64
    rw [gpaToOffset_eq] at hbase ⊢
    omega
  have htotal : a.voffset + offset.toNat + len.toNat ≤ pool.totalCapacity := by omega
  have hback : ∀ v, a.voffset + offset.toNat ≤ v → v < a.voffset + offset.toNat + buf.length →
      .writeback w (v / ssdPageSize) ∈ syncs.flatMap (syncPages pool w) := by
    intro v h1 h2
    exact ssdTransportFence_writeback h hsync hmw hlenW hfence htotal hmapped hbefore h1 (by omega) w
  have hdrop : ∀ v, a.voffset + offset.toNat ≤ v → v < a.voffset + offset.toNat + buf.length →
      .drop r (v / ssdPageSize) ∈ invals.flatMap (invalPages pool r) := by
    intro v h1 h2
    rw [← @invalPages_seeing pool bytesR]
    exact drop_of_invalidated htiles h1 (by omega)
  have hseen := fun i => seen_of_published (i := i)
    (fun v h1 h2 => hcovers v (by omega) (by omega)) hsole hback hdrop hwritten hsynced hdropped
    hlater hkeep
  have hread : slice (seenBytes (c.run (written ++ synced ++ dropped ++ later)) r
      pool.totalCapacity) (a.voffset + offset.toNat) len.toNat = buf := by
    rw [← hbuf]
    exact slice_seenBytes (by omega) fun i => hseen i
  rw [← hoffset] at hmapped hread htotal
  refine ⟨fun c' mp hready => ?_, ?_⟩
  · rw [← hoffset]
    exact ssdTransportPut_seen os hready hw hpos hbuf htotal hmapped
  · obtain ⟨r', out', hget, hok, hbytes⟩ := ssdTransportGet_inside os hm hpos hout htotal
    obtain rfl := hok.mpr (takes_of_mappedOn (seeing_mappedOn.mpr hmapped))
    rw [hget, hbytes rfl, seeing_bytes hw (length_seenBytes _ _ _), hread]

/-- One file with two pages. -/
def twoPageFile : SsdPool :=
  (ssdPoolAddDevice ssdPoolCreate .file (8192 : UInt64).toNat ⟨true, fun _ => 0, true⟩).2

theorem twoPageFile_reachable : twoPageFile.Reachable :=
  SsdPool.reachable_create.next (.add .file 8192 ⟨true, fun _ => 0, true⟩) (by decide)

/-- Two chunks have one page each. -/
def twoChunks : PoolState where
  pool := (ssdPoolAlloc (ssdPoolAlloc twoPageFile (4096 : UInt64).toNat).2 (4096 : UInt64).toNat).2
  live := [⟨4096, (4096 : UInt64).toNat, none⟩, ⟨0, (4096 : UInt64).toNat, none⟩]

theorem twoChunks_reach : Reach PoolInit PoolStep twoChunks := by
  have hadd : PoolStep ⟨ssdPoolCreate, []⟩ (.add .file 8192 ⟨true, fun _ => 0, true⟩)
      ⟨twoPageFile, []⟩ := .add (by decide) (Prod.ext (by decide +kernel) rfl)
  have halloc : PoolStep ⟨twoPageFile, []⟩ (.alloc 4096)
      ⟨(ssdPoolAlloc twoPageFile (4096 : UInt64).toNat).2, [⟨0, (4096 : UInt64).toNat, none⟩]⟩ :=
    .alloc (Prod.ext (by decide +kernel) rfl)
  have halloc' : PoolStep ⟨(ssdPoolAlloc twoPageFile (4096 : UInt64).toNat).2,
      [⟨0, (4096 : UInt64).toNat, none⟩]⟩ (.alloc 4096) twoChunks :=
    .alloc (Prod.ext (by decide +kernel) rfl)
  exact .next _ (.next _ (.next _ (.start .create) hadd) halloc) halloc'

theorem twoPageFile_mapped : ∀ d ∈ twoPageFile.devices, d.backend.kind = .file := by
  have hkinds : twoPageFile.devices.map (fun d => d.backend.kind) = [.file] := rfl
  intro d hd
  have hk := List.mem_map_of_mem (f := fun d : SsdDevice => d.backend.kind) hd
  rw [hkinds] at hk
  exact List.mem_singleton.mp hk

/-- A process whose mappings have these bytes. -/
def MemServiceCtx.onTwoPages (bytes : List UInt8) : MemServiceCtx := .ofPool (twoPageFile.seeing bytes)

theorem onTwoPages_ready {bytes : List UInt8} (hlen : bytes.length = twoPageFile.totalCapacity) :
    SsdReady (.onTwoPages bytes) (twoPageFile.seeing bytes) :=
  ⟨rfl, rfl, rfl, twoPageFile_reachable.wf.seeing hlen⟩

/-- Nodes 0 and 1 have the first page from before, each with a content that is out of date. -/
def staleCaches : Caches ℕ ℕ Page where
  medium _ _ := 0
  frame n p := if p = 0 ∧ n < 2 then some ⟨fun _ => n.toUInt8 + 3, false⟩ else none

/-- Node 2 writes to its own chunk, and the kernels of the others evict and load the first page. -/
def meanwhile : List PageOp := [.write 2 1 fun _ _ => 9, .evict 0 0, .load 1 0]

theorem meanwhile_stretch (call : List PageOp) :
    Stretch ⟨0, (4096 : UInt64).toNat, none⟩ call (call ++ meanwhile) := by
  refine ⟨List.subset_append_left call meanwhile, fun op hop => ?_⟩
  refine (List.mem_append.mp hop).imp_right fun hother n p f hwrite => ?_
  subst hwrite
  simp only [meanwhile, List.mem_cons, List.not_mem_nil, reduceCtorEq, or_false] at hother
  injection hother with hn hp
  subst hp
  exact ⟨twoChunks, twoChunks_reach, List.mem_cons_of_mem _ List.mem_cons_self,
    ⟨4096, (4096 : UInt64).toNat, none⟩, List.mem_cons_self, by decide, by decide⟩

/-- Node 0 puts a byte into its chunk and fences, and node 1 invalidates and reads it. -/
theorem sharedDisks_publish_twoChunks : ∃ written synced dropped : List PageOp,
    meanwhile ⊆ written ∧
    let m := MemServiceCtx.onTwoPages (seenBytes (staleCaches.run
      (written ++ synced ++ dropped ++ meanwhile)) 1 twoPageFile.totalCapacity)
    ssdTransportGet .whole m 0x0200000000000000 1 [0] = some (.ok (), m, [7]) := by
  have hlen : (List.replicate 8192 (0 : UInt8)).length = twoPageFile.totalCapacity := by
    rw [List.length_replicate]
    rfl
  have hready := onTwoPages_ready hlen
  have hfence := ssdTransportFence_eq (fun _ => rfl) hready.wf (seeing_capacity_pos
    twoPageFile_reachable _) hready.pool_eq
  obtain ⟨r, ops, hinvalidate, hr, -⟩ := ummInvalidate_spec
    hready.wf hready.pool_eq msyncUnaligned_aligned
    (show UmmState.withSsd.initialized = true from rfl)
    (show gpaToTier (ChunkDescriptor.mk 1 0x0200000000000000 4096).baseGpa = Tier.ssd.id by decide)
    (by decide) (show 0 + 4096 ≤ twoPageFile.totalCapacity by decide) 0 1
  obtain rfl := hr.mpr ⟨rfl, by decide, by decide, by decide, seeing_mappedOn.mpr
    fun v _ _ d hd _ => twoPageFile_mapped d hd⟩
  have hbefore : twoPageFile.SyncedOn (0 + (0 : UInt64).toNat) (0 + (0 : UInt64).toNat +
      (1 : UInt64).toNat) := fun i d _ _ e he =>
    .inl (twoPageFile_mapped e (List.mem_of_mem_take he))
  have hsole : ∀ p, (PoolRange.run ⟨0, (4096 : UInt64).toNat, none⟩).Covers p →
      staleCaches.Sole 0 p := by
    intro p _ n _ frame hframe
    dsimp only [staleCaches] at hframe
    split_ifs at hframe
    obtain rfl := Option.some.inj hframe
    rfl
  have hnodrop : ∀ p, .drop 0 p ∉ meanwhile := by
    intro p hp
    simp [meanwhile] at hp
  have hkeep : ∀ p, (PoolRange.run ⟨0, (4096 : UInt64).toNat, none⟩).Covers p →
      .drop 0 p ∉ putOps 0 (0 + (0 : UInt64).toNat) [7] ++ meanwhile ∧
        .drop 0 p ∉ (syncAll 0 (twoPageFile.seeing (List.replicate 8192 0)).devices).flatMap
          (syncPages twoPageFile 0) ++ meanwhile := by
    intro p _
    constructor
    · intro hdrop
      rcases List.mem_append.mp hdrop with hdrop | hdrop
      · obtain ⟨q, -, hq⟩ := List.mem_map.mp hdrop
        cases hq
      · exact hnodrop p hdrop
    · intro hdrop
      rcases List.mem_append.mp hdrop with hdrop | hdrop
      · obtain ⟨q, hq⟩ := mem_syncPages hdrop
        cases hq
      · exact hnodrop p hdrop
  exact ⟨_, _, _, List.subset_append_right _ _, (sharedDisks_publish .whole twoPageFile_reachable
    (fun _ => rfl) msyncUnaligned_aligned twoChunks_reach rfl
    (List.mem_cons_of_mem _ List.mem_cons_self) (by decide) (by decide) rfl (by decide) rfl rfl
    hbefore rfl hlen rfl hlen rfl hfence hinvalidate hsole (meanwhile_stretch _)
    (meanwhile_stretch _) (meanwhile_stretch _) (meanwhile_stretch []) hkeep
    (onTwoPages_ready (length_seenBytes _ _ _))).2⟩

end Umm
