import Umm.Transport.SsdPoolReach
import Umm.Memory.MemService

/-! The fence of the SSD transport: the pool is synced device by device, up to the first device
whose backend refuses. -/
namespace Umm
open Umm.Lib

/-- What the OS is asked to bring to a device. -/
inductive SyncOp where
  | msync (dev offset size : ℕ)
  | fdatasync (dev : ℕ)
deriving DecidableEq, Repr

/-- `ssd_backend_sync`, with the requests that it issues. Only files are mapped. -/
def ssdBackendSync (fails : SyncOp → Bool) (dev : ℕ) (sb : SsdBackend) (offset size : ℕ) :
    Except Error Unit × List SyncOp :=
  match sb.kind with
  | .direct =>
    (if fails (.fdatasync dev) then .error .transportError else .ok (), [.fdatasync dev])
  | .libnvm | .nds | .ndsMeta => (.error .invalidArg, [])
  | .file =>
    let size := if sb.capacity < u64 (offset + size) then sub64 sb.capacity offset else size
    (if fails (.msync dev offset size) then .error .transportError else .ok (),
      [.msync dev offset size])

/-- The loop of `ssd_pool_sync`, with `none` when the fuel does not suffice. -/
def ssdPoolSyncLoop (fails : SyncOp → Bool) (pool : SsdPool) (stop : ℕ) :
    ℕ → ℕ → List SyncOp → Option (Except Error Unit × List SyncOp)
  | 0, _, _ => none
  | fuel + 1, cur, ops =>
    if cur < stop then
      match ssdPoolTranslate pool cur with
      | .error e => some (.error e, ops)
      | .ok (devIdx, poff) =>
        match pool.devices[devIdx]? with
        | none => none
        | some dev =>
          let chunk := ioChunk dev cur stop
          match ssdBackendSync fails devIdx dev.backend poff chunk with
          | (.error e, issued) => some (.error e, ops ++ issued)
          | (.ok (), issued) => ssdPoolSyncLoop fails pool stop fuel (cur + chunk) (ops ++ issued)
    else some (.ok (), ops)

def ssdPoolSync (fails : SyncOp → Bool) (pool : SsdPool) (voffset size : ℕ) :
    Option (Except Error Unit × List SyncOp) :=
  if size = 0 then some (.error .invalidArg, [])
  else
    let stop := u64 (voffset + size)
    let stop := if pool.totalCapacity < stop then pool.totalCapacity else stop
    ssdPoolSyncLoop fails pool stop (size + 1) voffset []

/-- `ssd_transport_fence`: the code that the sync returns is logged and dropped. -/
def ssdTransportFence (fails : SyncOp → Bool) (m : MemServiceCtx) : Option (List SyncOp) :=
  match (m.tiers .ssd).ssdPool with
  | none => some []
  | some pool => (ssdPoolSync fails pool 0 pool.totalCapacity).map (·.2)

/-- The device is written through the page cache, or has a sync of its own. -/
def SsdBackend.Cached (sb : SsdBackend) : Prop := sb.kind = .file ∨ sb.kind = .direct

/-- Every byte of every mapped file and every direct device is synced. -/
def SsdPool.Durable (pool : SsdPool) (ops : List SyncOp) : Prop :=
  ∀ (i : ℕ) (d : SsdDevice), pool.devices[i]? = some d →
    (d.backend.kind = .file → ∀ b < d.capacity, ∃ offset size,
      .msync i offset size ∈ ops ∧ offset ≤ b ∧ b < offset + size) ∧
    (d.backend.kind = .direct → .fdatasync i ∈ ops)

/-- The sync of a whole device. -/
def syncOp (i : ℕ) (d : SsdDevice) : Option SyncOp :=
  match d.backend.kind with
  | .file => some (.msync i 0 d.capacity)
  | .direct => some (.fdatasync i)
  | .libnvm | .nds | .ndsMeta => none

/-- The syncs of the devices from index `i` on, up to the first that has none. -/
def syncAll : ℕ → List SsdDevice → List SyncOp
  | _, [] => []
  | i, d :: ds =>
    match syncOp i d with
    | none => []
    | some op => op :: syncAll (i + 1) ds

theorem syncOp_isSome {i : ℕ} {d : SsdDevice} : (∃ op, syncOp i d = some op) ↔ d.backend.Cached := by
  unfold syncOp SsdBackend.Cached
  cases d.backend.kind <;> simp

theorem mem_syncAll {i : ℕ} {ds : List SsdDevice} {op : SyncOp} :
    op ∈ syncAll i ds ↔ ∃ k d, ds[k]? = some d ∧ syncOp (i + k) d = some op ∧
      ∀ e ∈ ds.take k, e.backend.Cached := by
  induction ds generalizing i with
  | nil => simp [syncAll]
  | cons d ds ih =>
    unfold syncAll
    cases hop : syncOp i d with
    | none =>
      refine iff_of_false (by simp) ?_
      rintro ⟨k, e, hk, hop', hbefore⟩
      cases k with
      | zero =>
        obtain rfl := Option.some.inj hk
        rw [Nat.add_zero, hop] at hop'
        cases hop'
      | succ k =>
        obtain ⟨op', hop'⟩ := (@syncOp_isSome i d).mpr (hbefore d List.mem_cons_self)
        rw [hop] at hop'
        cases hop'
    | some op' =>
      dsimp only
      rw [List.mem_cons, ih]
      constructor
      · rintro (rfl | ⟨k, e, hk, hop', hbefore⟩)
        · exact ⟨0, d, rfl, hop, fun e he => (by cases he)⟩
        · refine ⟨k + 1, e, hk, ?_, ?_⟩
          · rw [← hop', Nat.add_assoc, Nat.add_comm 1 k]
          · exact List.forall_mem_cons.mpr ⟨syncOp_isSome.mp ⟨op', hop⟩, hbefore⟩
      · rintro ⟨k, e, hk, hop', hbefore⟩
        cases k with
        | zero =>
          obtain rfl := Option.some.inj hk
          exact Or.inl (Option.some.inj (hop'.symm.trans hop))
        | succ k =>
          refine Or.inr ⟨k, e, hk, ?_, (List.forall_mem_cons.mp hbefore).2⟩
          rw [← hop', Nat.add_assoc, Nat.add_comm 1 k]

theorem ssdBackendSync_whole {fails : SyncOp → Bool} (hok : ∀ op, fails op = false) {i : ℕ}
    {d : SsdDevice} (hcap : d.backend.capacity = d.capacity) (hlt : d.capacity < 2 ^ 64) :
    ssdBackendSync fails i d.backend 0 d.capacity =
      match syncOp i d with
      | none => (.error .invalidArg, [])
      | some op => (.ok (), [op]) := by
  unfold ssdBackendSync syncOp
  have hsize : (if d.backend.capacity < u64 (0 + d.capacity) then sub64 d.backend.capacity 0
      else d.capacity) = d.capacity := by
    rw [Nat.zero_add, u64_of_lt hlt, if_neg (by omega)]
  cases d.backend.kind with
  | file =>
    dsimp only
    rw [hsize, hok]
    rfl
  | direct =>
    dsimp only
    rw [hok]
    rfl
  | libnvm | nds | ndsMeta => rfl

/-- From the start of a device on, the loop syncs what `syncAll` lists. -/
theorem ssdPoolSyncLoop_eq {fails : SyncOp → Bool} (hok : ∀ op, fails op = false) {pool : SsdPool}
    (hw : pool.WF) (hpos : ∀ d ∈ pool.devices, 0 < d.capacity) {ds : List SsdDevice} :
    ∀ (pre : List SsdDevice) (fuel cur : ℕ) (ops : List SyncOp), pool.devices = pre ++ ds →
      EndToEnd SsdDevice.virtualBase SsdDevice.capacity cur ds pool.totalCapacity →
      pool.totalCapacity - cur < fuel →
      ∃ r, ssdPoolSyncLoop fails pool pool.totalCapacity fuel cur ops =
        some (r, ops ++ syncAll pre.length ds) := by
  induction ds with
  | nil =>
    intro pre fuel cur ops _ hend hfuel
    obtain ⟨fuel, rfl⟩ := Nat.exists_eq_add_of_lt hfuel
    have hstop : cur = pool.totalCapacity := hend
    rw [hstop, Nat.sub_self, Nat.zero_add, ssdPoolSyncLoop, if_neg (lt_irrefl _)]
    exact ⟨_, by rw [syncAll, List.append_nil]⟩
  | cons d ds ih =>
    intro pre fuel cur ops hdevices hend hfuel
    obtain ⟨fuel, rfl⟩ : ∃ n, fuel = n + 1 := ⟨fuel - 1, by omega⟩
    have hi : pool.devices[pre.length]? = some d := by
      rw [hdevices, List.getElem?_append_right le_rfl, Nat.sub_self]
      rfl
    have hm := List.mem_of_getElem? hi
    have hcap := hpos d hm
    have hin := (hw.layout.inside hm).2
    have htotal := hw.total_lt
    obtain ⟨hbase, hrest⟩ := hend
    obtain ⟨j, d', hj, hwithin, htranslate⟩ := ssdPoolTranslate_eq hw
      (show cur < pool.totalCapacity by omega)
    obtain rfl : j = pre.length := hw.layout.within_unique hj hi hwithin ⟨hbase.le, by omega⟩
    obtain rfl : d = d' := Option.some.inj (hi.symm.trans hj)
    have hchunk : ioChunk d cur pool.totalCapacity = d.capacity := by
      rw [ioChunk_eq (by omega) htotal (by omega), hbase]
      omega
    rw [ssdPoolSyncLoop, if_pos (by omega), htranslate]
    simp only [hi, hchunk, hbase, Nat.sub_self]
    rw [ssdBackendSync_whole hok (hw.backed d hm).1 (by omega), syncAll]
    cases hop : syncOp pre.length d with
    | none => exact ⟨_, rfl⟩
    | some op =>
      obtain ⟨r, hr⟩ := ih (pre ++ [d]) fuel (cur + d.capacity) (ops ++ [op])
        (by rw [hdevices, List.append_assoc]; rfl) hrest (by omega)
      refine ⟨r, ?_⟩
      rw [List.length_append, List.length_singleton, List.append_assoc] at hr
      exact hr

theorem ssdTransportFence_eq {fails : SyncOp → Bool} (hok : ∀ op, fails op = false) {pool : SsdPool}
    (hw : pool.WF) (hpos : ∀ d ∈ pool.devices, 0 < d.capacity) {m : MemServiceCtx}
    (hpool : (m.tiers .ssd).ssdPool = some pool) :
    ssdTransportFence fails m = some (syncAll 0 pool.devices) := by
  have htotal := hw.total_lt
  unfold ssdTransportFence ssdPoolSync
  rw [hpool]
  dsimp only
  split_ifs with hzero hpast
  · have hnone : pool.devices = [] := by
      refine List.eq_nil_iff_forall_not_mem.mpr fun d hd => ?_
      have hin := hw.layout.inside hd
      have hcap := hpos d hd
      omega
    rw [hnone]
    rfl
  · rw [Nat.zero_add, u64_of_lt htotal] at hpast
    omega
  · obtain ⟨r, hr⟩ := ssdPoolSyncLoop_eq hok hw hpos [] (pool.totalCapacity + 1) 0 [] rfl hw.layout
      (by omega)
    rw [Nat.zero_add, u64_of_lt htotal, hr]
    rfl

/-- The syncs that the loop comes to are enough when no device without one stops it early. -/
theorem durable_syncAll_iff {pool : SsdPool} (hpos : ∀ d ∈ pool.devices, 0 < d.capacity) :
    pool.Durable (syncAll 0 pool.devices) ↔
      pool.devices.Pairwise fun d e => e.backend.Cached → d.backend.Cached := by
  rw [List.pairwise_iff_getElem]
  constructor
  · intro hdurable i j hi hj hij hcached
    have hj? := List.getElem?_eq_getElem hj
    obtain ⟨hfile, hdirect⟩ := hdurable j _ hj?
    have hreached : ∃ op ∈ syncAll 0 pool.devices, ∀ k d, syncOp k d = some op → k = j := by
      rcases hcached with hk | hk
      · obtain ⟨offset, size, hop, -⟩ := hfile hk 0 (hpos _ (List.getElem_mem hj))
        refine ⟨_, hop, fun k d hop' => ?_⟩
        unfold syncOp at hop'
        split at hop' <;> simp_all
      · refine ⟨_, hdirect hk, fun k d hop' => ?_⟩
        unfold syncOp at hop'
        split at hop' <;> simp_all
    obtain ⟨op, hop, honly⟩ := hreached
    obtain ⟨k, d, hk, hop', hbefore⟩ := mem_syncAll.mp hop
    obtain rfl : k = j := by
      rw [← honly _ d hop', Nat.zero_add]
    exact hbefore _ (List.mem_take_iff_getElem.mpr ⟨i, by omega, rfl⟩)
  · intro hfirst i d hi
    obtain ⟨hlt, hd⟩ := List.getElem?_eq_some_iff.mp hi
    have hmem : ∀ op, d.backend.Cached → syncOp i d = some op → op ∈ syncAll 0 pool.devices := by
      intro op hcached hop
      refine mem_syncAll.mpr ⟨i, d, hi, by rw [Nat.zero_add]; exact hop, fun e he => ?_⟩
      obtain ⟨k, hk, rfl⟩ := List.mem_take_iff_getElem.mp he
      exact hfirst k i (by omega) hlt (by omega) (hd ▸ hcached)
    constructor
    · intro hk b hb
      refine ⟨0, d.capacity, hmem _ (Or.inl hk) ?_, Nat.zero_le b, by omega⟩
      rw [syncOp, hk]
    · intro hk
      refine hmem _ (Or.inr hk) ?_
      rw [syncOp, hk]

/-- A fence brings the whole pool to its devices if and only if no device without a page cache
stands before one that has to be synced. -/
theorem ssdTransportFence_durable_iff {pool : SsdPool} (h : pool.Reachable) {m : MemServiceCtx}
    (hpool : (m.tiers .ssd).ssdPool = some pool) {fails : SyncOp → Bool}
    (hok : ∀ op, fails op = false) :
    (∃ ops, ssdTransportFence fails m = some ops ∧ pool.Durable ops) ↔
      pool.devices.Pairwise fun d e => e.backend.Cached → d.backend.Cached := by
  rw [ssdTransportFence_eq hok h.wf h.capacity_pos hpool, ← durable_syncAll_iff h.capacity_pos]
  constructor
  · rintro ⟨ops, hops, hdurable⟩
    rwa [Option.some.inj hops]
  · exact fun hdurable => ⟨_, rfl, hdurable⟩

/-- Two devices with one page each. -/
def PoolCall.runTwo (first second : BackendKind) : SsdPool :=
  PoolCall.run (PoolCall.run ssdPoolCreate (.add first 4096 ⟨true, fun _ => 0, true⟩))
    (.add second 4096 ⟨true, fun _ => 0, true⟩)

theorem PoolCall.runTwo_reachable (first second : BackendKind) :
    (PoolCall.runTwo first second).Reachable := by
  have hadd := SsdPool.reachable_create.next (.add first 4096 ⟨true, fun _ => 0, true⟩)
    (by cases first <;> decide)
  exact hadd.next (.add second 4096 ⟨true, fun _ => 0, true⟩)
    (by cases first <;> cases second <;> decide)

/-- A memory service whose SSD tier has the pool. -/
def MemServiceCtx.ofPool (pool : SsdPool) : MemServiceCtx :=
  memServiceDirectCreateV2.setTier .ssd { TierMemCtx.offline with
    online := true, ssdPool := some pool }

/-- The mapped file is synced when it comes first, and not behind the other device. -/
theorem ssdTransportFence_durable_twoOrders :
    (∃ ops, ssdTransportFence (fun _ => false) (.ofPool (PoolCall.runTwo .file .nds)) = some ops ∧
      (PoolCall.runTwo .file .nds).Durable ops) ∧
    ¬ ∃ ops, ssdTransportFence (fun _ => false) (.ofPool (PoolCall.runTwo .nds .file)) = some ops ∧
      (PoolCall.runTwo .nds .file).Durable ops := by
  have hfile := @ssdTransportFence_durable_iff _ (PoolCall.runTwo_reachable .file .nds)
    (.ofPool (PoolCall.runTwo .file .nds)) rfl (fun _ => false) fun _ => rfl
  have hnds := @ssdTransportFence_durable_iff _ (PoolCall.runTwo_reachable .nds .file)
    (.ofPool (PoolCall.runTwo .nds .file)) rfl (fun _ => false) fun _ => rfl
  constructor
  · refine hfile.mpr (.cons (fun e he hcached => Or.inl rfl) (List.pairwise_singleton _ _))
  · intro h
    have hcached := List.rel_of_pairwise_cons (hnds.mp h) List.mem_cons_self (Or.inl rfl)
    rcases hcached with hk | hk <;> cases hk

/-- A metadata-only device before a mapped file: the fence syncs nothing. -/
theorem ssdTransportFence_stops : ∃ (pool : SsdPool) (m : MemServiceCtx), pool.Reachable ∧
    (m.tiers .ssd).ssdPool = some pool ∧
    ¬ ∃ ops, ssdTransportFence (fun _ => false) m = some ops ∧ pool.Durable ops := by
  refine ⟨PoolCall.runTwo .ndsMeta .file, .ofPool (PoolCall.runTwo .ndsMeta .file),
    PoolCall.runTwo_reachable .ndsMeta .file, rfl, ?_⟩
  rintro ⟨ops, hops, hdurable⟩
  have hnone : ssdTransportFence (fun _ => false) (.ofPool (PoolCall.runTwo .ndsMeta .file)) =
      some [] := rfl
  obtain rfl := Option.some.inj (hnone.symm.trans hops)
  obtain ⟨offset, size, hop, -⟩ := (hdurable 1 _ rfl).1 rfl 0 (by decide)
  cases hop

end Umm
