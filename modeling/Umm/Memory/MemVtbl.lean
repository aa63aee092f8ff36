import Umm.Memory.MemServiceSteps
import Umm.Protocol.Mem

/-! The function table of a memory service as the RPC handler calls it, and the table of the
direct service. -/
namespace Umm
open Umm.Lib Proto

/-- The entries that the handler calls; `none` is a NULL entry. -/
structure MemoryServiceVtbl (σ : Type) where
  allocLocal : σ → UInt64 → Except Error UInt64 × σ
  freeLocal : σ → UInt64 → UInt64 → Except Error Unit × σ
  getStats : σ → Except Error MemStatsResp × σ
  getTopology : Option (σ → Except Error Proto.StorageTopology)
  allocOnDevice : Option (σ → UInt8 → UInt32 → UInt64 → Except Error UInt64 × σ)
  allocTiered : Option (σ → UInt8 → UInt64 → Except Error UInt64 × σ)
  freeTiered : Option (σ → UInt8 → UInt64 → UInt64 → Except Error Unit × σ)
  /-- Offset and length, and the bytes read; the outer `none` is a call that never returns. -/
  ssdRead : Option (σ → UInt64 → UInt64 → Option (Except Error (List UInt8) × σ))
  ssdWrite : Option (σ → UInt64 → List UInt8 → Option (Except Error Unit × σ))
  /-- The buffer for the bytes read has the size that was asked for. -/
  length_ssdRead : ∀ read ∈ ssdRead, ∀ ctx offset len bytes ctx',
    read ctx offset len = some (.ok bytes, ctx') → bytes.length = len.toNat

def ssdPoolGetUsage (pool : SsdPool) : ℕ × ℕ :=
  (u64 (pool.totalPages * ssdPageSize), u64 (pool.freePages * ssdPageSize))

/-- Total, used and free bytes. -/
def memStats (total free : ℕ) : MemStatsResp :=
  ⟨UInt64.ofNat total, UInt64.ofNat (sub64 total free), UInt64.ofNat free⟩

def memsvcGetTierStats (m : MemServiceCtx) (tier : Tier) : Except Error MemStatsResp :=
  let t := m.tiers tier
  match t.online, t.allocator with
  | true, some ba =>
    match tier, t.ssdPool with
    | .ssd, some pool =>
      let usage := ssdPoolGetUsage pool
      .ok (memStats usage.1 usage.2)
    | _, _ => .ok (memStats t.totalSize (u64 (ba.freePages * baDefaultPageSize)))
  | _, _ => .error .notInitialized

/-- A call for the tier with this identifier, after `tier_is_valid`. -/
def onTier {α : Type} (m : MemServiceCtx) (tier : UInt8)
    (f : Tier → Except Error α × MemServiceCtx) : Except Error α × MemServiceCtx :=
  match Tier.ofId tier.toNat with
  | none => (.error .invalidArg, m)
  | some tier => f tier

/-- An offset in the type of the interface. -/
def offsetOut (r : Except Error ℕ × MemServiceCtx) : Except Error UInt64 × MemServiceCtx :=
  (r.1.map UInt64.ofNat, r.2)

/-- What the world answers while a call of the service runs. -/
structure MemEnv where
  os : OsIo
  backing : Backing
  /-- The bytes of a fresh buffer. -/
  heap : ℕ → UInt8
  /-- `get_topology`, which reads device paths that no other function uses. -/
  topology : MemServiceCtx → Except Error Proto.StorageTopology

section Length

variable {os : OsIo}

private theorem length_preadLoop {dev offset len : ℕ} {data : List UInt8} :
    ∀ done buf, len ≤ buf.length →
      (preadLoop os dev data offset len done buf).length = buf.length := by
  intro done buf hb
  fun_induction preadLoop os dev data offset len done buf with
  | case1 done buf hlt n ih =>
    have hn : n ≤ len - done := os.le dev (offset + done) (len - done)
    have hs : (slice data (offset + done) n).length ≤ n := by simp [slice]
    have hl : (splice buf done (slice data (offset + done) n)).length = buf.length :=
      length_splice (by omega)
    rw [ih (by omega), hl]
  | case2 => rfl

private theorem length_ssdBackendPread (os : OsIo) (dev offset : ℕ) (sb : SsdBackend) {len : ℕ}
    {buf : List UInt8} (hb : len ≤ buf.length) :
    (ssdBackendPread os dev sb offset len buf).2.length = buf.length := by
  have hpart : ∀ n ≤ len, (splice buf 0 (slice sb.data offset n)).length = buf.length := by
    intro n hn
    have hs : (slice sb.data offset n).length ≤ n := List.length_take_le _ _
    exact length_splice (by omega)
  unfold ssdBackendPread
  split_ifs
  · rfl
  cases sb.kind with
  | file => exact length_preadLoop 0 buf hb
  | direct => exact hpart _ SsdBackend.io_part.1
  | libnvm => exact hpart _ SsdBackend.io_part.1
  | nds => exact hpart _ SsdBackend.io_part.1
  | ndsMeta => exact hpart _ SsdBackend.io_part.1

private theorem translateLoop_ok {voffset : ℕ} :
    ∀ (ds : List SsdDevice) (i j poff : ℕ), translateLoop voffset ds i = .ok (j, poff) →
      ∃ k d, j = i + k ∧ ds[k]? = some d ∧ voffset < u64 (d.virtualBase + d.capacity) := by
  intro ds
  induction ds with
  | nil =>
    intro i j poff h
    cases h
  | cons x xs ih =>
    intro i j poff h
    unfold translateLoop at h
    split_ifs at h with hx
    · obtain ⟨rfl, -⟩ := Prod.mk.inj (Except.ok.inj h)
      exact ⟨0, x, rfl, rfl, hx.2⟩
    · obtain ⟨k, d, rfl, hk, hd⟩ := ih (i + 1) j poff h
      exact ⟨k + 1, d, by omega, hk, hd⟩

/-- A chunk does not lead past the end of the request. -/
private theorem ioChunk_le {d : SsdDevice} {cur stop : ℕ}
    (hd : cur < u64 (d.virtualBase + d.capacity)) (hlt : cur < stop) :
    cur + ioChunk d cur stop ≤ stop := by
  have hu : u64 (cur + (stop - cur)) ≤ cur + (stop - cur) := Nat.mod_le _ _
  unfold ioChunk
  dsimp only
  split_ifs <;> omega

/-- Reading never changes the size of the buffer. -/
theorem length_ssdPoolIoLoop {stop : ℕ} :
    ∀ fuel cur done pool buf r pool' buf', done + (stop - cur) ≤ buf.length →
      ssdPoolIoLoop os false stop fuel cur done pool buf = some (r, pool', buf') →
      buf'.length = buf.length := by
  intro fuel
  induction fuel with
  | zero =>
    intro cur done pool buf r pool' buf' _ h
    cases h
  | succ fuel ih =>
    intro cur done pool buf r pool' buf' hb h
    unfold ssdPoolIoLoop at h
    by_cases hlt : cur < stop
    · rw [if_pos hlt] at h
      cases ht : ssdPoolTranslate pool cur with
      | error e =>
        simp only [ht, Option.some.injEq, Prod.mk.injEq] at h
        rw [h.2.2]
      | ok p =>
        obtain ⟨i, poff⟩ := p
        have hloop : translateLoop cur pool.devices 0 = .ok (i, poff) := by
          unfold ssdPoolTranslate at ht
          split_ifs at ht
          exact ht
        obtain ⟨k, d, rfl, hk, hd⟩ := translateLoop_ok _ _ _ _ hloop
        rw [Nat.zero_add] at ht
        have hchunk := ioChunk_le hd hlt
        have hslice : (slice buf done (ioChunk d cur stop)).length = ioChunk d cur stop :=
          length_slice (by omega)
        simp only [ht, hk, Bool.false_eq_true, if_false] at h
        have hbytes := length_ssdBackendPread os k poff d.backend hslice.ge
        have hsp : (splice buf done (ssdBackendPread os k d.backend poff (ioChunk d cur stop)
            (slice buf done (ioChunk d cur stop))).2).length = buf.length :=
          length_splice (by omega)
        split at h
        · simp only [Option.some.injEq, Prod.mk.injEq] at h
          rw [← h.2.2, hsp]
        · rw [ih _ _ _ _ _ _ _ (by omega) h, hsp]
    · rw [if_neg hlt] at h
      simp only [Option.some.injEq, Prod.mk.injEq] at h
      rw [h.2.2]

theorem length_ssdPoolPread {pool pool' : SsdPool} {voffset len : ℕ} {buf buf' : List UInt8}
    {r : Except Error Unit} (hb : buf.length = len)
    (h : ssdPoolIo os pool voffset len buf false = some (r, pool', buf')) :
    buf'.length = len := by
  have hu : u64 (voffset + len) ≤ voffset + len := Nat.mod_le _ _
  unfold ssdPoolIo at h
  split_ifs at h
  · simp only [Option.some.injEq, Prod.mk.injEq] at h
    rw [← h.2.2, hb]
  · rw [length_ssdPoolIoLoop _ _ _ _ _ _ _ _ (by omega) h, hb]

end Length

/-- A fresh buffer. -/
def MemEnv.malloc (env : MemEnv) (len : ℕ) : List UInt8 := (List.range len).map env.heap

def memsvcSsdRead (env : MemEnv) (m : MemServiceCtx) (offset len : UInt64) :
    Option (Except Error (List UInt8) × MemServiceCtx) :=
  (memsvcSsdIo env.os m .ssd offset.toNat len.toNat (env.malloc len.toNat) false).map fun r =>
    (r.1.map fun _ => r.2.2, r.2.1)

def memsvcSsdWrite (env : MemEnv) (m : MemServiceCtx) (offset : UInt64) (buf : List UInt8) :
    Option (Except Error Unit × MemServiceCtx) :=
  (memsvcSsdIo env.os m .ssd offset.toNat buf.length buf true).map fun r => (r.1, r.2.1)

theorem length_memsvcSsdRead {env : MemEnv} {m m' : MemServiceCtx} {offset len : UInt64}
    {bytes : List UInt8} (h : memsvcSsdRead env m offset len = some (.ok bytes, m')) :
    bytes.length = len.toNat := by
  obtain ⟨⟨r, m₁, out⟩, hio, he⟩ := Option.map_eq_some_iff.mp h
  obtain ⟨hr, -⟩ := Prod.mk.inj he
  cases memsvcSsdIo_cases hio with
  | refused => cases hr
  | answered _ hio =>
    have hlen := length_ssdPoolPread (by simp [MemEnv.malloc]) hio
    cases r with
    | error e => cases hr
    | ok u =>
      obtain rfl := Except.ok.inj hr
      exact hlen

/-- The table of the direct service. -/
def memsvcVtbl (env : MemEnv) : MemoryServiceVtbl MemServiceCtx where
  allocLocal m size := offsetOut (memsvcAllocTiered m .cxl size.toNat env.backing)
  freeLocal m offset size := memsvcFreeTiered m .cxl offset.toNat size.toNat
  getStats m := (memsvcGetTierStats m .cxl, m)
  getTopology := some env.topology
  allocOnDevice := some fun m tier deviceIdx size =>
    onTier m tier fun tier => offsetOut (memsvcAllocOnDevice m tier deviceIdx.toNat size.toNat)
  allocTiered := some fun m tier size =>
    onTier m tier fun tier => offsetOut (memsvcAllocTiered m tier size.toNat env.backing)
  freeTiered := some fun m tier offset size =>
    onTier m tier fun tier => memsvcFreeTiered m tier offset.toNat size.toNat
  ssdRead := some (memsvcSsdRead env)
  ssdWrite := some (memsvcSsdWrite env)
  length_ssdRead := by
    intro read hread ctx offset len bytes ctx' h
    obtain rfl := Option.some.inj hread
    exact length_memsvcSsdRead h

end Umm
