import Umm.Client.TierRouter
import Umm.Lib.Reach
import Umm.Lib.Segments
import Umm.Transport.SsdTransportRuns
import Umm.Transport.TransportLocal

/-! The data plane of a client with the memories behind it: copies and atomic operations through the
router, on the memory of the local transport, the disks of the SSD transport, or other nodes. -/
namespace Umm
open Umm.Lib

structure DataWorld (R : Type) where
  mem : MemServiceCtx
  ssd : MemServiceCtx
  remote : R

/-- The transport to other nodes. -/
structure PeerIo (R : Type) where
  get : R → ℕ → ℕ → List UInt8 → Except Error Unit × R × List UInt8
  put : R → ℕ → List UInt8 → Except Error Unit × R

/-- What the OS answers in a call. -/
structure DataEnv where
  os : OsIo
  backing : Backing

/-- The context of the memory service that `local_init` builds; whether the second registration
succeeds is not looked at. -/
def localInit (cfg : InitConfig) (dramDevice : Option BackendKind) (env env' : RegisterEnv) :
    Option MemServiceCtx :=
  let memSize := if cfg.memorySize = 0 then 256 * 1024 * 1024 else cfg.memorySize.toNat
  let created := if cfg.localMemAsDram then some memServiceDirectCreateV2
    else memServiceDirectCreate memSize 0 env
  created.map fun m => (memsvcRegisterStorage m
    (if cfg.localMemAsDram then ⟨.dram, memSize, 0, dramDevice⟩ else ⟨.cxl, memSize, 0, some .file⟩)
    env').2

section Operations

variable {R α : Type} (io : PeerIo R) (env : DataEnv) (w : DataWorld R) (transport : Transport)

/-- `router_get`, or `local_get` where there is no router. The outer `none` is an access outside of
the memory that a pointer leads into. -/
def transportGet (gpa len : ℕ) (outBuf : List UInt8) :
    Option (Except Error Unit × DataWorld R × List UInt8) :=
  match transport.resolve gpa with
  | .error e => some (.error e, w, outBuf)
  | .ok (.remote _) =>
    let (r, remote, out) := io.get w.remote gpa len outBuf
    some (r, { w with remote }, out)
  | .ok (.ssd _) => (ssdTransportGet env.os w.ssd gpa len outBuf).map fun (r, ssd, out) =>
    (r, { w with ssd }, out)
  | .ok _ => (localGet w.mem gpa len outBuf env.backing).map fun (r, mem, out) =>
    (r, { w with mem }, out)

def transportPut (gpa : ℕ) (buf : List UInt8) : Option (Except Error Unit × DataWorld R) :=
  match transport.resolve gpa with
  | .error e => some (.error e, w)
  | .ok (.remote _) =>
    let (r, remote) := io.put w.remote gpa buf
    some (r, { w with remote })
  | .ok (.ssd _) => (ssdTransportPut env.os w.ssd gpa buf.length buf).map fun (r, ssd) =>
    (r, { w with ssd })
  | .ok _ => (localPut w.mem gpa buf env.backing).map fun (r, mem) => (r, { w with mem })

/-- The atomic operations: none on other nodes, and no other answer for a tier whose data plane is
elsewhere. -/
def transportAtomic (gpa : ℕ)
    (onLocal onSsd : MemServiceCtx → Option (Except Error α × MemServiceCtx)) :
    Option (Except Error α × DataWorld R) :=
  match transport.resolve gpa with
  | .error _ => some (.error .invalidArg, w)
  | .ok (.remote _) => some (.error .unsupported, w)
  | .ok (.ssd _) => (onSsd w.ssd).map fun (r, ssd) => (r, { w with ssd })
  | .ok _ => (onLocal w.mem).map fun (r, mem) => (r, { w with mem })

def transportAtomicCas (gpa : ℕ) (expected desired : UInt64) :
    Option (Except Error UInt64 × DataWorld R) :=
  transportAtomic w transport gpa (localAtomicCas · gpa expected desired env.backing)
    (ssdTransportAtomicCas · gpa expected desired)

def transportAtomicFetchAdd (gpa : ℕ) (value : UInt64) :
    Option (Except Error UInt64 × DataWorld R) :=
  transportAtomic w transport gpa (localAtomicFetchAdd · gpa value env.backing)
    (ssdTransportAtomicFetchAdd · gpa value)

def transportAtomicSet (gpa : ℕ) (value : UInt64) : Option (Except Error Unit × DataWorld R) :=
  transportAtomic w transport gpa (localAtomicSet · gpa value env.backing)
    (ssdTransportAtomicSet · gpa value)

end Operations

/-- The checks of the atomic operations, on a cell of eight bytes. -/
def UmmState.checkAtomic (s : UmmState) (desc : Option ChunkDescriptor) (offset : UInt64) :
    Except Error (Transport × ℕ) :=
  if s.initialized = false then .error .notInitialized
  else match desc with
    | none => .error .invalidArg
    | some desc =>
      if offset + 8 < offset ∨ desc.userSize < (offset + 8).toNat then .error .invalidArg
      else match s.transport with
        | none => .error .notInitialized
        | some transport => .ok (transport, u64 (desc.baseGpa + offset.toNat))

/-- A call of the data plane. The buffers are `none` where they are null pointers. -/
inductive DataCall
  | read (desc : Option ChunkDescriptor) (offset len : UInt64) (outBuf : Option (List UInt8))
  | write (desc : Option ChunkDescriptor) (offset len : UInt64) (buf : Option (List UInt8))
  | atomicCas (desc : Option ChunkDescriptor) (offset expected desired : UInt64)
  | atomicFetchAdd (desc : Option ChunkDescriptor) (offset value : UInt64)
  | atomicSet (desc : Option ChunkDescriptor) (offset value : UInt64)
  deriving DecidableEq

inductive CallAnswer
  | bytes (out : List UInt8)
  | done
  | old (value : UInt64)
  deriving DecidableEq

section Calls

variable {R : Type} (io : PeerIo R) (env : DataEnv) (s : UmmState) (w : DataWorld R)

/-- `umm_read`, `umm_write`, `umm_atomic_cas`, `umm_atomic_fetch_add` and `umm_atomic_set`. -/
def dataCall : DataCall → Option (Except Error CallAnswer × DataWorld R)
  | .read desc offset len outBuf =>
    match s.checkAccess desc outBuf.isSome offset len with
    | .error e => some (.error e, w)
    | .ok (transport, gpa) =>
      (transportGet io env w transport gpa len.toNat ((outBuf.getD []).take len.toNat)).map
        fun (r, w, out) => (r.map fun _ => .bytes out, w)
  | .write desc offset len buf =>
    match s.checkAccess desc buf.isSome offset len with
    | .error e => some (.error e, w)
    | .ok (transport, gpa) =>
      (transportPut io env w transport gpa ((buf.getD []).take len.toNat)).map fun (r, w) =>
        (r.map fun _ => .done, w)
  | .atomicCas desc offset expected desired =>
    match s.checkAtomic desc offset with
    | .error e => some (.error e, w)
    | .ok (transport, gpa) =>
      (transportAtomicCas env w transport gpa expected desired).map fun (r, w) => (r.map .old, w)
  | .atomicFetchAdd desc offset value =>
    match s.checkAtomic desc offset with
    | .error e => some (.error e, w)
    | .ok (transport, gpa) =>
      (transportAtomicFetchAdd env w transport gpa value).map fun (r, w) => (r.map .old, w)
  | .atomicSet desc offset value =>
    match s.checkAtomic desc offset with
    | .error e => some (.error e, w)
    | .ok (transport, gpa) =>
      (transportAtomicSet env w transport gpa value).map fun (r, w) => (r.map fun _ => .done, w)

end Calls

/-! The local transport. -/

/-- If memory is mapped, it has the content that stands on the device. -/
def Backing.Finds (content : ℕ → UInt8) (backing : Backing) : Prop :=
  ∀ found, backing = .bytes found → found = content

namespace MemServiceCtx

variable {m m' : MemServiceCtx} {content : ℕ → UInt8} {backing : Backing} {ptr : DevicePtr}
  {tier : Tier} {gpa len offset : ℕ} {bytes w : List UInt8}

/-- The bytes of a tier: those that are mapped, or of a device that is still to be mapped. -/
def memory (content : ℕ → UInt8) (m : MemServiceCtx) (tier : Tier) : List UInt8 :=
  (m.tiers tier).window.getD
    (if tier = .cxl then Backing.window content (m.tiers tier).totalSize else [])

/-- A context as the local transport has it: its tiers begin at 0, and none is of disks. -/
structure LocalReady (m : MemServiceCtx) : Prop where
  sound : m.Sound
  base : ∀ tier, (m.tiers tier).baseOffset = 0
  disks : (m.tiers .ssd).online = false

theorem memory_setTier {t : TierMemCtx}
    (h : t.window.getD (if tier = .cxl then Backing.window content t.totalSize else []) =
      m.memory content tier) : (m.setTier tier t).memory content = m.memory content := by
  funext tier'
  by_cases htier : tier' = tier
  · subst htier
    unfold memory
    rw [tiers_setTier_same]
    exact h
  · unfold memory
    rw [tiers_setTier_ne _ _ htier]

theorem ensureCxlMmap_memory (hb : backing.Finds content) (t : TierMemCtx) :
    (ensureCxlMmap t backing).2.window.getD
        (Backing.window content (ensureCxlMmap t backing).2.totalSize) =
      t.window.getD (Backing.window content t.totalSize) := by
  unfold ensureCxlMmap
  cases hw : t.window with
  | some w => exact congrArg (Option.getD · _) hw
  | none =>
    cases backing with
    | bytes found =>
      obtain rfl := hb found rfl
      rfl
    | noMemory => exact congrArg (Option.getD · _) hw
    | failed => rfl

theorem memsvcMapDevice_tier (m : MemServiceCtx) (tier : Tier) (offset size : ℕ)
    (backing : Backing) : (memsvcMapDevice m tier offset size backing).2 = m ∨
      (memsvcMapDevice m tier offset size backing).2 = m.setTier tier
        (if tier = .cxl then ensureCxlMmap (m.tiers tier) backing else (.ok (), m.tiers tier)).2 := by
  unfold memsvcMapDevice
  dsimp only
  split
  · refine Or.inr ?_
    split
    next e t hr => rw [hr]
    next t hr =>
      rw [hr]
      split
      · split_ifs
        · rfl
        · split <;> rfl
      · split <;> rfl
  · exact Or.inl rfl

theorem ensureCxlMmap_base (t : TierMemCtx) (backing : Backing) :
    (ensureCxlMmap t backing).2.baseOffset = t.baseOffset := by
  unfold ensureCxlMmap
  split
  · rfl
  · split <;> rfl

/-- Mapping makes no difference to the bytes. -/
theorem LocalReady.mapDevice (h : m.LocalReady) (hb : backing.Finds content) (tier : Tier)
    (offset size : ℕ) : (memsvcMapDevice m tier offset size backing).2.LocalReady ∧
      (memsvcMapDevice m tier offset size backing).2.memory content = m.memory content := by
  have hsound := h.sound.mapDevice tier offset size backing
  rcases memsvcMapDevice_tier m tier offset size backing with he | he
  · rw [he]
    exact ⟨h, rfl⟩
  · by_cases htier : tier = .cxl
    · subst htier
      rw [if_pos rfl] at he
      rw [he] at hsound ⊢
      refine ⟨⟨hsound, fun tier' => ?_, ?_⟩, memory_setTier ?_⟩
      · by_cases htier : tier' = .cxl
        · subst htier
          rw [tiers_setTier_same, ensureCxlMmap_base]
          exact h.base .cxl
        · rw [tiers_setTier_ne _ _ htier]
          exact h.base tier'
      · rw [tiers_setTier_ne _ _ (by decide)]
        exact h.disks
      · exact ensureCxlMmap_memory hb _
    · rw [if_neg htier, setTier_self] at he
      rw [he]
      exact ⟨h, rfl⟩

theorem LocalReady.resolve (h : m.LocalReady) (hb : backing.Finds content)
    {r : Except Error DevicePtr} (hr : localResolve m gpa len backing = (r, m')) :
    m'.LocalReady ∧ m'.memory content = m.memory content := by
  obtain ⟨tier, -, he⟩ := localResolve_eq m gpa len backing
  have hmap := h.mapDevice hb tier (gpaToOffset gpa) len
  rw [← he, hr] at hmap
  exact hmap

/-- An address is resolved to the place in its tier that its offset says. -/
theorem LocalReady.resolve_ok (h : m.LocalReady) (hb : backing.Finds content)
    (hr : localResolve m gpa len backing = (.ok ptr, m')) :
    ∃ tier, Tier.ofId (gpaToTier gpa) = some tier ∧ tier ≠ .ssd ∧
      ptr = .window tier (gpaToOffset gpa) ∧
      (m'.tiers tier).window = some (m.memory content tier) := by
  obtain ⟨tier, htier, he⟩ := localResolve_eq m gpa len backing
  rw [he] at hr
  have hssd : tier ≠ .ssd := by
    rintro rfl
    have hon := mapDevice_online (congrArg Prod.fst hr)
    rw [h.disks] at hon
    cases hon
  obtain ⟨w, -, hptr, -, hw, -⟩ := h.sound.mapDevice_memory hssd hr
  have hmem := (h.resolve hb (he.trans hr)).2
  refine ⟨tier, htier, hssd, ?_, ?_⟩
  · rw [hptr, h.base tier, sub64_zero (gpaToOffset_lt gpa)]
  · rw [hw, ← hmem]
    unfold memory
    rw [hw]
    rfl

theorem loadAt_window (hw : (m.tiers tier).window = some w) {out : List UInt8}
    (h : m.loadAt (.window tier offset) len = some out) :
    offset + len ≤ w.length ∧ out = slice w offset len := by
  unfold loadAt Holds behind load at h
  simp only [hw, Option.getD_some] at h
  split_ifs at h with hin
  exact ⟨hin, (Option.some.inj h).symm⟩

theorem LocalReady.storeAt_window (h : m.LocalReady)
    (hw : (m.tiers tier).window = some (m.memory content tier))
    (hs : m.storeAt (.window tier offset) bytes = some m') :
    offset + bytes.length ≤ (m.memory content tier).length ∧ m'.LocalReady ∧
      m'.memory content = Function.update (m.memory content) tier
        (splice (m.memory content tier) offset bytes) := by
  unfold storeAt at hs
  split_ifs at hs with hin
  have hsound := h.sound.store hin
  obtain rfl := Option.some.inj hs
  have hfit := hin
  unfold Holds behind at hfit
  simp only [hw, Option.getD_some] at hfit
  refine ⟨hfit, ?_, ?_⟩
  · refine ⟨hsound, fun tier' => ?_, ?_⟩
    · unfold MemServiceCtx.store
      by_cases htier : tier' = tier
      · subst htier
        rw [tiers_setTier_same]
        exact h.base tier'
      · rw [tiers_setTier_ne _ _ htier]
        exact h.base tier'
    · unfold MemServiceCtx.store
      by_cases htier : Tier.ssd = tier
      · subst htier
        rw [tiers_setTier_same]
        exact h.disks
      · rw [tiers_setTier_ne _ _ htier]
        exact h.disks
  · funext tier'
    unfold MemServiceCtx.store
    by_cases htier : tier' = tier
    · subst htier
      rw [Function.update_self]
      conv_lhs => unfold memory
      rw [tiers_setTier_same]
      dsimp only
      rw [hw]
      rfl
    · rw [Function.update_of_ne htier]
      unfold memory
      rw [tiers_setTier_ne _ _ htier]

end MemServiceCtx

/-- The bytes of an SSD pool, one device after another. -/
def MemServiceCtx.diskBytes (ssd : MemServiceCtx) : List UInt8 :=
  match (ssd.tiers .ssd).ssdPool with
  | none => []
  | some pool => pool.bytes

/-- The bytes that the local transports reach, by tier. -/
def tierSegments (content : ℕ → UInt8) (mem ssd : MemServiceCtx) : Segments Tier := fun tier =>
  if tier = .ssd then ssd.diskBytes else mem.memory content tier

section Local

variable {mem mem' ssd : MemServiceCtx} {content : ℕ → UInt8} {backing : Backing}
  {tier : Tier} {gpa len offset : ℕ}

theorem tierSegments_memory (htier : tier ≠ .ssd) :
    tierSegments content mem ssd tier = mem.memory content tier := if_neg htier

theorem tierSegments_congr (h : mem'.memory content = mem.memory content) :
    tierSegments content mem' ssd = tierSegments content mem ssd := by
  unfold tierSegments
  rw [h]

/-- A store to the memory of one tier. -/
theorem tierSegments_update (htier : tier ≠ .ssd) {bytes : List UInt8}
    (h : mem'.memory content = Function.update (mem.memory content) tier bytes) :
    tierSegments content mem' ssd = Function.update (tierSegments content mem ssd) tier bytes := by
  funext tier'
  unfold tierSegments
  rw [h]
  by_cases hsame : tier' = tier
  · subst hsame
    rw [if_neg htier, Function.update_self, Function.update_self]
  · rw [Function.update_of_ne hsame, Function.update_of_ne hsame]

/-- What a call on the local transport does: nothing to the bytes where it fails, and one operation
on the tier of its address where it succeeds. -/
def LocalEffect (content : ℕ → UInt8) (mem mem' : MemServiceCtx) (gpa : ℕ) (ok : Bool)
    (op : Tier → SegmentOp Tier) : Prop :=
  mem'.LocalReady ∧ if ok then ∃ tier, Tier.ofId (gpaToTier gpa) = some tier ∧ tier ≠ .ssd ∧
      ∀ ssd, SegmentRun (tierSegments content mem ssd) [op tier] (tierSegments content mem' ssd)
    else ∀ ssd, tierSegments content mem' ssd = tierSegments content mem ssd

theorem localEffect_failed (h : mem.LocalReady) (hb : backing.Finds content)
    {e : Error} (hr : localResolve mem gpa len backing = (.error e, mem'))
    (op : Tier → SegmentOp Tier) : LocalEffect content mem mem' gpa false op := by
  obtain ⟨hready, hmem⟩ := h.resolve hb hr
  exact ⟨hready, fun ssd => tierSegments_congr hmem⟩

theorem localGet_effect (h : mem.LocalReady) (hb : backing.Finds content) {out out' : List UInt8}
    (hout : out.length = len) {r : Except Error Unit}
    (hop : localGet mem gpa len out backing = some (r, mem', out')) :
    LocalEffect content mem mem' gpa r.isOk fun tier => .read tier (gpaToOffset gpa) out' := by
  unfold localGet at hop
  split at hop
  next e m hr =>
    obtain ⟨rfl, rfl, -⟩ := by simpa using hop
    exact localEffect_failed h hb hr _
  next ptr m hr =>
    obtain ⟨bytes, hload, hres⟩ := Option.map_eq_some_iff.mp hop
    obtain ⟨rfl, rfl, rfl⟩ := by simpa using hres
    obtain ⟨tier, htier, hssd, rfl, hw⟩ := h.resolve_ok hb hr
    obtain ⟨hfit, rfl⟩ := MemServiceCtx.loadAt_window hw hload
    obtain ⟨hready, hmem⟩ := h.resolve hb hr
    have hlen := length_slice hfit
    have hsame : splice out 0 (slice (mem.memory content tier) (gpaToOffset gpa) len) =
        slice (mem.memory content tier) (gpaToOffset gpa) len :=
      splice_self (by rw [hlen, hout])
    refine ⟨hready, tier, htier, hssd, fun ssd => ⟨⟨?_, ?_⟩, tierSegments_congr hmem⟩⟩
    · dsimp only [SegmentOp.offset, SegmentOp.length, SegmentOp.segment]
      rw [tierSegments_memory hssd, hsame, hlen]
      exact hfit
    · dsimp only [SegmentOp.Answers]
      rw [tierSegments_memory hssd, hsame, hlen]

theorem localPut_effect (h : mem.LocalReady) (hb : backing.Finds content) {buf : List UInt8}
    {r : Except Error Unit} (hop : localPut mem gpa buf backing = some (r, mem')) :
    LocalEffect content mem mem' gpa r.isOk fun tier => .write tier (gpaToOffset gpa) buf := by
  unfold localPut at hop
  split at hop
  next e m hr =>
    obtain ⟨rfl, rfl⟩ := by simpa using hop
    exact localEffect_failed h hb hr _
  next ptr m hr =>
    obtain ⟨m', hstore, hres⟩ := Option.map_eq_some_iff.mp hop
    obtain ⟨rfl, rfl⟩ := by simpa using hres
    obtain ⟨tier, htier, hssd, rfl, hw⟩ := h.resolve_ok hb hr
    obtain ⟨hready, hmem⟩ := h.resolve hb hr
    rw [← hmem] at hw
    obtain ⟨hfit, hready', hmem'⟩ := hready.storeAt_window hw hstore
    rw [hmem] at hfit hmem'
    refine ⟨hready', tier, htier, hssd, fun ssd => ⟨⟨?_, trivial⟩, ?_⟩⟩
    · dsimp only [SegmentOp.offset, SegmentOp.length, SegmentOp.segment]
      rw [tierSegments_memory hssd]
      exact hfit
    · rw [tierSegments_update hssd hmem', SegmentOp.apply_of_stored rfl]
      dsimp only [SegmentOp.offset, SegmentOp.segment]
      rw [tierSegments_memory hssd]
      rfl

theorem localAtomic_effect (h : mem.LocalReady) (hb : backing.Finds content)
    {f : UInt64 → UInt64} {r : Except Error UInt64}
    (hop : atomicAfter (localResolve mem gpa 8 backing) f = some (r, mem')) :
    LocalEffect content mem mem' gpa r.isOk fun tier =>
      .atomic tier (gpaToOffset gpa) (r.toOption.getD 0) (f (r.toOption.getD 0)) := by
  unfold atomicAfter at hop
  split at hop
  next e m hr =>
    obtain ⟨rfl, rfl⟩ := by simpa using hop
    exact localEffect_failed h hb hr _
  next ptr m hr =>
    obtain ⟨⟨prev, m'⟩, hat, hres⟩ := Option.map_eq_some_iff.mp hop
    obtain ⟨rfl, rfl⟩ := by simpa using hres
    obtain ⟨bytes, hload, hat⟩ := Option.bind_eq_some_iff.mp hat
    obtain ⟨m'', hstore, hat⟩ := Option.map_eq_some_iff.mp hat
    obtain ⟨rfl, rfl⟩ := by simpa using hat
    obtain ⟨tier, htier, hssd, rfl, hw⟩ := h.resolve_ok hb hr
    obtain ⟨hfit, rfl⟩ := MemServiceCtx.loadAt_window hw hload
    obtain ⟨hready, hmem⟩ := h.resolve hb hr
    rw [← hmem] at hw
    obtain ⟨-, hready', hmem'⟩ := hready.storeAt_window hw hstore
    rw [hmem] at hmem'
    refine ⟨hready', tier, htier, hssd, fun ssd => ⟨⟨?_, ?_⟩, ?_⟩⟩
    · dsimp only [SegmentOp.offset, SegmentOp.length, SegmentOp.segment]
      rw [tierSegments_memory hssd]
      exact hfit
    · dsimp only [SegmentOp.Answers]
      rw [tierSegments_memory hssd]
      rfl
    · rw [tierSegments_update hssd hmem', SegmentOp.apply_of_stored rfl]
      dsimp only [SegmentOp.offset, SegmentOp.segment]
      rw [tierSegments_memory hssd]
      rfl

end Local

/-! The SSD transport. -/

section Disks

variable {mem ssd ssd' : MemServiceCtx} {pool : SsdPool} {content : ℕ → UInt8} {gpa len : ℕ}

theorem SsdReady.diskBytes (h : SsdReady ssd pool) : ssd.diskBytes = pool.bytes := by
  unfold MemServiceCtx.diskBytes
  rw [h.pool_eq]

theorem SsdReady.load_ssd (h : SsdReady ssd pool) {i : ℕ} {d : SsdDevice}
    (hi : pool.devices[i]? = some d) {o : ℕ} (hfit : o + len ≤ d.capacity) :
    ssd.load (.ssd i o) len = slice pool.bytes (d.virtualBase + o) len := by
  unfold MemServiceCtx.load
  rw [h.pool_eq]
  simp only [Option.bind_some, hi]
  rw [← h.wf.slice_device hi hfit]

theorem SsdReady.store_ssd (h : SsdReady ssd pool) {i : ℕ} {d : SsdDevice}
    (hi : pool.devices[i]? = some d) {o : ℕ} {bytes : List UInt8}
    (hfit : o + bytes.length ≤ d.capacity) :
    ∃ pool', ssd.store (.ssd i o) bytes = ssd.withPool pool' ∧
      SsdReady (ssd.withPool pool') pool' ∧
      pool'.bytes = splice pool.bytes (d.virtualBase + o) bytes := by
  have hdata := (h.wf.backed d (List.mem_of_getElem? hi)).2
  have hstore : ssd.store (.ssd i o) bytes = ssd.withPool (pool.setBackend i
      { d.backend with data := splice d.backend.data o bytes }) := by
    unfold MemServiceCtx.store
    simp only [h.pool_eq, hi]
    rfl
  refine ⟨_, hstore, h.withPool (h.wf.setBackend hi ?_), h.wf.splice_device hi hfit⟩
  rw [length_splice (by omega)]
  exact hdata

/-- A change of the disks alone. -/
theorem tierSegments_disks {bytes : List UInt8} (h : ssd'.diskBytes = bytes) :
    tierSegments content mem ssd' = Function.update (tierSegments content mem ssd) .ssd bytes := by
  funext tier
  by_cases htier : tier = .ssd
  · subst htier
    rw [Function.update_self, ← h]
    rfl
  · rw [Function.update_of_ne htier, tierSegments_memory htier, tierSegments_memory htier]

/-- The SSD tier has a pool, or nothing that serves calls. -/
def MemServiceCtx.DisksReady (ssd : MemServiceCtx) : Prop := (∃ pool, SsdReady ssd pool) ∨ SsdIdle ssd

/-- What a call on the SSD transport does. -/
def DiskEffect (ssd ssd' : MemServiceCtx) (ops : List (SegmentOp Tier)) : Prop :=
  ssd'.DisksReady ∧ ∀ content mem,
    SegmentRun (tierSegments content mem ssd) ops (tierSegments content mem ssd')

theorem diskEffect_same (h : ssd.DisksReady) : DiskEffect ssd ssd [] := ⟨h, fun _ _ => rfl⟩

/-- A store behind the SSD transport. -/
theorem diskEffect_stored {op : SegmentOp Tier} {pool' : SsdPool} (h : SsdReady ssd pool)
    (h' : SsdReady ssd' pool') (htier : op.segment = .ssd) {bytes : List UInt8}
    (hstored : op.stored = some bytes) (hfit : op.offset + op.length ≤ pool.bytes.length)
    (hbytes : pool'.bytes = splice pool.bytes op.offset bytes)
    (hanswers : ∀ m : Segments Tier, m .ssd = pool.bytes → op.Answers m) :
    DiskEffect ssd ssd' [op] := by
  refine ⟨.inl ⟨pool', h'⟩, fun content mem => ?_⟩
  have hsegment : tierSegments content mem ssd .ssd = pool.bytes := h.diskBytes
  refine ⟨⟨?_, hanswers _ hsegment⟩, ?_⟩
  · rw [htier, hsegment]
    exact hfit
  · rw [SegmentOp.apply_of_stored hstored, htier, hsegment, ← hbytes]
    exact tierSegments_disks h'.diskBytes

/-- Without a pool there is nothing to map. -/
theorem SsdIdle.mapDevice (h : SsdIdle ssd) (offset size : ℕ) (backing : Backing) :
    memsvcMapDevice ssd .ssd offset size backing = (.error .notInitialized, ssd) := by
  unfold memsvcMapDevice
  simp only [reduceCtorEq, if_false, h.pool, h.window, MemServiceCtx.setTier_self]
  split_ifs <;> rfl

theorem SsdIdle.ssdIo (h : SsdIdle ssd) (os : OsIo) (offset len : ℕ) (buf : List UInt8)
    (isWrite : Bool) : memsvcSsdIo os ssd .ssd offset len buf isWrite =
      some (.error .notInitialized, ssd, buf) := by
  unfold memsvcSsdIo
  simp only [ne_eq, not_true_eq_false, if_false, h.pool]
  cases (ssd.tiers .ssd).online <;> rfl

theorem SsdIdle.diskBytes (h : SsdIdle ssd) : ssd.diskBytes = [] := by
  unfold MemServiceCtx.diskBytes
  rw [h.pool]

/-- What an attempt at an operation comes to: the operation where it succeeds, and nothing where it
fails, or the first part of a write that a device of the SSD pool refused midway. -/
inductive Attempt (op : Option (SegmentOp Tier)) : Bool → List (SegmentOp Tier) → Prop
  | succeeded : Attempt op true op.toList
  | failed : Attempt op false []
  | torn {offset : ℕ} {bytes : List UInt8} (n : ℕ) : op = some (.write .ssd offset bytes) →
      Attempt op false [.write .ssd offset (bytes.take n)]

theorem ssdTransportGet_effect {os : OsIo} (h : ssd.DisksReady) (hlen : 0 < len)
    {out out' : List UInt8} (hout : out.length = len) (hlt : gpaToOffset gpa + len < 2 ^ 64)
    {r : Except Error Unit} (hop : ssdTransportGet os ssd gpa len out = some (r, ssd', out')) :
    ∃ ops, Attempt (some (.read .ssd (gpaToOffset gpa) out')) r.isOk ops ∧
      DiskEffect ssd ssd' ops := by
  rcases h with ⟨pool, h⟩ | h
  · by_cases hin : gpaToOffset gpa + len ≤ pool.totalCapacity
    · obtain ⟨r', out'', hget, -, hbytes⟩ := ssdTransportGet_inside os h hlen hout hin
      rw [hget] at hop
      obtain ⟨rfl, rfl, rfl⟩ := by simpa using hop
      cases r' with
      | error e => exact ⟨[], .failed, diskEffect_same (.inl ⟨pool, h⟩)⟩
      | ok u =>
        obtain rfl := hbytes rfl
        have hfit : gpaToOffset gpa + len ≤ pool.bytes.length := by
          rw [h.wf.length_bytes]
          exact hin
        refine ⟨_, .succeeded, .inl ⟨pool, h⟩, fun content mem => ?_⟩
        have hsegment : tierSegments content mem ssd .ssd = pool.bytes := h.diskBytes
        refine ⟨⟨?_, ?_⟩, rfl⟩
        · dsimp only [SegmentOp.offset, SegmentOp.length, SegmentOp.segment]
          rw [hsegment, length_slice hfit]
          exact hfit
        · dsimp only [SegmentOp.Answers]
          rw [hsegment, length_slice hfit]
    · obtain ⟨e, he⟩ := (ssdTransport_outside out os h hlen hlt (by omega)).1
      rw [he] at hop
      obtain ⟨rfl, rfl, -⟩ := by simpa using hop
      exact ⟨[], .failed, diskEffect_same (.inl ⟨pool, h⟩)⟩
  · unfold ssdTransportGet at hop
    rw [h.mapDevice] at hop
    dsimp only at hop
    rw [h.ssdIo] at hop
    obtain ⟨rfl, rfl, -⟩ := by simpa using hop
    exact ⟨[], .failed, diskEffect_same (.inr h)⟩

theorem ssdTransportPut_effect {os : OsIo} (h : ssd.DisksReady) {buf : List UInt8}
    (hlen : 0 < buf.length) (hlt : gpaToOffset gpa + buf.length < 2 ^ 64) {r : Except Error Unit}
    (hop : ssdTransportPut os ssd gpa buf.length buf = some (r, ssd')) :
    ∃ ops, Attempt (some (.write .ssd (gpaToOffset gpa) buf)) r.isOk ops ∧
      DiskEffect ssd ssd' ops := by
  rcases h with ⟨pool, h⟩ | h
  · by_cases hin : gpaToOffset gpa + buf.length ≤ pool.totalCapacity
    · obtain ⟨r', pool', n, hput, hready, -, hn, hbytes, -, hall⟩ :=
        ssdTransportPut_inside os h hlen rfl hin
      rw [hput] at hop
      obtain ⟨rfl, rfl⟩ := Prod.mk.inj (Option.some.inj hop)
      have hfit : gpaToOffset gpa + (buf.take n).length ≤ pool.bytes.length := by
        rw [h.wf.length_bytes, List.length_take_of_le hn]
        omega
      have hstored : DiskEffect ssd (ssd.withPool pool')
          [.write .ssd (gpaToOffset gpa) (buf.take n)] :=
        diskEffect_stored h hready rfl rfl hfit hbytes fun _ _ => trivial
      cases r' with
      | error e => exact ⟨_, .torn n rfl, hstored⟩
      | ok u =>
        rw [hall rfl, List.take_length] at hstored
        exact ⟨_, .succeeded, hstored⟩
    · obtain ⟨e, he⟩ := (ssdTransport_outside buf os h hlen hlt (by omega)).2
      rw [he] at hop
      obtain ⟨rfl, rfl⟩ := Prod.mk.inj (Option.some.inj hop)
      exact ⟨[], .failed, diskEffect_same (.inl ⟨pool, h⟩)⟩
  · unfold ssdTransportPut at hop
    rw [h.mapDevice] at hop
    dsimp only at hop
    rw [h.ssdIo] at hop
    obtain ⟨rfl, rfl⟩ := Prod.mk.inj (Option.some.inj hop)
    exact ⟨[], .failed, diskEffect_same (.inr h)⟩

theorem ssdTransportAtomic_effect (h : ssd.DisksReady) {f : UInt64 → UInt64}
    {r : Except Error UInt64}
    (hop : atomicAfter (memsvcMapDevice ssd .ssd (gpaToOffset gpa) 8 .failed) f =
      some (r, ssd')) :
    DiskEffect ssd ssd' (if r.isOk then
      [.atomic .ssd (gpaToOffset gpa) (r.toOption.getD 0) (f (r.toOption.getD 0))] else []) := by
  have hoff := gpaToOffset_lt gpa
  have hrefused : ∀ e, memsvcMapDevice ssd .ssd (gpaToOffset gpa) 8 .failed = (.error e, ssd) →
      DiskEffect ssd ssd' (if r.isOk then
        [.atomic .ssd (gpaToOffset gpa) (r.toOption.getD 0) (f (r.toOption.getD 0))] else []) := by
    intro e he
    rw [he] at hop
    obtain ⟨rfl, rfl⟩ := by simpa [atomicAfter] using hop
    exact diskEffect_same h
  rcases h with ⟨pool, h⟩ | h
  swap
  · exact hrefused _ (h.mapDevice _ _ _)
  rcases memsvcMapDevice_ssd h hoff (by norm_num : 0 < 8) .failed with
    ⟨i, d, hi, -, hd1, hd2, he⟩ | ⟨e, he⟩
  · rw [he] at hop
    obtain ⟨⟨prev, m'⟩, hat, hres⟩ := Option.map_eq_some_iff.mp hop
    obtain ⟨rfl, rfl⟩ := by simpa using hres
    obtain ⟨bytes, hload, hat⟩ := Option.bind_eq_some_iff.mp hat
    obtain ⟨m'', hstore, hat⟩ := Option.map_eq_some_iff.mp hat
    obtain ⟨rfl, rfl⟩ := by simpa using hat
    unfold MemServiceCtx.loadAt at hload
    split_ifs at hload with hholds
    obtain rfl := Option.some.inj hload
    unfold MemServiceCtx.storeAt at hstore
    split_ifs at hstore with hholds'
    obtain rfl := Option.some.inj hstore
    have hplace : d.virtualBase + (gpaToOffset gpa - d.virtualBase) = gpaToOffset gpa := by omega
    have hfit : gpaToOffset gpa - d.virtualBase + 8 ≤ d.capacity := by omega
    have hread := h.load_ssd hi hfit
    rw [hplace] at hread
    obtain ⟨pool', hput, hready, hbytes⟩ := h.store_ssd hi ((length_leBytes 8
      (f (leValue (ssd.load (.ssd i (gpaToOffset gpa - d.virtualBase)) 8)).toUInt64).toNat).symm ▸
        hfit)
    rw [hput]
    rw [hplace] at hbytes
    have hinside := h.wf.layout.inside (List.mem_of_getElem? hi)
    refine diskEffect_stored h hready rfl rfl ?_ hbytes fun m hm => ?_
    · rw [h.wf.length_bytes]
      exact hd2.trans hinside.2
    · dsimp only [SegmentOp.Answers]
      rw [hread, hm]
      rfl
  · exact hrefused e he

end Disks

/-! The router. -/

/-- The SSD transport is one of those that addresses lead to. -/
def Transport.UsesSsd : Transport → Prop
  | .router tr => tr.ssd.isSome
  | .legacy _ => False

/-- Where an address of this node lies. The local transport has no disks. -/
def Transport.place (transport : Transport) (gpa : ℕ) : Option (Tier × ℕ) :=
  match transport.resolve gpa with
  | .error _ => none
  | .ok (.remote _) => none
  | .ok (.ssd _) => some (.ssd, gpaToOffset gpa)
  | .ok _ =>
    ((Tier.ofId (gpaToTier gpa)).filter (· ≠ .ssd)).map fun tier => (tier, gpaToOffset gpa)

theorem Transport.resolve_ssd {transport : Transport} {gpa : ℕ} {t : SsdTransport}
    (h : transport.resolve gpa = .ok (.ssd t)) :
    transport.UsesSsd ∧ Tier.ofId (gpaToTier gpa) = some .ssd := by
  cases transport with
  | legacy cfg => cases h
  | router tr =>
    have htier : tr.resolveTier gpa = .ok (.ssd t) := by
      change tr.resolve gpa = _ at h
      unfold TierRouter.resolve at h
      split at h
      · split_ifs at h
        · cases h
        · exact h
      · exact h
    unfold TierRouter.resolveTier at htier
    split at htier
    · cases htier
    next hid =>
      refine ⟨?_, hid⟩
      split at htier
      next hssd =>
        unfold UsesSsd
        dsimp only
        rw [hssd]
        rfl
      · split_ifs at htier
    · split_ifs at htier
      cases htier
    · cases htier

namespace DataWorld

variable {R : Type}

def segments (content : ℕ → UInt8) (w : DataWorld R) : Segments Tier :=
  tierSegments content w.mem w.ssd

structure Ready (transport : Transport) (w : DataWorld R) : Prop where
  mem : w.mem.LocalReady
  ssd : transport.UsesSsd → w.ssd.DisksReady

/-- What a call through a transport does to the bytes of this node. -/
structure Effect (content : ℕ → UInt8) (transport : Transport) (w w' : DataWorld R) (gpa : ℕ)
    (ok : Bool) (op : Tier → SegmentOp Tier) : Prop where
  ready : w'.Ready transport
  run : ∃ ops, Attempt ((transport.place gpa).map fun p => op p.1) ok ops ∧
    SegmentRun (w.segments content) ops (w'.segments content)

variable {content : ℕ → UInt8} {transport : Transport} {w : DataWorld R} {gpa : ℕ}

theorem Ready.refused (h : w.Ready transport) (op : Tier → SegmentOp Tier) :
    Effect content transport w w gpa false op := ⟨h, [], .failed, rfl⟩

theorem Ready.onRemote (h : w.Ready transport) {t : RemoteTransport}
    (hleaf : transport.resolve gpa = .ok (.remote t)) (remote : R) (ok : Bool)
    (op : Tier → SegmentOp Tier) : Effect content transport w { w with remote } gpa ok op := by
  refine ⟨⟨h.mem, h.ssd⟩, [], ?_, rfl⟩
  unfold Transport.place
  rw [hleaf]
  cases ok with
  | true => exact .succeeded
  | false => exact .failed

theorem Ready.onLocal (h : w.Ready transport) {leaf : LeafTransport}
    (hleaf : transport.resolve gpa = .ok leaf) (hremote : ∀ t, leaf ≠ .remote t)
    (hnossd : ∀ t, leaf ≠ .ssd t) {mem : MemServiceCtx} {ok : Bool} {op : Tier → SegmentOp Tier}
    (heffect : LocalEffect content w.mem mem gpa ok op) :
    Effect content transport w { w with mem } gpa ok op := by
  obtain ⟨hready, heffect⟩ := heffect
  refine ⟨⟨hready, h.ssd⟩, ?_⟩
  cases ok with
  | false => exact ⟨[], .failed, heffect w.ssd⟩
  | true =>
    obtain ⟨tier, htier, hssd, hrun⟩ := heffect
    have hfilter : (some tier).filter (· ≠ .ssd) = some tier :=
      Option.filter_eq_some_iff.mpr ⟨rfl, decide_eq_true hssd⟩
    refine ⟨_, .succeeded, ?_⟩
    unfold Transport.place
    rw [hleaf]
    cases leaf with
    | remote t => exact absurd rfl (hremote t)
    | ssd t => exact absurd rfl (hnossd t)
    | localMem =>
      dsimp only
      rw [htier, hfilter]
      exact hrun w.ssd
    | legacy =>
      dsimp only
      rw [htier, hfilter]
      exact hrun w.ssd

theorem Ready.onSsd (h : w.Ready transport) {t : SsdTransport}
    (hleaf : transport.resolve gpa = .ok (.ssd t)) {ssd : MemServiceCtx} {ok : Bool}
    {op : Tier → SegmentOp Tier} {ops : List (SegmentOp Tier)}
    (hattempt : Attempt (some (op .ssd)) ok ops) (heffect : DiskEffect w.ssd ssd ops) :
    Effect content transport w { w with ssd } gpa ok op := by
  obtain ⟨hready, heffect⟩ := heffect
  refine ⟨⟨h.mem, fun _ => hready⟩, ops, ?_, heffect content w.mem⟩
  unfold Transport.place
  rw [hleaf]
  exact hattempt

variable {io : PeerIo R} {env : DataEnv} {w' : DataWorld R}

theorem Ready.get (h : w.Ready transport) (hb : env.backing.Finds content) {len : ℕ}
    (hlen : 0 < len) (hlt : gpaToOffset gpa + len < 2 ^ 64) {out out' : List UInt8}
    (hout : out.length = len) {r : Except Error Unit}
    (hop : transportGet io env w transport gpa len out = some (r, w', out')) :
    Effect content transport w w' gpa r.isOk fun tier => .read tier (gpaToOffset gpa) out' := by
  unfold transportGet at hop
  split at hop
  · obtain ⟨rfl, rfl, -⟩ := by simpa using hop
    exact h.refused _
  next t hleaf =>
    obtain ⟨rfl, rfl, -⟩ := by simpa using hop
    exact h.onRemote hleaf _ _ _
  next t hleaf =>
    obtain ⟨⟨r', ssd, out''⟩, hget, hres⟩ := Option.map_eq_some_iff.mp hop
    obtain ⟨rfl, rfl, rfl⟩ := by simpa using hres
    obtain ⟨ops, hattempt, heffect⟩ := ssdTransportGet_effect
      (h.ssd (Transport.resolve_ssd hleaf).1) hlen hout hlt hget
    exact h.onSsd hleaf hattempt heffect
  next leaf hremote hnossd hleaf =>
    obtain ⟨⟨r', mem, out''⟩, hget, hres⟩ := Option.map_eq_some_iff.mp hop
    obtain ⟨rfl, rfl, rfl⟩ := by simpa using hres
    exact h.onLocal hleaf (fun t ht => hremote t ht) (fun t ht => hnossd t ht)
      (localGet_effect h.mem hb hout hget)

theorem Ready.put (h : w.Ready transport) (hb : env.backing.Finds content) {buf : List UInt8}
    (hlen : 0 < buf.length) (hlt : gpaToOffset gpa + buf.length < 2 ^ 64) {r : Except Error Unit}
    (hop : transportPut io env w transport gpa buf = some (r, w')) :
    Effect content transport w w' gpa r.isOk fun tier => .write tier (gpaToOffset gpa) buf := by
  unfold transportPut at hop
  split at hop
  · obtain ⟨rfl, rfl⟩ := by simpa using hop
    exact h.refused _
  next t hleaf =>
    obtain ⟨rfl, rfl⟩ := by simpa using hop
    exact h.onRemote hleaf _ _ _
  next t hleaf =>
    obtain ⟨⟨r', ssd⟩, hput, hres⟩ := Option.map_eq_some_iff.mp hop
    obtain ⟨rfl, rfl⟩ := by simpa using hres
    obtain ⟨ops, hattempt, heffect⟩ := ssdTransportPut_effect
      (h.ssd (Transport.resolve_ssd hleaf).1) hlen hlt hput
    exact h.onSsd hleaf hattempt heffect
  next leaf hremote hnossd hleaf =>
    obtain ⟨⟨r', mem⟩, hput, hres⟩ := Option.map_eq_some_iff.mp hop
    obtain ⟨rfl, rfl⟩ := by simpa using hres
    exact h.onLocal hleaf (fun t ht => hremote t ht) (fun t ht => hnossd t ht)
      (localPut_effect h.mem hb hput)

theorem Ready.atomic (h : w.Ready transport) {α : Type} {r : Except Error α}
    {onLocal onSsd : MemServiceCtx → Option (Except Error α × MemServiceCtx)}
    {op : Tier → SegmentOp Tier}
    (hlocal : ∀ r' mem, onLocal w.mem = some (r', mem) → r' = r →
      LocalEffect content w.mem mem gpa r.isOk op)
    (hssd : ∀ r' ssd, w.ssd.DisksReady → onSsd w.ssd = some (r', ssd) → r' = r →
      DiskEffect w.ssd ssd (if r.isOk then [op .ssd] else []))
    (hop : transportAtomic w transport gpa onLocal onSsd = some (r, w')) :
    Effect content transport w w' gpa r.isOk op := by
  unfold transportAtomic at hop
  split at hop
  · obtain ⟨rfl, rfl⟩ := by simpa using hop
    exact h.refused _
  next t hleaf =>
    obtain ⟨rfl, rfl⟩ := by simpa using hop
    exact h.refused _
  next t hleaf =>
    obtain ⟨⟨r', ssd⟩, hcell, hres⟩ := Option.map_eq_some_iff.mp hop
    obtain ⟨rfl, rfl⟩ := by simpa using hres
    have heffect := hssd r' ssd (h.ssd (Transport.resolve_ssd hleaf).1) hcell rfl
    refine h.onSsd hleaf ?_ heffect
    cases r' with
    | error e => exact .failed
    | ok a => exact .succeeded
  next leaf hremote hnossd hleaf =>
    obtain ⟨⟨r', mem⟩, hcell, hres⟩ := Option.map_eq_some_iff.mp hop
    obtain ⟨rfl, rfl⟩ := by simpa using hres
    exact h.onLocal hleaf (fun t ht => hremote t ht) (fun t ht => hnossd t ht)
      (hlocal r' mem hcell rfl)

end DataWorld

end Umm
