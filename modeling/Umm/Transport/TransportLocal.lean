import Umm.Memory.MemServiceBounds
import Umm.Lib.Codec

/-! The local transport of `transport_local.c` and the atomics of the SSD transport: an address
is resolved to a pointer, and the bytes from there on are used without another check. The outer
`none` of an operation is an access outside of the memory that the pointer leads into. -/
namespace Umm
open Umm.Lib

def localResolve (m : MemServiceCtx) (gpa len : ℕ) (backing : Backing) :
    Except Error DevicePtr × MemServiceCtx :=
  match Tier.ofId (gpaToTier gpa) with
  | none => (.error .invalidArg, m)
  | some tier => memsvcMapDevice m tier (gpaToOffset gpa) len backing

def localGet (m : MemServiceCtx) (gpa len : ℕ) (outBuf : List UInt8) (backing : Backing) :
    Option (Except Error Unit × MemServiceCtx × List UInt8) :=
  match localResolve m gpa len backing with
  | (.error e, m) => some (.error e, m, outBuf)
  | (.ok src, m) => (m.loadAt src len).map fun bytes => (.ok (), m, splice outBuf 0 bytes)

def localPut (m : MemServiceCtx) (gpa : ℕ) (buf : List UInt8) (backing : Backing) :
    Option (Except Error Unit × MemServiceCtx) :=
  match localResolve m gpa buf.length backing with
  | (.error e, m) => some (.error e, m)
  | (.ok dst, m) => (m.storeAt dst buf).map fun m => (.ok (), m)

/-- The cell of an atomic operation: its value before, and the memory after. -/
def MemServiceCtx.atomicAt (m : MemServiceCtx) (ptr : DevicePtr) (f : UInt64 → UInt64) :
    Option (UInt64 × MemServiceCtx) :=
  (m.loadAt ptr 8).bind fun bytes =>
    let prev := (leValue bytes).toUInt64
    (m.storeAt ptr (leBytes 8 (f prev).toNat)).map fun m => (prev, m)

/-- An atomic operation on the cell that a resolved address leads to. -/
def atomicAfter (r : Except Error DevicePtr × MemServiceCtx) (f : UInt64 → UInt64) :
    Option (Except Error UInt64 × MemServiceCtx) :=
  match r with
  | (.error e, m) => some (.error e, m)
  | (.ok ptr, m) => (m.atomicAt ptr f).map fun r => (.ok r.1, r.2)

def casWith (expected desired prev : UInt64) : UInt64 := if prev = expected then desired else prev

def localAtomicCas (m : MemServiceCtx) (gpa : ℕ) (expected desired : UInt64) (backing : Backing) :
    Option (Except Error UInt64 × MemServiceCtx) :=
  atomicAfter (localResolve m gpa 8 backing) (casWith expected desired)

def localAtomicFetchAdd (m : MemServiceCtx) (gpa : ℕ) (value : UInt64) (backing : Backing) :
    Option (Except Error UInt64 × MemServiceCtx) :=
  atomicAfter (localResolve m gpa 8 backing) (· + value)

def localAtomicSet (m : MemServiceCtx) (gpa : ℕ) (value : UInt64) (backing : Backing) :
    Option (Except Error Unit × MemServiceCtx) :=
  (atomicAfter (localResolve m gpa 8 backing) fun _ => value).map fun r =>
    (r.1.map fun _ => (), r.2)

def ssdTransportAtomicCas (m : MemServiceCtx) (gpa : ℕ) (expected desired : UInt64) :
    Option (Except Error UInt64 × MemServiceCtx) :=
  atomicAfter (memsvcMapDevice m .ssd (gpaToOffset gpa) 8 .failed) (casWith expected desired)

def ssdTransportAtomicFetchAdd (m : MemServiceCtx) (gpa : ℕ) (value : UInt64) :
    Option (Except Error UInt64 × MemServiceCtx) :=
  atomicAfter (memsvcMapDevice m .ssd (gpaToOffset gpa) 8 .failed) (· + value)

def ssdTransportAtomicSet (m : MemServiceCtx) (gpa : ℕ) (value : UInt64) :
    Option (Except Error Unit × MemServiceCtx) :=
  (atomicAfter (memsvcMapDevice m .ssd (gpaToOffset gpa) 8 .failed) fun _ => value).map fun r =>
    (r.1.map fun _ => (), r.2)

namespace MemServiceCtx

variable {m m' : MemServiceCtx} {tier : Tier} {offset size : ℕ} {backing : Backing}
  {ptr : DevicePtr}

/-! The operations of the transports. -/

theorem loadAt_isSome (h : m.Holds ptr size) : (m.loadAt ptr size).isSome = true := by
  rw [loadAt, if_pos h]
  rfl

theorem storeAt_isSome {bytes : List UInt8} (h : m.Holds ptr bytes.length) :
    (m.storeAt ptr bytes).isSome = true := by
  rw [storeAt, if_pos h]
  rfl

theorem atomicAfter_isSome {r : Except Error DevicePtr × MemServiceCtx} (f : UInt64 → UInt64)
    (h : ∀ ptr, r.1 = .ok ptr → r.2.Holds ptr 8) : (atomicAfter r f).isSome = true := by
  obtain ⟨r, m'⟩ := r
  cases r with
  | error e => rfl
  | ok ptr =>
    have hin : m'.Holds ptr 8 := h ptr rfl
    have hlen := length_leBytes 8 (f (leValue (m'.load ptr 8)).toUInt64).toNat
    unfold atomicAfter atomicAt loadAt storeAt
    dsimp only
    rw [if_pos hin, Option.bind_some, if_pos (by rw [hlen]; exact hin)]
    rfl

theorem MapsInside.holds (h : m.MapsInside tier offset size) (backing : Backing) :
    ∀ ptr, (memsvcMapDevice m tier offset size backing).1 = .ok ptr →
      (memsvcMapDevice m tier offset size backing).2.Holds ptr size := by
  intro ptr hptr
  exact (h backing ptr _ (Prod.ext hptr rfl)).holds

/-- The tier of an address. -/
theorem localResolve_eq (m : MemServiceCtx) (gpa len : ℕ) (backing : Backing) :
    ∃ tier, Tier.ofId (gpaToTier gpa) = some tier ∧
      localResolve m gpa len backing = memsvcMapDevice m tier (gpaToOffset gpa) len backing := by
  have hlt : gpaToTier gpa < 4 := by
    rw [gpaToTier_eq]
    omega
  obtain ⟨tier, htier⟩ : ∃ tier, Tier.ofId (gpaToTier gpa) = some tier := by
    interval_cases gpaToTier gpa <;> exact ⟨_, rfl⟩
  refine ⟨tier, htier, ?_⟩
  unfold localResolve
  rw [htier]

/-- The descriptor of `len` bytes at an address is one that can be mapped. -/
def RoomAt (m : MemServiceCtx) (gpa len : ℕ) : Prop :=
  ∀ tier, Tier.ofId (gpaToTier gpa) = some tier → m.MapRoom tier (gpaToOffset gpa) len

/-- The operations of the local transport at an address stay inside the memory. -/
structure LocalInBounds (m : MemServiceCtx) (gpa : ℕ) (backing : Backing) : Prop where
  get : ∀ len outBuf, 0 < len → m.RoomAt gpa len →
    (localGet m gpa len outBuf backing).isSome = true
  put : ∀ buf : List UInt8, 0 < buf.length → m.RoomAt gpa buf.length →
    (localPut m gpa buf backing).isSome = true
  cas : ∀ expected desired, m.RoomAt gpa 8 →
    (localAtomicCas m gpa expected desired backing).isSome = true
  fetchAdd : ∀ value, m.RoomAt gpa 8 → (localAtomicFetchAdd m gpa value backing).isSome = true
  set : ∀ value, m.RoomAt gpa 8 → (localAtomicSet m gpa value backing).isSome = true

/-- The copies and atomics of the SSD transport at an address stay inside the memory. -/
structure SsdInBounds (m : MemServiceCtx) (gpa : ℕ) : Prop where
  copies : ∀ len, 0 < len → ∀ ptr,
    (memsvcMapDevice m .ssd (gpaToOffset gpa) len .failed).1 = .ok ptr →
      (memsvcMapDevice m .ssd (gpaToOffset gpa) len .failed).2.Holds ptr len
  cas : ∀ expected desired, (ssdTransportAtomicCas m gpa expected desired).isSome = true
  fetchAdd : ∀ value, (ssdTransportAtomicFetchAdd m gpa value).isSome = true
  set : ∀ value, (ssdTransportAtomicSet m gpa value).isSome = true

theorem Sound.localResolve_holds (h : m.Sound) {gpa len : ℕ} (hlen : 0 < len)
    (hroom : m.RoomAt gpa len) (backing : Backing) :
    ∀ ptr, (localResolve m gpa len backing).1 = .ok ptr →
      (localResolve m gpa len backing).2.Holds ptr len := by
  obtain ⟨tier, htier, he⟩ := localResolve_eq m gpa len backing
  rw [he]
  have hin := (h.mapsInside_iff tier (gpaToOffset_lt gpa) hlen).mpr (hroom tier htier)
  exact hin.holds backing

theorem Sound.localInBounds (h : m.Sound) (gpa : ℕ) (backing : Backing) :
    m.LocalInBounds gpa backing := by
  have hatomic : ∀ f, m.RoomAt gpa 8 →
      (atomicAfter (localResolve m gpa 8 backing) f).isSome = true := fun f hroom =>
    atomicAfter_isSome f (h.localResolve_holds (by norm_num) hroom backing)
  constructor
  · intro len outBuf hlen hroom
    have hin := h.localResolve_holds hlen hroom backing
    unfold localGet
    split
    · rfl
    next ptr m' hr =>
      rw [Option.isSome_map]
      rw [hr] at hin
      exact loadAt_isSome (hin ptr rfl)
  · intro buf hlen hroom
    have hin := h.localResolve_holds hlen hroom backing
    unfold localPut
    split
    · rfl
    next ptr m' hr =>
      rw [Option.isSome_map]
      rw [hr] at hin
      exact storeAt_isSome (hin ptr rfl)
  · exact fun expected desired => hatomic _
  · exact fun value => hatomic _
  · intro value hroom
    unfold localAtomicSet
    rw [Option.isSome_map]
    exact hatomic _ hroom

theorem Sound.ssdInBounds (h : m.Sound) (gpa : ℕ) : m.SsdInBounds gpa := by
  have hatomic : ∀ f, (atomicAfter (memsvcMapDevice m .ssd (gpaToOffset gpa) 8 .failed) f).isSome =
      true := fun f => atomicAfter_isSome f (h.mapDevice_ssd_holds (by norm_num))
  refine ⟨fun len hlen => h.mapDevice_ssd_holds hlen, fun expected desired => hatomic _,
    fun value => hatomic _, fun value => ?_⟩
  unfold ssdTransportAtomicSet
  rw [Option.isSome_map]
  exact hatomic _

end MemServiceCtx

/-- A pointer is handed out for memory behind the tier exactly where the descriptor is one that
can be mapped, and then all operations stay in that memory. -/
theorem memsvcMapDevice_inside_iff {m : MemServiceCtx} (h : m.Reachable) :
    (∀ (tier : Tier) (offset size : UInt64), size ≠ 0 →
      (m.MapsInside tier offset.toNat size.toNat ↔ m.MapRoom tier offset.toNat size.toNat)) ∧
    (∀ (gpa : UInt64) (backing : Backing), m.LocalInBounds gpa.toNat backing) ∧
    ∀ gpa : UInt64, m.SsdInBounds gpa.toNat := by
  refine ⟨fun tier offset size hsize => ?_, fun gpa backing => h.sound.localInBounds _ backing,
    fun gpa => h.sound.ssdInBounds _⟩
  have hpos : 0 < size.toNat := Nat.pos_of_ne_zero fun hz => hsize (UInt64.toNat_inj.mp hz)
  exact h.sound.mapsInside_iff tier offset.toNat_lt hpos

/-- One page of CXL memory. -/
def MemServiceCtx.cxlPage : MemServiceCtx :=
  memServiceDirectCreateV2.setTier .cxl
    ⟨some ⟨4096, 4096, 1, 1, [1#8]⟩, 4096, 0, true, none, none⟩

theorem MemServiceCtx.cxlPage_reachable : MemServiceCtx.cxlPage.Reachable := by
  have hba : baCreate 4096 baDefaultPageSize = some ⟨4096, 4096, 1, 1, [1#8]⟩ := by decide +kernel
  refine Reachable.next (Reach.start rfl) (.registerStorage .cxl 4096 0 (some .file)
    ⟨false, true, ⟨true, fun _ => 0, true⟩, .failed⟩) ?_ ?_
  · simp [MemsvcCall.run, MemsvcCall.resource, memsvcRegisterStorage, memServiceDirectCreateV2,
      TierMemCtx.offline, hba, cxlPage]
  · intro pool hpool
    cases hpool

theorem memsvcMapDevice_inside_cxlPage :
    MemServiceCtx.cxlPage.MapsInside .cxl (0 : UInt64).toNat (4096 : UInt64).toNat := by
  refine ((memsvcMapDevice_inside_iff MemServiceCtx.cxlPage_reachable).1 .cxl 0 4096
    (by decide)).mpr fun _ => ?_
  rw [if_neg (by decide)]
  decide

/-- The byte after the page is mapped as well. -/
theorem memsvcMapDevice_past_end :
    ¬ ∀ m : MemServiceCtx, m.Reachable → ∀ (tier : Tier) (offset size : UInt64), size ≠ 0 →
      m.MapsInside tier offset.toNat size.toNat := by
  intro hall
  have hin := hall _ MemServiceCtx.cxlPage_reachable .cxl 4096 1 (by decide)
  have hroom := (MemServiceCtx.cxlPage_reachable.sound.mapsInside_iff .cxl
    (UInt64.toNat_lt 4096) (by decide)).mp hin rfl
  rw [if_neg (by decide)] at hroom
  revert hroom
  decide

end Umm
