import Umm.Lib.Splice
import Umm.Client.TierRouter
import Umm.Engine.Engine

/-! `_execute_one` with the bytes of its buffer: the prefix that it takes of a memoryview, and what
`read_into` and `write_from` then move between the buffer and the chunk. -/
namespace Umm
open Umm.Lib

/-- The value that a Python integer becomes in a `c_uint64`. -/
def cUint64 (x : ℤ) : ℕ := (x % 2 ^ 64).toNat

theorem cUint64_lt (x : ℤ) : cUint64 x < 2 ^ 64 := by
  unfold cUint64
  have hpos : 0 ≤ x % 2 ^ 64 := Int.emod_nonneg x (by norm_num)
  have hlt : x % 2 ^ 64 < 2 ^ 64 := Int.emod_lt_of_pos x (by norm_num)
  omega

theorem cUint64_of_lt {x : ℤ} (h0 : 0 ≤ x) (h : x < 2 ^ 64) : cUint64 x = x.toNat := by
  unfold cUint64
  rw [Int.emod_eq_of_lt h0 h]

/-- A C-contiguous memoryview. -/
structure MemoryView where
  itemsize : ℕ
  shape : List ℕ
  readonly : Bool
  /-- The memory of the view, in C order. -/
  bytes : List UInt8
  /-- `obj` where that is a `bytes` object, and where in it the view begins. -/
  obj : Option (List UInt8 × ℕ)
  length_eq : bytes.length = itemsize * shape.prod
  length_lt : bytes.length < 2 ^ 63
  within : ∀ data start, obj = some (data, start) →
    start + bytes.length ≤ data.length ∧ bytes = slice data start bytes.length

namespace MemoryView

def nbytes (v : MemoryView) : ℕ := v.bytes.length

/-- The bytes of one index of the first dimension. -/
def unit (v : MemoryView) : ℕ := v.itemsize * v.shape.tail.prod

/-- The bytes of `v[:n]`, which counts indices of the first dimension. -/
def prefixBytes (v : MemoryView) (n : ℕ) : ℕ := v.unit * min n (v.shape.headD 0)

theorem nbytes_eq (v : MemoryView) (h : v.shape ≠ []) :
    v.nbytes = v.unit * v.shape.headD 0 := by
  obtain ⟨d, rest, hs⟩ := List.exists_cons_of_ne_nil h
  unfold nbytes unit
  rw [v.length_eq, hs, List.prod_cons, List.tail_cons, List.headD_cons]
  ring

theorem prefixBytes_le (v : MemoryView) (n : ℕ) (h : v.shape ≠ []) :
    v.prefixBytes n ≤ v.nbytes := by
  rw [v.nbytes_eq h]
  exact Nat.mul_le_mul_left _ (Nat.min_le_right _ _)

/-- `v[:n]`. A view without dimensions cannot be sliced. -/
def head (v : MemoryView) (n : ℕ) : Option MemoryView :=
  if h : v.shape = [] then none
  else some
    { itemsize := v.itemsize
      shape := min n (v.shape.headD 0) :: v.shape.tail
      readonly := v.readonly
      bytes := v.bytes.take (v.prefixBytes n)
      obj := v.obj
      length_eq := by
        have hle := v.prefixBytes_le n h
        unfold nbytes at hle
        rw [List.length_take, Nat.min_eq_left hle, List.prod_cons]
        unfold prefixBytes unit
        ring
      length_lt := lt_of_le_of_lt (List.length_take_le' _ _) v.length_lt
      within := fun data start hobj => by
        obtain ⟨hle, hbytes⟩ := v.within data start hobj
        have hlen : (v.bytes.take (v.prefixBytes n)).length ≤ v.bytes.length :=
          List.length_take_le' _ _
        refine ⟨by omega, ?_⟩
        rw [List.length_take]
        conv_lhs => rw [hbytes]
        unfold slice
        rw [List.take_take] }

end MemoryView

structure IOAddress where
  chunkId : ℤ
  baseGpa : ℤ
  /-- Where in the chunk. -/
  offset : ℤ
  length : ℤ
  userSize : ℤ
  deriving DecidableEq, Repr

/-- The `ChunkDescriptor` that `_execute_one` builds. -/
def IOAddress.descriptor (addr : IOAddress) : ChunkDescriptor :=
  ⟨cUint64 addr.chunkId, cUint64 addr.baseGpa, cUint64 addr.userSize⟩

/-- A request with its buffer. -/
structure BufferRequest where
  address : IOAddress
  buffer : MemoryView

inductive TransferError
  /-- The buffer has no dimension to slice. -/
  | zeroDim
  | readonly
  | failed (rc : Error)
  deriving DecidableEq, Repr

inductive BufferError
  | offset (offset : ℤ)
  | length (length : ℤ)
  | buffer (nbytes : ℕ) (length : ℤ)
  | transfer (e : TransferError)
  deriving DecidableEq, Repr

/-- What a request that succeeded returns and leaves. -/
structure Transferred (W : Type) where
  value : ℕ
  buffer : List UInt8
  memory : W

section Model

variable {W : Type} (io : DataPlane W) (s : UmmState) (w : W)

/-- `UMMLib.read_into` on a memoryview: the bytes that come to the start of its memory. -/
def readIntoView (desc : ChunkDescriptor) (offset : ℤ) (mv : MemoryView) :
    Except TransferError (ℕ × List UInt8) :=
  if mv.nbytes = 0 then .ok (0, [])
  else if mv.readonly then .error .readonly
  else match s.ummRead io w (some desc) (.ofNat (cUint64 offset)) (.ofNat mv.nbytes) true with
    | .error rc => .error (.failed rc)
    | .ok bytes => .ok (mv.nbytes, bytes)

/-- The memory that `write_from` gives to `umm_write`. -/
def writeSource (mv : MemoryView) : List UInt8 :=
  if mv.readonly then
    match mv.obj with
    -- a whole `bytes` object stands in for the view
    | some (data, _) => if mv.nbytes = data.length then data else mv.bytes
    | none => mv.bytes
  else mv.bytes

/-- `UMMLib.write_from` on a memoryview. -/
def writeFromView (desc : ChunkDescriptor) (offset : ℤ) (mv : MemoryView) :
    Except TransferError (ℕ × W) :=
  if mv.nbytes = 0 then .ok (0, w)
  else match s.ummWrite io w (some desc) (.ofNat (cUint64 offset)) (.ofNat mv.nbytes)
      (some (writeSource mv)) with
    | .error rc => .error (.failed rc)
    | .ok w' => .ok (mv.nbytes, w')

/-- The part of the buffer that is transferred. -/
def BufferRequest.view (req : BufferRequest) : Option MemoryView :=
  if (req.buffer.nbytes : ℤ) = req.address.length then some req.buffer
  else req.buffer.head req.address.length.toNat

/-- What `_execute_one` does after its checks. -/
def transferBuffer (req : BufferRequest) (isRead : Bool) : Except TransferError (Transferred W) :=
  match req.view with
  | none => .error .zeroDim
  | some view =>
    if isRead then
      (readIntoView io s w req.address.descriptor req.address.offset view).map
        (fun r => ⟨r.1, splice req.buffer.bytes 0 r.2, w⟩)
    else
      (writeFromView io s w req.address.descriptor req.address.offset view).map
        (fun r => ⟨r.1, req.buffer.bytes, r.2⟩)

/-- `ConcurrentIOEngine._execute_one`. -/
def executeBuffer (req : BufferRequest) (isRead : Bool) : Except BufferError (Transferred W) :=
  let addr := req.address
  let buf := req.buffer
  if addr.offset < 0 then .error (.offset addr.offset)
  else if addr.length < 0 then .error (.length addr.length)
  else if (buf.nbytes : ℤ) < addr.length then .error (.buffer buf.nbytes addr.length)
  else if addr.length = 0 then .ok ⟨0, buf.bytes, w⟩
  else (transferBuffer io s w req isRead).mapError .transfer

/-- How the engine's own model sees an exception. -/
def BufferError.seen (code : TransferError → ℤ) : BufferError → IOError
  | .offset o => .offset o
  | .length n => .length n
  | .buffer n len => .buffer n len
  | .transfer e => .raised (code e)

/-- The engine's model of a request is this one, with the library left open. -/
theorem executeBuffer_executeOne (code : TransferError → ℤ) (req : BufferRequest) (isRead : Bool) :
    Except.mapError (BufferError.seen code)
        ((executeBuffer io s w req isRead).map fun t => (t.value : ℤ)) =
      executeOne ⟨req.address.chunkId, req.address.offset, req.address.length, req.buffer.nbytes⟩
        isRead fun isRead =>
          Except.mapError code ((transferBuffer io s w req isRead).map fun t => (t.value : ℤ)) := by
  unfold executeOne executeBuffer
  dsimp only
  split_ifs
  · rfl
  · rfl
  · rfl
  · rfl
  · cases transferBuffer io s w req isRead <;> rfl

end Model

section Flat

/-- The memory of all nodes and tiers by global address. -/
abbrev FlatMemory : Type := UInt64 → UInt8

def FlatMemory.read (w : FlatMemory) (gpa len : ℕ) : List UInt8 :=
  (List.range len).map fun i => w (.ofNat (gpa + i))

def FlatMemory.write (w : FlatMemory) (gpa : ℕ) (bytes : List UInt8) : FlatMemory :=
  fun p => bytes.getD (p - .ofNat gpa).toNat (w p)

/-- Transports over one memory. Each may refuse a transfer, to read (`true`) or to write. -/
def flatPlane (refuses : LeafTransport → Bool → ℕ → ℕ → Option Error) : DataPlane FlatMemory where
  get leaf w gpa len :=
    match refuses leaf true gpa len with
    | some e => .error e
    | none => .ok (w.read gpa len)
  put leaf w gpa bytes :=
    match refuses leaf false gpa bytes.length with
    | some e => .error e
    | none => .ok (w.write gpa bytes)

/-- `umm_read` or `umm_write` turns a transfer of `n` bytes down: by its checks, for want of a
transport, or because the transport does. -/
def LibRefuses (s : UmmState) (refuses : LeafTransport → Bool → ℕ → ℕ → Option Error)
    (addr : IOAddress) (isRead : Bool) (n : ℕ) : Prop :=
  ∀ transport gpa leaf, s.checkAccess (some addr.descriptor) true (.ofNat (cUint64 addr.offset))
      (.ofNat n) = .ok (transport, gpa) → transport.resolve gpa = .ok leaf →
    refuses leaf isRead gpa n ≠ none

/-- The address of byte `i` of the request in its chunk. -/
def IOAddress.byteAddr (addr : IOAddress) (i : ℕ) : UInt64 :=
  .ofNat (addr.descriptor.baseGpa + (addr.offset.toNat + i))

/-- The range of the request lies in its chunk, if there is one. -/
def IOAddress.InChunk (addr : IOAddress) : Prop :=
  addr.length = 0 ∨ addr.offset + addr.length ≤ addr.descriptor.userSize

/-- A read that moved the first `length` bytes and nothing else. -/
structure PrefixRead (req : BufferRequest) (w : FlatMemory) (t : Transferred FlatMemory) : Prop where
  value : (t.value : ℤ) = req.address.length
  inChunk : req.address.InChunk
  buffer : ∀ i : ℕ, t.buffer[i]? =
    if (i : ℤ) < req.address.length then some (w (req.address.byteAddr i)) else req.buffer.bytes[i]?
  memory : t.memory = w

/-- A write that moved the first `length` bytes and nothing else. -/
structure PrefixWrite (req : BufferRequest) (w : FlatMemory) (t : Transferred FlatMemory) :
    Prop where
  value : (t.value : ℤ) = req.address.length
  inChunk : req.address.InChunk
  buffer : t.buffer = req.buffer.bytes
  written : ∀ i : ℕ, (i : ℤ) < req.address.length →
    req.buffer.bytes[i]? = some (t.memory (req.address.byteAddr i))
  memory : ∀ p, (∀ i : ℕ, (i : ℤ) < req.address.length → p ≠ req.address.byteAddr i) →
    t.memory p = w p

def Prefixed (isRead : Bool) (req : BufferRequest) (w : FlatMemory) (t : Transferred FlatMemory) :
    Prop :=
  if isRead then PrefixRead req w t else PrefixWrite req w t

section Memory

theorem FlatMemory.getElem?_read (w : FlatMemory) (gpa len i : ℕ) :
    (w.read gpa len)[i]? = if i < len then some (w (.ofNat (gpa + i))) else none := by
  unfold FlatMemory.read
  rw [List.getElem?_map]
  split_ifs with h
  · rw [List.getElem?_range h]
    rfl
  · rw [List.getElem?_eq_none (by rw [List.length_range]; omega)]
    rfl

theorem FlatMemory.length_read (w : FlatMemory) (gpa len : ℕ) : (w.read gpa len).length = len := by
  unfold FlatMemory.read
  rw [List.length_map, List.length_range]

theorem ofNat_u64_add (a i : ℕ) : UInt64.ofNat (u64 a + i) = .ofNat (a + i) := by
  apply UInt64.toNat_inj.mp
  simp [u64, Nat.add_mod]

theorem FlatMemory.write_inside (w : FlatMemory) (gpa : ℕ) {bytes : List UInt8} (hlen : bytes.length < 2 ^ 64) {i : ℕ}
    (hi : i < bytes.length) : bytes[i]? = some (w.write gpa bytes (.ofNat (gpa + i))) := by
  have hsub : (UInt64.ofNat (gpa + i) - UInt64.ofNat gpa).toNat = i := by
    rw [UInt64.ofNat_add, UInt64.add_comm, UInt64.add_sub_cancel]
    exact UInt64.toNat_ofNat_of_lt' (hi.trans hlen)
  unfold FlatMemory.write
  rw [hsub, List.getD_eq_getElem?_getD, List.getElem?_eq_getElem hi]
  rfl

theorem FlatMemory.write_outside {w : FlatMemory} {gpa : ℕ} {bytes : List UInt8} {p : UInt64}
    (h : ∀ i < bytes.length, p ≠ .ofNat (gpa + i)) : w.write gpa bytes p = w p := by
  unfold FlatMemory.write
  rw [List.getD_eq_getElem?_getD, List.getElem?_eq_none]
  · rfl
  · by_contra hlt
    refine h _ (not_le.mp hlt) ?_
    rw [UInt64.ofNat_add, UInt64.ofNat_toNat, UInt64.add_comm, UInt64.sub_add_cancel]

end Memory

section Library

variable {s : UmmState} {refuses : LeafTransport → Bool → ℕ → ℕ → Option Error}
  {addr : IOAddress} {w : FlatMemory} {n : ℕ} {isRead : Bool}

/-- What the checks of `umm_read` and `umm_write` leave for a transfer that passes them. -/
theorem checkAccess_ok {transport : Transport} {gpa : ℕ} (hn : n < 2 ^ 64)
    (h : s.checkAccess (some addr.descriptor) true (.ofNat (cUint64 addr.offset)) (.ofNat n) =
      .ok (transport, gpa)) :
    cUint64 addr.offset + n ≤ addr.descriptor.userSize ∧
      gpa = u64 (addr.descriptor.baseGpa + cUint64 addr.offset) := by
  have hoff : (UInt64.ofNat (cUint64 addr.offset)).toNat = cUint64 addr.offset :=
    UInt64.toNat_ofNat_of_lt' (cUint64_lt addr.offset)
  have hlen : (UInt64.ofNat n).toNat = n := UInt64.toNat_ofNat_of_lt' hn
  unfold UmmState.checkAccess at h
  dsimp only at h
  split_ifs at h with hinit harg husize hbound
  push Not at hbound
  obtain ⟨hwrap, hfit⟩ := hbound
  have hsum : (UInt64.ofNat (cUint64 addr.offset) + UInt64.ofNat n).toNat =
      cUint64 addr.offset + n := by
    rw [UInt64.lt_iff_toNat_lt, UInt64.toNat_add, hoff, hlen] at hwrap
    rw [UInt64.toNat_add, hoff, hlen]
    have hlt := cUint64_lt addr.offset
    omega
  split at h
  · cases h
  · rw [hsum] at hfit
    rw [hoff] at h
    obtain ⟨-, rfl⟩ := Prod.mk.inj (Except.ok.inj h)
    exact ⟨hfit, rfl⟩

/-- A transfer that the library does not refuse. -/
theorem exists_access (h : ¬ LibRefuses s refuses addr isRead n) :
    ∃ transport gpa leaf, s.checkAccess (some addr.descriptor) true
        (.ofNat (cUint64 addr.offset)) (.ofNat n) = .ok (transport, gpa) ∧
      transport.resolve gpa = .ok leaf ∧ refuses leaf isRead gpa n = none := by
  unfold LibRefuses at h
  push Not at h
  exact h

theorem ummRead_refused (h : LibRefuses s refuses addr true n) (hn : n < 2 ^ 64) :
    ∃ e, s.ummRead (flatPlane refuses) w (some addr.descriptor) (.ofNat (cUint64 addr.offset))
      (.ofNat n) true = .error e := by
  have hlen : (UInt64.ofNat n).toNat = n := UInt64.toNat_ofNat_of_lt' hn
  unfold UmmState.ummRead
  cases hc : s.checkAccess (some addr.descriptor) true (.ofNat (cUint64 addr.offset)) (.ofNat n) with
  | error e => exact ⟨e, rfl⟩
  | ok r =>
    obtain ⟨transport, gpa⟩ := r
    dsimp only
    unfold Transport.get
    cases hr : transport.resolve gpa with
    | error e => exact ⟨e, rfl⟩
    | ok leaf =>
      obtain ⟨e, he⟩ := Option.ne_none_iff_exists'.mp (h transport gpa leaf hc hr)
      refine ⟨e, ?_⟩
      simp only [flatPlane, hlen, he]

theorem ummWrite_refused {bytes : List UInt8} (h : LibRefuses s refuses addr false n)
    (hn : n < 2 ^ 64) (hb : bytes.length = n) :
    ∃ e, s.ummWrite (flatPlane refuses) w (some addr.descriptor) (.ofNat (cUint64 addr.offset))
      (.ofNat n) (some bytes) = .error e := by
  have hlen : (UInt64.ofNat n).toNat = n := UInt64.toNat_ofNat_of_lt' hn
  unfold UmmState.ummWrite
  rw [Option.isSome_some]
  cases hc : s.checkAccess (some addr.descriptor) true (.ofNat (cUint64 addr.offset)) (.ofNat n) with
  | error e => exact ⟨e, rfl⟩
  | ok r =>
    obtain ⟨transport, gpa⟩ := r
    dsimp only
    unfold Transport.put
    cases hr : transport.resolve gpa with
    | error e => exact ⟨e, rfl⟩
    | ok leaf =>
      obtain ⟨e, he⟩ := Option.ne_none_iff_exists'.mp (h transport gpa leaf hc hr)
      refine ⟨e, ?_⟩
      simp only [flatPlane, hlen, Option.getD_some, List.take_of_length_le hb.le, hb, he]

theorem ummRead_granted (h : ¬ LibRefuses s refuses addr true n) (hn : n < 2 ^ 64) :
    cUint64 addr.offset + n ≤ addr.descriptor.userSize ∧
      s.ummRead (flatPlane refuses) w (some addr.descriptor) (.ofNat (cUint64 addr.offset))
        (.ofNat n) true = .ok (w.read (u64 (addr.descriptor.baseGpa + cUint64 addr.offset)) n) := by
  have hlen : (UInt64.ofNat n).toNat = n := UInt64.toNat_ofNat_of_lt' hn
  obtain ⟨transport, gpa, leaf, hc, hr, he⟩ := exists_access h
  obtain ⟨hfit, rfl⟩ := checkAccess_ok hn hc
  refine ⟨hfit, ?_⟩
  unfold UmmState.ummRead
  rw [hc]
  dsimp only
  unfold Transport.get
  rw [hr]
  simp only [flatPlane, hlen, he]

theorem ummWrite_granted {bytes : List UInt8} (h : ¬ LibRefuses s refuses addr false n)
    (hn : n < 2 ^ 64) (hb : bytes.length = n) :
    cUint64 addr.offset + n ≤ addr.descriptor.userSize ∧
      s.ummWrite (flatPlane refuses) w (some addr.descriptor) (.ofNat (cUint64 addr.offset))
        (.ofNat n) (some bytes) =
          .ok (w.write (u64 (addr.descriptor.baseGpa + cUint64 addr.offset)) bytes) := by
  have hlen : (UInt64.ofNat n).toNat = n := UInt64.toNat_ofNat_of_lt' hn
  obtain ⟨transport, gpa, leaf, hc, hr, he⟩ := exists_access h
  obtain ⟨hfit, rfl⟩ := checkAccess_ok hn hc
  refine ⟨hfit, ?_⟩
  unfold UmmState.ummWrite
  rw [Option.isSome_some, hc]
  dsimp only
  unfold Transport.put
  rw [hr]
  simp only [flatPlane, hlen, Option.getD_some, List.take_of_length_le hb.le, hb, he]

end Library

/-- A number of units that is cut off in units, and makes the number itself. -/
theorem mul_min_eq_iff {u n d : ℕ} (hn : 0 < n) (hlt : n < u * d) : u * min n d = n ↔ u = 1 := by
  constructor
  · intro h
    rcases Nat.le_total n d with hnd | hdn
    · rw [Nat.min_eq_left hnd] at h
      exact Nat.eq_of_mul_eq_mul_right hn (by rw [h, Nat.one_mul])
    · rw [Nat.min_eq_right hdn] at h
      omega
  · rintro rfl
    rw [Nat.one_mul] at hlt ⊢
    exact Nat.min_eq_left hlt.le

section Request

variable {req : BufferRequest} {s : UmmState}
  {refuses : LeafTransport → Bool → ℕ → ℕ → Option Error} {w : FlatMemory} {isRead : Bool}

theorem writeSource_eq (mv : MemoryView) : writeSource mv = mv.bytes := by
  unfold writeSource
  split_ifs
  · split
    next data start hobj =>
      obtain ⟨hle, hbytes⟩ := mv.within data start hobj
      unfold MemoryView.nbytes
      split_ifs with hwhole
      · have hstart : start = 0 := by omega
        rw [hbytes, hstart, hwhole, slice_self]
      · rfl
    next => rfl
  · rfl

/-- The bytes of the view that is transferred. -/
def BufferRequest.moved (req : BufferRequest) : ℕ :=
  if (req.buffer.nbytes : ℤ) = req.address.length then req.buffer.nbytes
  else req.buffer.prefixBytes req.address.length.toNat

theorem BufferRequest.view_eq_none (hshape : req.buffer.shape = [])
    (hne : (req.buffer.nbytes : ℤ) ≠ req.address.length) : req.view = none := by
  unfold BufferRequest.view MemoryView.head
  rw [if_neg hne, dif_pos hshape]

theorem BufferRequest.view_eq_some
    (h : ¬ (req.buffer.shape = [] ∧ (req.buffer.nbytes : ℤ) ≠ req.address.length)) :
    ∃ view, req.view = some view ∧ view.readonly = req.buffer.readonly ∧
      view.bytes = req.buffer.bytes.take req.moved ∧ view.nbytes = req.moved := by
  unfold BufferRequest.view BufferRequest.moved
  by_cases heq : (req.buffer.nbytes : ℤ) = req.address.length
  · rw [if_pos heq, if_pos heq]
    refine ⟨req.buffer, rfl, rfl, ?_, rfl⟩
    unfold MemoryView.nbytes
    rw [List.take_length]
  · have hshape : req.buffer.shape ≠ [] := fun hs => h ⟨hs, heq⟩
    have hle := req.buffer.prefixBytes_le req.address.length.toNat hshape
    rw [if_neg heq, if_neg heq]
    unfold MemoryView.head
    rw [dif_neg hshape]
    refine ⟨_, rfl, rfl, rfl, ?_⟩
    unfold MemoryView.nbytes at hle ⊢
    rw [List.length_take, Nat.min_eq_left hle]

/-- The request has no bytes to move, or a check of the code or the library turns it down. -/
def BufferRequest.Refused (req : BufferRequest) (s : UmmState)
    (refuses : LeafTransport → Bool → ℕ → ℕ → Option Error) (isRead : Bool) : Prop :=
  req.address.offset < 0 ∨ req.address.length < 0 ∨
    (req.buffer.nbytes : ℤ) < req.address.length ∨
    (req.buffer.shape = [] ∧ (req.buffer.nbytes : ℤ) ≠ req.address.length) ∨
    (isRead = true ∧ req.buffer.readonly = true) ∨
    LibRefuses s refuses req.address isRead req.moved

/-- A part of the buffer that fits the request in number of items, but not in bytes. -/
theorem BufferRequest.moved_cases (h0 : 0 < req.address.length)
    (hle : req.address.length ≤ req.buffer.nbytes)
    (h : ¬ (req.buffer.shape = [] ∧ (req.buffer.nbytes : ℤ) ≠ req.address.length)) :
    0 < req.moved ∧ req.moved ≤ req.buffer.nbytes ∧
      ((req.moved : ℤ) = req.address.length ↔
        (req.buffer.nbytes : ℤ) = req.address.length ∨ req.buffer.unit = 1) := by
  unfold BufferRequest.moved
  by_cases heq : (req.buffer.nbytes : ℤ) = req.address.length
  · rw [if_pos heq]
    exact ⟨by omega, le_rfl, fun _ => Or.inl heq, fun _ => heq⟩
  · have hshape : req.buffer.shape ≠ [] := fun hs => h ⟨hs, heq⟩
    have hn := req.buffer.nbytes_eq hshape
    have hpre := req.buffer.prefixBytes_le req.address.length.toNat hshape
    obtain ⟨len, hlen⟩ := Int.eq_ofNat_of_zero_le h0.le
    rw [hlen] at h0 hle heq
    rw [if_neg (by rw [hlen]; exact heq), hlen, Int.toNat_natCast]
    rw [hlen, Int.toNat_natCast] at hpre
    have hlt : len < req.buffer.unit * req.buffer.shape.headD 0 := by omega
    refine ⟨?_, hpre, ?_⟩
    · have hpos : 0 < req.buffer.unit * req.buffer.shape.headD 0 := by omega
      exact Nat.mul_pos (Nat.pos_of_mul_pos_right hpos)
        (Nat.lt_min.mpr ⟨by omega, Nat.pos_of_mul_pos_left hpos⟩)
    · unfold MemoryView.prefixBytes
      rw [Nat.cast_inj, or_iff_right heq]
      exact mul_min_eq_iff (by omega) hlt

theorem executeBuffer_refused (h0 : req.address.length ≠ 0) (h : req.Refused s refuses isRead) :
    ∃ e, executeBuffer (flatPlane refuses) s w req isRead = .error e := by
  unfold executeBuffer
  dsimp only
  split_ifs with hoff hneg hbuf
  · exact ⟨_, rfl⟩
  · exact ⟨_, rfl⟩
  · exact ⟨_, rfl⟩
  · suffices ht : ∃ e, transferBuffer (flatPlane refuses) s w req isRead = .error e by
      obtain ⟨e, he⟩ := ht
      exact ⟨_, by rw [he]; rfl⟩
    have hrest := ((h.resolve_left hoff).resolve_left hneg).resolve_left hbuf
    unfold transferBuffer
    by_cases hzero : req.buffer.shape = [] ∧ (req.buffer.nbytes : ℤ) ≠ req.address.length
    · rw [BufferRequest.view_eq_none hzero.1 hzero.2]
      exact ⟨_, rfl⟩
    obtain ⟨view, hview, hro, hbytes, hn⟩ := BufferRequest.view_eq_some hzero
    obtain ⟨hpos, hle, -⟩ := BufferRequest.moved_cases (by omega) (by omega) hzero
    have hlt := req.buffer.length_lt
    have hmoved : req.moved < 2 ^ 64 := by
      unfold MemoryView.nbytes at hle
      omega
    have hnonempty : ¬ req.moved = 0 := by omega
    rw [hview]
    dsimp only
    rcases hrest.resolve_left hzero with ⟨rfl, hreadonly⟩ | hlib
    · rw [if_pos rfl]
      unfold readIntoView
      rw [hn, if_neg hnonempty, hro, if_pos hreadonly]
      exact ⟨_, rfl⟩
    cases isRead with
    | true =>
      obtain ⟨e, he⟩ := ummRead_refused (w := w) hlib hmoved
      rw [if_pos rfl]
      unfold readIntoView
      rw [hn, if_neg hnonempty, he]
      split_ifs
      · exact ⟨_, rfl⟩
      · exact ⟨_, rfl⟩
    | false =>
      obtain ⟨e, he⟩ := ummWrite_refused (w := w) hlib hmoved
        (show (writeSource view).length = req.moved by rw [writeSource_eq]; exact hn)
      rw [if_neg Bool.false_ne_true]
      unfold writeFromView
      rw [hn, if_neg hnonempty, he]
      exact ⟨_, rfl⟩

/-- Where the request is served, it moves as many bytes as its view has. -/
theorem executeBuffer_granted (h0 : req.address.length ≠ 0) (h : ¬ req.Refused s refuses isRead) :
    cUint64 req.address.offset + req.moved ≤ req.address.descriptor.userSize ∧
      executeBuffer (flatPlane refuses) s w req isRead = .ok
        (let gpa := u64 (req.address.descriptor.baseGpa + cUint64 req.address.offset)
        if isRead then ⟨req.moved, splice req.buffer.bytes 0 (w.read gpa req.moved), w⟩
        else ⟨req.moved, req.buffer.bytes, w.write gpa (req.buffer.bytes.take req.moved)⟩) := by
  unfold BufferRequest.Refused at h
  push Not at h
  obtain ⟨hoff, hneg, hbuf, hzero, hreadonly, hlib⟩ := h
  have hview' : ¬ (req.buffer.shape = [] ∧ (req.buffer.nbytes : ℤ) ≠ req.address.length) :=
    fun hc => hc.2 (hzero hc.1)
  obtain ⟨view, hview, hro, hbytes, hn⟩ := BufferRequest.view_eq_some hview'
  obtain ⟨hpos, hle, -⟩ := BufferRequest.moved_cases (by omega) hbuf hview'
  have hlt := req.buffer.length_lt
  have hmoved : req.moved < 2 ^ 64 := by
    unfold MemoryView.nbytes at hle
    omega
  have hnonempty : ¬ req.moved = 0 := by omega
  unfold executeBuffer transferBuffer
  dsimp only
  rw [if_neg (by omega), if_neg (by omega), if_neg (by omega), if_neg h0, hview]
  dsimp only
  cases isRead with
  | true =>
    obtain ⟨hfit, he⟩ := ummRead_granted (w := w) hlib hmoved
    refine ⟨hfit, ?_⟩
    rw [if_pos rfl, if_pos rfl]
    unfold readIntoView
    rw [hn, if_neg hnonempty, hro, if_neg (hreadonly rfl), he]
    rfl
  | false =>
    obtain ⟨hfit, he⟩ := ummWrite_granted (w := w) hlib hmoved
      (show (writeSource view).length = req.moved by rw [writeSource_eq]; exact hn)
    refine ⟨hfit, ?_⟩
    rw [if_neg Bool.false_ne_true, if_neg Bool.false_ne_true]
    unfold writeFromView
    rw [hn, if_neg hnonempty, he, writeSource_eq, hbytes]
    rfl

/-- A request that moves nothing. -/
theorem prefixed_empty (h0 : req.address.length = 0) :
    Prefixed isRead req w ⟨0, req.buffer.bytes, w⟩ := by
  have hnone : ∀ i : ℕ, ¬ (i : ℤ) < req.address.length := fun i => by omega
  unfold Prefixed
  split_ifs
  · refine ⟨h0.symm, Or.inl h0, fun i => ?_, rfl⟩
    rw [if_neg (hnone i)]
  · exact ⟨h0.symm, Or.inl h0, rfl, fun i hi => absurd hi (hnone i), fun _ _ => rfl⟩

theorem byteAddr_eq (addr : IOAddress) (i : ℕ) :
    UInt64.ofNat (u64 (addr.descriptor.baseGpa + addr.offset.toNat) + i) = addr.byteAddr i := by
  rw [ofNat_u64_add, Nat.add_assoc]
  rfl

/-- A read of as many bytes as were asked for. -/
theorem prefixRead_of_moved (hm : (req.moved : ℤ) = req.address.length)
    (hle : req.moved ≤ req.buffer.nbytes) (hchunk : req.address.InChunk) :
    PrefixRead req w ⟨req.moved, splice req.buffer.bytes 0
      (w.read (u64 (req.address.descriptor.baseGpa + req.address.offset.toNat)) req.moved), w⟩ := by
  refine ⟨hm, hchunk, fun i => ?_, rfl⟩
  have hlen := w.length_read (u64 (req.address.descriptor.baseGpa + req.address.offset.toNat))
    req.moved
  have hfit : 0 + (w.read (u64 (req.address.descriptor.baseGpa + req.address.offset.toNat))
      req.moved).length ≤ req.buffer.bytes.length := by
    rw [hlen, Nat.zero_add]
    exact hle
  dsimp only
  rw [getElem?_splice hfit, hlen, w.getElem?_read, ← hm, byteAddr_eq]
  by_cases hi : i < req.moved
  · rw [if_pos (by omega), if_pos (by omega), if_pos (by omega), Nat.sub_zero]
  · rw [if_neg (by omega), if_neg (by omega)]

/-- A write of as many bytes as were asked for. -/
theorem prefixWrite_of_moved (hm : (req.moved : ℤ) = req.address.length)
    (hle : req.moved ≤ req.buffer.nbytes) (hchunk : req.address.InChunk) :
    PrefixWrite req w ⟨req.moved, req.buffer.bytes,
      w.write (u64 (req.address.descriptor.baseGpa + req.address.offset.toNat))
        (req.buffer.bytes.take req.moved)⟩ := by
  have hlt := req.buffer.length_lt
  unfold MemoryView.nbytes at hle
  have hlen : (req.buffer.bytes.take req.moved).length = req.moved := by
    rw [List.length_take, Nat.min_eq_left hle]
  refine ⟨hm, hchunk, rfl, fun i hi => ?_, fun p hp => ?_⟩
  · have hi' : i < req.moved := by omega
    have hin := w.write_inside (u64 (req.address.descriptor.baseGpa + req.address.offset.toNat))
      (by rw [hlen]; omega) (hlen.symm ▸ hi')
    rw [List.getElem?_take_of_lt hi', byteAddr_eq] at hin
    exact hin
  · refine FlatMemory.write_outside fun i hi => ?_
    rw [byteAddr_eq]
    exact hp i (by rw [hlen] at hi; omega)

/-- A request that succeeds has moved the first `length` bytes of its buffer and nothing else,
exactly when it is empty, is refused, or one item of the buffer is one byte or all of it is asked
for. The offset must be one that a `uint64_t` keeps. -/
theorem executeBuffer_prefix_iff (req : BufferRequest) (isRead : Bool) (s : UmmState)
    (refuses : LeafTransport → Bool → ℕ → ℕ → Option Error) (w : FlatMemory) :
    (∀ t, executeBuffer (flatPlane refuses) s w req isRead = .ok t → Prefixed isRead req w t) ↔
      req.address.length = 0 ∨ req.Refused s refuses isRead ∨
        ((req.buffer.nbytes : ℤ) = req.address.length ∨ req.buffer.unit = 1) ∧
          req.address.offset < 2 ^ 64 := by
  by_cases h0 : req.address.length = 0
  · refine ⟨fun _ => Or.inl h0, fun _ t ht => ?_⟩
    unfold executeBuffer at ht
    dsimp only at ht
    split_ifs at ht
    obtain rfl := Except.ok.inj ht
    exact prefixed_empty h0
  by_cases hr : req.Refused s refuses isRead
  · refine ⟨fun _ => Or.inr (Or.inl hr), fun _ t ht => ?_⟩
    obtain ⟨e, he⟩ := executeBuffer_refused (w := w) h0 hr
    rw [he] at ht
    cases ht
  obtain ⟨hfit, he⟩ := executeBuffer_granted (w := w) h0 hr
  have hnot := hr
  unfold BufferRequest.Refused at hnot
  push Not at hnot
  obtain ⟨hoff, hneg, hbuf, hzero, -, -⟩ := hnot
  obtain ⟨-, hle, hiff⟩ := BufferRequest.moved_cases (by omega) hbuf fun hc => hc.2 (hzero hc.1)
  have husize : req.address.descriptor.userSize < 2 ^ 64 := cUint64_lt req.address.userSize
  rw [or_iff_right h0, or_iff_right hr, ← hiff, he]
  constructor
  · intro h
    have hp := h _ rfl
    have hsame : (req.moved : ℤ) = req.address.length ∧ req.address.InChunk := by
      unfold Prefixed at hp
      cases isRead with
      | true => exact ⟨hp.value, hp.inChunk⟩
      | false => exact ⟨hp.value, hp.inChunk⟩
    refine ⟨hsame.1, ?_⟩
    have hin := hsame.2.resolve_left h0
    omega
  · rintro ⟨hm, hlt⟩ t ht
    obtain rfl := Except.ok.inj ht
    rw [cUint64_of_lt hoff hlt] at hfit ⊢
    have hchunk : req.address.InChunk := Or.inr (by omega)
    unfold Prefixed
    cases isRead with
    | true => exact prefixRead_of_moved hm hle hchunk
    | false => exact prefixWrite_of_moved hm hle hchunk

/-- Ten items of four bytes. -/
def tenWords : MemoryView where
  itemsize := 4
  shape := [10]
  readonly := false
  bytes := List.replicate 40 0
  obj := none
  length_eq := by decide
  length_lt := by decide
  within := fun _ _ h => by cases h

def readyState : UmmState :=
  { UmmState.fresh with initialized := true, transport := some (.legacy .zero) }

/-- A read of eight bytes into ten words: the slice has eight words. -/
theorem executeBuffer_not_prefix :
    ∃ t, executeBuffer (flatPlane fun _ _ _ _ => none) readyState (fun _ => 7)
        ⟨⟨1, 0, 0, 8, 4096⟩, tenWords⟩ true = .ok t ∧
      t.value = 32 ∧ t.buffer = List.replicate 32 7 ++ List.replicate 8 0 ∧
      ¬ Prefixed true ⟨⟨1, 0, 0, 8, 4096⟩, tenWords⟩ (fun _ => 7) t := by
  refine ⟨_, rfl, by decide +kernel, by decide +kernel, ?_⟩
  intro h
  have hv := h.value
  revert hv
  decide +kernel

end Request

end Flat

end Umm
