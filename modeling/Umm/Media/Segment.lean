import Umm.Lib.Fallible
import Umm.Lib.Splice

/-! The segments of one SSD extent, after `_vm_segment.py`: units are collected in a buffer of one
segment, which goes to the extent as a whole, and segments without units are used again. -/
namespace Umm
open Umm.Lib

/-- The exceptions of the media layer, with the values that their texts name. -/
inductive MediaError where
  | spBytesNotPositive (spBytes : ℤ)
  | spBytesUnaligned (spBytes : ℤ)
  | unitSizeUnaligned (unitSize : ℤ)
  | spBytesNotUnits (spBytes unitSize : ℤ)
  | extentNotSegments (userSize : ℕ) (spBytes : ℤ)
  | unitLength (len unitSize : ℕ)
  | segmentFull (deviceIdx nSeg : ℕ)
  | refcountAbnormal (deviceIdx seg : ℕ)
  /-- What `write_from` raises. -/
  | writeFailed
  /-- What `read_into` raises for a range outside the extent. -/
  | readFailed
  | maxReadBytes
  | noDevice
  | strategyDevices (strategyNum num : ℕ)
  | deviceRange (device : ℕ)
  | lengthsDiffer
  | outTooShort
  /-- The assignment to a slice of a view, with another length. -/
  | sliceLength
  | indexError
deriving DecidableEq, Repr

/-- `check_segment_geometry`. -/
def checkSegmentGeometry (spBytes unitSize : ℤ) : Except MediaError Unit :=
  if spBytes ≤ 0 then .error (.spBytesNotPositive spBytes)
  else if spBytes % 4096 ≠ 0 then .error (.spBytesUnaligned spBytes)
  else if unitSize ≤ 0 ∨ unitSize % 4096 ≠ 0 then .error (.unitSizeUnaligned unitSize)
  else if spBytes % unitSize ≠ 0 then .error (.spBytesNotUnits spBytes unitSize)
  else .ok ()

/-- What the checks of the constructor leave. -/
structure Geometry where
  spBytes : ℕ
  unitSize : ℕ
  nSeg : ℕ
  sp_pos : 0 < spBytes
  unit_pos : 0 < unitSize
  page_dvd : 4096 ∣ unitSize
  unit_dvd : unitSize ∣ spBytes

namespace Geometry

variable (geo : Geometry)

def slotsPerSeg : ℕ := geo.spBytes / geo.unitSize

def segmentOf (offset : ℕ) : ℕ := offset / geo.spBytes

end Geometry

/-- The write buffer: its segment, the number of filled slots, and the bytes. -/
structure SegBuf where
  seg : ℕ
  fill : ℕ
  data : List UInt8

structure DeviceSegmentManager where
  geo : Geometry
  deviceIdx : ℕ
  /-- The free segments, the next one first. -/
  free : List ℕ
  refcount : List ℤ
  buf : Option SegBuf
  /-- The bytes of the extent. -/
  extent : List UInt8

/-- What a call of `write_from` does: it writes, or raises and leaves anything in its range. -/
inductive WriteFrom where
  | done
  | raised (left : ℕ → UInt8)

def WriteFrom.bytes (w : WriteFrom) (data : List UInt8) : List UInt8 :=
  match w with
  | .done => data
  | .raised left => (List.range data.length).map left

namespace DeviceSegmentManager

/-- The constructor, on an extent that holds `extent`. -/
def init (extent : List UInt8) (deviceIdx : ℕ) (spBytes unitSize : ℤ) :
    Except MediaError DeviceSegmentManager :=
  match h : checkSegmentGeometry spBytes unitSize with
  | .error e => .error e
  | .ok () =>
    if extent.length % spBytes ≠ 0 then .error (.extentNotSegments extent.length spBytes)
    else
      .ok
        { geo :=
            { spBytes := spBytes.toNat
              unitSize := unitSize.toNat
              nSeg := extent.length / spBytes.toNat
              sp_pos := by
                unfold checkSegmentGeometry at h
                split_ifs at h
                omega
              unit_pos := by
                unfold checkSegmentGeometry at h
                split_ifs at h
                omega
              page_dvd := by
                unfold checkSegmentGeometry at h
                split_ifs at h
                omega
              unit_dvd := by
                unfold checkSegmentGeometry at h
                split_ifs at h with h1 h2 h3 h4
                have hdvd : unitSize ∣ spBytes := Int.dvd_of_emod_eq_zero (not_not.mp h4)
                have hcast : (unitSize.toNat : ℤ) ∣ (spBytes.toNat : ℤ) := by
                  rwa [Int.toNat_of_nonneg (by omega), Int.toNat_of_nonneg (by omega)]
                exact_mod_cast hcast }
          deviceIdx
          free := List.range (extent.length / spBytes.toNat)
          refcount := List.replicate (extent.length / spBytes.toNat) 0
          buf := none
          extent }

abbrev Call (α : Type) : Type := Fallible MediaError DeviceSegmentManager α

def startSegment : Call SegBuf := do
  let m ← get
  match m.free with
  | [] => throw (.segmentFull m.deviceIdx m.geo.nSeg)
  | seg :: free =>
    let b : SegBuf := ⟨seg, 0, List.replicate m.geo.spBytes 0⟩
    set { m with free, buf := some b }
    pure b

/-- The buffer goes to its segment. A segment whose units were all released meanwhile is free
again. -/
def flushLocked (b : SegBuf) (w : WriteFrom) : Call Unit := do
  let m ← get
  set { m with extent := splice m.extent (b.seg * m.geo.spBytes) (w.bytes b.data) }
  match w with
  | .raised _ => throw .writeFailed
  | .done =>
    let m ← get
    match m.refcount[b.seg]? with
    | none => throw .indexError
    | some n => set { m with buf := none, free := if n = 0 then b.seg :: m.free else m.free }

/-- The buffer, opened where there is none. -/
def openBuf : Call SegBuf := do
  let m ← get
  match m.buf with
  | none => startSegment
  | some b => pure b

/-- The buffer for the next unit, with a free slot. -/
def nextBuf (w : WriteFrom) : Call SegBuf := do
  let b ← openBuf
  let m ← get
  if b.fill = m.geo.slotsPerSeg then
    flushLocked b w
    startSegment
  else pure b

def append (data : List UInt8) (w : WriteFrom) : Call ℕ := do
  let m ← get
  if data.length ≠ m.geo.unitSize then throw (.unitLength data.length m.geo.unitSize)
  else
    let b ← nextBuf w
    let m ← get
    set { m with
      buf := some ⟨b.seg, b.fill + 1, splice b.data (b.fill * m.geo.unitSize) data⟩
      refcount := m.refcount.modify b.seg (· + 1) }
    pure (b.seg * m.geo.spBytes + b.fill * m.geo.unitSize)

def flush (w : WriteFrom) : Call Unit := do
  let m ← get
  match m.buf with
  | none => pure ()
  | some b => if 0 < b.fill then flushLocked b w else pure ()

/-- The offset lies in the segment of the buffer. -/
def isBuffered (m : DeviceSegmentManager) (offset : ℕ) : Bool :=
  m.buf.any fun b => decide (m.geo.segmentOf offset = b.seg)

def readBuffer (m : DeviceSegmentManager) (offset size : ℕ) : Option (List UInt8) :=
  match m.buf with
  | none => none
  | some b =>
    if m.geo.segmentOf offset = b.seg then
      some (slice b.data (offset - b.seg * m.geo.spBytes) size)
    else none

def release (offset : ℕ) : Call Unit := do
  let m ← get
  let seg := m.geo.segmentOf offset
  match m.refcount[seg]? with
  | none => throw .indexError
  | some n =>
    if m.isBuffered offset then
      set { m with refcount := m.refcount.set seg (n - 1) }
    else if n ≤ 0 then throw (.refcountAbnormal m.deviceIdx seg)
    else
      set { m with
        refcount := m.refcount.set seg (n - 1)
        free := if n - 1 = 0 then seg :: m.free else m.free }

end DeviceSegmentManager

end Umm
