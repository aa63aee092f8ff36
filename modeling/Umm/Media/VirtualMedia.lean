import Umm.Media.Segment

/-! The media layer of `virtual_media.py`: a strategy spreads units over devices, each device
collects them in segments, and a batch of reads is merged into few reads of the devices. -/
namespace Umm
open Umm.Lib

/-- The contract of `PlacementStrategy`: a device for every key, and always the same one. -/
structure PlacementStrategy (κ : Type) where
  numDevices : ℕ
  locate : κ → ℕ
  locate_lt : ∀ key, locate key < numDevices

structure VirtualMedia (κ : Type) where
  unitSize : ℕ
  readMerge : Bool
  maxReadBytes : Option ℕ
  strategy : PlacementStrategy κ
  mgrs : List DeviceSegmentManager

/-- A read of `len` bytes of a device. -/
structure DeviceRead where
  device : ℕ
  start : ℕ
  len : ℕ
deriving DecidableEq

/-- The views of the caller, and the reads that were issued. -/
structure ReadState where
  outs : List (List UInt8)
  reads : List DeviceRead

namespace VirtualMedia

variable {κ : Type}

/-- An extent as the constructor gets it: its bytes, and the size of its segments. -/
structure Extent where
  bytes : List UInt8
  spBytes : ℤ

def initMgrs (unitSize : ℤ) : ℕ → List Extent → Except MediaError (List DeviceSegmentManager)
  | _, [] => pure []
  | d, e :: es => do
    let mgr ← DeviceSegmentManager.init e.bytes d e.spBytes unitSize
    let mgrs ← initMgrs unitSize (d + 1) es
    pure (mgr :: mgrs)

/-- The constructor, with the configuration resolved and the extents allocated. -/
def init (unitSize : ℤ) (extents : List Extent) (strategy : PlacementStrategy κ)
    (readMerge : Bool) (maxReadBytes : Option ℤ) : Except MediaError (VirtualMedia κ) :=
  if maxReadBytes.any (fun n => unitSize ≤ 0 ∨ n < unitSize ∨ n % unitSize ≠ 0) then
    .error .maxReadBytes
  else if extents = [] then .error .noDevice
  else if strategy.numDevices ≠ extents.length then
    .error (.strategyDevices strategy.numDevices extents.length)
  else do
    let mgrs ← initMgrs unitSize 0 extents
    pure ⟨unitSize.toNat, readMerge, maxReadBytes.map Int.toNat, strategy, mgrs⟩

abbrev Call (κ α : Type) : Type := Fallible MediaError (VirtualMedia κ) α

/-- A call of the manager of a device. -/
def onDevice {α : Type} (d : ℕ) (call : DeviceSegmentManager.Call α) : Call κ α := do
  let vm ← get
  match vm.mgrs[d]? with
  | none => throw .indexError
  | some mgr =>
    set { vm with mgrs := vm.mgrs.set d (call mgr).2 }
    match (call mgr).1 with
    | .error e => throw e
    | .ok a => pure a

/-- `write`: the offset in the extent of the device that the strategy chose. -/
def write (key : κ) (data : List UInt8) (w : WriteFrom) : Call κ ℕ := do
  let vm ← get
  onDevice (vm.strategy.locate key) (DeviceSegmentManager.append data w)

def flushDevices (ws : ℕ → WriteFrom) : List ℕ → Call κ Unit
  | [] => pure ()
  | d :: ds => do
    onDevice d (DeviceSegmentManager.flush (ws d))
    flushDevices ws ds

def flush (ws : ℕ → WriteFrom) : Call κ Unit := do
  let vm ← get
  flushDevices ws (List.range vm.mgrs.length)

def release (device offset : ℕ) : Call κ Unit := do
  let vm ← get
  if device < vm.mgrs.length then onDevice device (DeviceSegmentManager.release offset)
  else throw (.deviceRange device)

section Read

variable (vm : VirtualMedia κ)

/-- Entries `(pos, offset)` for each device, in the order in which devices came up. -/
abbrev Buckets : Type := List (ℕ × List (ℕ × ℕ))

def addToBucket (d : ℕ) (entry : ℕ × ℕ) : Buckets → Buckets
  | [] => [(d, [entry])]
  | (d', group) :: rest =>
    if d' = d then (d', group ++ [entry]) :: rest else (d', group) :: addToBucket d entry rest

/-- `outs[pos][:unit_size] = data`. -/
def assign (pos : ℕ) (data : List UInt8) : Fallible MediaError ReadState Unit := do
  let s ← get
  match s.outs[pos]? with
  | none => throw .indexError
  | some out =>
    if data.length ≠ min vm.unitSize out.length then throw .sliceLength
    else set { s with outs := s.outs.set pos (splice out 0 data) }

/-- The first loop of `read_batch`: units in a buffer are copied, the others put in buckets. -/
def scan : List ((ℕ × ℕ) × ℕ) → Buckets → Fallible MediaError ReadState Buckets
  | [], buckets => pure buckets
  | ((d, offset), pos) :: rest, buckets => do
    let s ← get
    match vm.mgrs[d]?, s.outs[pos]? with
    | none, _ => throw (.deviceRange d)
    | _, none => throw .indexError
    | some mgr, some out =>
      if out.length < vm.unitSize then throw .outTooShort
      else
        match mgr.readBuffer offset vm.unitSize with
        | some data => do
          vm.assign pos data
          scan rest buckets
        | none => scan rest (addToBucket d (pos, offset) buckets)

/-- One round of `_merge_runs`: the entry goes to the last run, or starts a new one. -/
def mergeEntry (runs : List (List (ℕ × ℕ))) (entry : ℕ × ℕ) : List (List (ℕ × ℕ)) :=
  match runs.getLast? with
  | some (first :: rest) =>
    if vm.readMerge ∧ entry.2 = ((first :: rest).getLast (by simp)).2 + vm.unitSize ∧
        (∀ cap ∈ vm.maxReadBytes, entry.2 + vm.unitSize - first.2 ≤ cap) then
      runs.dropLast ++ [first :: rest ++ [entry]]
    else runs ++ [[entry]]
  | _ => runs ++ [[entry]]

def mergeRuns (entries : List (ℕ × ℕ)) : List (List (ℕ × ℕ)) := entries.foldl vm.mergeEntry []

/-- The read that covers a run. -/
def runRead (d : ℕ) (run : List (ℕ × ℕ)) : DeviceRead :=
  let start := (run.head?.map Prod.snd).getD 0
  let last := (run.getLast?.map Prod.snd).getD 0
  ⟨d, start, last + vm.unitSize - start⟩

/-- The runs of all devices. -/
def plannedRuns (buckets : Buckets) : List (ℕ × List (ℕ × ℕ)) :=
  buckets.flatMap fun p =>
    (vm.mergeRuns (p.2.mergeSort fun a b => decide (a.2 ≤ b.2))).map fun run => (p.1, run)

/-- A request at the engine, on an extent that is a flat store of bytes. -/
def readInto (r : DeviceRead) : Except MediaError (List UInt8) :=
  match vm.mgrs[r.device]? with
  | none => .error .indexError
  | some mgr =>
    if r.start + r.len ≤ mgr.extent.length then .ok (slice mgr.extent r.start r.len)
    else .error .readFailed

/-- The pieces of what was read go to their views. -/
def scatterRun (staging : List UInt8) (start : ℕ) :
    List (ℕ × ℕ) → Fallible MediaError ReadState Unit
  | [] => pure ()
  | (pos, offset) :: rest => do
    vm.assign pos (slice staging (offset - start) vm.unitSize)
    scatterRun staging start rest

def scatter : List (List UInt8) → List (ℕ × List (ℕ × ℕ)) → Fallible MediaError ReadState Unit
  | staging :: stagings, (d, run) :: runs => do
    vm.scatterRun staging (vm.runRead d run).start run
    scatter stagings runs
  | _, _ => pure ()

/-- `read_batch`. All requests are issued; the first one that fails is raised. -/
def readBatch (items : List (ℕ × ℕ)) : Fallible MediaError ReadState Unit := do
  let s ← get
  if items.length ≠ s.outs.length then throw .lengthsDiffer
  else
    let buckets ← vm.scan items.zipIdx []
    let runs := vm.plannedRuns buckets
    let reads := runs.map fun p => vm.runRead p.1 p.2
    let s ← get
    set { s with reads := s.reads ++ reads }
    match reads.mapM vm.readInto with
    | .error e => throw e
    | .ok stagings => vm.scatter stagings runs

end Read

end VirtualMedia

end Umm
