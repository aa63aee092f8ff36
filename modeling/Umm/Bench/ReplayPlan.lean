import Umm.Ppa.BatchLru
import Umm.Media.PositionHash

/-! The capacities that `layout_replay.py` plans: for each request and device, once for all trials,
whatever the size of their segments. -/
namespace Umm

/-- `PAGE`. -/
def replayPage : ℕ := 4096

inductive ReplayMode
  | snapshot
  | online
  deriving DecidableEq

inductive ReplayPlacement
  | hash
  | layer
  deriving DecidableEq

/-- A line of a trace, after `load_trace`. -/
structure TraceRecord where
  requestId : String
  stepId : ℕ
  layerId : ℕ
  contextLength : ℕ
  context_pos : 0 < contextLength

def TraceRecord.key (r : TraceRecord) : String × ℕ := (r.requestId, r.layerId)

section Trace

variable (trace : List TraceRecord)

/-- The requests and their layers. -/
def traceKeys : List (String × ℕ) := (trace.map TraceRecord.key).dedup

def sortedKeys : List (String × ℕ) :=
  (traceKeys trace).insertionSort fun a b => a.1 < b.1 ∨ a.1 = b.1 ∧ a.2 ≤ b.2

def traceRequests : List String := (trace.map TraceRecord.requestId).dedup

/-- The layers of a request. -/
def requestLayers (request : String) : List ℕ :=
  ((sortedKeys trace).filter fun key => key.1 = request).map Prod.snd

variable {trace}

theorem mem_traceRequests {request : String} :
    request ∈ traceRequests trace ↔ request ∈ trace.map TraceRecord.requestId :=
  List.mem_dedup

theorem mem_sortedKeys {key : String × ℕ} :
    key ∈ sortedKeys trace ↔ key ∈ trace.map TraceRecord.key := by
  unfold sortedKeys
  rw [(List.perm_insertionSort _ _).mem_iff]
  exact List.mem_dedup

theorem nodup_sortedKeys : (sortedKeys trace).Nodup :=
  (List.perm_insertionSort _ _).nodup_iff.mpr (List.nodup_dedup _)

theorem mem_requestLayers {key : String × ℕ} :
    key.2 ∈ requestLayers trace key.1 ↔ key ∈ trace.map TraceRecord.key := by
  unfold requestLayers
  rw [List.mem_map, ← mem_sortedKeys]
  constructor
  · rintro ⟨k, hk, heq⟩
    obtain ⟨hk, hrequest⟩ := List.mem_filter.mp hk
    have hkey : k = key := Prod.ext (of_decide_eq_true hrequest) heq
    rwa [← hkey]
  · intro hkey
    exact ⟨key, List.mem_filter.mpr ⟨hkey, decide_eq_true rfl⟩, rfl⟩

end Trace

/-- Bytes rounded up to segments. -/
def wholeSegments (segment bytes : ℕ) : ℕ := (bytes + segment - 1) / segment * segment

structure GeometryState where
  steps : String → ℕ
  lengths : String × ℕ → ℕ
  slots : String → ℕ

/-- One round of `geometry`. -/
def geometryStep (segment : ℕ) (mode : ReplayMode) (g : GeometryState) (r : TraceRecord) :
    Except ValueError GeometryState :=
  let old := g.lengths r.key
  let new := r.contextLength
  if mode = .online ∧ r.stepId < g.steps r.requestId then
    .error ⟨"online step_id must not decrease within a request"⟩
  else if mode = .online ∧ new < old then
    .error ⟨"online context shrank for ('" ++ r.requestId ++ "', " ++ toString r.layerId ++
      "); use a new request_id for a new lifecycle"⟩
  else
    .ok
      { steps := Function.update g.steps r.requestId r.stepId
        lengths := Function.update g.lengths r.key (max old new)
        slots :=
          if old < new then
            Function.update g.slots r.requestId
              (g.slots r.requestId + wholeSegments segment ((new - old) * replayPage))
          else g.slots }

/-- `geometry`: the context of each layer, and the bytes of each request on one device. -/
def geometry (trace : List TraceRecord) (segment : ℕ) (mode : ReplayMode) :
    Except ValueError ((String × ℕ → ℕ) × (String → ℕ)) := do
  let g ← trace.foldlM (geometryStep segment mode) ⟨fun _ => 0, fun _ => 0, fun _ => 0⟩
  match mode with
  | .online => return (g.lengths, g.slots)
  | .snapshot =>
    return (g.lengths, fun request => wholeSegments segment
      (((sortedKeys trace).filter fun key => key.1 = request).map fun key =>
        g.lengths key * replayPage).sum)

/-- `PositionHashStrategy.locate` with its default steps and prime. -/
def positionHash (count layer token : ℕ) : ℕ := (token * 17 + layer * 23) % 2147483647 % count

theorem device_eq_positionHash (s : PositionHashStrategy) (hidx : s.stepIdx.value = 17)
    (hlayer : s.stepLayer.value = 23) (hprime : s.prime = 2147483647) (layer token : ℕ) :
    s.device (layer, token) = positionHash s.numDevices.toNat layer token := by
  have hpos := s.numDevices_pos
  unfold PositionHashStrategy.device PositionHashStrategy.position positionHash
  rw [hidx, hlayer, hprime]
  push_cast
  rw [Int.toNat_of_nonneg hpos.le]

/-- The device of a row, by its original layer. -/
def placementDevice (placement : ReplayPlacement) (count layer token : ℕ) : ℕ :=
  match placement with
  | .hash => positionHash count layer token
  | .layer => layer % count

theorem placementDevice_lt (placement : ReplayPlacement) {count : ℕ} (hcount : 0 < count)
    (layer token : ℕ) : placementDevice placement count layer token < count := by
  cases placement with
  | hash => exact Nat.mod_lt _ hcount
  | layer => exact Nat.mod_lt _ hcount

/-- The rows of a range of tokens that a device gets. -/
def rowsOn (locate : ℕ → ℕ → ℕ) (layer start stop d : ℕ) : ℕ :=
  (List.range' start (stop - start)).countP fun t => locate layer t = d

structure HashState where
  loaded : String × ℕ → ℕ
  sizes : String → ℕ → ℕ

/-- One round of `hash_capacities`. -/
def hashStep (segment : ℕ) (mode : ReplayMode) (count : ℕ) (st : HashState)
    (event : (String × ℕ) × ℕ) : HashState :=
  let request := event.1.1
  let rows := rowsOn (positionHash count) event.1.2 (st.loaded event.1) event.2
  { loaded := Function.update st.loaded event.1 event.2
    sizes := Function.update st.sizes request fun d => st.sizes request d +
      match mode with
      | .online => wholeSegments segment (rows d * replayPage)
      | .snapshot => rows d * replayPage }

def hashEvents (trace : List TraceRecord) (mode : ReplayMode) (lengths : String × ℕ → ℕ) :
    List ((String × ℕ) × ℕ) :=
  match mode with
  | .snapshot => (sortedKeys trace).map fun key => (key, lengths key)
  | .online => trace.map fun r => (r.key, r.contextLength)

def hashCapacities (trace : List TraceRecord) (segment : ℕ) (mode : ReplayMode) (count : ℕ)
    (lengths : String × ℕ → ℕ) : String → ℕ → ℕ :=
  let st := (hashEvents trace mode lengths).foldl (hashStep segment mode count)
    ⟨fun _ => 0, fun _ _ => 0⟩
  fun request d => max segment (wholeSegments segment (st.sizes request d))

def layerCapacities (trace : List TraceRecord) (segment : ℕ) (lengths : String × ℕ → ℕ)
    (count : ℕ) : String → ℕ → ℕ := fun request d =>
  max segment (wholeSegments segment
    (((((sortedKeys trace).filter fun key => key.1 = request).map fun key =>
      if key.2 % count = d then lengths key else 0).sum) * replayPage))

structure ReplayWindow where
  offset : ℤ
  bytes : ℤ

/-- What is written: a new file, a window of a device, or the windows of the configuration. -/
inductive ReplayTarget
  | file
  | device
  | devices (windows : List ReplayWindow) (eight : windows.length = 8)

structure ReplayArgs where
  mode : ReplayMode
  placement : ReplayPlacement
  target : ReplayTarget
  windowOffset : Option ℤ
  windowBytes : Option ℤ
  vllmBlockSize : Option ℤ
  layoutConcurrency : Bool
  workerSweep : Option (List ℤ)
  segments : List ℤ
  workers : ℤ
  maxTopk : ℤ
  missTrace : Bool
  maxReadBytes : ℤ
  repeats : ℤ
  seed : ℤ
  noMerge : Bool

structure ReplayPlan where
  segments : List ℕ
  devices : ℕ
  devices_pos : 0 < devices
  capacities : String → ℕ → ℕ

namespace ReplayArgs

variable (args : ReplayArgs)

/-- The sizes of the segments of the trials. -/
def trialSegments : List ℤ :=
  BatchLru.sorted (if args.layoutConcurrency then args.segments else 4096 :: args.segments)

def checkExperiment : Except ValueError Unit :=
  if args.layoutConcurrency then
    if args.mode ≠ .snapshot ∨ args.segments.length ≠ 1 ∨ ∃ s ∈ args.segments.head?, s ≤ 4096 then
      .error ⟨"layout-concurrency requires snapshot and exactly one preparation segment > 4096"⟩
    else
      let values := args.workerSweep.getD [1, 4, 8, 16]
      if values = [] ∨ ∃ w ∈ values, w < 1 then
        .error ⟨"worker-sweep must contain positive integers"⟩
      else .ok ()
  else if args.workerSweep.isSome then
    .error ⟨"--worker-sweep requires --experiment layout-concurrency"⟩
  else .ok ()

def isDevices : Bool :=
  match args.target with
  | .devices _ _ => true
  | _ => false

/-- The checks of `run` before the trace is read. -/
def check : Except ValueError Unit := do
  if args.vllmBlockSize.any (· < 1) then .error ⟨"vllm-block-size must be positive"⟩
  else if args.placement = .layer ∧ (args.mode ≠ .snapshot ∨ ¬ args.isDevices) then
    .error ⟨"layer placement requires snapshot and devices-config"⟩
  else if min (min args.workers args.maxTopk) args.repeats < 1 ∨ args.seed < 0 ∨
      2 ^ 64 ≤ args.seed then
    .error ⟨"invalid workers, max-topk, repeats or seed"⟩
  else
    args.checkExperiment
    if ∃ s ∈ args.trialSegments, s < 4096 ∨ s % 4096 ≠ 0 then
      .error ⟨"VirtualMedia segments must be multiples of 4096"⟩
    else if args.maxReadBytes < 4096 ∨ args.maxReadBytes % 4096 ≠ 0 then
      .error ⟨"max-read-bytes must be a multiple of 4096"⟩
    else .ok ()

end ReplayArgs

/-- The check of the windows, each with the bytes that it needs. -/
def checkWindows : ℕ → List (ReplayWindow × ℕ) → Except ValueError Unit
  | _, [] => .ok ()
  | d, (w, need) :: rest =>
    if w.offset < 0 ∨ w.offset % 4096 ≠ 0 ∨ w.bytes < need ∨ w.bytes % 4096 ≠ 0 then
      .error ⟨"device " ++ toString d ++ ": window must be 4096-byte aligned and at least " ++
        toString need ++ " bytes"⟩
    else if 2 ^ 63 - 1 < w.offset + w.bytes then
      .error ⟨"window end exceeds signed 64-bit offset range"⟩
    else checkWindows (d + 1) rest

/-- The part of `run` that plans the capacities. -/
def planReplay (args : ReplayArgs) (trace : List TraceRecord) : Except ValueError ReplayPlan := do
  args.check
  if args.missTrace ∧ args.mode ≠ .snapshot then
    .error ⟨"miss-trace benchmark currently requires snapshot mode"⟩
  else
    let segments := args.trialSegments.map Int.toNat
    let largest := segments.foldr max 0
    let (lengths, slots) ← geometry trace largest args.mode
    match args.target with
    | .devices windows _ =>
      if args.windowOffset.isSome ∨ args.windowBytes.isSome then
        .error ⟨"window options belong in devices-config"⟩
      else
        let capacities := match args.placement with
          | .layer => layerCapacities trace largest lengths 8
          | .hash => hashCapacities trace largest args.mode 8 lengths
        checkWindows 0 (windows.zipIdx.map fun w =>
          (w.1, ((traceRequests trace).map fun request => capacities request w.2).sum))
        return ⟨segments, 8, by decide, capacities⟩
    | .file =>
      let required := ((traceRequests trace).map slots).sum
      if args.windowOffset.isSome ∨ args.windowBytes.isSome then
        .error ⟨"device window options require --device"⟩
      else
        checkWindows 0 [(⟨0, required⟩, required)]
        return ⟨segments, 1, by decide, fun request _ => slots request⟩
    | .device =>
      let required := ((traceRequests trace).map slots).sum
      match args.windowOffset, args.windowBytes with
      | some offset, some bytes =>
        checkWindows 0 [(⟨offset, bytes⟩, required)]
        return ⟨segments, 1, by decide, fun request _ => slots request⟩
      | _, _ => .error ⟨"device requires explicit --window-offset and --window-bytes"⟩

end Umm
