import Umm.SparseKv.Store
import Umm.Bench.ReplayPlan

/-! The writes of a trial of `layout_replay.py`: a store for each request, in which the rows of its
layers are entered in the order of the layout. -/
namespace Umm
open Umm.Lib

inductive TrialError where
  | store (e : StoreError)
  | value (e : ValueError)
  /-- What `alloc_on_device` raises. -/
  | allocFailed
  | keyError
  /-- What is raised outside of the stores. -/
  | raised

/-- What the surroundings of a trial do, at each step. -/
structure TrialEnv where
  /-- The order of the rows of an append. -/
  order : ℕ → ℕ → ℕ → List ℕ
  order_perm : ∀ i start stop, (order i start stop).Perm (List.range' start (stop - start))
  /-- The bytes of a row. -/
  pattern : String × ℕ → ℕ → List UInt8
  length_pattern : ∀ key token, (pattern key token).length = replayPage
  allocates : String → ℕ → Bool
  /-- What an extent has before it is written. -/
  content : String → ℕ → ℕ → UInt8
  writes : ℕ → ℕ → WriteFrom
  flushes : ℕ → ℕ → WriteFrom
  /-- The step does not raise outside of the stores. -/
  completes : ℕ → Bool

/-- A step of a trial: an append of rows to a layer up to `stop`, a flush, and the reads of a line
of the trace. -/
inductive TrialStep where
  | append (key : String × ℕ) (stop : ℕ)
  | flush (request : String)
  | read

def sortedRequests (trace : List TraceRecord) : List String :=
  (traceRequests trace).insertionSort (· ≤ ·)

/-- The steps of a trial. -/
def trialSteps (trace : List TraceRecord) (mode : ReplayMode) (lengths : String × ℕ → ℕ) :
    List TrialStep :=
  match mode with
  | .snapshot =>
    (sortedKeys trace).map (fun key => .append key (lengths key)) ++
      (sortedRequests trace).map .flush ++ trace.map fun _ => .read
  | .online =>
    trace.flatMap fun r => [.append r.key r.contextLength, .flush r.requestId, .read]

/-- The strategy of a store, whose layers are numbered in the order of the layers of its request. -/
def replayStrategy (placement : ReplayPlacement) {count : ℕ} (hcount : 0 < count)
    (layers : List ℕ) : PlacementStrategy (ℤ × ℤ) where
  numDevices := count
  locate := fun key => placementDevice placement count (layers.getD key.1.toNat 0) key.2.toNat
  locate_lt := fun _ => placementDevice_lt placement hcount _ _

structure ReplayTrial where
  stores : String → Option SparseKVStore
  loaded : String × ℕ → ℕ

namespace ReplayTrial

abbrev Call (α : Type) : Type := Fallible TrialError ReplayTrial α

/-- A call of the store of a request. -/
def onStore {α : Type} (request : String) (call : SparseKVStore.Call α) : Call α := do
  let st ← get
  match st.stores request with
  | none => throw .keyError
  | some store =>
    set { st with stores := Function.update st.stores request (some (call store).2) }
    match (call store).1 with
    | .error e => throw (.store e)
    | .ok a => pure a

end ReplayTrial

/-- What a trial is given, with the lengths of the layers. -/
structure TrialSetup where
  args : ReplayArgs
  trace : List TraceRecord
  plan : ReplayPlan
  segment : ℕ
  lengths : String × ℕ → ℕ

namespace TrialSetup

variable (t : TrialSetup) (env : TrialEnv)

/-- The extents of a request, up to the first one that cannot be allocated. -/
def allocExtents (request : String) : ℕ → List ℕ → List VirtualMedia.Extent
  | _, [] => []
  | d, capacity :: rest =>
    if env.allocates request d then
      ⟨(List.range capacity).map (env.content request d), t.segment⟩ ::
        allocExtents request (d + 1) rest
    else []

def capacities (request : String) : List ℕ :=
  (List.range t.plan.devices).map (t.plan.capacities request)

def strategy (request : String) : PlacementStrategy (ℤ × ℤ) :=
  replayStrategy t.args.placement t.plan.devices_pos (requestLayers t.trace request)

def openMedia (request : String) : Except TrialError (VirtualMedia (ℤ × ℤ)) :=
  let extents := t.allocExtents env request 0 (t.capacities request)
  if extents.length < (t.capacities request).length then
    match VirtualMedia.initMgrs replayPage 0 extents with
    | .error e => .error (.store (.media e))
    | .ok _ => .error .allocFailed
  else
    match VirtualMedia.init replayPage extents (t.strategy request)
      (¬ (t.args.noMerge ∨ t.args.layoutConcurrency)) (some t.args.maxReadBytes) with
    | .error e => .error (.store (.media e))
    | .ok vm => .ok vm

/-- The store of a request. -/
def openStore (request : String) : Except TrialError SparseKVStore :=
  match t.openMedia env request with
  | .error e => .error e
  | .ok vm =>
    let layers := requestLayers t.trace request
    let maxTokens := (layers.map fun layer => t.lengths (request, layer)).foldr max 0
    match SparseKVStore.init vm layers.length maxTokens t.args.maxTopk with
    | .error e => .error (.store e)
    | .ok store => .ok store

def storeFor (request : String) : ReplayTrial.Call Unit := do
  let st ← get
  match st.stores request with
  | some _ => pure ()
  | none =>
    match t.openStore env request with
    | .error e => throw e
    | .ok store => set { st with stores := Function.update st.stores request (some store) }

/-- The rows of an append, each a block of its own. -/
def offloadRows (i : ℕ) (key : String × ℕ) : List ℕ → ReplayTrial.Call Unit
  | [] => pure ()
  | token :: tokens => do
    let layer := (requestLayers t.trace key.1).idxOf key.2
    ReplayTrial.onStore key.1 (SparseKVStore.offload (fun _ _ => env.writes i token) 0
      [⟨layer, token, 1, env.pattern key token⟩])
    offloadRows i key tokens

def append (i : ℕ) (key : String × ℕ) (stop : ℕ) : ReplayTrial.Call Unit := do
  let st ← get
  let start := st.loaded key
  if start = stop then pure ()
  else
    t.storeFor env key.1
    t.offloadRows env i key (env.order i start stop)
    let st ← get
    set { st with loaded := Function.update st.loaded key stop }

end TrialSetup

/-- What happens outside of the stores: a `sync`, or the reads and their checks. -/
def TrialEnv.outside (env : TrialEnv) (i : ℕ) : ReplayTrial.Call Unit :=
  if env.completes i then pure () else throw .raised

namespace TrialSetup

variable (t : TrialSetup) (env : TrialEnv)

def step (i : ℕ) : TrialStep → ReplayTrial.Call Unit
  | .append key stop => t.append env i key stop
  | .flush request => do
    ReplayTrial.onStore request (SparseKVStore.flush (env.flushes i))
    env.outside i
  | .read => env.outside i

def runSteps : ℕ → List TrialStep → ReplayTrial.Call Unit
  | _, [] => pure ()
  | i, s :: steps => do
    t.step env i s
    runSteps (i + 1) steps

end TrialSetup

/-- `trial`, as far as it writes. -/
def trial (args : ReplayArgs) (trace : List TraceRecord) (plan : ReplayPlan) (segment : ℕ)
    (env : TrialEnv) : Except TrialError Unit :=
  match geometry trace segment args.mode with
  | .error e => .error (.value e)
  | .ok (lengths, _) =>
    (TrialSetup.runSteps ⟨args, trace, plan, segment, lengths⟩ env 0
      (trialSteps trace args.mode lengths) ⟨fun _ => none, fun _ => 0⟩).1

end Umm
