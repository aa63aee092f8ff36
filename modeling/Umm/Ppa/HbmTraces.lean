import Umm.Ppa.HbmCandidates
import Umm.Ppa.HbmChoice
import Umm.Lib.Fallible

/-! The two replays of a dump directory: `main` of `simulate_hbm_candidates.py` counts hits and
misses, `export` of `export_hbm_miss_traces.py` writes the misses themselves. -/
namespace Umm
open Umm.Lib

inductive HbmMode
  | baseline
  | sameStateReplacement
  | independentReplacement
  deriving DecidableEq, Repr

/-- `MODES`. -/
def hbmModes : List HbmMode := [.baseline, .sameStateReplacement, .independentReplacement]

/-- The options of both scripts; `nargs="+"` asks for a capacity. -/
structure HbmArgs where
  capacities : List ℤ
  nonempty : capacities ≠ []
  maxReplacements : ℤ
  protectTop : ℤ
  warmupSteps : ℤ
  /-- `--current-token resident`, and not `ordinary`. -/
  currentResident : Bool
  expectedLayers : Option ℤ

inductive HbmError
  | valueError (e : ValueError)
  /-- `p.error`. -/
  | usage (text : String)
  /-- A number that SQLite does not take. -/
  | overflow
  /-- The primary key of the spool table is there already. -/
  | integrity
  deriving DecidableEq

inductive HbmField
  | selected
  | cacheHits
  | freshHits
  | misses
  | replacements
  deriving DecidableEq

/-- A `Counter`; what was never counted is 0. -/
abbrev HbmCounter : Type := HbmField → ℤ

/-- `Counter(measure(..), replacements=..)`. -/
def HbmMeasure.counter (m : HbmMeasure) (replacements : ℕ) : HbmCounter
  | .selected => m.selected
  | .cacheHits => m.cacheHits
  | .freshHits => m.freshHits
  | .misses => m.misses
  | .replacements => replacements

/-- The counters of the capacities and strategies. -/
abbrev HbmTotals : Type := ℤ × HbmMode → HbmCounter

structure NativeQuality where
  nativeRows : ℕ
  nativeCovered : ℕ
  nativeRef2048Overlap : ℕ
  deriving DecidableEq

/-- `quality` of the simulator. The exporter keeps no `records`. -/
structure HbmQuality extends NativeQuality where
  records : ℕ
  deriving DecidableEq

/-- What one strategy selects in a step, and the cache that it is measured against. -/
structure HbmChoice where
  mode : HbmMode
  selected : Finset ℤ
  cache : BatchLru ℤ
  replacements : ℕ

/-- The cache of the native selections and that of the replaced ones. -/
structure HbmCaches where
  base : BatchLru ℤ
  aware : BatchLru ℤ

/-- One choice, with its place in the replay. -/
structure HbmEntry where
  name : String
  step : ℕ
  seq : ℕ
  capacity : ℤ
  ready : Finset ℤ
  choice : HbmChoice

namespace HbmArgs

variable {σ : Type} (args : HbmArgs)

/-- `sorted(set(args.capacities))`. -/
def sortedCapacities : List ℤ := BatchLru.sorted args.capacities

/-- The tokens that are there without a cache. -/
def ready (seq : ℕ) : Finset ℤ := if args.currentResident then {(seq : ℤ) - 1} else ∅

def warmup (step : ℕ) : Bool := (step : ℤ) < args.warmupSteps

/-- `choose` for one cache. -/
def chooseFor (r : LoadedRecord σ) (ready : Finset ℤ) (cache : BatchLru ℤ) : Finset ℤ × ℕ :=
  choose r.native r.ranked (hbmAvailable cache ready) args.maxReplacements.toNat
    args.protectTop.toNat

def choice (r : LoadedRecord σ) (ready : Finset ℤ) (caches : HbmCaches) : HbmMode → HbmChoice
  | .baseline => ⟨.baseline, r.native.toFinset, caches.base, 0⟩
  | .sameStateReplacement =>
    let shadow := args.chooseFor r ready caches.base
    ⟨.sameStateReplacement, shadow.1, caches.base, shadow.2⟩
  | .independentReplacement =>
    let chosen := args.chooseFor r ready caches.aware
    ⟨.independentReplacement, chosen.1, caches.aware, chosen.2⟩

def entry (r : LoadedRecord σ) (step seq : ℕ) (capacity : ℤ) (caches : HbmCaches)
    (mode : HbmMode) : HbmEntry :=
  ⟨r.name, step, seq, capacity, args.ready seq, args.choice r (args.ready seq) caches mode⟩

end HbmArgs

def HbmEntry.counter (e : HbmEntry) : HbmCounter :=
  (measure e.choice.selected e.choice.cache e.ready).counter e.choice.replacements

/-- `sorted(selected - cache.rows.keys() - ready)`. -/
def HbmEntry.misses (e : HbmEntry) : List ℤ :=
  sortedSet (e.choice.selected.filter (· ∉ hbmAvailable e.choice.cache e.ready))

def raiseHbm {α : Type} (text : String) : Except HbmError α := .error (.valueError ⟨text⟩)

def commitOrRaise (cache : BatchLru ℤ) (selected : List ℤ) : Except HbmError (BatchLru ℤ) :=
  match cache.commit selected with
  | (.error e, _) => .error (.valueError e)
  | (.ok (), cache) => .ok cache

/-- What the two scripts do differently: how they tell layers apart, what they add to `records`
for a record, and what they keep of a choice. -/
structure HbmScript (κ τ : Type) where
  key : String → Except ValueError κ
  duplicate : κ → String
  inconsistent : String → String
  records : ℕ
  emit : κ → HbmEntry → τ → Except HbmError τ

structure HbmLoop (κ τ : Type) where
  seen : List κ
  quality : HbmQuality
  out : τ

section Loops

variable {σ κ τ : Type} [LinearOrder σ] [DecidableEq κ] (script : HbmScript κ τ) (args : HbmArgs)

/-- The loop over the capacities in one step. -/
def hbmCapacities (k : κ) (r : LoadedRecord σ) (step seq : ℕ) :
    List (ℤ × HbmCaches) → τ → Except HbmError (List (ℤ × HbmCaches) × τ)
  | [], out => .ok ([], out)
  | (capacity, caches) :: states, out => do
    let out ← (hbmModes.map (args.entry r step seq capacity caches)).foldlM
      (fun out e => script.emit k e out) out
    let base ← commitOrRaise caches.base r.native
    let aware ← commitOrRaise caches.aware
      (sortedSet (args.chooseFor r (args.ready seq) caches.aware).1)
    let (states, out) ← hbmCapacities k r step seq states out
    return ((capacity, ⟨base, aware⟩) :: states, out)

/-- The first record of a group names its layer, which no other group may have; the others name
the same. -/
def enterLayer (layer : Option κ) (k : κ) (path : String) (st : HbmLoop κ τ) :
    Except HbmError (HbmLoop κ τ) :=
  match layer with
  | none =>
    if k ∈ st.seen then raiseHbm (script.duplicate k) else .ok { st with seen := st.seen ++ [k] }
  | some expected => if k ≠ expected then raiseHbm (script.inconsistent path) else .ok st

def NativeQuality.count (q : NativeQuality) (r : LoadedRecord σ) : NativeQuality where
  nativeRows := q.nativeRows + r.native.length
  nativeCovered := q.nativeCovered + (r.native.filter (· ∈ r.ranked)).length
  nativeRef2048Overlap :=
    q.nativeRef2048Overlap + (r.native.filter (· ∈ r.ranked.take r.native.length)).length

/-- `quality.update(..)`. -/
def HbmQuality.count (q : HbmQuality) (r : LoadedRecord σ) : HbmQuality :=
  ⟨q.toNativeQuality.count r, q.records + script.records⟩

/-- The loop over the steps of a layer. -/
def hbmSteps : ℕ → Option κ → List (ℤ × HbmCaches) → HbmLoop κ τ → List (DumpFile σ) →
    Except HbmError (HbmLoop κ τ)
  | _, _, _, st, [] => .ok st
  | step, layer, states, st, f :: files => do
    let r ← (loadRecord f).mapError .valueError
    let k ← (script.key r.name).mapError .valueError
    let st ← enterLayer script layer k f.path st
    let (states, out) ← hbmCapacities script args k r step f.seq states st.out
    hbmSteps (step + 1) (some k) states ⟨st.seen, st.quality.count script r, out⟩ files

/-- The caches that a layer starts with. -/
def HbmArgs.states : List (ℤ × HbmCaches) :=
  args.sortedCapacities.map fun c => (c, ⟨.new c, .new c⟩)

/-- The loop over the layers. -/
def hbmLayers (groups : List (String × List (DumpFile σ))) (out : τ) :
    Except HbmError (HbmLoop κ τ) :=
  (groups.insertionSort fun a b => a.1 ≤ b.1).foldlM
    (fun st g => hbmSteps script args 0 none args.states st g.2) ⟨[], ⟨⟨0, 0, 0⟩, 0⟩, out⟩

end Loops

def HbmTotals.update (totals : HbmTotals) (key : ℤ × HbmMode) (counter : HbmCounter) : HbmTotals :=
  Function.update totals key (totals key + counter)

section Simulate

/-- A line of `steps.csv`. -/
structure SimStep where
  layer : String
  seqLen : ℕ
  step : ℕ
  capacity : ℤ
  strategy : HbmMode
  warmup : Bool
  counts : HbmCounter

structure SimOutput where
  steps : List SimStep
  aggregate : HbmTotals

/-- A line of `summary.csv`, without the rates. -/
structure SimSummary where
  capacity : ℤ
  strategy : HbmMode
  totals : HbmCounter
  logicalMissBytes : ℤ
  persistentCacheBytesAllLayers : ℤ

structure SimReport where
  layers : ℕ
  quality : HbmQuality
  steps : List SimStep
  results : List SimSummary

variable {σ : Type} [LinearOrder σ] (args : HbmArgs)

def simulateScript : HbmScript String SimOutput where
  key := .ok
  duplicate layer := "Duplicate layer groups: " ++ layer
  inconsistent path := "Inconsistent layer metadata: " ++ path
  records := 1
  emit layer e out :=
    .ok
      { steps := out.steps ++ [⟨layer, e.seq, e.step, e.capacity, e.choice.mode,
          args.warmup e.step, e.counter⟩]
        aggregate :=
          if args.warmupSteps ≤ e.step then
            out.aggregate.update (e.capacity, e.choice.mode) e.counter
          else out.aggregate }

/-- `main` of the simulator. -/
def simulateHbm (rowBytes : ℤ) (dir : List (DumpFile σ)) : Except HbmError SimReport := do
  if args.capacities.any (· < 2048) ∨ args.maxReplacements < 0 ∨ args.protectTop < 0 ∨
      args.warmupSteps < 0 ∨ rowBytes ≤ 0 then
    .error (.usage "capacities >= 2048; budgets/warmup nonnegative; row bytes positive")
  else
    let groups ← (discover dir).mapError .valueError
    if args.expectedLayers.any (· ≠ (groups.length : ℤ)) then
      .error (.usage ("Expected " ++ toString (args.expectedLayers.getD 0) ++ " layers, found " ++
        toString groups.length))
    else if groups.any fun g => (g.2.length : ℤ) ≤ args.warmupSteps then
      .error (.usage "warmup removes all measured steps")
    else
      let st ← hbmLayers (simulateScript args) args groups ⟨[], fun _ => 0⟩
      return {
        layers := groups.length
        quality := st.quality
        steps := st.out.steps
        results := args.sortedCapacities.flatMap fun c => hbmModes.map fun m =>
          ⟨c, m, st.out.aggregate (c, m), st.out.aggregate (c, m) .misses * rowBytes,
            c * rowBytes * groups.length⟩ }

end Simulate

section Export

/-- A line of an exported trace. -/
structure MissRecord where
  requestId : String
  stepId : ℕ
  layerId : ℕ
  contextLength : ℕ
  topkTokenIndices : List ℤ
  warmup : Bool
  cacheCapacity : ℤ
  cacheStrategy : HbmMode
  stats : HbmCounter

/-- The primary key of the spool table. -/
def MissRecord.key (r : MissRecord) : ℤ × HbmMode × ℕ × ℕ :=
  (r.cacheCapacity, r.cacheStrategy, r.stepId, r.layerId)

structure MissOutput where
  rows : List MissRecord
  totals : HbmTotals

structure MissFile where
  capacity : ℤ
  strategy : HbmMode
  records : List MissRecord
  measuredTotals : HbmCounter

structure MissManifest where
  layers : ℕ
  quality : NativeQuality
  files : List MissFile

/-- `INSERT INTO rows`. -/
def insertRow (rows : List MissRecord) (row : MissRecord) : Except HbmError (List MissRecord) :=
  if 2 ^ 63 ≤ row.cacheCapacity ∨ 2 ^ 63 ≤ row.layerId ∨ 2 ^ 63 ≤ row.stepId then .error .overflow
  else if row.key ∈ rows.map MissRecord.key then .error .integrity
  else .ok (rows ++ [row])

variable {σ : Type} [LinearOrder σ] (layerId : String → Option ℕ) (sample : String)
  (args : HbmArgs)

def missRecord (layer : ℕ) (e : HbmEntry) : MissRecord where
  requestId := sample
  stepId := e.step
  layerId := layer
  contextLength := e.seq
  topkTokenIndices := e.misses
  warmup := args.warmup e.step
  cacheCapacity := e.capacity
  cacheStrategy := e.choice.mode
  stats := e.counter

def missScript : HbmScript ℕ MissOutput where
  key name :=
    match layerId name with
    | some layer => .ok layer
    | none => .error ⟨"Cannot extract original model layer from " ++ name⟩
  duplicate layer := "Duplicate layer " ++ toString layer
  inconsistent path := "Inconsistent layer in " ++ path
  records := 0
  emit layer e out := do
    let rows ← insertRow out.rows (missRecord sample args layer e)
    return {
      rows
      totals :=
        if args.warmup e.step then out.totals
        else out.totals.update (e.capacity, e.choice.mode) e.counter }

/-- `SELECT body FROM rows WHERE capacity=? AND mode=? ORDER BY step,layer`. -/
def selectRows (rows : List MissRecord) (capacity : ℤ) (mode : HbmMode) : List MissRecord :=
  (rows.filter fun r => r.cacheCapacity = capacity ∧ r.cacheStrategy = mode).insertionSort
    fun a b => a.stepId < b.stepId ∨ a.stepId = b.stepId ∧ a.layerId ≤ b.layerId

/-- `export`, to a new directory. -/
def exportMissTraces (dir : List (DumpFile σ)) : Except HbmError MissManifest := do
  let groups ← (discover dir).mapError .valueError
  if args.expectedLayers.any (· ≠ (groups.length : ℤ)) then
    raiseHbm ("Expected " ++ toString (args.expectedLayers.getD 0) ++ " layers, got " ++
      toString groups.length)
  else if args.capacities.any (· < 2048) ∨ args.warmupSteps < 0 ∨ args.maxReplacements < 0 ∨
      args.protectTop < 0 then
    raiseHbm "Invalid cache capacity, warmup or replacement budget"
  else if groups.any fun g => (g.2.length : ℤ) ≤ args.warmupSteps then
    raiseHbm "Warmup excludes every step"
  else
    let st ← hbmLayers (missScript layerId sample args) args groups ⟨[], fun _ => 0⟩
    return {
      layers := groups.length
      quality := st.quality.toNativeQuality
      files := args.sortedCapacities.flatMap fun c => hbmModes.map fun m =>
        ⟨c, m, selectRows st.out.rows c m, st.out.totals (c, m)⟩ }

end Export

end Umm
