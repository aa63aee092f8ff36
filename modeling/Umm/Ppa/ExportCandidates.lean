import Umm.Ppa.HbmCandidates

/-! `export` of `export_ppa_candidates.py`: the candidates of every step with their addresses on
one SSD, and the manifest with the layout of the layers. -/
namespace Umm
open Umm.Lib

/-- The options; the directory to write is new. -/
structure ExportArgs where
  layers : Option (List ℤ)
  maxSteps : Option ℤ
  expectedLayers : Option ℤ
  slotBytes : ℤ
  segmentBytes : ℤ
  declaredStrideTokens : ℤ

inductive ExportError
  | valueError (e : ValueError)
  | keyError (layer : ℕ)
  | indexError
  deriving DecidableEq

/-- A layer that is exported: its files, and what the first of all its files holds. -/
structure ChosenLayer (σ : Type) where
  layer : ℕ
  files : List (DumpFile σ)
  raw : DumpRecord σ

structure CandidateEntry (σ : Type) where
  token : ℤ
  score : Option σ
  offsetBytes : ℤ
  deriving DecidableEq

/-- A line of `candidates.jsonl`. -/
structure CandidateRow (σ : Type) where
  layerId : ℕ
  stepId : ℕ
  contextLength : ℕ
  currentToken : ℤ
  native : List ℤ
  candidates : List (CandidateEntry σ)
  referenceCount : ℕ
  nativeCovered : ℕ
  applied : Option (List ℤ × List (ℤ × ℤ) × String)
  deriving DecidableEq

structure ManifestLayer where
  layerId : ℕ
  contextLength : ℕ
  baseBytes : ℤ
  deriving DecidableEq

structure ExportManifest where
  declaredStrideTokens : Option ℤ
  layers : List ManifestLayer
  records : ℕ
  hasAppliedSelections : Bool
  logicalKvBytes : ℤ
  snapshotBytes : ℤ
  deriving DecidableEq

def raiseExport {α : Type} (text : String) : Except ExportError α := .error (.valueError ⟨text⟩)

def liftExport {α : Type} (r : Except ValueError α) : Except ExportError α :=
  r.mapError .valueError

section Export

variable {σ : Type} [LinearOrder σ] (layerId : String → Option ℕ) (args : ExportArgs)

def chooseLayer (files : List (DumpFile σ)) : Except ExportError (Option (ChosenLayer σ)) := do
  match files with
  | [] => .error .indexError
  | first :: _ =>
    let record ← liftExport (loadRecord first)
    match layerId record.name with
    | none => raiseExport ("Cannot parse original layer ID: " ++ record.name)
    | some layer =>
      if args.layers.all ((layer : ℤ) ∈ ·) then
        return some ⟨layer, match args.maxSteps with
          | none => files
          | some steps => files.take steps.toNat, first.record⟩
      else return none

/-- The layers that are exported, by their number. -/
def chosenLayers (dir : List (DumpFile σ)) : Except ExportError (List (ChosenLayer σ)) := do
  let groups ← liftExport (discover dir)
  if args.expectedLayers.any (· ≠ (groups.length : ℤ)) then raiseExport "Unexpected total layer count"
  else
    let chosen ← groups.mapM fun g => chooseLayer layerId args g.2
    let chosen := chosen.reduceOption.insertionSort fun a b => a.layer ≤ b.layer
    if chosen = [] ∨ ¬ (chosen.map (·.layer)).Nodup then
      raiseExport "No layers selected or duplicate layer IDs"
    else if args.layers.any fun layers =>
        layers.toFinset ≠ (chosen.map fun c => (c.layer : ℤ)).toFinset then
      raiseExport "Requested layer missing"
    else return chosen

/-- The tokens from the start of one layer to the start of the next; 0 lays the layers end to
end. -/
def layoutStride (chosen : List (ChosenLayer σ)) : Except ExportError ℤ :=
  let strides := (chosen.filterMap (·.raw.strideTokens)).dedup
  if 1 < strides.length ∨ strides ≠ [] ∧ args.declaredStrideTokens ≠ 0 ∧
      strides ≠ [args.declaredStrideTokens] then
    raiseExport "Inconsistent stride_tokens across records (or vs --declared-stride-tokens)"
  else .ok (strides.head?.getD args.declaredStrideTokens)

/-- What the loop over the layers carries. -/
structure ExportState (σ : Type) where
  offset : ℤ
  ranks : List (ℕ × ℤ)
  layers : List ManifestLayer
  rows : List (CandidateRow σ)
  appliedCount : ℕ

/-- The place of a layer among the regions. -/
def ChosenLayer.rankAt (c : ChosenLayer σ) (rank : ℕ) : ℤ := c.raw.layerRank.getD rank

/-- The base of a layer, and the state with its bytes counted. -/
def placeLayer (stride : ℤ) (rank : ℕ) (c : ChosenLayer σ) (context : ℕ) (st : ExportState σ) :
    Except ExportError (ℤ × ExportState σ) :=
  if stride ≠ 0 then
    let layerRank := c.rankAt rank
    if layerRank ∈ st.ranks.map (·.2) then
      raiseExport ("Duplicate layer_rank " ++ toString layerRank)
    else
      .ok (layerRank * stride * args.slotBytes,
        { st with
          ranks := st.ranks ++ [(c.layer, layerRank)]
          offset := max st.offset ((layerRank + 1) * stride * args.slotBytes) })
  else .ok (st.offset, { st with offset := st.offset + context * args.slotBytes })

/-- The layout in a record is that of its layer, where the first record of the layer has one. -/
def checkLayout (stride : ℤ) (ranks : List (ℕ × ℤ)) (c : ChosenLayer σ) (f : DumpFile σ) :
    Except ExportError Unit :=
  if c.raw.strideTokens.isNone then .ok ()
  else if f.record.strideTokens ≠ some stride then
    raiseExport ("Inconsistent stride/rank mid-layer: " ++ f.path)
  else
    match ranks.lookup c.layer with
    | none => .error (.keyError c.layer)
    | some rank =>
      if f.record.layerRank ≠ some rank then
        raiseExport ("Inconsistent stride/rank mid-layer: " ++ f.path)
      else .ok ()

def appliedSelection (f : DumpFile σ) (native : List ℤ) :
    Except ExportError (Option (List ℤ × List (ℤ × ℤ) × String)) :=
  match f.record.applied with
  | none => .ok none
  | some a =>
    if !a.overridden then
      raiseExport (f.path ++ ": override fell back to native; online run is not " ++
        "uniformly overridden and cannot be replayed as applied")
    else if a.selected.length ≠ native.length ∨ a.cacheMode ≠ some "shared" then
      raiseExport (f.path ++ ": invalid applied selection fields")
    else .ok (some (a.selected, a.swaps, a.cacheStateSha256))

def exportRecord (stride : ℤ) (ranks : List (ℕ × ℤ)) (c : ChosenLayer σ) (base : ℤ) (step : ℕ)
    (f : DumpFile σ) : Except ExportError (CandidateRow σ) := do
  let r ← liftExport (loadRecord f)
  if layerId r.name ≠ some c.layer then raiseExport ("Inconsistent layer: " ++ f.path)
  else
    checkLayout stride ranks c f
    let applied ← appliedSelection f r.native
    let ids := BatchLru.sorted (r.native ++ r.ranked)
    return {
      layerId := c.layer
      stepId := step
      contextLength := f.seq
      currentToken := f.seq - 1
      native := BatchLru.sorted r.native
      candidates := ids.map fun t => ⟨t, r.scores.lookup t, base + t * args.slotBytes⟩
      referenceCount := r.ranked.length
      nativeCovered := (r.native.filter (· ∈ r.ranked)).length
      applied }

def exportLayer (stride : ℤ) (rank : ℕ) (st : ExportState σ) (c : ChosenLayer σ) :
    Except ExportError (ExportState σ) := do
  match c.files.getLast? with
  | none => .error .indexError
  | some last =>
    let (base, st) ← placeLayer args stride rank c last.seq st
    let rows ← c.files.zipIdx.mapM fun f => exportRecord layerId args stride st.ranks c base f.2 f.1
    return { st with
      layers := st.layers ++ [⟨c.layer, last.seq, base⟩]
      rows := st.rows ++ rows
      appliedCount := st.appliedCount + rows.countP (·.applied.isSome) }

def exportLayers (stride : ℤ) : ℕ → ExportState σ → List (ChosenLayer σ) →
    Except ExportError (ExportState σ)
  | _, st, [] => .ok st
  | rank, st, c :: chosen => do
    let st ← exportLayer layerId args stride rank st c
    exportLayers stride (rank + 1) st chosen

/-- Whole segments. -/
def snapshotBytes (offset segmentBytes : ℤ) : ℤ :=
  (offset + segmentBytes - 1) / segmentBytes * segmentBytes

/-- `export`. The lines are in the order of their steps, and of the layers within a step. -/
def exportCandidates (dir : List (DumpFile σ)) :
    Except ExportError (ExportManifest × List (CandidateRow σ)) := do
  if args.slotBytes ≠ 4096 ∨ args.segmentBytes ≤ 0 ∨ args.segmentBytes % 16384 ≠ 0 then
    raiseExport "Requires 4096 B slots and a positive 16 KiB-aligned segment"
  else if args.maxSteps.any (· < 1) then raiseExport "max-steps must be positive"
  else
    let chosen ← chosenLayers layerId args dir
    let stride ← layoutStride args chosen
    let st ← exportLayers layerId args stride 0 ⟨0, [], [], [], 0⟩ chosen
    if st.appliedCount ≠ 0 ∧ st.appliedCount ≠ st.rows.length then
      raiseExport ("Applied selections present on only some records; " ++
        "mixed traces cannot be replayed")
    else
      return (
        { declaredStrideTokens := if stride = 0 then none else some stride
          layers := st.layers
          records := st.rows.length
          hasAppliedSelections := 0 < st.appliedCount
          logicalKvBytes := st.offset
          snapshotBytes := snapshotBytes st.offset args.segmentBytes },
        st.rows.insertionSort fun a b =>
          a.stepId < b.stepId ∨ a.stepId = b.stepId ∧ a.layerId ≤ b.layerId)

end Export

end Umm
