import Umm.Ppa.BatchLru

/-! `maybe_dump` of `dsa_dump_hook.py`: one decode step of a layer is replaced by the PPA-aware
selection and written to the directory of the sample. What the tensors hold is part of the call. -/
namespace Umm

def slotBytes : ℤ := 4096
def pageBytes : ℤ := 16384

/-- The settings `DSA_DUMP_*`; `dumpRank` says that this process writes the files. -/
structure DumpConfig where
  dumpRank : Bool
  dumpDir : Bool
  nativeTopk : ℤ
  minSeq : ℤ
  maxSteps : ℕ

/-- The settings `DSA_OVERRIDE_*` that pass the check; `pages` is the length of the mapping. -/
structure OverrideConfig where
  capacity : ℤ
  stride : ℤ
  verifyRanks : Bool
  rankMap : Option (ℕ → Option ℤ)
  pages : ℕ
  capacity_ge : 2048 ≤ capacity
  stride_pos : 0 < stride

inductive HookCounter
  | forwardCalls
  | skipState
  | skipCp
  | skipKvCache
  | skipMultiRequest
  | skipShortSeq
  | skipNoStash
  | skipHeadShape
  | skipWeightShape
  | skipReplayedStep
  | seqGaps
  | skipStepLimit
  | skipNativeInvalid
  | skipKeyGather
  | skipNonfinite
  | skipNoDir
  | overrideApplied
  | overrideFallback
  | dumps
  | dumpsOf (layerName : String)
  deriving DecidableEq

inductive HookError
  | keyError
  | unboundLocalError
  | runtimeError
  | valueError (e : ValueError)
  deriving DecidableEq

/-- One call, with what its tensors and the other ranks say: `decision` is the selection that rank 0
broadcasts, or none where it falls back, and `marker` the text of the file `current_sample`. -/
structure HookCall where
  layerName : String
  decodeOnly : Bool
  enableDsaCp : Bool
  gotKvCache : Bool
  singleRequest : Bool
  seq : ℤ
  gotStash : Bool
  headShape : Bool
  weightShape : Bool
  topkIndices : List ℤ
  gotKeys : Bool
  finite : Bool
  marker : String
  decision : Option (List ℤ)
  swaps : List (ℤ × ℤ)
  ranksAgree : Bool

structure AppliedSelection (δ : Type) where
  selected : List ℤ
  swaps : List (ℤ × ℤ)
  cacheState : δ
  layerRank : ℤ
  strideTokens : ℤ
  cacheCapacity : ℤ
  deriving DecidableEq

/-- The file of a step. -/
structure HookRecord (δ : Type) where
  sample : String
  layer : String
  seq : ℤ
  indices : List ℤ
  applied : Option (AppliedSelection δ)
  deriving DecidableEq

/-- The step whose selection went into the cache. -/
structure HookCommit where
  sample : String
  layer : String
  seq : ℤ
  deriving DecidableEq

/-- `_state` and `_override`. The steps committed so far are for the proofs only. -/
structure HookState (δ : Type) where
  lastSeq : String → Option ℤ
  counters : HookCounter → ℕ
  sample : String
  ready : Bool
  lrus : String → Option (BatchLru ℤ)
  files : List (HookRecord δ)
  committed : List HookCommit

namespace HookState

variable {δ : Type}

def bump (key : HookCounter) (s : HookState δ) : HookState δ :=
  { s with counters := Function.update s.counters key (s.counters key + 1) }

def rotateSample (sample : String) (s : HookState δ) : HookState δ :=
  { s with
    lastSeq := fun _ => none
    lrus := fun _ => none
    counters := fun key => match key with
      | .dumpsOf _ => 0
      | key => s.counters key
    sample := sample
    ready := false }

/-- `os.replace`: one file for each layer and step of a sample. -/
def save (r : HookRecord δ) (s : HookState δ) : HookState δ :=
  { s with files := s.files.filter (fun f =>
      ¬ (f.sample = r.sample ∧ f.layer = r.layer ∧ f.seq = r.seq)) ++ [r] }

end HookState

namespace HookCall

/-- The checks before the step of the layer is looked up. -/
def skipped (cfg : DumpConfig) (c : HookCall) : Option HookCounter :=
  if !c.decodeOnly then some .skipState
  else if c.enableDsaCp then some .skipCp
  else if !c.gotKvCache then some .skipKvCache
  else if !c.singleRequest then some .skipMultiRequest
  else if c.seq < cfg.minSeq then some .skipShortSeq
  else if !c.gotStash then some .skipNoStash
  else if !c.headShape then some .skipHeadShape
  else if !c.weightShape then some .skipWeightShape
  else none

def nativeValid (cfg : DumpConfig) (c : HookCall) : Bool :=
  c.topkIndices.length = min cfg.nativeTopk c.seq && c.topkIndices.Nodup &&
    c.topkIndices.all fun t => 0 ≤ t && t < c.seq

/-- The checks after it. -/
def unfit (cfg : DumpConfig) (dumps : ℕ) (c : HookCall) : Option HookCounter :=
  if cfg.maxSteps ≠ 0 && cfg.maxSteps ≤ dumps then some .skipStepLimit
  else if !c.nativeValid cfg then some .skipNativeInvalid
  else if !c.gotKeys then some .skipKeyGather
  else if !c.finite then some .skipNonfinite
  else none

end HookCall

section Hook

variable {δ : Type} (layerId : String → Option ℕ) (lruDigest : List ℤ → δ)

def layerRank (ocfg : OverrideConfig) (id : ℕ) : Option ℤ :=
  match ocfg.rankMap with
  | none => some id
  | some ranks => ranks id

/-- `_apply_override`; without a selection the step falls back to native. -/
def applyOverride (ocfg : OverrideConfig) (c : HookCall) (s : HookState δ) :
    Except HookError (Option (AppliedSelection δ)) × HookState δ :=
  match layerId c.layerName with
  | none => (.ok none, s)
  | some id =>
    match layerRank ocfg id with
    | none => (.error .keyError, s)
    | some rank =>
      let base := rank * ocfg.stride * slotBytes
      if ocfg.pages ≤ (base + (c.seq - 1) * slotBytes) / pageBytes then (.ok none, s)
      else
        let lru := (s.lrus c.layerName).getD (.new ocfg.capacity)
        match c.decision with
        | none => (.ok none, { s with lrus := Function.update s.lrus c.layerName (some lru) })
        | some selected =>
          match lru.commit c.topkIndices with
          | (.error e, lru) =>
            (.error (.valueError e),
              { s with lrus := Function.update s.lrus c.layerName (some lru) })
          | (.ok (), lru') =>
            (.ok (some ⟨selected, c.swaps, lruDigest lru.rows, rank, ocfg.stride, ocfg.capacity⟩),
              { s with
                lrus := Function.update s.lrus c.layerName (some lru')
                committed := s.committed ++ [⟨s.sample, c.layerName, c.seq⟩] })

/-- The part of `maybe_dump` after the selection; `sample` is the local variable, set only at a
boundary of samples. -/
def dumpStep (cfg : DumpConfig) (overriding : Bool) (sample : Option String) (c : HookCall)
    (applied : Option (AppliedSelection δ)) (s : HookState δ) : Except HookError Unit × HookState δ :=
  if !cfg.dumpRank then (.ok (), s)
  else match sample with
    | none => (.error .unboundLocalError, s)
    | some sample =>
      if !s.ready && !cfg.dumpDir then (.ok (), s.bump .skipNoDir)
      else
        let s := HookState.save
          ⟨sample, c.layerName, c.seq, BatchLru.sorted c.topkIndices, applied⟩ { s with ready := true }
        let s := if overriding then
          s.bump (if applied.isSome then .overrideApplied else .overrideFallback) else s
        (.ok (), (s.bump .dumps).bump (.dumpsOf c.layerName))

/-- The indices for the attention and the state after the call. -/
def maybeDump (cfg : DumpConfig) (ocfg : Option OverrideConfig) (c : HookCall) (s : HookState δ) :
    Except HookError (List ℤ) × HookState δ :=
  if ocfg.isNone && !cfg.dumpRank then (.ok c.topkIndices, s)
  else
    let s := s.bump .forwardCalls
    match c.skipped cfg with
    | some key => (.ok c.topkIndices, s.bump key)
    | none =>
      let last := s.lastSeq c.layerName
      if last.any (c.seq ≤ ·) then (.ok c.topkIndices, s.bump .skipReplayedStep)
      else
        let s := if last.any (c.seq ≠ · + 1) then s.bump .seqGaps else s
        match c.unfit cfg (s.counters (.dumpsOf c.layerName)) with
        | some key => (.ok c.topkIndices, s.bump key)
        | none =>
          let sample := if last.all (c.seq ≠ · + 1) then some c.marker else none
          let s := if sample.any (· ≠ s.sample) then s.rotateSample c.marker else s
          let r : Except HookError (Option (AppliedSelection δ)) × HookState δ :=
            match ocfg with
            | none => (.ok none, s)
            | some ocfg => applyOverride layerId lruDigest ocfg c s
          match r with
          | (.error e, s) => (.error e, s)
          | (.ok applied, s) =>
            let indices := match applied with
              | none => c.topkIndices
              | some a => if a.selected.toFinset = c.topkIndices.toFinset then c.topkIndices
                else BatchLru.sorted a.selected
            if applied.isSome && ocfg.any OverrideConfig.verifyRanks && !c.ranksAgree then
              (.error .runtimeError, s)
            else match dumpStep cfg ocfg.isSome sample c applied s with
              | (.error e, s) => (.error e, s)
              | (.ok (), s) => (.ok indices, s)

end Hook

section Oracle

variable {κ δ : Type} [DecidableEq κ] (lruDigest : List ℤ → δ)

/-- `baseline_states` of `mqsim_ppa_oracle.py` over the records of the trace, from the caches that
earlier records left: the rows of the cache before each record, and their digest. -/
def baselineStates (capacity : ℤ) : (κ → Option (BatchLru ℤ)) → List (κ × List ℤ) →
    Except ValueError (List (List ℤ × δ))
  | _, [] => .ok []
  | caches, (layer, native) :: rows =>
    let cache := (caches layer).getD (.new capacity)
    match if capacity ≠ 0 then cache.commit native else (.ok (), cache) with
    | (.error e, _) => .error e
    | (.ok (), cache') =>
      match baselineStates capacity (Function.update caches layer (some cache')) rows with
      | .error e => .error e
      | .ok states => .ok ((cache.rows, lruDigest cache.rows) :: states)

end Oracle

end Umm
