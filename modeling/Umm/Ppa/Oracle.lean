import Umm.Ppa.SelectionRuns

/-! The planning of `mqsim_ppa_oracle.py`: the export it accepts, the selection of a strategy for
one record, and the check that only misses were replaced. -/
namespace Umm
open Umm.Lib

/-- A candidate as it stands in the trace. -/
structure OracleCandidate (σ : Type) extends CandidateEntry σ where
  device : ℤ

structure OracleRecord (σ : Type) where
  stepId : ℕ
  layerId : ℕ
  contextLength : ℤ
  currentToken : ℤ
  native : List ℤ
  candidates : List (OracleCandidate σ)
  appliedSelected : Option (List ℤ)
  appliedSwaps : List (ℤ × ℤ)
  appliedCacheState : String

/-- The manifest; `candidatesMatch` says that the trace has the checksum it names. -/
structure OracleManifest where
  complete : Bool
  deviceCount : ℤ
  slotBytes : ℤ
  candidatesMatch : Bool
  segmentBytes : ℤ
  snapshotBytes : ℤ
  layers : List ManifestLayer
  records : ℕ

inductive OracleError
  | keyError
  | valueError (e : ValueError)
  deriving DecidableEq

def raiseOracle {α : Type} (text : String) : Except OracleError α := .error (.valueError ⟨text⟩)

section Validate

variable {σ : Type} (isFinite : σ → Bool)

def OracleRecord.entries (r : OracleRecord σ) : List (CandidateEntry σ) :=
  r.candidates.map (·.toCandidateEntry)

def OracleRecord.tokens (r : OracleRecord σ) : List ℤ := r.candidates.map (·.token)

/-- `a ≤ b` for pairs of a step and a layer. -/
def keyLe (a b : ℕ × ℕ) : Bool := a.1 < b.1 || a.1 = b.1 && a.2 ≤ b.2

def validateRecord (geometry : Dict ℕ ManifestLayer) (previous : Option (ℕ × ℕ))
    (r : OracleRecord σ) : Except OracleError Unit :=
  let key := (r.stepId, r.layerId)
  if previous.any fun previous => keyLe key previous then
    raiseOracle "Candidates must be ordered step/layer"
  else
    match geometry.lookup r.layerId with
    | none => .error .keyError
    | some g =>
      let ids := r.tokens.toFinset
      let scored := r.candidates.filterMap (·.score)
      if r.native.length ≠ min 2048 r.contextLength ∨ r.native.toFinset.card ≠ r.native.length ∨
          ¬ r.native.toFinset ⊆ ids ∨ ids.card ≠ r.candidates.length then
        raiseOracle "Invalid native or candidate set"
      else if scored.length ≠ min 2400 r.contextLength ∨ scored.any fun s => !isFinite s then
        raiseOracle "Invalid reference scores"
      else if r.appliedSelected.any fun applied => applied.length ≠ r.native.length ∨
          applied.toFinset.card ≠ applied.length ∨
          applied.any fun t => ¬ (0 ≤ t ∧ t < r.contextLength) then
        raiseOracle "Invalid applied selection"
      else if r.contextLength < 1 ∨ r.currentToken ≠ r.contextLength - 1 ∨
          (g.contextLength : ℤ) < r.contextLength then
        raiseOracle "Invalid context geometry"
      else if r.candidates.any fun x => ¬ (0 ≤ x.token ∧ x.token < r.contextLength) ∨
          x.device ≠ 0 ∨ x.offsetBytes ≠ g.baseBytes + x.token * slotBytes then
        raiseOracle "Invalid token address"
      else .ok ()

def validateRecords (geometry : Dict ℕ ManifestLayer) :
    Option (ℕ × ℕ) → List (OracleRecord σ) → Except OracleError Unit
  | _, [] => .ok ()
  | previous, r :: rest => do
    validateRecord isFinite geometry previous r
    validateRecords geometry (some (r.stepId, r.layerId)) rest

def validateExport (m : OracleManifest) (records : List (OracleRecord σ)) :
    Except OracleError Unit := do
  if ¬ m.complete ∨ m.deviceCount ≠ 1 ∨ m.slotBytes ≠ slotBytes then
    raiseOracle "Need a complete single-SSD candidate export"
  else if ¬ m.candidatesMatch then raiseOracle "Candidate trace checksum mismatch"
  else if m.segmentBytes % pageBytes ≠ 0 ∨ 65535 < m.segmentBytes / 512 then
    raiseOracle "Write segment must be 16 KiB aligned and fit one NVMe command"
  else if m.snapshotBytes % m.segmentBytes ≠ 0 then
    raiseOracle "Snapshot must be padded to write segment"
  else
    validateRecords isFinite (dictOf (m.layers.map fun l => (l.layerId, l))) none records
    if records.length ≠ m.records ∨ records.length = 0 then raiseOracle "Record count mismatch"
    else .ok ()

end Validate

/-- `random.Random`: a sample has the length asked for and repeats no position of the population;
it is refused when the population is too small. -/
structure Rng (ρ : Type) where
  sample : ρ → List ℤ → ℕ → Option (List ℤ × ρ)
  refuses : ∀ state population n, sample state population n = none ↔ population.length < n
  length : ∀ state population n result, sample state population n = some result →
    result.1.length = n
  subperm : ∀ state population n result, sample state population n = some result →
    result.1.Subperm population

/-- `l[:n]`. -/
def sliceTo {α : Type} (n : ℤ) (l : List α) : List α :=
  if 0 ≤ n then l.take n.toNat else l.take (l.length - n.natAbs)

inductive OracleStrategy
  | baseline
  | ppaAware
  | randomMatched
  | applied
  deriving DecidableEq

/-- What is planned for a record: the tokens read, in order, and their addresses. -/
structure OraclePlan where
  selected : Finset ℤ
  swaps : List (ℤ × ℤ)
  emitted : List ℤ
  before : ℤ
  after : ℤ
  addresses : List ℤ

section Plan

variable {σ δ ρ : Type} [LinearOrder σ] [LinearOrder δ]

namespace OracleRecord

def resident (row : OracleRecord σ) (cached : Finset ℤ) : Finset ℤ :=
  insert row.currentToken cached

def nativeMisses (row : OracleRecord σ) (cached : Finset ℤ) : Finset ℤ :=
  row.native.toFinset \ row.resident cached

/-- The pool that the dropped tokens of the control are drawn from. -/
def eligible (row : OracleRecord σ) (cached : Finset ℤ) (protectTop : ℤ) : List ℤ :=
  let ranked := (scoredRows row.entries).map (·.1)
  let kept := (sliceTo protectTop ranked).toFinset ∪ row.resident cached
  ((row.native.toFinset ∩ ranked.toFinset) \ kept).sort (· ≤ ·)

/-- The pool that its added tokens are drawn from. -/
def extra (row : OracleRecord σ) (cached : Finset ℤ) : List ℤ :=
  let ranked := (scoredRows row.entries).map (·.1)
  ((ranked.toFinset \ row.native.toFinset) \ row.resident cached).sort (· ≤ ·)

end OracleRecord

def selectRow (diff : σ → σ → δ) (order : SetOrder) (row : OracleRecord σ) (mapping : DenseMapping)
    (cached : Finset ℤ) (budget protectTop : ℤ) : Option Selection :=
  select diff order row.native.toFinset row.entries mapping row.currentToken budget protectTop
    cached

/-- The control: as many swaps as `select` made, drawn at random. -/
def randomSwaps (rng : Rng ρ) (state : ρ) (row : OracleRecord σ) (cached : Finset ℤ)
    (protectTop : ℤ) (n : ℕ) : Except OracleError (List ℤ × List ℤ) :=
  match rng.sample state (row.eligible cached protectTop) n with
  | none => raiseOracle "Sample larger than population or is negative"
  | some (old, state) =>
    match rng.sample state (row.extra cached) n with
    | none => raiseOracle "Sample larger than population or is negative"
    | some (new, _) => .ok (old, new)

def lookupError {α : Type} : Option α → Except OracleError α
  | none => .error .keyError
  | some a => .ok a

/-- The selection of a strategy, its swaps, and the objective of the native misses. -/
def chooseRow (diff : σ → σ → δ) (order : SetOrder) (rng : Rng ρ) (state : ρ)
    (row : OracleRecord σ) (mapping : DenseMapping) (info : Dict ℤ MappingRow) (cached : Finset ℤ)
    (cacheDigest : String) (strategy : OracleStrategy) (budget protectTop : ℤ) :
    Except OracleError (Finset ℤ × List (ℤ × ℤ) × ℤ) := do
  let native := row.native.toFinset
  match strategy with
  | .applied =>
    match row.appliedSelected with
    | none => raiseOracle "Applied replay requires applied selections on every record"
    | some applied =>
      if row.appliedCacheState ≠ cacheDigest then
        raiseOracle "Online LRU state differs from replayed baseline"
      else
        let loads ← lookupError (pressure info (order.rows 0 (row.nativeMisses cached)))
        return (applied.toFinset, row.appliedSwaps, objective loads)
  | strategy =>
    let s ← lookupError (selectRow diff order row mapping cached budget protectTop)
    match strategy with
    | .baseline => return (native, [], s.initial)
    | .randomMatched =>
      let (old, new) ← randomSwaps rng state row cached protectTop s.swaps.length
      return (exchange native old.toFinset new.toFinset, old.zip new, s.initial)
    | _ => return (s.selected, s.swaps, s.initial)

/-- The miss-only check; `emitted` are the tokens that are read. -/
def MissOnly (row : OracleRecord σ) (cached selected : Finset ℤ) (swaps : List (ℤ × ℤ))
    (emitted : List ℤ) : Prop :=
  selected.card = row.native.toFinset.card ∧
    selected ∩ row.resident cached = row.native.toFinset ∩ row.resident cached ∧
    emitted.length = (row.nativeMisses cached).card ∧
    ∀ p ∈ swaps, p.1 ∈ row.nativeMisses cached ∧ p.2 ∉ row.resident cached ∧
      p.2 ∉ row.native.toFinset

instance (row : OracleRecord σ) (cached selected : Finset ℤ) (swaps : List (ℤ × ℤ))
    (emitted : List ℤ) : Decidable (MissOnly row cached selected swaps emitted) :=
  inferInstanceAs (Decidable (_ ∧ _))

def planRow (diff : σ → σ → δ) (order : SetOrder) (rng : Rng ρ) (state : ρ)
    (row : OracleRecord σ) (mapping : DenseMapping) (cached : Finset ℤ) (cacheDigest : String)
    (strategy : OracleStrategy) (budget protectTop : ℤ) : Except OracleError OraclePlan := do
  let info ← lookupError (candidateInfo row.entries mapping)
  let addresses := dictOf (row.entries.map fun x => (x.token, x.offsetBytes))
  let (selected, swaps, before) ← chooseRow diff order rng state row mapping info cached cacheDigest
    strategy budget protectTop
  let emitted := (selected \ row.resident cached).sort (· ≤ ·)
  if MissOnly row cached selected swaps emitted then
    let loads ← lookupError (pressure info emitted)
    let offsets ← lookupError (emitted.mapM fun t => addresses.lookup t)
    return ⟨selected, swaps, emitted, before, objective loads, offsets⟩
  else
    raiseOracle "Miss-only replacement changed native hits/current-token availability/read volume"

end Plan

end Umm
