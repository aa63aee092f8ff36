import Umm.Ppa.OracleControl

/-! The cases of `mqsim_ppa_oracle.py` for one capacity: every strategy goes through the same
records with the caches of the native selections, so that its reads can be compared. -/
namespace Umm
open Umm.Lib

/-- What the digest of a batch is made of. -/
structure BaselineContract where
  step : ℕ
  layer : ℕ
  cacheDigest : String
  native : List ℤ
  nativeMisses : List ℤ
  nativeHits : ℕ
  freshHits : ℕ
  deriving DecidableEq

/-- The row of a batch in `layers.csv` before the simulation, and the reads of its trace. -/
structure CaseBatch where
  batch : ℕ
  step : ℕ
  layer : ℕ
  selected : ℕ
  cacheHits : ℕ
  freshHits : ℕ
  requests : ℕ
  cacheState : String
  contract : String
  warmup : Bool
  replacements : ℕ
  objectiveBefore : ℤ
  objectiveAfter : ℤ
  offsets : List ℤ

/-- The caches of the layers; a layer that was not met has none. -/
abbrev LayerCaches : Type := ℕ → Option (BatchLru ℤ)

/-- The functions that the planning uses: digests, the difference of scores, the order of sets, and
the generator with its seed for a batch and a budget. -/
structure OracleEnv (σ δ ρ : Type) where
  lruDigest : List ℤ → String
  contractDigest : BaselineContract → String
  diff : σ → σ → δ
  order : SetOrder
  rng : Rng ρ
  seed : ℕ → ℤ → ρ

structure OracleArgs where
  protectTop : ℤ
  warmupSteps : ℤ

section Plan

variable {σ δ ρ : Type} [LinearOrder σ] [LinearOrder δ] (env : OracleEnv σ δ ρ)
  (args : OracleArgs) (mapping : DenseMapping) (capacity : ℤ)

/-- One turn of `baseline_states`: the cache before the step, and the caches after it. -/
def baselineState (caches : LayerCaches) (row : OracleRecord σ) :
    Except OracleError (BatchLru ℤ × LayerCaches) :=
  let cache := (caches row.layerId).getD (.new capacity)
  if capacity ≠ 0 then
    match cache.commit row.native with
    | (.error e, _) => .error (.valueError e)
    | (.ok (), next) => .ok (cache, Function.update caches row.layerId (some next))
  else .ok (cache, Function.update caches row.layerId (some cache))

def contractOf (row : OracleRecord σ) (cache : BatchLru ℤ) : BaselineContract :=
  let cached := cache.rows.toFinset
  let native := row.native.toFinset
  { step := row.stepId
    layer := row.layerId
    cacheDigest := env.lruDigest cache.rows
    native := sortedSet native
    nativeMisses := sortedSet (row.nativeMisses cached)
    nativeHits := (native ∩ cached).card
    freshHits := if row.currentToken ∈ native ∧ row.currentToken ∉ cached then 1 else 0 }

/-- One turn of `selections_with_baseline`, for a plan. -/
def caseBatch (index : ℕ) (row : OracleRecord σ) (cache : BatchLru ℤ) (plan : OraclePlan) :
    CaseBatch :=
  let contract := contractOf env row cache
  { batch := index
    step := row.stepId
    layer := row.layerId
    selected := plan.selected.card
    cacheHits := contract.nativeHits
    freshHits := contract.freshHits
    requests := plan.emitted.length
    cacheState := contract.cacheDigest
    contract := env.contractDigest contract
    warmup := (row.stepId : ℤ) < args.warmupSteps
    replacements := plan.swaps.length
    objectiveBefore := plan.before
    objectiveAfter := plan.after
    offsets := plan.addresses }

/-- The selections of one case from batch `index` on. `contracts` are those of the first case; each
batch has to have the same. -/
def planCase (strategy : OracleStrategy) (budget : ℤ) (contracts : Option (List String)) :
    ℕ → LayerCaches → List (OracleRecord σ) → Except OracleError (List CaseBatch)
  | _, _, [] => .ok []
  | index, caches, row :: records => do
    let (cache, caches) ← baselineState capacity caches row
    let plan ← planRow env.diff env.order env.rng (env.seed index budget) row mapping
      cache.rows.toFinset (env.lruDigest cache.rows) strategy budget args.protectTop
    let batch := caseBatch env args index row cache plan
    if contracts.any fun contracts => contracts[index - 1]? ≠ some batch.contract then
      raiseOracle "Per-step baseline cache/native hits/miss set differs between cases"
    else
      let batches ← planCase strategy budget contracts (index + 1) caches records
      return batch :: batches

/-- The loop over the jobs of a capacity, up to the simulator. -/
def planJobs (records : List (OracleRecord σ)) :
    Option (List String) → List (OracleStrategy × ℤ) → Except OracleError (List (List CaseBatch))
  | _, [] => .ok []
  | contracts, (strategy, budget) :: jobs => do
    let batches ← planCase env args mapping capacity strategy budget contracts 1 (fun _ => none)
      records
    let current := batches.map (·.contract)
    if contracts.any (· ≠ current) then raiseOracle "Case lost baseline records"
    else
      let cases ← planJobs records (some (contracts.getD current)) jobs
      return batches :: cases

/-- The jobs of a capacity. -/
def oracleJobs (budgets : List ℤ) (applied : Bool) : List (OracleStrategy × ℤ) :=
  (.baseline, 0) :: (if applied then [(.applied, 0)] else []) ++
    ((BatchLru.sorted budgets).filter (· ≠ 0)).flatMap fun budget =>
      [(.ppaAware, budget), (.randomMatched, budget)]

end Plan

/-- The totals of a case that all cases of a capacity have to share. -/
def caseTotals (batches : List CaseBatch) : ℕ × ℕ × ℕ × ℕ :=
  let measured := batches.filter fun b => !b.warmup
  ((measured.map (·.selected)).sum, (measured.map (·.cacheHits)).sum,
    (measured.map (·.freshHits)).sum, (measured.map (·.requests)).sum)

section Same

variable {σ δ ρ : Type} [LinearOrder σ] [LinearOrder δ] {env : OracleEnv σ δ ρ}
  {args : OracleArgs} {mapping : DenseMapping} {capacity : ℤ}

/-- What all strategies have in common in a batch. -/
structure CommonBatch where
  contract : String
  selected : ℕ
  cacheHits : ℕ
  freshHits : ℕ
  requests : ℕ
  warmup : Bool
  deriving DecidableEq

def CaseBatch.common (b : CaseBatch) : CommonBatch :=
  ⟨b.contract, b.selected, b.cacheHits, b.freshHits, b.requests, b.warmup⟩

variable (env args capacity) in
/-- The batches as the records alone determine them. -/
def commonBatches : LayerCaches → List (OracleRecord σ) → List CommonBatch
  | _, [] => []
  | caches, row :: records =>
    match baselineState capacity caches row with
    | .error _ => []
    | .ok (cache, caches) =>
      let contract := contractOf env row cache
      ⟨env.contractDigest contract, row.native.toFinset.card, contract.nativeHits,
        contract.freshHits, (row.nativeMisses cache.rows.toFinset).card,
        (row.stepId : ℤ) < args.warmupSteps⟩ :: commonBatches caches records

theorem lookupError_ok {α : Type} {o : Option α} {a : α} (h : lookupError o = .ok a) :
    o = some a := by
  cases o with
  | none => cases h
  | some b => rw [Except.ok.inj h]

theorem planRow_ok {row : OracleRecord σ} {state : ρ} {cached : Finset ℤ} {digest : String}
    {strategy : OracleStrategy} {budget protectTop : ℤ} {plan : OraclePlan}
    (h : planRow env.diff env.order env.rng state row mapping cached digest strategy budget
      protectTop = .ok plan) :
    MissOnly row cached plan.selected plan.swaps plan.emitted ∧
      plan.emitted = (plan.selected \ row.resident cached).sort (· ≤ ·) ∧
      ∃ info, candidateInfo row.entries mapping = some info ∧
        chooseRow env.diff env.order env.rng state row mapping info cached digest strategy budget
          protectTop = .ok (plan.selected, plan.swaps, plan.before) ∧
        (pressure info plan.emitted).map objective = some plan.after := by
  unfold planRow at h
  obtain ⟨info, hinfo, h⟩ := except_bind_ok h
  obtain ⟨⟨selected, swaps, before⟩, hchoose, h⟩ := except_bind_ok h
  dsimp only at h
  split_ifs at h with hcheck
  · obtain ⟨loads, hloads, h⟩ := except_bind_ok h
    obtain ⟨offsets, -, h⟩ := except_bind_ok h
    obtain rfl := Except.ok.inj h
    refine ⟨hcheck, rfl, info, lookupError_ok hinfo, hchoose, ?_⟩
    rw [lookupError_ok hloads, Option.map_some]
  · cases h

theorem planCase_cons {strategy : OracleStrategy} {budget : ℤ} {contracts : Option (List String)}
    {index : ℕ} {caches : LayerCaches} {row : OracleRecord σ} {records : List (OracleRecord σ)}
    {batches : List CaseBatch}
    (h : planCase env args mapping capacity strategy budget contracts index caches
      (row :: records) = .ok batches) :
    ∃ cache caches' plan rest, baselineState capacity caches row = .ok (cache, caches') ∧
      planRow env.diff env.order env.rng (env.seed index budget) row mapping cache.rows.toFinset
        (env.lruDigest cache.rows) strategy budget args.protectTop = .ok plan ∧
      planCase env args mapping capacity strategy budget contracts (index + 1) caches' records =
        .ok rest ∧
      batches = caseBatch env args index row cache plan :: rest := by
  unfold planCase at h
  obtain ⟨⟨cache, caches'⟩, hstate, h⟩ := except_bind_ok h
  obtain ⟨plan, hplan, h⟩ := except_bind_ok h
  dsimp only at h
  split_ifs at h with hdiffers
  · cases h
  · obtain ⟨rest, hrest, h⟩ := except_bind_ok h
    exact ⟨cache, caches', plan, rest, hstate, hplan, hrest, (Except.ok.inj h).symm⟩

/-- A case that is planned through has the batches that the records determine. -/
theorem planCase_common {strategy : OracleStrategy} {budget : ℤ} {contracts : Option (List String)}
    {records : List (OracleRecord σ)} : ∀ {index : ℕ} {caches : LayerCaches}
      {batches : List CaseBatch},
      planCase env args mapping capacity strategy budget contracts index caches records =
        .ok batches →
      batches.map CaseBatch.common = commonBatches env args capacity caches records ∧
        batches.length = records.length := by
  induction records with
  | nil =>
    intro index caches batches h
    obtain rfl := Except.ok.inj h
    exact ⟨rfl, rfl⟩
  | cons row records ih =>
    intro index caches batches h
    obtain ⟨cache, caches', plan, rest, hstate, hplan, hrest, rfl⟩ := planCase_cons h
    obtain ⟨⟨hcard, -, hemitted, -⟩, -⟩ := planRow_ok hplan
    obtain ⟨hcommon, hlen⟩ := ih hrest
    refine ⟨?_, by rw [List.length_cons, List.length_cons, hlen]⟩
    unfold commonBatches
    rw [List.map_cons, hcommon, hstate]
    dsimp only [CaseBatch.common, caseBatch]
    rw [hcard, hemitted]

/-- The contracts that the records determine are never missed. -/
theorem planCase_contracts {strategy : OracleStrategy} {budget : ℤ}
    {records : List (OracleRecord σ)} : ∀ (index : ℕ) (caches : LayerCaches) (before : List String),
      before.length + 1 = index →
      planCase env args mapping capacity strategy budget
          (some (before ++ (commonBatches env args capacity caches records).map (·.contract)))
          index caches records =
        planCase env args mapping capacity strategy budget none index caches records := by
  induction records with
  | nil => intro index caches before _; rfl
  | cons row records ih =>
    intro index caches before hindex
    unfold planCase commonBatches
    cases hstate : baselineState capacity caches row with
    | error e => rfl
    | ok p =>
      obtain ⟨cache, caches'⟩ := p
      dsimp only [bind, Except.bind]
      cases hplan : planRow env.diff env.order env.rng (env.seed index budget) row mapping
          cache.rows.toFinset (env.lruDigest cache.rows) strategy budget args.protectTop with
      | error e => rfl
      | ok plan =>
        have hat : (before ++ (env.contractDigest (contractOf env row cache) ::
            (commonBatches env args capacity caches' records).map (·.contract)))[index - 1]? =
            some (env.contractDigest (contractOf env row cache)) := by
          rw [← hindex, Nat.add_sub_cancel, List.getElem?_append_right le_rfl, Nat.sub_self]
          rfl
        have hrest := ih (index + 1) caches'
          (before ++ [env.contractDigest (contractOf env row cache)])
          (by rw [List.length_append, List.length_singleton, hindex])
        rw [List.append_assoc] at hrest
        dsimp only [Option.any_some, Option.any_none, caseBatch]
        rw [List.map_cons]
        dsimp only
        rw [← hrest, List.singleton_append]
        simp only [hat, ne_eq, not_true_eq_false, decide_false, Bool.false_eq_true, if_false]

variable (env args mapping capacity) in
/-- With the contracts of the first case, or none yet, a case is planned as it is alone, and no job
is refused for its contracts. -/
theorem planJobs_eq (records : List (OracleRecord σ)) (contracts : Option (List String))
    (hcontracts : ∀ known ∈ contracts,
      known = (commonBatches env args capacity (fun _ => none) records).map (·.contract))
    (jobs : List (OracleStrategy × ℤ)) :
    planJobs env args mapping capacity records contracts jobs = jobs.mapM fun job =>
      planCase env args mapping capacity job.1 job.2 none 1 (fun _ => none) records := by
  induction jobs generalizing contracts with
  | nil => rfl
  | cons job jobs ih =>
    obtain ⟨strategy, budget⟩ := job
    have halone : planCase env args mapping capacity strategy budget contracts 1 (fun _ => none)
        records = planCase env args mapping capacity strategy budget none 1 (fun _ => none)
          records := by
      cases contracts with
      | none => rfl
      | some known =>
        obtain rfl := hcontracts known rfl
        exact planCase_contracts 1 (fun _ => none) [] rfl
    unfold planJobs
    rw [List.mapM_cons, halone]
    dsimp only [bind, Except.bind]
    cases hcase : planCase env args mapping capacity strategy budget none 1 (fun _ => none)
        records with
    | error e => rfl
    | ok batches =>
      have hcurrent : batches.map (·.contract) =
          (commonBatches env args capacity (fun _ => none) records).map (·.contract) := by
        rw [← (planCase_common hcase).1, List.map_map]
        rfl
      have hsame : contracts.any (· ≠ batches.map (·.contract)) = false := by
        rw [hcurrent]
        cases contracts with
        | none => rfl
        | some known => simp [hcontracts known rfl]
      have hrest := ih (some (contracts.getD (batches.map (·.contract)))) (by
        rintro known ⟨⟩
        rw [hcurrent]
        cases contracts with
        | none => rfl
        | some known => exact hcontracts known rfl)
      dsimp only
      rw [hsame, hrest]
      rfl

theorem caseTotals_eq (batches : List CaseBatch) :
    caseTotals batches =
      let measured := (batches.map CaseBatch.common).filter fun b => !b.warmup
      ((measured.map (·.selected)).sum, (measured.map (·.cacheHits)).sum,
        (measured.map (·.freshHits)).sum, (measured.map (·.requests)).sum) := by
  unfold caseTotals
  dsimp only
  rw [List.filter_map, List.map_map, List.map_map, List.map_map, List.map_map]
  rfl

variable (env args mapping capacity) in
/-- Whatever the digests are, the guards between the cases of a capacity never stop the planning:
it is that of each case alone. And in the cases that are planned every batch agrees on the cache,
the hits, the tokens selected and the volume that is read. -/
theorem oracleCases_comparable (records : List (OracleRecord σ))
    (jobs : List (OracleStrategy × ℤ)) :
    (planJobs env args mapping capacity records none jobs = jobs.mapM fun job =>
        planCase env args mapping capacity job.1 job.2 none 1 (fun _ => none) records) ∧
      ∀ cases, planJobs env args mapping capacity records none jobs = .ok cases →
        cases.length = jobs.length ∧ ∀ c ∈ cases, c.length = records.length ∧
          ∀ d ∈ cases, c.map CaseBatch.common = d.map CaseBatch.common ∧
            caseTotals c = caseTotals d := by
  have heq := planJobs_eq env args mapping capacity records none (by rintro _ ⟨⟩) jobs
  refine ⟨heq, fun cases hcases => ?_⟩
  rw [heq] at hcases
  have hcommon : ∀ c ∈ cases, c.map CaseBatch.common =
      commonBatches env args capacity (fun _ => none) records ∧ c.length = records.length := by
    intro c hc
    obtain ⟨job, -, hjob⟩ := mem_of_mapM hcases hc
    exact planCase_common hjob
  refine ⟨(forall₂_of_mapM hcases).length_eq.symm, fun c hc => ⟨(hcommon c hc).2, fun d hd => ?_⟩⟩
  have hboth := (hcommon c hc).1.trans (hcommon d hd).1.symm
  refine ⟨hboth, ?_⟩
  rw [caseTotals_eq, caseTotals_eq, hboth]

end Same

end Umm
