import Umm.Ppa.OracleCases

/-! Which cases of an accepted export are planned, and what the selection by physical pages gains
over the baseline and its random control. -/
namespace Umm
open Umm.Lib

/-- All pages of a record are in the mapping. -/
def OracleRecord.Mapped {σ : Type} (row : OracleRecord σ) (mapping : DenseMapping) : Prop :=
  ∀ x ∈ row.entries, (mapping.get (x.offsetBytes / pageBytes)).isSome

section Row

variable {σ δ ρ : Type} [LinearOrder σ] [LinearOrder δ] {env : OracleEnv σ δ ρ}
  {row : OracleRecord σ} {mapping : DenseMapping} {cached : Finset ℤ} {state : ρ} {digest : String}
  {budget protectTop : ℤ} {info : Dict ℤ MappingRow} {s : Selection}

omit [LinearOrder σ] in
theorem missOnly_native : MissOnly row cached row.native.toFinset []
    ((row.native.toFinset \ row.resident cached).sort (· ≤ ·)) :=
  ⟨rfl, rfl, Finset.length_sort _, by simp⟩

theorem missOnly_improves
    (hs : s.Improves row.native.toFinset (row.resident cached) row.entries info budget protectTop) :
    MissOnly row cached s.selected s.swaps
      ((s.selected \ row.resident cached).sort (· ≤ ·)) := by
  refine ⟨hs.card, hs.hits, ?_, fun p hp => ?_⟩
  · have hsplit := Finset.card_inter_add_card_sdiff s.selected (row.resident cached)
    have hsplit' := Finset.card_inter_add_card_sdiff row.native.toFinset (row.resident cached)
    rw [hs.hits, hs.card] at hsplit
    rw [Finset.length_sort, OracleRecord.nativeMisses]
    omega
  · obtain ⟨hnative, hmiss, -⟩ := hs.dropped p hp
    obtain ⟨-, hnew, hnewmiss⟩ := hs.added p hp
    exact ⟨Finset.mem_sdiff.mpr ⟨hnative, hmiss⟩, hnewmiss, hnew⟩

theorem improves_tokens (hrow : row.Sound)
    (hs : s.Improves row.native.toFinset (row.resident cached) row.entries info budget protectTop) :
    ∀ t ∈ s.selected, t ∈ row.tokens := by
  intro t ht
  rw [hs.swapped_eq, swapped, mem_exchange] at ht
  rcases ht with ⟨hin, -⟩ | hin
  · exact hrow.native t (List.mem_toFinset.mp hin)
  · obtain ⟨p, hp, rfl⟩ := List.mem_map.mp (List.mem_toFinset.mp hin)
    obtain ⟨x, hx, hxt, -⟩ := mem_scoredTokens.mp (hs.added p hp).1
    rw [← row.tokens_entries, ← hxt]
    exact List.mem_map.mpr ⟨x, hx, rfl⟩

theorem planRow_of_choose {strategy : OracleStrategy} {selected : Finset ℤ}
    {swaps : List (ℤ × ℤ)} {before : ℤ} (hinfo : candidateInfo row.entries mapping = some info)
    (hchoose : chooseRow env.diff env.order env.rng state row mapping info cached digest strategy
      budget protectTop = .ok (selected, swaps, before))
    (hcheck : MissOnly row cached selected swaps
      ((selected \ row.resident cached).sort (· ≤ ·)))
    (htokens : ∀ t ∈ selected, t ∈ row.tokens) :
    ∃ plan, planRow env.diff env.order env.rng state row mapping cached digest strategy budget
      protectTop = .ok plan := by
  have hemitted : ∀ t ∈ (selected \ row.resident cached).sort (· ≤ ·), t ∈ row.tokens :=
    fun t ht => htokens t (Finset.mem_sdiff.mp ((Finset.mem_sort _).mp ht)).1
  obtain ⟨loads, hloads⟩ := Option.isSome_iff_exists.mp (pressure_isSome.mpr fun t ht =>
    (lookup_candidateInfo_isSome hinfo).mpr (by rw [row.tokens_entries]; exact hemitted t ht))
  obtain ⟨offsets, hoffsets⟩ := Option.isSome_iff_exists.mp (mapM_address_isSome hemitted)
  refine ⟨⟨selected, swaps, (selected \ row.resident cached).sort (· ≤ ·), before,
    objective loads, offsets⟩, ?_⟩
  unfold planRow
  simp only [hinfo, hchoose, lookupError, bind, Except.bind, pure, Except.pure]
  rw [if_pos hcheck, hloads]
  simp only [hoffsets]

theorem selectRow_mapped (hrow : row.Sound) (hmapped : row.Mapped mapping) (diff : σ → σ → δ)
    (order : SetOrder) (cached : Finset ℤ) (budget protectTop : ℤ) :
    ∃ info s, candidateInfo row.entries mapping = some info ∧
      selectRow diff order row mapping cached budget protectTop = some s ∧
      s.Improves row.native.toFinset (row.resident cached) row.entries info budget protectTop := by
  have hrows : (row.entries.map (·.token)).Nodup := by
    rw [row.tokens_entries]
    exact hrow.nodup
  have hnative : ∀ t ∈ row.native.toFinset, t ∈ row.entries.map (·.token) := by
    intro t ht
    rw [row.tokens_entries]
    exact hrow.native t (List.mem_toFinset.mp ht)
  obtain ⟨hnone, hsome⟩ := select_improves diff order hrows hnative mapping row.currentToken budget
    protectTop cached
  cases hs : selectRow diff order row mapping cached budget protectTop with
  | none =>
    obtain ⟨x, hx, hpage⟩ := hnone.mp hs
    have hsome := hmapped x hx
    rw [hpage] at hsome
    cases hsome
  | some s =>
    obtain ⟨info, hinfo, himproves⟩ := hsome s hs
    exact ⟨info, s, hinfo, rfl, himproves⟩

variable (env state cached digest budget) in
/-- Every strategy that makes its own selection has a plan where the pages are mapped. -/
theorem planRow_mapped (hrow : row.Sound) (hprotect : 0 ≤ protectTop)
    (hmapped : row.Mapped mapping) {strategy : OracleStrategy} (hstrategy : strategy ≠ .applied) :
    ∃ plan, planRow env.diff env.order env.rng state row mapping cached digest strategy budget
      protectTop = .ok plan := by
  obtain ⟨info, s, hinfo, hs, himproves⟩ :=
    selectRow_mapped hrow hmapped env.diff env.order cached budget protectTop
  cases strategy with
  | baseline =>
    have hchoose : chooseRow env.diff env.order env.rng state row mapping info cached digest
        .baseline budget protectTop = .ok (row.native.toFinset, [], s.initial) := by
      simp [chooseRow, hs, lookupError, bind, Except.bind, pure, Except.pure]
    exact planRow_of_choose hinfo hchoose missOnly_native fun t ht =>
      hrow.native t (List.mem_toFinset.mp ht)
  | ppaAware =>
    have hchoose : chooseRow env.diff env.order env.rng state row mapping info cached digest
        .ppaAware budget protectTop = .ok (s.selected, s.swaps, s.initial) := by
      simp [chooseRow, hs, lookupError, bind, Except.bind, pure, Except.pure]
    exact planRow_of_choose hinfo hchoose (missOnly_improves himproves)
      (improves_tokens hrow himproves)
  | randomMatched =>
    obtain ⟨plan, hplan, -⟩ := planRow_random env.diff env.order env.rng state mapping cached digest
      budget hrow hprotect hinfo hs himproves
    exact ⟨plan, hplan⟩
  | applied => exact absurd rfl hstrategy

end Row

section Gain

variable {info : Dict ℤ MappingRow}

theorem HasObjective.unique {t : Finset ℤ} {v w : ℤ} (hv : HasObjective info t v)
    (hw : HasObjective info t w) : v = w := by
  have heq := (hv (t.sort (· ≤ ·)) (Finset.sort_nodup _ _) (Finset.sort_toFinset _ _)).symm.trans
    (hw (t.sort (· ≤ ·)) (Finset.sort_nodup _ _) (Finset.sort_toFinset _ _))
  exact Option.some.inj heq

theorem Descends.objective_le {native resident : Finset ℤ} {swaps : List (ℤ × ℤ)}
    (h : Descends info native resident swaps) {initial : ℤ}
    (hinitial : HasObjective info (native \ resident) initial) :
    ∀ n ≤ swaps.length, ∀ v, HasObjective info (swapped native (swaps.take n) \ resident) v →
      v + n ≤ initial := by
  intro n
  induction n with
  | zero =>
    intro _ v hv
    rw [List.take_zero, swapped_nil] at hv
    have heq := hv.unique hinitial
    omega
  | succ n ih =>
    intro hn v hv
    obtain ⟨before, after, hbefore, hafter, hlt⟩ := h n (by omega)
    have hle := ih (by omega) before hbefore
    have heq := hv.unique hafter
    omega

end Gain

section Plans

variable {σ δ ρ : Type} [LinearOrder σ] [LinearOrder δ] {env : OracleEnv σ δ ρ}
  {row : OracleRecord σ} {mapping : DenseMapping} {cached : Finset ℤ} {state : ρ} {digest : String}
  {budget protectTop : ℤ} {plan : OraclePlan}

/-- What the plans of the three strategies for a record and a budget share, and what they gain. -/
structure PlanSpec (row : OracleRecord σ) (cached : Finset ℤ) (info : Dict ℤ MappingRow)
    (s : Selection) (strategy : OracleStrategy) (plan : OraclePlan) : Prop where
  before : HasObjective info (row.native.toFinset \ row.resident cached) plan.before
  after : (pressure info plan.emitted).map objective = some plan.after
  emitted : plan.emitted = (plan.selected \ row.resident cached).sort (· ≤ ·)
  baseline : strategy = .baseline → plan.selected = row.native.toFinset ∧ plan.swaps = []
  ppaAware : strategy = .ppaAware → plan.selected = s.selected ∧ plan.swaps = s.swaps
  randomMatched : strategy = .randomMatched → plan.swaps.length = s.swaps.length

theorem planRow_spec (hrow : row.Sound) (hprotect : 0 ≤ protectTop) {strategy : OracleStrategy}
    (hstrategy : strategy ≠ .applied)
    (h : planRow env.diff env.order env.rng state row mapping cached digest strategy budget
      protectTop = .ok plan) :
    ∃ info s, candidateInfo row.entries mapping = some info ∧
      selectRow env.diff env.order row mapping cached budget protectTop = some s ∧
      s.Improves row.native.toFinset (row.resident cached) row.entries info budget protectTop ∧
      PlanSpec row cached info s strategy plan := by
  obtain ⟨-, hemitted, info, hinfo, hchoose, hafter⟩ := planRow_ok h
  have hmapped : row.Mapped mapping := by
    intro x hx
    refine candidateInfo_isSome.mp ?_ x hx
    rw [hinfo]
    rfl
  obtain ⟨info', s, hinfo', hs, himproves⟩ :=
    selectRow_mapped hrow hmapped env.diff env.order cached budget protectTop
  obtain rfl := Option.some.inj (hinfo.symm.trans hinfo')
  refine ⟨info, s, hinfo, hs, himproves, ?_⟩
  cases strategy with
  | baseline =>
    simp only [chooseRow, hs, lookupError, bind, Except.bind, pure, Except.pure, Except.ok.injEq,
      Prod.mk.injEq] at hchoose
    obtain ⟨hselected, hswaps, hbefore⟩ := hchoose
    exact ⟨hbefore ▸ himproves.initial_eq, hafter, hemitted,
      fun _ => ⟨hselected.symm, hswaps.symm⟩, by simp, by simp⟩
  | ppaAware =>
    simp only [chooseRow, hs, lookupError, bind, Except.bind, pure, Except.pure, Except.ok.injEq,
      Prod.mk.injEq] at hchoose
    obtain ⟨hselected, hswaps, hbefore⟩ := hchoose
    exact ⟨hbefore ▸ himproves.initial_eq, hafter, hemitted, by simp,
      fun _ => ⟨hselected.symm, hswaps.symm⟩, by simp⟩
  | randomMatched =>
    obtain ⟨hold, hnew⟩ := pools_suffice hrow hprotect himproves
    obtain ⟨old, new, hdraw, holdlen, hnewlen, -⟩ :=
      randomSwaps_ok env.rng state cached hold hnew
    simp only [chooseRow, hs, hdraw, lookupError, bind, Except.bind, pure, Except.pure,
      Except.ok.injEq, Prod.mk.injEq] at hchoose
    obtain ⟨-, hswaps, hbefore⟩ := hchoose
    refine ⟨hbefore ▸ himproves.initial_eq, hafter, hemitted, by simp, by simp, fun _ => ?_⟩
    rw [← hswaps, List.length_zip, holdlen, hnewlen, Nat.min_self]
  | applied => exact absurd rfl hstrategy

omit [LinearOrder σ] in
theorem PlanSpec.hasObjective_after {info : Dict ℤ MappingRow} {s : Selection}
    {strategy : OracleStrategy} (h : PlanSpec row cached info s strategy plan) {v : ℤ}
    (hv : HasObjective info (plan.selected \ row.resident cached) v) : plan.after = v := by
  have hvalue := hv plan.emitted (h.emitted ▸ Finset.sort_nodup _ _)
    (h.emitted ▸ Finset.sort_toFinset _ _)
  exact Option.some.inj (h.after.symm.trans hvalue)

end Plans

section Cases

variable {σ δ ρ : Type} [LinearOrder σ] [LinearOrder δ] {env : OracleEnv σ δ ρ}
  {args : OracleArgs} {mapping : DenseMapping} {capacity : ℤ}

/-- The caches of a capacity. -/
def LayerCaches.Fit (caches : LayerCaches) (capacity : ℤ) : Prop :=
  ∀ layer, ∀ cache ∈ caches layer, cache.capacity = capacity

omit [LinearOrder σ] in
/-- The native tokens of a step always fit in the cache. -/
theorem baselineState_ok {caches : LayerCaches} {row : OracleRecord σ}
    (hcaches : caches.Fit capacity) (hcapacity : capacity = 0 ∨ 2048 ≤ capacity)
    (hnative : row.native.length ≤ 2048) :
    ∃ cache caches', baselineState capacity caches row = .ok (cache, caches') ∧
      LayerCaches.Fit caches' capacity := by
  have hcache : ((caches row.layerId).getD (.new capacity)).capacity = capacity := by
    cases h : caches row.layerId with
    | none => rfl
    | some cache => exact hcaches row.layerId cache h
  have hupdate : ∀ next : BatchLru ℤ, next.capacity = capacity →
      LayerCaches.Fit (Function.update caches row.layerId (some next)) capacity := by
    intro next hnext layer cache hin
    by_cases hlayer : layer = row.layerId
    · subst hlayer
      rw [Function.update_self] at hin
      obtain rfl := Option.some.inj hin
      exact hnext
    · rw [Function.update_of_ne hlayer] at hin
      exact hcaches layer cache hin
  unfold baselineState
  dsimp only
  by_cases hzero : capacity = 0
  · rw [if_neg (not_not.mpr hzero)]
    exact ⟨_, _, rfl, hupdate _ hcache⟩
  · rw [if_pos hzero]
    have hcommit : (((caches row.layerId).getD (.new capacity)).commit row.native).1 = .ok () := by
      have hcard := row.native.toFinset_card_le
      unfold BatchLru.commit
      dsimp only
      rw [if_neg (by omega)]
    have hnext := BatchLru.capacity_commit row.native ((caches row.layerId).getD (.new capacity))
    cases hresult : ((caches row.layerId).getD (.new capacity)).commit row.native with
    | mk result next =>
      rw [hresult] at hcommit hnext
      obtain rfl := hcommit
      exact ⟨_, _, rfl, hupdate next (hnext.trans hcache)⟩

/-- A case without replay is planned through if the pages of all records are mapped, and otherwise
ends with a missing key. -/
theorem planCase_outcome {strategy : OracleStrategy} (hstrategy : strategy ≠ .applied)
    (hprotect : 0 ≤ args.protectTop) (hcapacity : capacity = 0 ∨ 2048 ≤ capacity) {budget : ℤ}
    {records : List (OracleRecord σ)}
    (hrecords : ∀ row ∈ records, row.Sound ∧ row.native.length ≤ 2048) :
    ∀ {index : ℕ} {caches : LayerCaches}, caches.Fit capacity →
      ((∀ row ∈ records, row.Mapped mapping) → ∃ batches,
        planCase env args mapping capacity strategy budget none index caches records =
          .ok batches) ∧
      ((∃ row ∈ records, ¬ row.Mapped mapping) →
        planCase env args mapping capacity strategy budget none index caches records =
          .error .keyError) := by
  induction records with
  | nil => exact fun _ => ⟨fun _ => ⟨[], rfl⟩, by simp⟩
  | cons row records ih =>
    intro index caches hcaches
    obtain ⟨⟨hsound, hnative⟩, hrest⟩ := List.forall_mem_cons.mp hrecords
    obtain ⟨cache, caches', hstate, hfit⟩ := baselineState_ok hcaches hcapacity hnative
    have hstep := @ih hrest (index + 1) caches' hfit
    unfold planCase
    rw [hstate]
    dsimp only [bind, Except.bind]
    by_cases hmapped : row.Mapped mapping
    · obtain ⟨plan, hplan⟩ := planRow_mapped env cache.rows.toFinset (env.seed index budget)
        (env.lruDigest cache.rows) budget hsound hprotect hmapped hstrategy
      rw [hplan]
      dsimp only [Option.any_none]
      refine ⟨fun hall => ?_, fun hsome => ?_⟩
      · obtain ⟨batches, hbatches⟩ := hstep.1 (List.forall_mem_cons.mp hall).2
        rw [hbatches]
        exact ⟨_, rfl⟩
      · have hsome' : ∃ row ∈ records, ¬ row.Mapped mapping := by
          obtain ⟨r, hr, hnot⟩ := hsome
          rcases List.mem_cons.mp hr with rfl | hr
          · exact absurd hmapped hnot
          · exact ⟨r, hr, hnot⟩
        rw [hstep.2 hsome']
        rfl
    · refine ⟨fun hall => absurd (hall row List.mem_cons_self) hmapped, fun _ => ?_⟩
      have hinfo : candidateInfo row.entries mapping = none := by
        rw [← Option.not_isSome_iff_eq_none, candidateInfo_isSome]
        exact hmapped
      rw [planRow_unmapped env.diff env.order env.rng (env.seed index budget) mapping
        cache.rows.toFinset (env.lruDigest cache.rows) budget hinfo strategy]

/-- One batch in the cases of a budget. -/
structure MatchedBatches (budget : ℤ) (base aware control : CaseBatch) : Prop where
  common : aware.common = base.common ∧ control.common = base.common
  before : base.objectiveAfter = base.objectiveBefore ∧
    aware.objectiveBefore = base.objectiveBefore ∧ control.objectiveBefore = base.objectiveBefore
  replacements : base.replacements = 0 ∧ aware.replacements ≤ budget.toNat ∧
    control.replacements = aware.replacements
  gain : aware.objectiveAfter + aware.replacements ≤ base.objectiveAfter

theorem matchedBatches {index : ℕ} {row : OracleRecord σ} {cache : BatchLru ℤ} {budget : ℤ}
    (hrow : row.Sound) (hprotect : 0 ≤ args.protectTop) {state state' state'' : ρ}
    {plan plan' plan'' : OraclePlan}
    (hbase : planRow env.diff env.order env.rng state row mapping cache.rows.toFinset
      (env.lruDigest cache.rows) .baseline 0 args.protectTop = .ok plan)
    (haware : planRow env.diff env.order env.rng state' row mapping cache.rows.toFinset
      (env.lruDigest cache.rows) .ppaAware budget args.protectTop = .ok plan')
    (hcontrol : planRow env.diff env.order env.rng state'' row mapping cache.rows.toFinset
      (env.lruDigest cache.rows) .randomMatched budget args.protectTop = .ok plan'') :
    MatchedBatches budget (caseBatch env args index row cache plan)
      (caseBatch env args index row cache plan') (caseBatch env args index row cache plan'') := by
  obtain ⟨⟨hcard, -, hlen, -⟩, -⟩ := planRow_ok hbase
  obtain ⟨⟨hcard', -, hlen', -⟩, -⟩ := planRow_ok haware
  obtain ⟨⟨hcard'', -, hlen'', -⟩, -⟩ := planRow_ok hcontrol
  obtain ⟨info, s₀, hinfo, -, -, hplan⟩ := planRow_spec hrow hprotect (by simp) hbase
  obtain ⟨info', s, hinfo', hs, himproves, hplan'⟩ := planRow_spec hrow hprotect (by simp) haware
  obtain ⟨info'', s'', hinfo'', hs'', -, hplan''⟩ :=
    planRow_spec hrow hprotect (by simp) hcontrol
  obtain rfl := Option.some.inj (hinfo.symm.trans hinfo')
  obtain rfl := Option.some.inj (hinfo.symm.trans hinfo'')
  obtain rfl := Option.some.inj (hs.symm.trans hs'')
  obtain ⟨hnative, hnone⟩ := hplan.baseline rfl
  obtain ⟨hselected, hswaps⟩ := hplan'.ppaAware rfl
  have hafter : plan.after = plan.before := by
    refine hplan.hasObjective_after ?_
    rw [hnative]
    exact hplan.before
  have hgain : plan'.after + s.swaps.length ≤ plan.before := by
    have hfinal := himproves.final_eq
    have hvalue := hplan'.hasObjective_after (hselected ▸ hfinal)
    rw [himproves.swapped_eq, ← hvalue] at hfinal
    refine himproves.descends.objective_le hplan.before _ le_rfl _ ?_
    rw [List.take_length]
    exact hfinal
  constructor
  · constructor
    · dsimp only [CaseBatch.common, caseBatch]
      rw [hcard', hcard, hlen', hlen]
    · dsimp only [CaseBatch.common, caseBatch]
      rw [hcard'', hcard, hlen'', hlen]
  · exact ⟨hafter, hplan'.before.unique hplan.before, hplan''.before.unique hplan.before⟩
  · refine ⟨?_, ?_, ?_⟩
    · dsimp only [caseBatch]
      rw [hnone]
      rfl
    · dsimp only [caseBatch]
      rw [hswaps]
      exact himproves.bounded
    · dsimp only [caseBatch]
      rw [hplan''.randomMatched rfl, hswaps]
  · dsimp only [caseBatch]
    rw [hswaps, hafter]
    exact hgain

/-- The cases of a budget, batch by batch. -/
theorem planCase_matched (hprotect : 0 ≤ args.protectTop) {budget : ℤ}
    {records : List (OracleRecord σ)} (hrecords : ∀ row ∈ records, row.Sound) :
    ∀ {index : ℕ} {caches : LayerCaches} {base aware control : List CaseBatch},
      planCase env args mapping capacity .baseline 0 none index caches records = .ok base →
      planCase env args mapping capacity .ppaAware budget none index caches records = .ok aware →
      planCase env args mapping capacity .randomMatched budget none index caches records =
        .ok control →
      ∀ (i : ℕ) (b a c : CaseBatch), base[i]? = some b → aware[i]? = some a →
        control[i]? = some c → MatchedBatches budget b a c := by
  induction records with
  | nil =>
    intro index caches base aware control hbase _ _ i b a c hb
    obtain rfl := Except.ok.inj hbase
    cases hb
  | cons row records ih =>
    obtain ⟨hrow, hrest⟩ := List.forall_mem_cons.mp hrecords
    intro index caches base aware control hbase haware hcontrol i b a c hb ha hc
    obtain ⟨cache, next, plan, rest, hstate, hplan, hmore, rfl⟩ := planCase_cons hbase
    obtain ⟨cache', next', plan', rest', hstate', hplan', hmore', rfl⟩ := planCase_cons haware
    obtain ⟨cache'', next'', plan'', rest'', hstate'', hplan'', hmore'', rfl⟩ :=
      planCase_cons hcontrol
    obtain ⟨rfl, rfl⟩ := Prod.mk.inj (Except.ok.inj (hstate.symm.trans hstate'))
    obtain ⟨rfl, rfl⟩ := Prod.mk.inj (Except.ok.inj (hstate.symm.trans hstate''))
    cases i with
    | zero =>
      obtain rfl := Option.some.inj hb
      obtain rfl := Option.some.inj ha
      obtain rfl := Option.some.inj hc
      exact matchedBatches hrow hprotect hplan hplan' hplan''
    | succ i => exact ih hrest hmore hmore' hmore'' i b a c hb ha hc

theorem oracleJobs_strategy {budgets : List ℤ} :
    ∀ job ∈ oracleJobs budgets false, job.1 ≠ .applied := by
  intro job hjob
  unfold oracleJobs at hjob
  rw [if_neg Bool.false_ne_true] at hjob
  rcases List.mem_append.mp hjob with hjob | hjob
  · obtain rfl := List.mem_singleton.mp hjob
    simp
  · obtain ⟨budget, -, hjob⟩ := List.mem_flatMap.mp hjob
    rcases List.mem_pair.mp hjob with rfl | rfl <;> simp

variable (env mapping) in
/-- For an accepted export and arguments in range, the cases of a capacity are all planned if the
pages of the candidates are mapped, and otherwise end with a missing key. In the cases that are
planned, batch by batch, the selection by pages is no worse than the baseline by one for each
replacement, and the control makes as many replacements. -/
theorem oracleCases_gain {isFinite : σ → Bool} {m : OracleManifest}
    {records : List (OracleRecord σ)} (h : validateExport isFinite m records = .ok ())
    (hprotect : 0 ≤ args.protectTop) (hcapacity : capacity = 0 ∨ 2048 ≤ capacity)
    (budgets : List ℤ) :
    ((∀ row ∈ records, row.Mapped mapping) → ∃ cases,
        planJobs env args mapping capacity records none (oracleJobs budgets false) = .ok cases) ∧
      ((∃ row ∈ records, ¬ row.Mapped mapping) →
        planJobs env args mapping capacity records none (oracleJobs budgets false) =
          .error .keyError) ∧
      ∀ applied cases,
        planJobs env args mapping capacity records none (oracleJobs budgets applied) = .ok cases →
        ∀ budget base aware control,
          ((.baseline, 0), base) ∈ (oracleJobs budgets applied).zip cases →
          ((.ppaAware, budget), aware) ∈ (oracleJobs budgets applied).zip cases →
          ((.randomMatched, budget), control) ∈ (oracleJobs budgets applied).zip cases →
          ∀ (i : ℕ) (b a c : CaseBatch), base[i]? = some b → aware[i]? = some a →
            control[i]? = some c → MatchedBatches budget b a c := by
  have hrecords : ∀ row ∈ records, row.Sound ∧ row.native.length ≤ 2048 := by
    intro row hrow
    obtain ⟨-, -, -, -, -, hvalid, -⟩ := validateExport_iff.mp h
    obtain ⟨g, -, hrow⟩ := hvalid row hrow
    exact ⟨⟨hrow.nodup, hrow.native_subset⟩, hrow.native_length_le⟩
  have hempty : LayerCaches.Fit (fun _ => none) capacity := by
    intro layer cache hin
    cases hin
  have heq := planJobs_eq env args mapping capacity records none (by rintro _ ⟨⟩)
  refine ⟨fun hmapped => ?_, fun hsome => ?_, fun applied cases hcases => ?_⟩
  · rw [heq]
    refine mapM_exists_ok fun job hjob => ?_
    exact (planCase_outcome (oracleJobs_strategy job hjob) hprotect hcapacity hrecords hempty).1
      hmapped
  · have hbase : planCase env args mapping capacity .baseline 0 none 1 (fun _ => none) records =
        .error .keyError :=
      (planCase_outcome (by simp) hprotect hcapacity hrecords hempty).2 hsome
    rw [heq]
    unfold oracleJobs
    rw [List.cons_append, List.mapM_cons]
    dsimp only
    rw [hbase]
    rfl
  · rw [heq] at hcases
    obtain ⟨-, hzip⟩ := List.forall₂_iff_zip.mp (forall₂_of_mapM hcases)
    intro budget base aware control hbase haware hcontrol
    exact planCase_matched hprotect (fun row hrow => (hrecords row hrow).1) (hzip hbase)
      (hzip haware) (hzip hcontrol)

def plainOracle : OracleEnv ℤ ℤ ℕ :=
  ⟨fun _ => "", fun _ => "", fun a b => a - b, ascending, drawFirst, fun _ _ => 0⟩

theorem oracleCases_gain_wide : ∃ b a c, planJobs plainOracle ⟨0, 0⟩ (splitPages 512) 0
      [wideRecord 2048] none (oracleJobs [4] false) = .ok [[b], [a], [c]] ∧
    MatchedBatches 4 b a c ∧ 0 < a.replacements ∧ a.objectiveAfter < b.objectiveAfter := by
  have hvalid := wideRecord_valid (n := 2048) rfl
  have hprotect : 0 ≤ (OracleArgs.mk 0 0).protectTop := le_rfl
  obtain ⟨hplanned, -, hmatched⟩ :=
    oracleCases_gain plainOracle (splitPages 512) hvalid hprotect (.inl rfl) [4]
  have hmapped : ∀ row ∈ [wideRecord 2048], row.Mapped (splitPages 512) := by
    intro row hrow
    obtain rfl := List.mem_singleton.mp hrow
    exact wideRecord_mapped rfl
  obtain ⟨cases, hcases⟩ := hplanned hmapped
  have hjobs : oracleJobs [4] false = [(.baseline, 0), (.ppaAware, 4), (.randomMatched, 4)] := by
    decide
  have heach := hcases
  rw [planJobs_eq plainOracle ⟨0, 0⟩ (splitPages 512) 0 [wideRecord 2048] none (by rintro _ ⟨⟩),
    hjobs] at heach
  obtain ⟨base, rest, hbase, hrest, rfl⟩ := List.forall₂_cons_left_iff.mp (forall₂_of_mapM heach)
  obtain ⟨aware, rest', haware, hrest', rfl⟩ := List.forall₂_cons_left_iff.mp hrest
  obtain ⟨control, rest'', hcontrol, hrest'', rfl⟩ := List.forall₂_cons_left_iff.mp hrest'
  obtain rfl := List.forall₂_nil_left_iff.mp hrest''
  obtain ⟨cache, caches, plan, last, hstate, hplan, hlast, rfl⟩ := planCase_cons hbase
  obtain ⟨cache', caches', plan', last', hstate', hplan', hlast', rfl⟩ := planCase_cons haware
  obtain ⟨cache'', caches'', plan'', last'', hstate'', hplan'', hlast'', rfl⟩ :=
    planCase_cons hcontrol
  obtain rfl := Except.ok.inj hlast
  obtain rfl := Except.ok.inj hlast'
  obtain rfl := Except.ok.inj hlast''
  obtain ⟨rfl, rfl⟩ := Prod.mk.inj (Except.ok.inj hstate')
  have hsound : (wideRecord 2048).Sound := validateExport_ok hvalid _ List.mem_cons_self
  obtain ⟨info, s, -, hs, -, hspec⟩ := planRow_spec hsound hprotect (by simp) hplan'
  have hswaps : 0 < plan'.swaps.length := by
    rw [(hspec.ppaAware rfl).2]
    exact List.length_pos_iff.mpr (wideRecord_swaps rfl (by decide) hs)
  have hgain := hmatched false _ hcases 4 _ _ _
    (by rw [hjobs]; exact List.mem_cons_self)
    (by rw [hjobs]; exact List.mem_cons_of_mem _ List.mem_cons_self)
    (by rw [hjobs]; exact List.mem_cons_of_mem _ (List.mem_cons_of_mem _ List.mem_cons_self))
    0 _ _ _ rfl rfl rfl
  refine ⟨_, _, _, hcases, hgain, hswaps, ?_⟩
  have hobjective := hgain.gain
  dsimp only [caseBatch] at hobjective hswaps ⊢
  omega

end Cases

end Umm
