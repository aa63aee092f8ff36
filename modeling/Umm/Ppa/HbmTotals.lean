import Umm.Ppa.HbmTraceRuns

/-! The counts of the two replays: the export of the misses arrives at the counts of the
simulator, and in them every replacement saves one miss. -/
namespace Umm
open Umm.Lib

section Records

variable {σ : Type} [LinearOrder σ]

/-- A record that is read has its native tokens and its candidates once each. -/
theorem loadRecord_nodup {f : DumpFile σ} {r : LoadedRecord σ} (h : loadRecord f = .ok r) :
    r.native.Nodup ∧ r.native.length ≤ 2048 ∧ r.ranked.Nodup := by
  unfold loadRecord at h
  dsimp only at h
  split_ifs at h with h1 h2 h3
  split at h
  · cases h
  next scores hs =>
    split_ifs at h with h4
    obtain rfl := Except.ok.inj h
    push Not at h3 h4
    obtain ⟨-, hlen, hdedup, -⟩ := h4
    refine ⟨List.nodup_dedup _, ?_, ?_⟩
    · dsimp only
      rw [h3.1]
      exact Nat.min_le_left _ _
    · unfold rankCandidates
      rw [(List.perm_insertionSort _ _).map _ |>.nodup_iff, List.map_fst_zip hlen.le]
      have hids : f.record.candidateIndices.dedup = f.record.candidateIndices :=
        (List.dedup_sublist _).eq_of_length hdedup
      rw [← hids]
      exact List.nodup_dedup _

end Records

section Counts

variable {σ : Type} [LinearOrder σ] {args : HbmArgs}

/-- Every selected token is a hit, fresh or a miss. -/
theorem HbmEntry.counter_selected (e : HbmEntry) :
    e.counter .selected = e.counter .cacheHits + e.counter .freshHits + e.counter .misses := by
  simp only [HbmEntry.counter, HbmMeasure.counter, measure]
  omega

/-- The misses listed are those counted. -/
theorem HbmEntry.length_misses (e : HbmEntry) : (e.misses.length : ℤ) = e.counter .misses := by
  have hcount := misses_measure e.choice.selected e.choice.cache e.ready
  rw [HbmEntry.misses, sortedSet_eq, Finset.length_sort]
  exact hcount.symm

omit [LinearOrder σ] in
/-- In every step the three strategies select equally many tokens, and a replacement saves a
miss. -/
theorem HbmArgs.entry_trades {r : LoadedRecord σ} (hranked : r.ranked.Nodup) (step seq : ℕ)
    (capacity : ℤ) (caches : HbmCaches) :
    (∀ mode, (args.entry r step seq capacity caches mode).counter .selected =
        r.native.toFinset.card) ∧
      (args.entry r step seq capacity caches .sameStateReplacement).counter .misses +
          (args.entry r step seq capacity caches .sameStateReplacement).counter .replacements =
        (args.entry r step seq capacity caches .baseline).counter .misses := by
  have hbase := choose_trades hranked r.native caches.base (args.ready seq)
    args.maxReplacements.toNat args.protectTop.toNat (Prod.mk.eta).symm
  have haware := choose_trades hranked r.native caches.aware (args.ready seq)
    args.maxReplacements.toNat args.protectTop.toNat (Prod.mk.eta).symm
  constructor
  · intro mode
    cases mode with
    | baseline => rfl
    | sameStateReplacement => exact congrArg Nat.cast hbase.1
    | independentReplacement => exact congrArg Nat.cast haware.1
  · have hmiss := hbase.2.2.2.2.2.2
    change (measure (args.chooseFor r (args.ready seq) caches.base).1 caches.base
        (args.ready seq)).misses + ((args.chooseFor r (args.ready seq) caches.base).2 : ℤ) =
      (measure r.native.toFinset caches.base (args.ready seq)).misses
    unfold HbmArgs.chooseFor
    omega

/-- The counts of the steps behind the warm-up. -/
def HbmArgs.total (args : HbmArgs) (layers : List (List (DumpFile σ))) (key : ℤ × HbmMode) :
    HbmCounter :=
  (((layers.flatMap (args.layerEntries 0 args.states)).filter fun e =>
    e.At key ∧ args.warmupSteps ≤ e.step).map HbmEntry.counter).sum

/-- The counts of one strategy with one capacity in the steps of a layer. -/
def HbmArgs.modeTotal (args : HbmArgs) (key : ℤ × HbmMode) (files : List (DumpFile σ)) :
    HbmCounter :=
  (((args.modeEntries key.1 key.2 0 ⟨.new key.1, .new key.1⟩ files).filter fun e =>
    args.warmupSteps ≤ e.step).map HbmEntry.counter).sum

theorem HbmArgs.nodup_sortedCapacities (args : HbmArgs) : args.sortedCapacities.Nodup := by
  unfold HbmArgs.sortedCapacities
  rw [BatchLru.sorted_eq]
  exact Finset.sort_nodup _ _

theorem HbmArgs.mem_sortedCapacities {c : ℤ} : c ∈ args.sortedCapacities ↔ c ∈ args.capacities := by
  unfold HbmArgs.sortedCapacities
  rw [BatchLru.sorted_eq, Finset.mem_sort, List.mem_toFinset]

/-- The choices of a layer for one capacity and one strategy. -/
theorem HbmArgs.filter_at {c : ℤ} (hc : c ∈ args.sortedCapacities) (mode : HbmMode)
    (files : List (DumpFile σ)) :
    (args.layerEntries 0 args.states files).filter (HbmEntry.At (c, mode)) =
      args.modeEntries c mode 0 ⟨.new c, .new c⟩ files :=
  filter_layerEntries args.nodup_sortedCapacities hc mode files 0 fun c => ⟨.new c, .new c⟩

theorem HbmArgs.total_eq {c : ℤ} (hc : c ∈ args.sortedCapacities) (mode : HbmMode)
    (layers : List (List (DumpFile σ))) :
    args.total layers (c, mode) = (layers.map (args.modeTotal (c, mode))).sum := by
  unfold HbmArgs.total HbmArgs.modeTotal
  induction layers with
  | nil => rfl
  | cons files layers ih =>
    rw [List.flatMap_cons, List.filter_append, List.map_append, List.sum_append, List.map_cons,
      List.sum_cons, ih]
    congr 3
    rw [← args.filter_at hc mode files, List.filter_filter]
    congr 1
    funext e
    simp only [Bool.decide_and, Bool.and_comm]

private theorem modeTotal_trades_from (args : HbmArgs) (key : ℤ) (files : List (DumpFile σ)) :
    ∀ (step : ℕ) (caches : HbmCaches),
      let total mode := (((args.modeEntries key mode step caches files).filter fun e =>
        args.warmupSteps ≤ e.step).map HbmEntry.counter).sum
      (∀ mode, total mode .selected = total .baseline .selected) ∧
        total .sameStateReplacement .misses + total .sameStateReplacement .replacements =
          total .baseline .misses := by
  induction files with
  | nil => exact fun step caches => ⟨fun mode => rfl, rfl⟩
  | cons f files ih =>
    intro step caches
    dsimp only
    unfold HbmArgs.modeEntries
    cases hr : loadRecord f with
    | error e => exact ⟨fun mode => rfl, rfl⟩
    | ok r =>
      obtain ⟨hselected, hmisses⟩ := ih (step + 1) (args.next r f.seq caches)
      obtain ⟨hsel, htrade⟩ := args.entry_trades (loadRecord_nodup hr).2.2 step f.seq key caches
      dsimp only at hselected hmisses ⊢
      by_cases hw : args.warmupSteps ≤ step
      · have hkeep : ∀ mode, decide (args.warmupSteps ≤
            (args.entry r step f.seq key caches mode).step) = true := fun mode => decide_eq_true hw
        simp only [List.filter_cons, hkeep, if_true, List.map_cons, List.sum_cons, Pi.add_apply]
        refine ⟨fun mode => ?_, ?_⟩
        · rw [hselected mode, hsel mode, hsel .baseline]
        · omega
      · have hdrop : ∀ mode, decide (args.warmupSteps ≤
            (args.entry r step f.seq key caches mode).step) = false := fun mode => decide_eq_false hw
        simp only [List.filter_cons, hdrop, Bool.false_eq_true, if_false]
        exact ⟨hselected, hmisses⟩

/-- In the counts of all layers the strategies select equally many tokens, every one of them is
a hit, fresh or a miss, and in the baseline's cache every replacement saves a miss. -/
theorem HbmArgs.total_trades {c : ℤ} (hc : c ∈ args.sortedCapacities)
    (layers : List (List (DumpFile σ))) :
    (∀ mode, args.total layers (c, mode) .selected = args.total layers (c, .baseline) .selected) ∧
      args.total layers (c, .sameStateReplacement) .misses +
          args.total layers (c, .sameStateReplacement) .replacements =
        args.total layers (c, .baseline) .misses := by
  have hsplit : ∀ mode, args.total layers (c, mode) = (layers.map (args.modeTotal (c, mode))).sum :=
    fun mode => args.total_eq hc mode layers
  simp only [hsplit]
  clear hsplit
  induction layers with
  | nil => exact ⟨fun mode => rfl, rfl⟩
  | cons files layers ih =>
    obtain ⟨hselected, hmisses⟩ := modeTotal_trades_from args c files 0
      ⟨.new c, .new c⟩
    simp only [List.map_cons, List.sum_cons, Pi.add_apply]
    refine ⟨fun mode => ?_, ?_⟩
    · rw [ih.1 mode]
      congr 1
      exact hselected mode
    · have hthis : args.modeTotal (c, .sameStateReplacement) files .misses +
          args.modeTotal (c, .sameStateReplacement) files .replacements =
        args.modeTotal (c, .baseline) files .misses := hmisses
      have hrest := ih.2
      omega

end Counts

section Folds

variable {κ : Type} {args : HbmArgs}

/-- The counts of the measured choices among these. -/
def HbmArgs.counted (args : HbmArgs) (entries : List HbmEntry) (key : ℤ × HbmMode) : HbmCounter :=
  ((entries.filter fun e => e.At key ∧ args.warmupSteps ≤ e.step).map HbmEntry.counter).sum

theorem HbmArgs.counted_cons (args : HbmArgs) (e : HbmEntry) (entries : List HbmEntry)
    (key : ℤ × HbmMode) : args.counted (e :: entries) key =
      (if e.At key ∧ args.warmupSteps ≤ e.step then e.counter else 0) +
        args.counted entries key := by
  unfold HbmArgs.counted
  rw [List.filter_cons]
  by_cases h : e.At key ∧ args.warmupSteps ≤ e.step
  · rw [if_pos (decide_eq_true h), if_pos h, List.map_cons, List.sum_cons]
  · rw [if_neg (by rwa [decide_eq_true_eq]), if_neg h, zero_add]

theorem HbmTotals.update_apply (totals : HbmTotals) (e : HbmEntry) (key : ℤ × HbmMode) :
    totals.update (e.capacity, e.choice.mode) e.counter key =
      totals key + if e.At key then e.counter else 0 := by
  unfold HbmTotals.update
  by_cases h : key = (e.capacity, e.choice.mode)
  · subst h
    rw [Function.update_self, if_pos ⟨rfl, rfl⟩]
  · rw [Function.update_of_ne h, if_neg fun ha => h (Prod.ext ha.1.symm ha.2.symm), add_zero]

theorem simulate_foldlM (entries : List (String × HbmEntry)) :
    ∀ {out out' : SimOutput},
      entries.foldlM (fun out p => (simulateScript args).emit p.1 p.2 out) out = .ok out' →
      ∀ key, out'.aggregate key = out.aggregate key + args.counted (entries.map Prod.snd) key := by
  induction entries with
  | nil =>
    intro out out' h key
    obtain rfl := Except.ok.inj h
    exact (add_zero _).symm
  | cons p entries ih =>
    intro out out' h key
    rw [List.foldlM_cons] at h
    obtain ⟨out₁, hemit, h⟩ := except_bind_ok h
    obtain rfl := Except.ok.inj hemit
    rw [ih h key, List.map_cons, args.counted_cons, ← add_assoc]
    congr 1
    dsimp only
    by_cases hw : args.warmupSteps ≤ p.2.step
    · simp only [hw, if_true, and_true, HbmTotals.update_apply]
    · simp only [hw, if_false, and_false, add_zero]

variable {layerId : String → Option ℕ} {sample : String}

theorem insertRow_ok {rows rows' : List MissRecord} {row : MissRecord}
    (h : insertRow rows row = .ok rows') :
    rows' = rows ++ [row] ∧ row.key ∉ rows.map MissRecord.key := by
  unfold insertRow at h
  split_ifs at h with hbig hin
  obtain rfl := Except.ok.inj h
  exact ⟨rfl, hin⟩

theorem miss_foldlM (entries : List (ℕ × HbmEntry)) :
    ∀ {out out' : MissOutput},
      entries.foldlM (fun out p => (missScript layerId sample args).emit p.1 p.2 out) out =
        .ok out' →
      out'.rows = out.rows ++ entries.map (fun p => missRecord sample args p.1 p.2) ∧
        ∀ key, out'.totals key = out.totals key + args.counted (entries.map Prod.snd) key := by
  induction entries with
  | nil =>
    intro out out' h
    obtain rfl := Except.ok.inj h
    exact ⟨(List.append_nil _).symm, fun key => (add_zero _).symm⟩
  | cons p entries ih =>
    intro out out' h
    rw [List.foldlM_cons] at h
    obtain ⟨out₁, hemit, h⟩ := except_bind_ok h
    obtain ⟨rows, hinsert, hemit⟩ := except_bind_ok hemit
    obtain ⟨rfl, -⟩ := insertRow_ok hinsert
    obtain rfl := Except.ok.inj hemit
    obtain ⟨hrows, htotals⟩ := ih h
    refine ⟨?_, fun key => ?_⟩
    · rw [hrows, List.map_cons, List.append_assoc]
      rfl
    · rw [htotals key, List.map_cons, args.counted_cons, ← add_assoc]
      congr 1
      dsimp only
      by_cases hw : args.warmupSteps ≤ p.2.step
      · have hcold : args.warmup p.2.step = false := decide_eq_false (not_lt.mpr hw)
        simp only [hcold, Bool.false_eq_true, if_false, hw, and_true, HbmTotals.update_apply]
      · have hwarm : args.warmup p.2.step = true := decide_eq_true (not_le.mp hw)
        simp only [hwarm, if_true, hw, and_false, if_false, add_zero]

theorem counted_field (entries : List HbmEntry) (field : HbmField) :
    (entries.map HbmEntry.counter).sum field = (entries.map fun e => e.counter field).sum := by
  induction entries with
  | nil => rfl
  | cons e entries ih =>
    rw [List.map_cons, List.sum_cons, List.map_cons, List.sum_cons, Pi.add_apply, ih]

/-- The lines of one file that are not of the warm-up list as many tokens as are counted. -/
theorem sum_selectRows (entries : List (ℕ × HbmEntry)) (key : ℤ × HbmMode) :
    (((selectRows (entries.map fun p => missRecord sample args p.1 p.2) key.1 key.2).filter
        fun r => !r.warmup).map fun r => (r.topkTokenIndices.length : ℤ)).sum =
      args.counted (entries.map Prod.snd) key .misses := by
  unfold selectRows
  rw [(((List.perm_insertionSort _ _).filter _).map _).sum_eq]
  unfold HbmArgs.counted
  rw [counted_field, List.filter_filter, List.filter_map, List.map_map, List.filter_map,
    List.map_map]
  have hsame : (fun p : ℕ × HbmEntry => decide (p.2.At key ∧ args.warmupSteps ≤ p.2.step)) =
      (fun r => !r.warmup && decide (r.cacheCapacity = key.1 ∧ r.cacheStrategy = key.2)) ∘
        fun p => missRecord sample args p.1 p.2 := by
    funext p
    rw [Bool.eq_iff_iff, decide_eq_true_iff]
    simp only [Function.comp_apply, missRecord, HbmArgs.warmup, HbmEntry.At, decide_eq_true_eq,
      Bool.and_eq_true, Bool.not_eq_true', decide_eq_false_iff_not, not_lt]
    exact and_comm
  have hlen : ∀ p : ℕ × HbmEntry, ((missRecord sample args p.1 p.2).topkTokenIndices.length : ℤ) =
      p.2.counter .misses := fun p => p.2.length_misses
  simp only [Function.comp_def, hlen] at hsame ⊢
  rw [hsame]

end Folds

section Agreement

variable {σ : Type} [LinearOrder σ] {args : HbmArgs} {layerId : String → Option ℕ}
  {sample : String} {dir : List (DumpFile σ)}

/-- An export that came to its end. -/
structure Exported (layerId : String → Option ℕ) (sample : String) (args : HbmArgs)
    (dir : List (DumpFile σ)) (manifest : MissManifest)
    (groups : List (String × List (DumpFile σ))) (st : HbmLoop ℕ MissOutput) : Prop where
  discovered : discover dir = .ok groups
  capacities : ∀ c ∈ args.capacities, 2048 ≤ c
  warmup : ∀ g ∈ groups, args.warmupSteps < (g.2.length : ℤ)
  warmup_nonneg : 0 ≤ args.warmupSteps
  loop : hbmLayers (missScript layerId sample args) args groups ⟨[], fun _ => 0⟩ = .ok st
  manifest : manifest = {
    layers := groups.length
    quality := st.quality.toNativeQuality
    files := args.sortedCapacities.flatMap fun c => hbmModes.map fun m =>
      ⟨c, m, selectRows st.out.rows c m, st.out.totals (c, m)⟩ }

theorem exportMissTraces_ok {manifest : MissManifest}
    (h : exportMissTraces layerId sample args dir = .ok manifest) :
    ∃ groups st, Exported layerId sample args dir manifest groups st := by
  unfold exportMissTraces at h
  obtain ⟨groups, hgroups, h⟩ := except_bind_ok h
  split_ifs at h with hexp hargs hwarm
  · cases h
  · cases h
  · cases h
  · obtain ⟨st, hst, h⟩ := except_bind_ok h
    push Not at hargs
    refine ⟨groups, st, mapError_ok hgroups, fun c hc => ?_, fun g hg => ?_, hargs.2.1, hst,
      (Except.ok.inj h).symm⟩
    · by_contra hlt
      exact hargs.1 (List.any_eq_true.mpr ⟨c, hc, decide_eq_true (not_le.mp hlt)⟩)
    · by_contra hle
      exact hwarm (List.any_eq_true.mpr ⟨g, hg, decide_eq_true (not_lt.mp hle)⟩)

theorem Exported.nonempty {manifest : MissManifest} {groups : List (String × List (DumpFile σ))}
    {st : HbmLoop ℕ MissOutput} (h : Exported layerId sample args dir manifest groups st) :
    ∀ g ∈ groups, g.2 ≠ [] := by
  intro g hg he
  have hlt := h.warmup g hg
  have h0 := h.warmup_nonneg
  rw [he] at hlt
  exact absurd hlt (not_lt.mpr h0)

theorem simulateHbm_ok {rowBytes : ℤ} {report : SimReport}
    (h : simulateHbm args rowBytes dir = .ok report) :
    ∃ groups st, discover dir = .ok groups ∧
      hbmLayers (simulateScript args) args groups ⟨[], fun _ => 0⟩ = .ok st ∧
      report = {
        layers := groups.length
        quality := st.quality
        steps := st.out.steps
        results := args.sortedCapacities.flatMap fun c => hbmModes.map fun m =>
          ⟨c, m, st.out.aggregate (c, m), st.out.aggregate (c, m) .misses * rowBytes,
            c * rowBytes * groups.length⟩ } := by
  unfold simulateHbm at h
  split_ifs at h with hargs
  obtain ⟨groups, hgroups, h⟩ := except_bind_ok h
  split_ifs at h with hexp hwarm
  obtain ⟨st, hst, h⟩ := except_bind_ok h
  exact ⟨groups, st, mapError_ok hgroups, hst, (Except.ok.inj h).symm⟩

/-- Where both scripts run through, the export counts what the simulator counts, its `records`
apart: the native rows and the totals of each capacity and strategy are the same, and the lines of
a file that are not of the warm-up list as many misses. With one capacity all strategies select
equally many tokens, and in the cache of the baseline every replacement saves one miss. -/
theorem missExport_matches {rowBytes : ℤ} {report : SimReport} {manifest : MissManifest}
    (hs : simulateHbm args rowBytes dir = .ok report)
    (he : exportMissTraces layerId sample args dir = .ok manifest) :
    manifest.layers = report.layers ∧ manifest.quality = report.quality.toNativeQuality ∧
      List.Forall₂ (fun (file : MissFile) (row : SimSummary) =>
        file.capacity = row.capacity ∧ file.strategy = row.strategy ∧
          file.measuredTotals = row.totals ∧
          ((file.records.filter fun r => !r.warmup).map
            fun r => (r.topkTokenIndices.length : ℤ)).sum = row.totals .misses)
        manifest.files report.results ∧
      ∀ base ∈ manifest.files, base.strategy = .baseline → ∀ file ∈ manifest.files,
        file.capacity = base.capacity →
        file.measuredTotals .selected = base.measuredTotals .selected ∧
          (file.strategy = .sameStateReplacement →
            file.measuredTotals .misses + file.measuredTotals .replacements =
              base.measuredTotals .misses) := by
  obtain ⟨groups, stE, hE⟩ := exportMissTraces_ok he
  obtain ⟨groups', stS, hgroups, hloop, rfl⟩ := simulateHbm_ok hs
  obtain rfl := Except.ok.inj (hgroups.symm.trans hE.discovered)
  obtain ⟨layersE, hfilesE, hdoneE⟩ := hbmLayers_ok hE.nonempty hE.loop
  obtain ⟨layersS, hfilesS, hdoneS⟩ := hbmLayers_ok hE.nonempty hloop
  obtain ⟨hrows, htotE⟩ := miss_foldlM _ hdoneE.out
  have htotS := simulate_foldlM _ hdoneS.out
  have hall : (args.allEntries layersE).map Prod.snd = (args.allEntries layersS).map Prod.snd := by
    rw [allEntries_snd, allEntries_snd, hfilesE, hfilesS]
  have htotal : ∀ key, stE.out.totals key = args.total (layerFiles groups') key := by
    intro key
    rw [htotE key, zero_add, allEntries_snd, hfilesE]
    rfl
  have hsame : ∀ key, stE.out.totals key = stS.out.aggregate key := by
    intro key
    rw [htotE key, htotS key, hall]
  obtain rfl := hE.manifest
  refine ⟨rfl, ?_, ?_, ?_⟩
  · rw [hdoneE.quality, hdoneS.quality, hfilesE, hfilesS]
  · refine List.rel_flatMap (List.forall₂_same.mpr fun c _ => rfl) ?_
    rintro c _ rfl
    refine List.rel_map (R := Eq) ?_ (List.forall₂_same.mpr fun m _ => rfl)
    rintro m _ rfl
    refine ⟨rfl, rfl, hsame (c, m), ?_⟩
    dsimp only
    rw [← hsame (c, m), hrows, List.nil_append, sum_selectRows _ (c, m), htotE (c, m), zero_add]
  · intro base hbase hmode file hfile hcap
    obtain ⟨c, hc, hbase⟩ := List.mem_flatMap.mp hbase
    obtain ⟨m, -, rfl⟩ := List.mem_map.mp hbase
    obtain ⟨c', -, hfile⟩ := List.mem_flatMap.mp hfile
    obtain ⟨m', -, rfl⟩ := List.mem_map.mp hfile
    dsimp only at hmode hcap ⊢
    subst hmode hcap
    obtain ⟨hselected, htrade⟩ := args.total_trades hc (layerFiles groups')
    rw [htotal, htotal]
    refine ⟨hselected m', ?_⟩
    rintro rfl
    exact htrade

end Agreement

/-- A record in which all tokens of the context are native. -/
def smallRecord (seq : ℕ) : DumpRecord ℕ where
  layer := "layers.0"
  seqLensKey := [(seq : ℤ)]
  seqLensQuery := [1]
  hasReferenceCandidates := true
  indices := (List.range seq).map Int.ofNat
  candidateIndices := (List.range seq).map Int.ofNat
  candidateScores := (List.range seq).map some
  strideTokens := none
  layerRank := none
  applied := none

def smallDump : List (DumpFile ℕ) :=
  [⟨"layers_0", 3, "layers_0_s3.pt", smallRecord 3⟩, ⟨"layers_0", 2, "layers_0_s2.pt", smallRecord 2⟩]

def smallArgs : HbmArgs := ⟨[2048], by decide, 128, 0, 1, true, none⟩

theorem missExport_matches_two_steps :
    ∃ (report : SimReport) (manifest : MissManifest), report.layers = 1 ∧
      manifest.layers = report.layers ∧
      manifest.quality = report.quality.toNativeQuality ∧
      List.Forall₂ (fun (file : MissFile) (row : SimSummary) =>
        file.capacity = row.capacity ∧ file.strategy = row.strategy ∧
          file.measuredTotals = row.totals ∧
          ((file.records.filter fun r => !r.warmup).map
            fun r => (r.topkTokenIndices.length : ℤ)).sum = row.totals .misses)
        manifest.files report.results := by
  have hs : (simulateHbm smallArgs 1152 smallDump).toOption.map SimReport.layers = some 1 := by
    decide +kernel
  have he : (exportMissTraces (fun _ => some 0) "sample" smallArgs smallDump).toBool = true := by
    decide +kernel
  cases hrep : simulateHbm smallArgs 1152 smallDump with
  | error e => rw [hrep] at hs; cases hs
  | ok report =>
    cases hman : exportMissTraces (fun _ => some 0) "sample" smallArgs smallDump with
    | error e => rw [hman] at he; cases he
    | ok manifest =>
      rw [hrep] at hs
      obtain ⟨hlayers, hquality, hfiles, -⟩ := missExport_matches hrep hman
      exact ⟨report, manifest, Option.some.inj hs, hlayers, hquality, hfiles⟩

end Umm
