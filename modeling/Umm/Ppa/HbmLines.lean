import Umm.Ppa.HbmTotals

/-! The lines of an exported trace: which choice each of them stands for, and that the caches
behind them hold the tokens selected last. -/
namespace Umm
open Umm.Lib

section Entries

variable {σ : Type} [LinearOrder σ] {args : HbmArgs}

/-- The record of every file can be read. -/
def Readable (files : List (DumpFile σ)) : Prop := ∀ f ∈ files, ∃ r, loadRecord f = .ok r

theorem Readable.tail {f : DumpFile σ} {files : List (DumpFile σ)} (h : Readable (f :: files)) :
    Readable files := fun f' hf' => h f' (List.mem_cons_of_mem _ hf')

/-- The caches before the step that follows these files. -/
def HbmArgs.cachesAfter (args : HbmArgs) (caches : HbmCaches) (files : List (DumpFile σ)) :
    HbmCaches :=
  files.foldl (fun caches f =>
    match loadRecord f with
    | .ok r => args.next r f.seq caches
    | .error _ => caches) caches

variable (args) in
theorem length_modeEntries (c : ℤ) (mode : HbmMode) {files : List (DumpFile σ)}
    (h : Readable files) : ∀ {step : ℕ} {caches : HbmCaches},
      (args.modeEntries c mode step caches files).length = files.length := by
  induction files with
  | nil => intro step caches; rfl
  | cons f files ih =>
    intro step caches
    obtain ⟨r, hr⟩ := h f List.mem_cons_self
    unfold HbmArgs.modeEntries
    simp only [hr, List.length_cons, ih h.tail]

variable (args) in
/-- The choice in a step is made with the caches that the steps before it left. -/
theorem getElem?_modeEntries (c : ℤ) (mode : HbmMode) {files : List (DumpFile σ)}
    (h : Readable files) : ∀ (step : ℕ) (caches : HbmCaches) {i : ℕ} {f : DumpFile σ}
      {r : LoadedRecord σ}, files[i]? = some f → loadRecord f = .ok r →
      (args.modeEntries c mode step caches files)[i]? =
        some (args.entry r (step + i) f.seq c (args.cachesAfter caches (files.take i)) mode) := by
  induction files with
  | nil =>
    intro step caches i f r hf
    cases hf
  | cons f' files ih =>
    intro step caches i f r hf hr
    obtain ⟨r', hr'⟩ := h f' List.mem_cons_self
    unfold HbmArgs.modeEntries
    simp only [hr']
    cases i with
    | zero =>
      obtain rfl := Option.some.inj hf
      obtain rfl := Except.ok.inj (hr.symm.trans hr')
      rfl
    | succ i =>
      rw [List.getElem?_cons_succ] at hf ⊢
      rw [ih h.tail _ _ hf hr, Nat.add_right_comm, Nat.add_assoc]
      simp only [HbmArgs.cachesAfter, List.take_succ_cons, List.foldl_cons, hr']

theorem mem_modeEntries {c : ℤ} {mode : HbmMode} {files : List (DumpFile σ)} (h : Readable files)
    {step : ℕ} {caches : HbmCaches} {e : HbmEntry}
    (he : e ∈ args.modeEntries c mode step caches files) :
    ∃ i f r caches', files[i]? = some f ∧ loadRecord f = .ok r ∧
      e = args.entry r (step + i) f.seq c caches' mode := by
  obtain ⟨i, hi⟩ := List.mem_iff_getElem?.mp he
  have hlt : i < files.length := by
    rw [← length_modeEntries args c mode h]
    exact (List.getElem?_eq_some_iff.mp hi).1
  obtain ⟨r, hr⟩ := h files[i] (List.getElem_mem hlt)
  have hf := List.getElem?_eq_getElem hlt
  rw [getElem?_modeEntries args c mode h step caches hf hr] at hi
  exact ⟨i, _, r, _, hf, hr, (Option.some.inj hi).symm⟩

/-- The tokens that a strategy selects in the steps of a layer. -/
def HbmArgs.selections (args : HbmArgs) (c : ℤ) (mode : HbmMode) (files : List (DumpFile σ)) :
    List (Finset ℤ) :=
  (args.modeEntries c mode 0 ⟨.new c, .new c⟩ files).map (·.choice.selected)

/-- The strategy whose selections the cache takes. -/
def HbmMode.cacheOf : HbmMode → HbmMode
  | .independentReplacement => .independentReplacement
  | _ => .baseline

def HbmCaches.of (caches : HbmCaches) : HbmMode → BatchLru ℤ
  | .independentReplacement => caches.aware
  | _ => caches.base

omit [LinearOrder σ] in
theorem HbmArgs.choice_cache (args : HbmArgs) (r : LoadedRecord σ) (ready : Finset ℤ)
    (caches : HbmCaches) (mode : HbmMode) :
    (args.choice r ready caches mode).cache = caches.of mode := by
  cases mode <;> rfl

omit [LinearOrder σ] in
/-- A step puts the selection of its strategy into a cache. -/
theorem HbmArgs.next_of (args : HbmArgs) (r : LoadedRecord σ) (seq : ℕ) (caches : HbmCaches)
    (mode : HbmMode) : ∃ selected : List ℤ,
      selected.toFinset = (args.choice r (args.ready seq) caches mode.cacheOf).selected ∧
        (args.next r seq caches).of mode = ((caches.of mode).commit selected).2 := by
  cases mode with
  | baseline => exact ⟨r.native, rfl, rfl⟩
  | sameStateReplacement => exact ⟨r.native, rfl, rfl⟩
  | independentReplacement =>
    refine ⟨_, ?_, rfl⟩
    rw [sortedSet_eq, Finset.sort_toFinset]
    rfl

/-- A strategy selects no more tokens than a cache holds, all of them native or candidates. -/
theorem HbmArgs.choice_selected {f : DumpFile σ} {r : LoadedRecord σ} (hr : loadRecord f = .ok r)
    (ready : Finset ℤ) (caches : HbmCaches) (mode : HbmMode) :
    (args.choice r ready caches mode).selected.card ≤ 2048 ∧
      ∀ t ∈ (args.choice r ready caches mode).selected, 0 ≤ t ∧ t < f.seq := by
  obtain ⟨hnative, hlen, hranked⟩ := loadRecord_nodup hr
  obtain ⟨-, hbound, hexports⟩ := loadRecord_ok hr
  have hcard : r.native.toFinset.card ≤ 2048 := by
    rw [List.toFinset_card_of_nodup hnative]
    exact hlen
  have hin : ∀ t, t ∈ r.native ∨ t ∈ r.ranked → 0 ≤ t ∧ t < f.seq := fun t ht =>
    hbound t ((hexports t).mp ht)
  have hchosen : ∀ cache, (args.chooseFor r ready cache).1.card ≤ 2048 ∧
      ∀ t ∈ (args.chooseFor r ready cache).1, 0 ≤ t ∧ t < f.seq := by
    intro cache
    obtain ⟨hsize, -, hnew, -⟩ := choose_trades hranked r.native cache ready
      args.maxReplacements.toNat args.protectTop.toNat (Prod.mk.eta).symm
    refine ⟨hsize.le.trans hcard, fun t ht => ?_⟩
    by_cases hn : t ∈ r.native
    · exact hin t (.inl hn)
    · exact hin t (.inr (hnew t ht hn).1)
  cases mode with
  | baseline => exact ⟨hcard, fun t ht => hin t (.inl (List.mem_toFinset.mp ht))⟩
  | sameStateReplacement => exact hchosen caches.base
  | independentReplacement => exact hchosen caches.aware

variable (args) in
private theorem selections_from {c : ℤ} (hc : 2048 ≤ c) (mode : HbmMode)
    {files : List (DumpFile σ)} (h : Readable files) : ∀ (step : ℕ) (caches : HbmCaches)
      (history : List (Finset ℤ)), (caches.of mode).capacity = c →
      (caches.of mode).rows = (recency history).rtake c.toNat →
      ((args.cachesAfter caches files).of mode).rows =
        (recency (history ++ (args.modeEntries c mode.cacheOf step caches files).map
          (·.choice.selected))).rtake c.toNat := by
  induction files with
  | nil =>
    intro step caches history _ hrows
    rw [HbmArgs.modeEntries, List.map_nil, List.append_nil]
    exact hrows
  | cons f files ih =>
    intro step caches history hcap hrows
    obtain ⟨r, hr⟩ := h f List.mem_cons_self
    obtain ⟨selected, hsel, hnext⟩ := args.next_of r f.seq caches mode
    have hfit : (selected.toFinset.card : ℤ) ≤ (caches.of mode).capacity := by
      rw [hsel, hcap]
      exact le_trans (by exact_mod_cast (args.choice_selected hr _ caches mode.cacheOf).1) hc
    have hcommit := BatchLru.rows_commit (by rw [hcap]; exact hrows) hfit
    rw [hcap, hsel, ← hnext] at hcommit
    have hcap' : ((args.next r f.seq caches).of mode).capacity = c := by
      rw [hnext, BatchLru.capacity_commit, hcap]
    unfold HbmArgs.modeEntries
    simp only [HbmArgs.cachesAfter, List.foldl_cons, hr, List.map_cons]
    rw [List.append_cons]
    exact ih h.tail _ _ _ hcap' hcommit

variable (args) in
/-- Before every step a cache of enough tokens holds those that its strategy selected last. -/
theorem cachesAfter_recency {c : ℤ} (hc : 2048 ≤ c) (mode : HbmMode)
    {files : List (DumpFile σ)} (h : Readable files) :
    ((args.cachesAfter ⟨.new c, .new c⟩ files).of mode).rows =
      (recency (args.selections c mode.cacheOf files)).rtake c.toNat := by
  have hstart := selections_from args hc mode h 0 ⟨.new c, .new c⟩ [] (by cases mode <;> rfl)
    (by
      rw [recency_nil, List.rtake_nil]
      cases mode <;> rfl)
  rwa [List.nil_append] at hstart

end Entries

section Lines

variable {σ : Type} [LinearOrder σ] {args : HbmArgs} {layerId : String → Option ℕ}
  {sample : String} {dir : List (DumpFile σ)}

omit [LinearOrder σ] in
theorem grouped_foldl_addTo (files : List (DumpFile σ)) :
    ∀ groups : List (String × List (DumpFile σ)),
      (grouped (files.foldl (fun groups f => addTo f.group f groups) groups)).Perm
        (grouped groups ++ files) := by
  induction files with
  | nil =>
    intro groups
    rw [List.append_nil]
    exact .rfl
  | cons f files ih =>
    intro groups
    refine (ih (addTo f.group f groups)).trans ?_
    refine ((grouped_addTo_perm f.group f groups).append_right files).trans ?_
    exact List.perm_middle.symm

omit [LinearOrder σ] in
/-- The groups share out the files of the directory. -/
theorem discover_perm {groups : List (String × List (DumpFile σ))} (h : discover dir = .ok groups) :
    (grouped groups).Perm dir ∧ groups ≠ [] := by
  unfold discover at h
  dsimp only at h
  split at h
  · cases h
  next hne =>
    split at h
    · cases h
    split at h
    · cases h
    obtain rfl := Except.ok.inj h
    refine ⟨?_, hne⟩
    have hsort : (grouped ((dir.foldl (fun groups f => addTo f.group f groups) []).map fun g =>
        (g.1, g.2.insertionSort (fun a b => a.seq ≤ b.seq)))).Perm
        (grouped (dir.foldl (fun groups f => addTo f.group f groups) [])) := by
      unfold grouped
      rw [List.flatMap_map]
      exact List.Perm.flatMap_left _ fun g _ => List.perm_insertionSort _ _
    exact hsort.trans (grouped_foldl_addTo dir [])

theorem nodup_miss_foldlM (entries : List (ℕ × HbmEntry)) : ∀ {out out' : MissOutput},
    entries.foldlM (fun out p => (missScript layerId sample args).emit p.1 p.2 out) out =
      .ok out' →
    (out.rows.map MissRecord.key).Nodup → (out'.rows.map MissRecord.key).Nodup := by
  induction entries with
  | nil =>
    intro out out' h hnodup
    obtain rfl := Except.ok.inj h
    exact hnodup
  | cons p entries ih =>
    intro out out' h hnodup
    rw [List.foldlM_cons] at h
    obtain ⟨out₁, hemit, h⟩ := except_bind_ok h
    obtain ⟨rows, hinsert, hemit⟩ := except_bind_ok hemit
    obtain ⟨rfl, hfresh⟩ := insertRow_ok hinsert
    obtain rfl := Except.ok.inj hemit
    refine ih h ?_
    rw [List.map_append, List.nodup_append]
    refine ⟨hnodup, List.nodup_singleton _, ?_⟩
    rintro a ha b hb rfl
    obtain rfl := List.mem_singleton.mp hb
    exact hfresh ha

/-- The order of the lines in a file. -/
def MissRecord.Before (a b : MissRecord) : Prop :=
  a.stepId < b.stepId ∨ a.stepId = b.stepId ∧ a.layerId < b.layerId

/-- A file has its lines in order, where the table has no key twice. -/
theorem pairwise_selectRows {rows : List MissRecord} (h : (rows.map MissRecord.key).Nodup) (c : ℤ)
    (mode : HbmMode) : (selectRows rows c mode).Pairwise MissRecord.Before := by
  let le : MissRecord → MissRecord → Prop :=
    fun a b => a.stepId < b.stepId ∨ a.stepId = b.stepId ∧ a.layerId ≤ b.layerId
  have : Std.Total le := ⟨fun a b => by dsimp only [le]; omega⟩
  have : IsTrans MissRecord le := ⟨fun a b d => by dsimp only [le]; omega⟩
  have hsorted : (selectRows rows c mode).Pairwise le := List.pairwise_insertionSort _ _
  have hkeys : ((rows.filter fun r => r.cacheCapacity = c ∧ r.cacheStrategy = mode).map
      MissRecord.key).Nodup := h.sublist (List.filter_sublist.map _)
  have hnodup : ((selectRows rows c mode).map MissRecord.key).Nodup :=
    ((List.perm_insertionSort _ _).map _).nodup_iff.mpr hkeys
  have hof : ∀ r ∈ selectRows rows c mode, r.cacheCapacity = c ∧ r.cacheStrategy = mode :=
    fun r hr => of_decide_eq_true
      (List.mem_filter.mp ((List.perm_insertionSort _ _).mem_iff.mp hr)).2
  rw [List.Nodup, List.pairwise_map] at hnodup
  refine (List.pairwise_and_iff.mpr ⟨hsorted, hnodup⟩).imp_of_mem ?_
  rintro a b ha hb ⟨hle, hne⟩
  have hdiff : ¬ (a.stepId = b.stepId ∧ a.layerId = b.layerId) := by
    rintro ⟨hstep, hlayer⟩
    refine hne ?_
    unfold MissRecord.key
    rw [(hof a ha).1, (hof a ha).2, (hof b hb).1, (hof b hb).2, hstep, hlayer]
  dsimp only [le] at hle
  unfold MissRecord.Before
  omega

/-- What one file of an export holds: a line for every step of every layer. -/
structure FileLines (layerId : String → Option ℕ) (sample : String) (args : HbmArgs)
    (layers : List (ℕ × List (DumpFile σ))) (file : MissFile) : Prop where
  capacity : 2048 ≤ file.capacity
  ordered : file.records.Pairwise MissRecord.Before
  ofLayer : ∀ l ∈ layers, ∀ f ∈ l.2, ∃ r, loadRecord f = .ok r ∧ layerId r.name = some l.1
  lines : file.records.Perm (layers.flatMap fun l =>
    (args.modeEntries file.capacity file.strategy 0 ⟨.new file.capacity, .new file.capacity⟩
      l.2).map (missRecord sample args l.1))

theorem missScript_key_ok {name : String} {layer : ℕ}
    (h : (missScript layerId sample args).key name = .ok layer) : layerId name = some layer := by
  unfold missScript at h
  dsimp only at h
  split at h
  next layer' he => rw [he, Except.ok.inj h]
  next => cases h

theorem Exported.fileLines {manifest : MissManifest} {groups : List (String × List (DumpFile σ))}
    {st : HbmLoop ℕ MissOutput} (h : Exported layerId sample args dir manifest groups st) :
    ∃ layers : List (ℕ × List (DumpFile σ)), (layers.map Prod.fst).Nodup ∧
      (layers.map Prod.snd).Perm (groups.map Prod.snd) ∧
      ∀ file ∈ manifest.files, FileLines layerId sample args layers file := by
  obtain ⟨layers, hfiles, hdone⟩ := hbmLayers_ok h.nonempty h.loop
  obtain ⟨hrows, -⟩ := miss_foldlM _ hdone.out
  have hnodup := nodup_miss_foldlM _ hdone.out List.nodup_nil
  rw [List.nil_append] at hrows
  refine ⟨layers, hdone.nodup, ?_, ?_⟩
  · rw [hfiles]
    exact (List.perm_insertionSort _ _).map _
  · intro file hfile
    rw [h.manifest] at hfile
    obtain ⟨c, hc, hfile⟩ := List.mem_flatMap.mp hfile
    obtain ⟨mode, -, rfl⟩ := List.mem_map.mp hfile
    refine ⟨h.capacities c (args.mem_sortedCapacities.mp hc), pairwise_selectRows hnodup c mode,
      fun l hl f hf => ?_, ?_⟩
    · obtain ⟨r, hr, hkey⟩ := hdone.ofLayer l hl f hf
      exact ⟨r, hr, missScript_key_ok hkey⟩
    · dsimp only
      refine (List.perm_insertionSort _ _).trans ?_
      rw [hrows, List.filter_map, HbmArgs.allEntries, List.filter_flatMap, List.map_flatMap]
      refine List.Perm.of_eq (List.flatMap_congr fun l hl => ?_)
      rw [← args.filter_at hc mode l.2, List.filter_map, List.map_map]
      rfl

theorem take_modeEntries {c : ℤ} {mode : HbmMode} {files : List (DumpFile σ)}
    (h : Readable files) : ∀ {step : ℕ} {caches : HbmCaches} (i : ℕ),
      args.modeEntries c mode step caches (files.take i) =
        (args.modeEntries c mode step caches files).take i := by
  induction files with
  | nil => intro step caches i; simp [HbmArgs.modeEntries]
  | cons f files ih =>
    intro step caches i
    obtain ⟨r, hr⟩ := h f List.mem_cons_self
    cases i with
    | zero => rfl
    | succ i =>
      rw [List.take_succ_cons]
      unfold HbmArgs.modeEntries
      simp only [hr, List.take_succ_cons, ih h.tail]

/-- The line stands for a step: it lists the tokens that the strategy selects there and that are
neither fresh nor among those that its cache took last. -/
def HbmArgs.ListsMisses (args : HbmArgs) (file : MissFile) (files : List (DumpFile σ))
    (row : MissRecord) : Prop :=
  ∃ f selected, files[row.stepId]? = some f ∧
    (args.selections file.capacity file.strategy files)[row.stepId]? = some selected ∧
    row.contextLength = f.seq ∧
    row.topkTokenIndices = sortedSet (selected.filter fun t => t ∉ args.ready f.seq ∧
      t ∉ (recency ((args.selections file.capacity file.strategy.cacheOf files).take
        row.stepId)).rtake file.capacity.toNat)

/-- The line of an entry. -/
theorem missRecord_listsMisses {file : MissFile} (hc : 2048 ≤ file.capacity)
    {files : List (DumpFile σ)} (h : Readable files) {layer i : ℕ} {e : HbmEntry}
    (he : (args.modeEntries file.capacity file.strategy 0
      ⟨.new file.capacity, .new file.capacity⟩ files)[i]? = some e) :
    (missRecord sample args layer e).stepId = i ∧
      args.ListsMisses file files (missRecord sample args layer e) := by
  have hi : i < files.length := by
    rw [← length_modeEntries args file.capacity file.strategy h]
    exact (List.getElem?_eq_some_iff.mp he).1
  obtain ⟨r, hr⟩ := h files[i] (List.getElem_mem hi)
  have hf := List.getElem?_eq_getElem hi
  have hsel : (args.selections file.capacity file.strategy files)[i]? = some e.choice.selected :=
    (List.getElem?_map ..).trans (congrArg _ he)
  have hentry := he
  rw [getElem?_modeEntries args _ _ h _ _ hf hr, Nat.zero_add] at hentry
  obtain rfl := Option.some.inj hentry
  have hread : Readable (files.take i) := fun f' hf' => h f' (List.mem_of_mem_take hf')
  have hrows := cachesAfter_recency args hc file.strategy hread
  rw [HbmArgs.selections, take_modeEntries h, List.map_take] at hrows
  refine ⟨rfl, files[i], _, hf, hsel, rfl, ?_⟩
  change sortedSet (_) = sortedSet (_)
  congr 1
  refine Finset.filter_congr fun t _ => ?_
  rw [hbmAvailable, Finset.mem_union, List.mem_toFinset]
  change ¬ (t ∈ (args.choice r _ _ file.strategy).cache.rows ∨ t ∈ args.ready files[i].seq) ↔ _
  rw [args.choice_cache, hrows, not_or, and_comm]
  rfl

/-- The files of an export hold one line for each step of each layer, in order, and a line lists
exactly the tokens selected in its step that an LRU cache of the capacity does not hold. -/
theorem missExport_rows {manifest : MissManifest}
    (he : exportMissTraces layerId sample args dir = .ok manifest) :
    ∃ (groups : List (String × List (DumpFile σ))) (layers : List (ℕ × List (DumpFile σ))),
      discover dir = .ok groups ∧ (layers.map Prod.fst).Nodup ∧
      (layers.map Prod.snd).Perm (groups.map Prod.snd) ∧
      (∀ l ∈ layers, ∀ f ∈ l.2, ∃ r, loadRecord f = .ok r ∧ layerId r.name = some l.1) ∧
      ∀ file ∈ manifest.files, file.records.Pairwise MissRecord.Before ∧
        (∀ l ∈ layers, ∀ i < l.2.length, ∃ row ∈ file.records,
          row.layerId = l.1 ∧ row.stepId = i) ∧
        ∀ row ∈ file.records, ∃ l ∈ layers, row.layerId = l.1 ∧ args.ListsMisses file l.2 row := by
  obtain ⟨groups, st, h⟩ := exportMissTraces_ok he
  obtain ⟨layers, hnodup, hperm, hall⟩ := h.fileLines
  have hfirst : ∃ file, file ∈ manifest.files := by
    obtain ⟨c, hc⟩ := List.exists_mem_of_ne_nil _ args.nonempty
    rw [h.manifest]
    exact ⟨_, List.mem_flatMap.mpr ⟨c, args.mem_sortedCapacities.mpr hc,
      List.mem_map.mpr ⟨.baseline, List.mem_cons_self, rfl⟩⟩⟩
  obtain ⟨file₀, hfile₀⟩ := hfirst
  have hlayer := (hall file₀ hfile₀).ofLayer
  have hread : ∀ l ∈ layers, Readable l.2 := fun l hl f hf =>
    ⟨_, (hlayer l hl f hf).choose_spec.1⟩
  refine ⟨groups, layers, h.discovered, hnodup, hperm, hlayer, fun file hfile => ?_⟩
  obtain ⟨hcap, hordered, -, hlines⟩ := hall file hfile
  refine ⟨hordered, fun l hl i hi => ?_, fun row hrow => ?_⟩
  · obtain ⟨r, hr⟩ := hread l hl l.2[i] (List.getElem_mem hi)
    have hentry := getElem?_modeEntries args file.capacity file.strategy (hread l hl) 0
      ⟨.new file.capacity, .new file.capacity⟩ (List.getElem?_eq_getElem hi) hr
    refine ⟨_, hlines.mem_iff.mpr (List.mem_flatMap.mpr ⟨l, hl, List.mem_map.mpr
      ⟨_, List.mem_of_getElem? hentry, rfl⟩⟩), rfl, ?_⟩
    exact Nat.zero_add i
  · obtain ⟨l, hl, hrow⟩ := List.mem_flatMap.mp (hlines.mem_iff.mp hrow)
    obtain ⟨e, hentry, rfl⟩ := List.mem_map.mp hrow
    obtain ⟨i, hi⟩ := List.mem_iff_getElem?.mp hentry
    exact ⟨l, hl, rfl, (missRecord_listsMisses hcap (hread l hl) hi).2⟩

end Lines

theorem missExport_rows_two_steps :
    ∃ (manifest : MissManifest) (layers : List (ℕ × List (DumpFile ℕ))),
      manifest.files.length = 3 ∧ (layers.map Prod.fst).Nodup ∧
      ∀ file ∈ manifest.files, file.records.Pairwise MissRecord.Before ∧
        (∀ l ∈ layers, ∀ i < l.2.length, ∃ row ∈ file.records,
          row.layerId = l.1 ∧ row.stepId = i) ∧
        ∀ row ∈ file.records, ∃ l ∈ layers, row.layerId = l.1 ∧
          smallArgs.ListsMisses file l.2 row := by
  have hcount : (exportMissTraces (fun _ => some 0) "sample" smallArgs smallDump).toOption.map
      (fun m => m.files.length) = some 3 := by decide +kernel
  cases he : exportMissTraces (fun _ => some 0) "sample" smallArgs smallDump with
  | error e => rw [he] at hcount; cases hcount
  | ok manifest =>
    rw [he] at hcount
    obtain ⟨-, layers, -, hnodup, -, -, hfiles⟩ := missExport_rows he
    exact ⟨manifest, layers, Option.some.inj hcount, hnodup, hfiles⟩

end Umm
