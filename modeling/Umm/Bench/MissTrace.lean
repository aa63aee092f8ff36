import Umm.Ppa.HbmLines

/-! `load_trace` of `single_ssd.py` and `validate_miss_trace` of `layout_replay.py`, and that they
take what the export of the misses writes. -/
namespace Umm
open Umm.Lib

/-- The checks of `load_trace` on a line; the numbers of a `MissRecord` are integers. -/
def loadTraceLine (maxTopk : ℤ) (allowEmpty : Bool) (r : MissRecord) : Except ValueError Unit :=
  let minimum : ℤ := if allowEmpty then 0 else 1
  if r.requestId = "" then .error ⟨"request_id must be a nonempty string"⟩
  else if r.contextLength < 1 then .error ⟨"context_length must be an integer >= 1"⟩
  else if ¬ (minimum ≤ r.topkTokenIndices.length ∧ r.topkTokenIndices.length ≤ maxTopk) then
    .error ⟨"topk must have " ++ toString minimum ++ ".." ++ toString maxTopk ++ " entries"⟩
  else
    match r.topkTokenIndices.find? fun t => t < 0 ∨ (r.contextLength : ℤ) ≤ t with
    | none => .ok ()
    | some t =>
      if t < 0 then .error ⟨"token index must be an integer >= 0"⟩
      else .error ⟨"token index must be < context_length"⟩

/-- The loop over the lines. -/
def loadTraceLines (maxTopk : ℤ) (allowEmpty : Bool) : ℕ → List MissRecord → Except ValueError Unit
  | _, [] => .ok ()
  | lineNo, r :: records =>
    match loadTraceLine maxTopk allowEmpty r with
    | .error e => .error ⟨"trace line " ++ toString lineNo ++ ": " ++ e.text⟩
    | .ok () => loadTraceLines maxTopk allowEmpty (lineNo + 1) records

/-- `load_trace`: the records of the lines. -/
def loadTrace (maxTopk : ℤ) (allowEmpty : Bool) (records : List MissRecord) :
    Except ValueError (List MissRecord) := do
  loadTraceLines maxTopk allowEmpty 1 records
  if records = [] then .error ⟨"trace is empty"⟩ else .ok records

/-- The fields that have to be nonnegative, with their names. -/
def MissRecord.fields (r : MissRecord) : List (String × ℤ) :=
  [("selected", r.stats .selected), ("cache_hits", r.stats .cacheHits),
    ("fresh_hits", r.stats .freshHits), ("misses", r.stats .misses),
    ("replacements", r.stats .replacements), ("cache_capacity", r.cacheCapacity)]

def validateMissRecord (r : MissRecord) : Except ValueError Unit :=
  match r.fields.find? fun field => field.2 < 0 with
  | some field => .error ⟨"invalid miss trace field: " ++ field.1⟩
  | none =>
    if r.stats .misses ≠ r.topkTokenIndices.length ∨
        (r.topkTokenIndices.toFinset.card : ℤ) ≠ r.stats .misses ∨
        r.stats .selected ≠ r.stats .cacheHits + r.stats .freshHits + r.stats .misses ∨
        2048 < r.stats .selected ∨ r.cacheCapacity < 2048 then
      .error ⟨"inconsistent miss trace counts"⟩
    else .ok ()

def MissRecord.setting (r : MissRecord) : ℤ × HbmMode := (r.cacheCapacity, r.cacheStrategy)

/-- `validate_miss_trace`: the capacity and the strategy of the trace. -/
def validateMissTrace (records : List MissRecord) : Except ValueError (ℤ × HbmMode) := do
  records.forM validateMissRecord
  match (records.map MissRecord.setting).dedup with
  | [setting] =>
    if records.any fun r => !r.warmup then .ok setting
    else .error ⟨"one cache scenario and at least one measured batch required"⟩
  | _ => .error ⟨"one cache scenario and at least one measured batch required"⟩

section Load

variable {maxTopk : ℤ} {allowEmpty : Bool} {r : MissRecord} {records : List MissRecord}

theorem loadTraceLine_ok_iff : loadTraceLine maxTopk true r = .ok () ↔
    r.requestId ≠ "" ∧ 1 ≤ r.contextLength ∧ (r.topkTokenIndices.length : ℤ) ≤ maxTopk ∧
      ∀ t ∈ r.topkTokenIndices, 0 ≤ t ∧ t < r.contextLength := by
  unfold loadTraceLine
  dsimp only
  rw [if_pos rfl]
  split_ifs with hid hctx hlen
  · simp [hid]
  · refine iff_of_false (by simp) fun h => ?_
    omega
  · split
    next hnone =>
      refine iff_of_true rfl ⟨hid, not_lt.mp hctx, hlen.2, fun t ht => ?_⟩
      have hgood := List.find?_eq_none.mp hnone t ht
      rw [decide_eq_true_eq] at hgood
      omega
    next t hsome =>
      have hbad : t < 0 ∨ (r.contextLength : ℤ) ≤ t := by simpa using List.find?_some hsome
      refine iff_of_false (by split_ifs <;> simp) fun h => ?_
      have hgood := h.2.2.2 t (List.mem_of_find?_eq_some hsome)
      omega
  · exact iff_of_false (by simp) fun h => hlen ⟨Nat.cast_nonneg _, h.2.2.1⟩

theorem loadTraceLines_ok_iff : ∀ lineNo : ℕ, loadTraceLines maxTopk allowEmpty lineNo records =
    .ok () ↔ ∀ r ∈ records, loadTraceLine maxTopk allowEmpty r = .ok () := by
  induction records with
  | nil => simp [loadTraceLines]
  | cons r records ih =>
    intro lineNo
    rw [List.forall_mem_cons, loadTraceLines]
    cases hr : loadTraceLine maxTopk allowEmpty r with
    | error e => simp
    | ok u => simpa using ih (lineNo + 1)

theorem loadTrace_ok_iff (hne : records ≠ []) : (∃ t, loadTrace maxTopk allowEmpty records = .ok t) ↔
    ∀ r ∈ records, loadTraceLine maxTopk allowEmpty r = .ok () := by
  rw [← loadTraceLines_ok_iff 1]
  unfold loadTrace
  cases hl : loadTraceLines maxTopk allowEmpty 1 records with
  | error e => exact iff_of_false (fun ⟨t, ht⟩ => (nomatch ht)) fun h => (nomatch h)
  | ok u => exact iff_of_true ⟨records, if_neg hne⟩ rfl

end Load

section Exported

variable {σ : Type} [LinearOrder σ] {args : HbmArgs} {layerId : String → Option ℕ}
  {sample : String} {dir : List (DumpFile σ)}

/-- A line of an export passes the checks on its counts. -/
theorem validateMissRecord_entry {f : DumpFile σ} {r : LoadedRecord σ} (hr : loadRecord f = .ok r)
    {c : ℤ} (hc : 2048 ≤ c) (layer step : ℕ) (caches : HbmCaches) (mode : HbmMode) :
    validateMissRecord (missRecord sample args layer
      (args.entry r step f.seq c caches mode)) = .ok () := by
  let e := args.entry r step f.seq c caches mode
  have hmisses : (e.misses.length : ℤ) = e.counter .misses := e.length_misses
  have hcard : e.misses.toFinset.card = e.misses.length := by
    refine List.toFinset_card_of_nodup ?_
    rw [HbmEntry.misses, sortedSet_eq]
    exact Finset.sort_nodup _ _
  have hselected : e.counter .selected ≤ 2048 := by
    have hle := (args.choice_selected hr (args.ready f.seq) caches mode).1
    change ((args.choice r (args.ready f.seq) caches mode).selected.card : ℤ) ≤ 2048
    exact_mod_cast hle
  have hfields : (missRecord sample args layer e).fields.find? (fun field => field.2 < 0) =
      none := by
    rw [List.find?_eq_none]
    intro field hfield
    rw [decide_eq_true_eq, not_lt]
    simp only [MissRecord.fields, List.mem_cons, List.not_mem_nil, or_false] at hfield
    rcases hfield with rfl | rfl | rfl | rfl | rfl | rfl
    · exact Int.natCast_nonneg _
    · exact Int.natCast_nonneg _
    · exact Int.natCast_nonneg _
    · change 0 ≤ e.counter .misses
      rw [← hmisses]
      exact Int.natCast_nonneg _
    · exact Int.natCast_nonneg _
    · exact le_trans (by norm_num) hc
  unfold validateMissRecord
  change (match (missRecord sample args layer e).fields.find? (fun field => field.2 < 0) with
    | some field => _
    | none => _) = _
  rw [hfields]
  refine if_neg ?_
  rintro (h | h | h | h | h)
  · exact h hmisses.symm
  · exact h ((congrArg Nat.cast hcard).trans hmisses)
  · exact h e.counter_selected
  · exact absurd hselected (not_le.mpr h)
  · exact absurd hc (not_le.mpr h)

/-- A line is read back when its sample has a name and its context a token. -/
theorem loadTraceLine_entry {f : DumpFile σ} {r : LoadedRecord σ} (hr : loadRecord f = .ok r)
    {maxTopk : ℤ} (htop : 2048 ≤ maxTopk) (c : ℤ) (layer step : ℕ) (caches : HbmCaches)
    (mode : HbmMode) :
    loadTraceLine maxTopk true (missRecord sample args layer
      (args.entry r step f.seq c caches mode)) = .ok () ↔ sample ≠ "" ∧ f.seq ≠ 0 := by
  let e := args.entry r step f.seq c caches mode
  obtain ⟨hcard, hin⟩ := args.choice_selected hr (args.ready f.seq) caches mode
  have hmem : ∀ t ∈ e.misses, 0 ≤ t ∧ t < f.seq := by
    intro t ht
    rw [HbmEntry.misses, sortedSet_eq, Finset.mem_sort] at ht
    exact hin t (Finset.mem_filter.mp ht).1
  have hlen : (e.misses.length : ℤ) ≤ maxTopk := by
    rw [HbmEntry.misses, sortedSet_eq, Finset.length_sort]
    have hle := (Finset.card_filter_le e.choice.selected
      (· ∉ hbmAvailable e.choice.cache e.ready)).trans hcard
    exact le_trans (by exact_mod_cast hle) htop
  rw [loadTraceLine_ok_iff]
  constructor
  · rintro ⟨hid, hctx, -⟩
    exact ⟨hid, Nat.one_le_iff_ne_zero.mp hctx⟩
  · rintro ⟨hid, hctx⟩
    exact ⟨hid, Nat.one_le_iff_ne_zero.mpr hctx, hlen, hmem⟩

theorem forM_ok {α : Type} {f : α → Except ValueError Unit} {l : List α}
    (h : ∀ a ∈ l, f a = .ok ()) : l.forM f = .ok () := by
  induction l with
  | nil => rfl
  | cons a l ih =>
    change (f a >>= fun _ => l.forM f) = .ok ()
    rw [h a List.mem_cons_self]
    exact ih fun b hb => h b (List.mem_cons_of_mem a hb)

/-- A trace of one setting with a measured line, all lines of which pass. -/
theorem validateMissTrace_ok {records : List MissRecord} {setting : ℤ × HbmMode}
    (hall : ∀ r ∈ records, validateMissRecord r = .ok () ∧ r.setting = setting)
    (hmeasured : ∃ r ∈ records, r.warmup = false) : validateMissTrace records = .ok setting := by
  obtain ⟨r, hr, hw⟩ := hmeasured
  have hsettings : (records.map MissRecord.setting).dedup = [setting] := by
    have hrep : records.map MissRecord.setting = List.replicate records.length setting :=
      List.eq_replicate_iff.mpr ⟨List.length_map .., fun s hs => by
        obtain ⟨r', hr', rfl⟩ := List.mem_map.mp hs
        exact (hall r' hr').2⟩
    rw [hrep]
    exact List.replicate_dedup (List.length_pos_of_mem hr).ne'
  unfold validateMissTrace
  rw [forM_ok fun r' hr' => (hall r' hr').1, hsettings]
  exact if_pos (List.any_eq_true.mpr ⟨r, hr, by rw [hw]; rfl⟩)

/-- The lines of a file: those of the records of the directory, as many as there are records, and
one of them behind the warm-up. -/
structure FileRows (sample : String) (args : HbmArgs) (dir : List (DumpFile σ)) (file : MissFile) :
    Prop where
  rows : ∀ row ∈ file.records, ∃ f ∈ dir, ∃ r, loadRecord f = .ok r ∧ ∃ layer step caches,
    row = missRecord sample args layer
      (args.entry r step f.seq file.capacity caches file.strategy)
  lines : ∀ f ∈ dir, ∃ r, loadRecord f = .ok r ∧ ∃ row ∈ file.records, ∃ layer step caches,
    row = missRecord sample args layer
      (args.entry r step f.seq file.capacity caches file.strategy)
  length : file.records.length = dir.length
  measured : ∃ row ∈ file.records, row.warmup = false

variable {file : MissFile}

/-- The lines of the layers, where the layers share the records of the directory. -/
theorem FileLines.fileRows {layers : List (ℕ × List (DumpFile σ))}
    (h : FileLines layerId sample args layers file) (hshare : (layers.flatMap Prod.snd).Perm dir)
    (hw : 0 ≤ args.warmupSteps) (hlong : ∃ l ∈ layers, args.warmupSteps < (l.2.length : ℤ)) :
    FileRows sample args dir file := by
  obtain ⟨-, -, hlayer, hlines⟩ := h
  have hread : ∀ l ∈ layers, Readable l.2 := fun l hl f hf =>
    ⟨_, (hlayer l hl f hf).choose_spec.1⟩
  have hline : ∀ l ∈ layers, ∀ i f, l.2[i]? = some f → ∃ r, loadRecord f = .ok r ∧
      ∃ row ∈ file.records, ∃ caches, row = missRecord sample args l.1
        (args.entry r i f.seq file.capacity caches file.strategy) := by
    intro l hl i f hf
    obtain ⟨r, hr⟩ := hread l hl f (List.mem_of_getElem? hf)
    have hentry := getElem?_modeEntries args file.capacity file.strategy (hread l hl) 0
      ⟨.new file.capacity, .new file.capacity⟩ hf hr
    rw [Nat.zero_add] at hentry
    exact ⟨r, hr, _, hlines.mem_iff.mpr (List.mem_flatMap.mpr ⟨l, hl, List.mem_map.mpr
      ⟨_, List.mem_of_getElem? hentry, rfl⟩⟩), _, rfl⟩
  constructor
  · intro row hrow
    obtain ⟨l, hl, hrow⟩ := List.mem_flatMap.mp (hlines.mem_iff.mp hrow)
    obtain ⟨e, hentry, rfl⟩ := List.mem_map.mp hrow
    obtain ⟨i, f, r, caches, hf, hr, rfl⟩ := mem_modeEntries (hread l hl) hentry
    exact ⟨f, hshare.mem_iff.mp (List.mem_flatMap.mpr ⟨l, hl, List.mem_of_getElem? hf⟩), r, hr,
      l.1, _, caches, rfl⟩
  · intro f hf
    obtain ⟨l, hl, hfl⟩ := List.mem_flatMap.mp (hshare.mem_iff.mpr hf)
    obtain ⟨i, hi⟩ := List.mem_iff_getElem?.mp hfl
    obtain ⟨r, hr, row, hin, caches, heq⟩ := hline l hl i f hi
    exact ⟨r, hr, row, hin, l.1, i, caches, heq⟩
  · rw [hlines.length_eq, ← hshare.length_eq, List.length_flatMap, List.length_flatMap]
    congr 1
    refine List.map_congr_left fun l hl => ?_
    rw [List.length_map, length_modeEntries _ _ _ (hread l hl)]
  · obtain ⟨l, hl, hlong⟩ := hlong
    have hlt : args.warmupSteps.toNat < l.2.length := by omega
    obtain ⟨r, -, row, hin, caches, rfl⟩ :=
      hline l hl args.warmupSteps.toNat _ (List.getElem?_eq_getElem hlt)
    refine ⟨_, hin, decide_eq_false ?_⟩
    change ¬ ((args.warmupSteps.toNat : ℤ) < args.warmupSteps)
    omega

theorem FileRows.validated (h : FileRows sample args dir file) (hcap : 2048 ≤ file.capacity) :
    validateMissTrace file.records = .ok (file.capacity, file.strategy) := by
  refine validateMissTrace_ok (fun row hin => ?_) h.measured
  obtain ⟨f, -, r, hr, layer, step, caches, rfl⟩ := h.rows row hin
  exact ⟨validateMissRecord_entry hr hcap layer step caches file.strategy,
    Prod.ext rfl (args.choice_mode r _ caches file.strategy)⟩

theorem FileRows.loaded_iff (h : FileRows sample args dir file) {maxTopk : ℤ}
    (htop : 2048 ≤ maxTopk) : (∃ t, loadTrace maxTopk true file.records = .ok t) ↔
      sample ≠ "" ∧ ∀ f ∈ dir, f.seq ≠ 0 := by
  obtain ⟨row, hin, -⟩ := h.measured
  rw [loadTrace_ok_iff (List.ne_nil_of_mem hin)]
  constructor
  · intro hload
    have hboth : ∀ f ∈ dir, sample ≠ "" ∧ f.seq ≠ 0 := by
      intro f hf
      obtain ⟨r, hr, row, hin, layer, step, caches, rfl⟩ := h.lines f hf
      exact (loadTraceLine_entry hr htop file.capacity layer step caches file.strategy).mp
        (hload _ hin)
    obtain ⟨f, hf, -⟩ := h.rows row hin
    exact ⟨(hboth f hf).1, fun f hf => (hboth f hf).2⟩
  · rintro ⟨hsample, hseq⟩ row' hin'
    obtain ⟨f, hf, r, hr, layer, step, caches, rfl⟩ := h.rows row' hin'
    exact (loadTraceLine_entry hr htop file.capacity layer step caches file.strategy).mpr
      ⟨hsample, hseq f hf⟩

/-- The replay takes what the export writes. Every file of an export that came to its end passes
the validation of a miss trace, with the capacity and the strategy of the file, and has one line
for each record of the directory; and it is loaded exactly when the sample has a name and no
record an empty context. -/
theorem missExport_replayable {manifest : MissManifest} {maxTopk : ℤ} (htop : 2048 ≤ maxTopk)
    (he : exportMissTraces layerId sample args dir = .ok manifest) :
    ∀ file ∈ manifest.files,
      validateMissTrace file.records = .ok (file.capacity, file.strategy) ∧
      file.records.length = dir.length ∧
      ((∃ t, loadTrace maxTopk true file.records = .ok t) ↔
        sample ≠ "" ∧ ∀ f ∈ dir, f.seq ≠ 0) := by
  obtain ⟨groups, st, h⟩ := exportMissTraces_ok he
  obtain ⟨layers, -, hperm, hfiles⟩ := h.fileLines
  obtain ⟨hdir, hgroups⟩ := discover_perm h.discovered
  have hshare : (layers.flatMap Prod.snd).Perm dir := by
    have hflat : (layers.flatMap Prod.snd).Perm (grouped groups) := by
      have hj := hperm.flatten
      rwa [← List.flatMap_def, ← List.flatMap_def] at hj
    exact hflat.trans hdir
  have hlong : ∃ l ∈ layers, args.warmupSteps < (l.2.length : ℤ) := by
    obtain ⟨g, hg⟩ := List.exists_mem_of_ne_nil _ hgroups
    obtain ⟨l, hl, hlg⟩ := List.mem_map.mp (hperm.mem_iff.mpr (List.mem_map.mpr ⟨g, hg, rfl⟩))
    exact ⟨l, hl, by rw [hlg]; exact h.warmup g hg⟩
  intro file hfile
  have hrows := (hfiles file hfile).fileRows hshare h.warmup_nonneg hlong
  exact ⟨hrows.validated (hfiles file hfile).1, hrows.length, hrows.loaded_iff htop⟩

end Exported

theorem missExport_replayable_two_steps :
    ∃ manifest : MissManifest, manifest.files.length = 3 ∧ ∀ file ∈ manifest.files,
      validateMissTrace file.records = .ok (file.capacity, file.strategy) ∧
      file.records.length = 2 ∧ ((∃ t, loadTrace 2048 true file.records = .ok t) ↔
        "sample" ≠ "" ∧ ∀ f ∈ smallDump, f.seq ≠ 0) := by
  have hcount : (exportMissTraces (fun _ => some 0) "sample" smallArgs smallDump).toOption.map
      (fun m => m.files.length) = some 3 := by decide +kernel
  cases he : exportMissTraces (fun _ => some 0) "sample" smallArgs smallDump with
  | error e => rw [he] at hcount; cases hcount
  | ok manifest =>
    rw [he] at hcount
    exact ⟨manifest, Option.some.inj hcount, missExport_replayable le_rfl he⟩

end Umm
