import Umm.Ppa.ExportAddresses
import Umm.Ppa.OracleOutcome

/-! What `export_ppa_candidates.py` writes, and when `validate_export` of `mqsim_ppa_oracle.py`
takes it. -/
namespace Umm
open Umm.Lib

section Written

variable {σ : Type}

/-- A line as the oracle reads it; the export names device 0 for every candidate. -/
@[simps] def CandidateRow.oracleRecord (row : CandidateRow σ) : OracleRecord σ where
  stepId := row.stepId
  layerId := row.layerId
  contextLength := row.contextLength
  currentToken := row.currentToken
  native := row.native
  candidates := row.candidates.map fun c => ⟨c, 0⟩
  appliedSelected := row.applied.map (·.1)
  appliedSwaps := (row.applied.map (·.2.1)).getD []
  appliedCacheState := (row.applied.map (·.2.2)).getD ""

/-- The manifest as the oracle reads it, beside the lines that it was written with. -/
def ExportManifest.oracleManifest (args : ExportArgs) (m : ExportManifest) : OracleManifest where
  complete := true
  deviceCount := 1
  slotBytes := args.slotBytes
  candidatesMatch := true
  segmentBytes := args.segmentBytes
  snapshotBytes := m.snapshotBytes
  layers := m.layers
  records := m.records

/-- What the export does not look at: the context has a token, and the selection that the hook
applied has different tokens of it. -/
def CandidateRow.Fit (row : CandidateRow σ) : Prop :=
  1 ≤ row.contextLength ∧
    ∀ a ∈ row.applied, a.1.Nodup ∧ ∀ t ∈ a.1, 0 ≤ t ∧ t < row.contextLength

def CandidateRow.key (row : CandidateRow σ) : ℕ × ℕ := (row.stepId, row.layerId)

/-- What the export makes sure of in a line of a layer. -/
structure CandidateRow.Written (row : CandidateRow σ) (g : ManifestLayer) : Prop where
  context_le : row.contextLength ≤ g.contextLength
  current_eq : row.currentToken = row.contextLength - 1
  native_length : row.native.length = min 2048 row.contextLength
  native_nodup : row.native.Nodup
  native_subset : ∀ t ∈ row.native, t ∈ row.candidates.map (·.token)
  nodup : (row.candidates.map (·.token)).Nodup
  scored : (row.candidates.filterMap (·.score)).length = min 2400 row.contextLength
  address : ∀ x ∈ row.candidates, (0 ≤ x.token ∧ x.token < row.contextLength) ∧
    x.offsetBytes = g.baseBytes + x.token * slotBytes
  applied_length : ∀ a ∈ row.applied, a.1.length = row.native.length

theorem CandidateRow.oracleRecord_tokens (row : CandidateRow σ) :
    row.oracleRecord.tokens = row.candidates.map (·.token) := by
  rw [OracleRecord.tokens, CandidateRow.oracleRecord, List.map_map]
  rfl

theorem CandidateRow.oracleRecord_scores (row : CandidateRow σ) :
    row.oracleRecord.candidates.filterMap (·.score) = row.candidates.filterMap (·.score) := by
  rw [CandidateRow.oracleRecord, List.filterMap_map]
  rfl

theorem CandidateRow.Written.valid_iff {row : CandidateRow σ} {g : ManifestLayer}
    (hw : row.Written g) : row.oracleRecord.Valid (fun _ => true) g ↔ row.Fit := by
  constructor
  · intro hv
    have hpos := hv.context_pos
    rw [oracleRecord_contextLength] at hpos
    refine ⟨by omega, fun a ha => ?_⟩
    exact (hv.applied a.1 (Option.mem_map_of_mem _ ha)).2
  · intro hfit
    have hcontext := hw.context_le
    have hpos := hfit.1
    constructor
    · rw [oracleRecord_native, oracleRecord_contextLength, hw.native_length]
      norm_cast
    · exact hw.native_nodup
    · rw [row.oracleRecord_tokens]
      exact hw.native_subset
    · rw [row.oracleRecord_tokens]
      exact hw.nodup
    · rw [row.oracleRecord_scores, oracleRecord_contextLength, hw.scored]
      norm_cast
    · exact fun _ _ => rfl
    · intro applied happlied
      rw [oracleRecord_appliedSelected] at happlied
      obtain ⟨a, ha, rfl⟩ := Option.map_eq_some_iff.mp happlied
      exact ⟨hw.applied_length a ha, hfit.2 a ha⟩
    · rw [oracleRecord_contextLength]
      omega
    · exact hw.current_eq
    · rw [oracleRecord_contextLength]
      omega
    · intro x hx
      obtain ⟨y, hy, rfl⟩ := List.mem_map.mp hx
      obtain ⟨hin, hoffset⟩ := hw.address y hy
      exact ⟨hin, rfl, hoffset⟩

variable [LinearOrder σ] {f : DumpFile σ} {r : LoadedRecord σ}

theorem loadRecord_counts (h : loadRecord f = .ok r) :
    r.native.length = min 2048 f.seq ∧ r.native.Nodup ∧
      (r.scores.map (·.1)).length = min 2400 f.seq ∧ (r.scores.map (·.1)).Nodup ∧
      ∀ t, t ∈ r.ranked ↔ t ∈ r.scores.map (·.1) := by
  unfold loadRecord at h
  dsimp only at h
  split_ifs at h with h1 h2 h3
  split at h
  · cases h
  next scores hs =>
    split_ifs at h with h4
    obtain rfl := Except.ok.inj h
    push Not at h3 h4
    obtain ⟨hcount, hlength, hdedup, -⟩ := h4
    have hfst : (f.record.candidateIndices.zip scores).map (·.1) = f.record.candidateIndices :=
      List.map_fst_zip hlength.le
    dsimp only
    rw [hfst]
    refine ⟨h3.1, List.nodup_dedup _, hcount, ?_, fun t => ?_⟩
    · exact List.dedup_eq_self.mp ((List.dedup_sublist _).eq_of_length hdedup)
    · unfold rankCandidates
      rw [(List.perm_insertionSort _ _).map _ |>.mem_iff, hfst]

theorem scored_length (h : loadRecord f = .ok r) :
    ((BatchLru.sorted (r.native ++ r.ranked)).filterMap fun t => r.scores.lookup t).length =
      min 2400 f.seq := by
  obtain ⟨-, -, hcount, hnodup, hranked⟩ := loadRecord_counts h
  have hsorted : (BatchLru.sorted (r.native ++ r.ranked)).Perm (r.native ++ r.ranked).dedup :=
    List.perm_insertionSort _ _
  have hsome : ∀ t, (r.scores.lookup t).isSome ↔ t ∈ r.scores.map (·.1) := by
    intro t
    rw [List.lookup_isSome_iff]
    simp only [beq_iff_eq, List.mem_map]
    exact exists_congr fun p => and_congr_right fun _ => eq_comm
  have hperm : ((BatchLru.sorted (r.native ++ r.ranked)).filter fun t =>
      (r.scores.lookup t).isSome).Perm (r.scores.map (·.1)) := by
    refine (List.perm_ext_iff_of_nodup ((hsorted.nodup_iff.mpr (List.nodup_dedup _)).filter _)
      hnodup).mpr fun t => ?_
    rw [List.mem_filter, hsorted.mem_iff, List.mem_dedup, List.mem_append, hranked, hsome]
    exact and_iff_right_of_imp Or.inr
  rw [List.length_filterMap_eq_countP, List.countP_eq_length_filter, hperm.length_eq, hcount]

variable {layerId : String → Option ℕ} {args : ExportArgs} {stride : ℤ} {ranks : List (ℕ × ℤ)}
  {c : ChosenLayer σ} {base : ℤ} {step : ℕ} {row : CandidateRow σ}

omit [LinearOrder σ] in
/-- An applied selection that is exported has as many tokens as the native one. -/
theorem appliedSelection_length {native : List ℤ}
    {applied : Option (List ℤ × List (ℤ × ℤ) × String)}
    (h : appliedSelection f native = .ok applied) : ∀ a ∈ applied, a.1.length = native.length := by
  unfold appliedSelection at h
  split at h
  · obtain rfl := Except.ok.inj h
    simp
  · split_ifs at h with h1 h2
    · cases h
    · cases h
    · obtain rfl := Except.ok.inj h
      push Not at h2
      intro a ha
      obtain rfl := Option.some.inj ha
      exact h2.1

theorem exportRecord_written (hslot : args.slotBytes = slotBytes)
    (h : exportRecord layerId args stride ranks c base step f = .ok row) {g : ManifestLayer}
    (hbase : g.baseBytes = base) (hcontext : f.seq ≤ g.contextLength) :
    row.key = (step, c.layer) ∧ row.Written g := by
  unfold exportRecord at h
  obtain ⟨r, hr, h⟩ := except_bind_ok h
  split_ifs at h with hlayer
  · cases h
  obtain ⟨-, -, h⟩ := except_bind_ok h
  obtain ⟨applied, happlied, h⟩ := except_bind_ok h
  obtain rfl := Except.ok.inj h
  have hload := liftExport_ok hr
  obtain ⟨hcount, hnodup, -, -, -⟩ := loadRecord_counts hload
  obtain ⟨-, hin, htokens⟩ := loadRecord_ok hload
  have hids : (BatchLru.sorted (r.native ++ r.ranked)).Perm (r.native ++ r.ranked).dedup :=
    List.perm_insertionSort _ _
  have hmem : ∀ t, t ∈ BatchLru.sorted (r.native ++ r.ranked) ↔ t ∈ r.native ∨ t ∈ r.ranked := by
    intro t
    rw [hids.mem_iff, List.mem_dedup, List.mem_append]
  have hnative : (BatchLru.sorted r.native).Perm r.native := by
    have hsort : (BatchLru.sorted r.native).Perm r.native.dedup := List.perm_insertionSort _ _
    rwa [hnodup.dedup] at hsort
  have hlist : ((BatchLru.sorted (r.native ++ r.ranked)).map fun t => (⟨t, r.scores.lookup t,
      base + t * args.slotBytes⟩ : CandidateEntry σ)).map (·.token) =
      BatchLru.sorted (r.native ++ r.ranked) := by
    rw [List.map_map]
    exact List.map_id _
  refine ⟨rfl, hcontext, rfl, hnative.length_eq.trans hcount, hnative.nodup_iff.mpr hnodup,
    ?_, ?_, ?_, ?_, ?_⟩
  · intro t ht
    dsimp only at ht ⊢
    rw [hlist, hmem]
    exact Or.inl (hnative.mem_iff.mp ht)
  · dsimp only
    rw [hlist]
    exact hids.nodup_iff.mpr (List.nodup_dedup _)
  · dsimp only
    rw [List.filterMap_map]
    exact scored_length hload
  · intro x hx
    obtain ⟨t, ht, rfl⟩ := List.mem_map.mp hx
    refine ⟨hin t ((htokens t).mp ((hmem t).mp ht)), ?_⟩
    rw [hbase, hslot]
  · intro a ha
    exact (appliedSelection_length happlied a ha).trans hnative.length_eq.symm

/-- What the loop over the layers keeps: the lines have different keys, and each was written for
one of the layers of the manifest. -/
structure ExportState.Written (st : ExportState σ) : Prop where
  keys : (st.rows.map (·.key)).Nodup
  rows : ∀ row ∈ st.rows, ∃ g ∈ st.layers, row.layerId = g.layerId ∧ row.Written g

variable {st st' : ExportState σ} {rank : ℕ}

section Append

variable {g : ManifestLayer} {rows : List (CandidateRow σ)}

omit [LinearOrder σ]

theorem ExportState.Written.keys_append (hst : st.Written)
    (hfresh : g.layerId ∉ st.layers.map (·.layerId)) (hnodup : (rows.map (·.key)).Nodup)
    (hrows : ∀ row ∈ rows, row.layerId = g.layerId ∧ row.Written g) :
    ((st.rows ++ rows).map (·.key)).Nodup := by
  rw [List.map_append]
  refine hst.keys.append hnodup fun key hold hnew => ?_
  obtain ⟨row, hrow, rfl⟩ := List.mem_map.mp hold
  obtain ⟨row', hrow', hkey⟩ := List.mem_map.mp hnew
  obtain ⟨g', hg', hid, -⟩ := hst.rows row hrow
  have hsnd : row'.layerId = row.layerId := congrArg Prod.snd hkey
  rw [(hrows row' hrow').1, hid] at hsnd
  exact hfresh (hsnd ▸ List.mem_map_of_mem hg')

theorem ExportState.Written.rows_append (hst : st.Written)
    (hrows : ∀ row ∈ rows, row.layerId = g.layerId ∧ row.Written g) :
    ∀ row ∈ st.rows ++ rows, ∃ g' ∈ st.layers ++ [g],
      row.layerId = g'.layerId ∧ row.Written g' := by
  intro row hrow
  rcases List.mem_append.mp hrow with hrow | hrow
  · obtain ⟨g', hg', hw⟩ := hst.rows row hrow
    exact ⟨g', List.mem_append_left _ hg', hw⟩
  · exact ⟨g, List.mem_append_right _ (List.mem_singleton_self g), hrows row hrow⟩

end Append

/-- The lines of one layer have the numbers of its steps. -/
theorem exportFiles_written {rows : List (CandidateRow σ)} {files : List (DumpFile σ × ℕ)}
    (h : files.mapM (fun f => exportRecord layerId args stride ranks c base f.2 f.1) = .ok rows)
    (hslot : args.slotBytes = slotBytes) {g : ManifestLayer} (hbase : g.baseBytes = base)
    (hcontext : ∀ f ∈ files, f.1.seq ≤ g.contextLength) :
    rows.map (·.key) = files.map (fun f => (f.2, c.layer)) ∧
      ∀ row ∈ rows, row.layerId = c.layer ∧ row.Written g := by
  have hall := forall₂_of_mapM h
  clear h
  induction hall with
  | nil => exact ⟨rfl, fun row hrow => absurd hrow List.not_mem_nil⟩
  | @cons f row files rows hrow _ ih =>
    obtain ⟨hkeys, hwritten⟩ := ih fun f' hf => hcontext f' (List.mem_cons_of_mem f hf)
    obtain ⟨hkey, hw⟩ := exportRecord_written hslot hrow hbase (hcontext f List.mem_cons_self)
    constructor
    · rw [List.map_cons, List.map_cons, hkey, hkeys]
    · intro row' hrow'
      rcases List.mem_cons.mp hrow' with rfl | hrow'
      · exact ⟨congrArg Prod.snd hkey, hw⟩
      · exact hwritten row' hrow'

omit [LinearOrder σ] in
theorem placeLayer_layers {context : ℕ} (h : placeLayer args stride rank c context st =
    .ok (base, st')) : st'.layers = st.layers := by
  unfold placeLayer at h
  split at h
  · dsimp only at h
    split at h
    · cases h
    · rw [← (Prod.mk.inj (Except.ok.inj h)).2]
  · rw [← (Prod.mk.inj (Except.ok.inj h)).2]

theorem ExportState.Written.layer (hst : st.Written) (hslot : args.slotBytes = slotBytes)
    (h : exportLayer layerId args stride rank st c = .ok st')
    (hord : c.files.Pairwise (fun a b => a.seq ≤ b.seq))
    (hfresh : c.layer ∉ st.layers.map (·.layerId)) :
    st'.Written ∧ st'.layers.map (·.layerId) = st.layers.map (·.layerId) ++ [c.layer] ∧
      st'.rows ≠ [] := by
  unfold exportLayer at h
  split at h
  · cases h
  next last hlast =>
    have hctx : c.context = last.seq := by
      unfold ChosenLayer.context
      rw [hlast]
      rfl
    have hne : c.files ≠ [] := by
      intro hnil
      rw [hnil] at hlast
      cases hlast
    obtain ⟨⟨base, st₁⟩, hplace, h⟩ := except_bind_ok h
    obtain ⟨rows, hrows, h⟩ := except_bind_ok h
    obtain rfl := Except.ok.inj h
    obtain ⟨-, -, hsame, -⟩ := placeLayer_ok hplace hctx
    have hlayers := placeLayer_layers hplace
    have hcontext : ∀ f ∈ c.files.zipIdx, f.1.seq ≤ last.seq := by
      intro f hf
      rw [← hctx]
      exact ChosenLayer.Ordered.seq_le ⟨hne, hord⟩ (List.fst_mem_of_mem_zipIdx hf)
    let g : ManifestLayer := ⟨c.layer, last.seq, base⟩
    obtain ⟨hkeys, hwritten⟩ := exportFiles_written hrows hslot (g := g) rfl hcontext
    have hnodup : (rows.map (·.key)).Nodup := by
      rw [hkeys]
      refine List.Nodup.of_map Prod.fst ?_
      rw [List.map_map]
      exact List.nodup_zipIdx_map_snd c.files
    dsimp only
    rw [hsame, hlayers]
    refine ⟨⟨hst.keys_append (g := g) hfresh hnodup hwritten, hst.rows_append hwritten⟩, ?_, ?_⟩
    · rw [List.map_append]
      rfl
    · intro hnil
      rw [(List.append_eq_nil_iff.mp hnil).2, List.map_nil] at hkeys
      have hempty := List.map_eq_nil_iff.mp hkeys.symm
      exact hne (List.zipIdx_eq_nil_iff.mp hempty)

theorem ExportState.Written.layers {chosen : List (ChosenLayer σ)} (hst : st.Written)
    (hslot : args.slotBytes = slotBytes)
    (h : exportLayers layerId args stride rank st chosen = .ok st')
    (hord : ∀ c ∈ chosen, c.files.Pairwise (fun a b => a.seq ≤ b.seq))
    (hfresh : (st.layers.map (·.layerId) ++ chosen.map (·.layer)).Nodup) :
    st'.Written ∧ (st'.layers.map (·.layerId)).Nodup ∧
      (st.rows ≠ [] ∨ chosen ≠ [] → st'.rows ≠ []) := by
  induction chosen generalizing rank st with
  | nil =>
    obtain rfl := Except.ok.inj h
    rw [List.map_nil, List.append_nil] at hfresh
    exact ⟨hst, hfresh, fun hne => hne.resolve_right (not_not.mpr rfl)⟩
  | cons c chosen ih =>
    obtain ⟨st₁, hlayer, h⟩ := except_bind_ok h
    have hnew : c.layer ∉ st.layers.map (·.layerId) := fun hold =>
      (List.nodup_append.mp hfresh).2.2 c.layer hold c.layer List.mem_cons_self rfl
    obtain ⟨hst₁, hlayers, hrows⟩ := hst.layer hslot hlayer (hord c List.mem_cons_self) hnew
    rw [List.map_cons, List.append_cons, ← hlayers] at hfresh
    obtain ⟨hst', hnodup, hmore⟩ :=
      ih hst₁ h (fun d hd => hord d (List.mem_cons_of_mem c hd)) hfresh
    exact ⟨hst', hnodup, fun _ => hmore (Or.inl hrows)⟩

theorem chosenLayers_ne_nil {dir : List (DumpFile σ)} {chosen : List (ChosenLayer σ)}
    (h : chosenLayers layerId args dir = .ok chosen) : chosen ≠ [] := by
  unfold chosenLayers at h
  obtain ⟨groups, -, h⟩ := except_bind_ok h
  split at h
  · cases h
  obtain ⟨picked, -, h⟩ := except_bind_ok h
  dsimp only at h
  split at h
  · cases h
  next hlayers =>
    split at h
    · cases h
    obtain rfl := Except.ok.inj h
    exact (not_or.mp hlayers).1

omit [LinearOrder σ] in
/-- Lines with different keys are written in the order of their keys. -/
theorem pairwise_key {rows : List (CandidateRow σ)} (h : (rows.map (·.key)).Nodup) :
    (rows.insertionSort fun a b =>
      a.stepId < b.stepId ∨ a.stepId = b.stepId ∧ a.layerId ≤ b.layerId).Pairwise
        (fun a b => toLex a.key < toLex b.key) := by
  have hle : ∀ a b : CandidateRow σ, a.stepId < b.stepId ∨
      a.stepId = b.stepId ∧ a.layerId ≤ b.layerId ↔ toLex a.key ≤ toLex b.key := by
    intro a b
    rw [Prod.Lex.toLex_le_toLex]
    rfl
  have : Std.Total (fun a b : CandidateRow σ =>
      a.stepId < b.stepId ∨ a.stepId = b.stepId ∧ a.layerId ≤ b.layerId) :=
    ⟨fun a b => (le_total _ _).imp (hle a b).mpr (hle b a).mpr⟩
  have : IsTrans (CandidateRow σ) (fun a b =>
      a.stepId < b.stepId ∨ a.stepId = b.stepId ∧ a.layerId ≤ b.layerId) :=
    ⟨fun a b c hab hbc => (hle a c).mpr (((hle a b).mp hab).trans ((hle b c).mp hbc))⟩
  have hnodup := ((List.perm_insertionSort (fun a b : CandidateRow σ =>
    a.stepId < b.stepId ∨ a.stepId = b.stepId ∧ a.layerId ≤ b.layerId) rows).map
      (·.key)).nodup_iff.mpr h
  refine ((List.pairwise_insertionSort _ rows).and (List.pairwise_map.mp hnodup)).imp ?_
  rintro a b ⟨hab, hne⟩
  exact lt_of_le_of_ne ((hle a b).mp hab) fun heq => hne (toLex.injective heq)

theorem exportCandidates_written {dir : List (DumpFile σ)}
    {out : ExportManifest × List (CandidateRow σ)}
    (h : exportCandidates layerId args dir = .ok out) :
    args.slotBytes = slotBytes ∧ args.segmentBytes % pageBytes = 0 ∧
      out.1.snapshotBytes % args.segmentBytes = 0 ∧ (out.1.layers.map (·.layerId)).Nodup ∧
      out.2.Pairwise (fun a b => toLex a.key < toLex b.key) ∧
      (∀ row ∈ out.2, ∃ g ∈ out.1.layers, row.layerId = g.layerId ∧ row.Written g) ∧
      out.2.length = out.1.records ∧ out.2 ≠ [] := by
  unfold exportCandidates at h
  split at h
  · cases h
  next hargs =>
    split at h
    · cases h
    obtain ⟨chosen, hchosen, h⟩ := except_bind_ok h
    obtain ⟨stride, -, h⟩ := except_bind_ok h
    obtain ⟨st, hrun, h⟩ := except_bind_ok h
    split at h
    · cases h
    obtain rfl := Except.ok.inj h
    push Not at hargs
    obtain ⟨hslot, -, hsegment⟩ := hargs
    obtain ⟨hnodup, hord⟩ := chosenLayers_ok hchosen
    have hempty : (⟨0, [], [], [], 0⟩ : ExportState σ).Written :=
      ⟨List.nodup_nil, fun row hrow => absurd hrow List.not_mem_nil⟩
    obtain ⟨hst, hlayers, hrows⟩ := hempty.layers hslot hrun hord hnodup
    have hsort : (st.rows.insertionSort fun a b =>
        a.stepId < b.stepId ∨ a.stepId = b.stepId ∧ a.layerId ≤ b.layerId).Perm st.rows :=
      List.perm_insertionSort _ _
    dsimp only
    refine ⟨hslot, hsegment, Int.mul_emod_left _ _, hlayers, ?_, ?_, hsort.length_eq, ?_⟩
    · exact pairwise_key hst.keys
    · intro row hrow
      exact hst.rows row (hsort.mem_iff.mp hrow)
    · intro hnil
      rw [hnil] at hsort
      exact hrows (Or.inr (chosenLayers_ne_nil hchosen)) hsort.nil_eq.symm

/-- What is exported is taken by the oracle exactly when the segment fits one command, and each
line is fit. A record with a score that is not finite is not exported, so the test for that in the
oracle always passes. -/
theorem exportCandidates_accepted {dir : List (DumpFile σ)}
    {out : ExportManifest × List (CandidateRow σ)}
    (h : exportCandidates layerId args dir = .ok out) :
    validateExport (fun _ => true) (out.1.oracleManifest args)
        (out.2.map CandidateRow.oracleRecord) = .ok () ↔
      args.segmentBytes / 512 ≤ 65535 ∧ ∀ row ∈ out.2, row.Fit := by
  obtain ⟨hslot, hsegment, hsnapshot, hlayers, hkeys, hwritten, hcount, hne⟩ :=
    exportCandidates_written h
  have hpairs : ((out.1.layers.map fun l => (l.layerId, l)).map (·.1)).Nodup := by
    rw [List.map_map]
    exact hlayers
  have hchain : (((out.2.map CandidateRow.oracleRecord).map OracleRecord.key).map
      toLex).IsChain (· < ·) := by
    rw [List.isChain_iff_pairwise, List.map_map, List.map_map, List.pairwise_map]
    exact hkeys
  have hvalid : (∀ row ∈ out.2.map CandidateRow.oracleRecord, ∃ g,
      (dictOf (out.1.layers.map fun l => (l.layerId, l))).lookup row.layerId = some g ∧
        row.Valid (fun _ => true) g) ↔ ∀ row ∈ out.2, row.Fit := by
    rw [List.forall_mem_map]
    refine forall₂_congr fun row hrow => ?_
    obtain ⟨g, hg, hid, hw⟩ := hwritten row hrow
    have hlookup : (dictOf (out.1.layers.map fun l => (l.layerId, l))).lookup
        row.oracleRecord.layerId = some g := by
      rw [lookup_dictOf_iff hpairs, CandidateRow.oracleRecord_layerId, hid]
      exact List.mem_map_of_mem hg
    rw [hlookup, ← hw.valid_iff]
    simp only [Option.some.injEq, exists_eq_left']
  rw [validateExport_iff, List.length_map, ne_eq, List.map_eq_nil_iff]
  constructor
  · rintro ⟨-, -, ⟨-, hcommand⟩, -, -, hrows, -⟩
    exact ⟨hcommand, hvalid.mp hrows⟩
  · rintro ⟨hcommand, hfit⟩
    exact ⟨⟨rfl, rfl, hslot⟩, rfl, ⟨hsegment, hcommand⟩, hsnapshot, hchain, hvalid.mpr hfit,
      hcount, hne⟩

end Written

instance {σ : Type} (row : CandidateRow σ) : Decidable row.Fit := by
  unfold CandidateRow.Fit
  infer_instance

theorem exportCandidates_accepted_twoLayers :
    ∃ out, exportCandidates twoLayerId (twoLayerArgs 2) twoLayerDir = .ok out ∧
      validateExport (fun _ => true) (out.1.oracleManifest (twoLayerArgs 2))
        (out.2.map CandidateRow.oracleRecord) = .ok () := by
  have hok : (exportCandidates twoLayerId (twoLayerArgs 2) twoLayerDir).toOption.any
      (fun out => ∀ row ∈ out.2, row.Fit) = true := by decide
  cases h : exportCandidates twoLayerId (twoLayerArgs 2) twoLayerDir with
  | error e =>
    rw [h] at hok
    cases hok
  | ok out =>
    rw [h] at hok
    exact ⟨out, rfl, (exportCandidates_accepted h).mpr ⟨by decide, of_decide_eq_true hok⟩⟩

end Umm
