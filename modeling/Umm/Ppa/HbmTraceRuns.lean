import Umm.Ppa.HbmTraces

/-! The choices that both replays of a dump directory go through, one after the other, and that
the export of the misses counts what the simulator counts. -/
namespace Umm
open Umm.Lib

section Entries

variable {σ : Type} [LinearOrder σ] (args : HbmArgs)

/-- The caches after a step. -/
def HbmArgs.next (r : LoadedRecord σ) (seq : ℕ) (caches : HbmCaches) : HbmCaches where
  base := (caches.base.commit r.native).2
  aware := (caches.aware.commit
    (sortedSet (args.chooseFor r (args.ready seq) caches.aware).1)).2

def HbmArgs.stepEntries (r : LoadedRecord σ) (step seq : ℕ) (states : List (ℤ × HbmCaches)) :
    List HbmEntry :=
  states.flatMap fun s => hbmModes.map (args.entry r step seq s.1 s.2)

/-- The choices in the steps of a layer, up to a record that cannot be read. -/
def HbmArgs.layerEntries : ℕ → List (ℤ × HbmCaches) → List (DumpFile σ) → List HbmEntry
  | _, _, [] => []
  | step, states, f :: files =>
    match loadRecord f with
    | .error _ => []
    | .ok r => args.stepEntries r step f.seq states ++
        layerEntries (step + 1) (states.map fun s => (s.1, args.next r f.seq s.2)) files

/-- The choices of one strategy with one capacity. -/
def HbmArgs.modeEntries (capacity : ℤ) (mode : HbmMode) :
    ℕ → HbmCaches → List (DumpFile σ) → List HbmEntry
  | _, _, [] => []
  | step, caches, f :: files =>
    match loadRecord f with
    | .error _ => []
    | .ok r => args.entry r step f.seq capacity caches mode ::
        modeEntries capacity mode (step + 1) (args.next r f.seq caches) files

def HbmEntry.At (key : ℤ × HbmMode) (e : HbmEntry) : Prop :=
  e.capacity = key.1 ∧ e.choice.mode = key.2

instance (key : ℤ × HbmMode) : DecidablePred (HbmEntry.At key) := fun e =>
  inferInstanceAs (Decidable (e.capacity = key.1 ∧ e.choice.mode = key.2))

variable {args}

omit [LinearOrder σ] in
@[simp] theorem HbmArgs.choice_mode (r : LoadedRecord σ) (ready : Finset ℤ) (caches : HbmCaches)
    (mode : HbmMode) : (args.choice r ready caches mode).mode = mode := by
  cases mode <;> rfl

omit [LinearOrder σ] in
theorem filter_stepEntries {capacities : List ℤ} (hcap : capacities.Nodup) {capacity : ℤ}
    (hin : capacity ∈ capacities) (mode : HbmMode) (caches : ℤ → HbmCaches) (r : LoadedRecord σ)
    (step seq : ℕ) :
    (args.stepEntries r step seq (capacities.map fun c => (c, caches c))).filter
        (HbmEntry.At (capacity, mode)) =
      [args.entry r step seq capacity (caches capacity) mode] := by
  unfold HbmArgs.stepEntries
  rw [List.flatMap_map, List.filter_flatMap, flatMap_of_nodup hcap hin]
  · cases mode <;> simp [hbmModes, HbmEntry.At, HbmArgs.entry]
  · intro c _ hne
    simp [hbmModes, HbmEntry.At, HbmArgs.entry, hne]

theorem filter_layerEntries {capacities : List ℤ} (hcap : capacities.Nodup) {capacity : ℤ}
    (hin : capacity ∈ capacities) (mode : HbmMode) (files : List (DumpFile σ)) :
    ∀ (step : ℕ) (caches : ℤ → HbmCaches),
      (args.layerEntries step (capacities.map fun c => (c, caches c)) files).filter
          (HbmEntry.At (capacity, mode)) =
        args.modeEntries capacity mode step (caches capacity) files := by
  induction files with
  | nil => intro step caches; rfl
  | cons f files ih =>
    intro step caches
    unfold HbmArgs.layerEntries HbmArgs.modeEntries
    cases hr : loadRecord f with
    | error e => rfl
    | ok r =>
      dsimp only
      rw [List.filter_append, filter_stepEntries hcap hin, List.map_map]
      exact congrArg _ (ih (step + 1) fun c => args.next r f.seq (caches c))

end Entries

section Loops

variable {σ κ τ : Type} [LinearOrder σ] [DecidableEq κ] {script : HbmScript κ τ} {args : HbmArgs}

theorem mapError_ok {ε ε' α : Type} {f : ε → ε'} {x : Except ε α} {a : α}
    (h : x.mapError f = .ok a) : x = .ok a := by
  cases x with
  | error e => cases h
  | ok a' => rw [Except.ok.inj h]

theorem commitOrRaise_ok {cache cache' : BatchLru ℤ} {selected : List ℤ}
    (h : commitOrRaise cache selected = .ok cache') : cache' = (cache.commit selected).2 := by
  unfold commitOrRaise at h
  split at h
  · cases h
  next he =>
    rw [he]
    exact (Except.ok.inj h).symm

omit [LinearOrder σ] [DecidableEq κ] in
/-- The loop over the capacities emits the choices of the step and moves all caches on. -/
theorem hbmCapacities_ok {k : κ} {r : LoadedRecord σ} {step seq : ℕ}
    {states states' : List (ℤ × HbmCaches)} {out out' : τ}
    (h : hbmCapacities script args k r step seq states out = .ok (states', out')) :
    states' = states.map (fun s => (s.1, args.next r seq s.2)) ∧
      (args.stepEntries r step seq states).foldlM (fun out e => script.emit k e out) out =
        .ok out' := by
  induction states generalizing out states' with
  | nil =>
    obtain ⟨rfl, rfl⟩ := Prod.mk.inj (Except.ok.inj h)
    exact ⟨rfl, rfl⟩
  | cons s states ih =>
    obtain ⟨capacity, caches⟩ := s
    unfold hbmCapacities at h
    obtain ⟨out₁, hemit, h⟩ := except_bind_ok h
    obtain ⟨base, hbase, h⟩ := except_bind_ok h
    obtain ⟨aware, haware, h⟩ := except_bind_ok h
    obtain ⟨⟨states₁, out₂⟩, hrest, h⟩ := except_bind_ok h
    obtain ⟨rfl, rfl⟩ := Prod.mk.inj (Except.ok.inj h)
    obtain ⟨rfl, hfold⟩ := ih hrest
    obtain rfl := commitOrRaise_ok hbase
    obtain rfl := commitOrRaise_ok haware
    refine ⟨rfl, ?_⟩
    unfold HbmArgs.stepEntries
    rw [List.flatMap_cons, List.foldlM_append, hemit]
    exact hfold

/-- The counts over the records of a layer. -/
def NativeQuality.counts (q : NativeQuality) (files : List (DumpFile σ)) : NativeQuality :=
  files.foldl (fun q f =>
    match loadRecord f with
    | .ok r => q.count r
    | .error _ => q) q

/-- Every file holds a record of the layer. -/
def OfLayer (script : HbmScript κ τ) (k : κ) (files : List (DumpFile σ)) : Prop :=
  ∀ f ∈ files, ∃ r, loadRecord f = .ok r ∧ script.key r.name = .ok k

/-- A loop over the steps of one layer that came to its end. -/
structure StepsDone (script : HbmScript κ τ) (args : HbmArgs) (k : κ) (step : ℕ)
    (states : List (ℤ × HbmCaches)) (files : List (DumpFile σ)) (st st' : HbmLoop κ τ) : Prop where
  ofLayer : OfLayer script k files
  quality : st'.quality.toNativeQuality = st.quality.toNativeQuality.counts files
  out : (args.layerEntries step states files).foldlM (fun out e => script.emit k e out) st.out =
    .ok st'.out

/-- One turn of the loop over the steps. -/
theorem hbmSteps_cons_ok {layer : Option κ} {step : ℕ} {states : List (ℤ × HbmCaches)}
    {st st' : HbmLoop κ τ} {f : DumpFile σ} {files : List (DumpFile σ)}
    (h : hbmSteps script args step layer states st (f :: files) = .ok st') :
    ∃ r k st₁ out, loadRecord f = .ok r ∧ script.key r.name = .ok k ∧
      enterLayer script layer k f.path st = .ok st₁ ∧
      (args.stepEntries r step f.seq states).foldlM (fun out e => script.emit k e out) st₁.out =
        .ok out ∧
      hbmSteps script args (step + 1) (some k)
        (states.map fun s => (s.1, args.next r f.seq s.2)) ⟨st₁.seen, st₁.quality.count script r, out⟩
        files = .ok st' := by
  unfold hbmSteps at h
  obtain ⟨r, hr, h⟩ := except_bind_ok h
  obtain ⟨k, hk, h⟩ := except_bind_ok h
  obtain ⟨st₁, henter, h⟩ := except_bind_ok h
  obtain ⟨⟨states₁, out⟩, hcap, h⟩ := except_bind_ok h
  obtain ⟨rfl, hout⟩ := hbmCapacities_ok hcap
  exact ⟨r, k, st₁, out, mapError_ok hr, mapError_ok hk, henter, hout, h⟩

omit [DecidableEq κ] in
/-- A turn before the rest of the loop. -/
theorem StepsDone.cons {k : κ} {step : ℕ} {states : List (ℤ × HbmCaches)}
    {st st₁ st' : HbmLoop κ τ} {f : DumpFile σ} {files : List (DumpFile σ)} {r : LoadedRecord σ}
    {out : τ} (hr : loadRecord f = .ok r) (hk : script.key r.name = .ok k)
    (hquality : st₁.quality = st.quality) (hst : st₁.out = st.out)
    (hout : (args.stepEntries r step f.seq states).foldlM (fun out e => script.emit k e out)
      st₁.out = .ok out)
    (h : StepsDone script args k (step + 1) (states.map fun s => (s.1, args.next r f.seq s.2)) files
      ⟨st₁.seen, st₁.quality.count script r, out⟩ st') :
    StepsDone script args k step states (f :: files) st st' := by
  constructor
  · intro f' hf'
    rcases List.mem_cons.mp hf' with rfl | hf'
    · exact ⟨r, hr, hk⟩
    · exact h.ofLayer f' hf'
  · rw [h.quality, NativeQuality.counts, NativeQuality.counts, List.foldl_cons, hr,
      HbmQuality.count, hquality]
  · unfold HbmArgs.layerEntries
    simp only [hr]
    rw [List.foldlM_append, ← hst, hout]
    exact h.out

theorem hbmSteps_same {k : κ} {files : List (DumpFile σ)} :
    ∀ {step : ℕ} {states : List (ℤ × HbmCaches)} {st st' : HbmLoop κ τ},
      hbmSteps script args step (some k) states st files = .ok st' →
      StepsDone script args k step states files st st' ∧ st'.seen = st.seen := by
  induction files with
  | nil =>
    intro step states st st' h
    obtain rfl := Except.ok.inj h
    exact ⟨⟨fun f hf => (nomatch hf), rfl, rfl⟩, rfl⟩
  | cons f files ih =>
    intro step states st st' h
    obtain ⟨r, k', st₁, out, hr, hk, henter, hout, h⟩ := hbmSteps_cons_ok h
    unfold enterLayer at henter
    dsimp only at henter
    split_ifs at henter with hne
    · cases henter
    · obtain rfl := not_not.mp hne
      obtain rfl := Except.ok.inj henter
      obtain ⟨hdone, hseen⟩ := ih h
      exact ⟨.cons hr hk rfl rfl hout hdone, hseen⟩

/-- The whole loop over a layer: its first record names a layer that was not there before. -/
theorem hbmSteps_new {files : List (DumpFile σ)} (hne : files ≠ []) {step : ℕ}
    {states : List (ℤ × HbmCaches)} {st st' : HbmLoop κ τ}
    (h : hbmSteps script args step none states st files = .ok st') :
    ∃ k, StepsDone script args k step states files st st' ∧ k ∉ st.seen ∧
      st'.seen = st.seen ++ [k] := by
  obtain ⟨f, files, rfl⟩ := List.exists_cons_of_ne_nil hne
  obtain ⟨r, k, st₁, out, hr, hk, henter, hout, h⟩ := hbmSteps_cons_ok h
  unfold enterLayer at henter
  dsimp only at henter
  split_ifs at henter with hin
  · cases henter
  · obtain rfl := Except.ok.inj henter
    obtain ⟨hdone, hseen⟩ := hbmSteps_same h
    refine ⟨k, .cons hr hk ?_ ?_ hout hdone, hin, hseen⟩
    · rfl
    · rfl

/-- The layers in the order in which the loop goes through them. -/
def layerFiles (groups : List (String × List (DumpFile σ))) : List (List (DumpFile σ)) :=
  (groups.insertionSort fun a b => a.1 ≤ b.1).map Prod.snd

/-- The choices of all layers, each with its layer. -/
def HbmArgs.allEntries (args : HbmArgs) (layers : List (κ × List (DumpFile σ))) :
    List (κ × HbmEntry) :=
  layers.flatMap fun l => (args.layerEntries 0 args.states l.2).map fun e => (l.1, e)

/-- A loop over all layers that came to its end. -/
structure TraceLayersDone (script : HbmScript κ τ) (args : HbmArgs)
    (layers : List (κ × List (DumpFile σ))) (q : NativeQuality) (out : τ) (st : HbmLoop κ τ) :
    Prop where
  nodup : (layers.map Prod.fst).Nodup
  ofLayer : ∀ l ∈ layers, OfLayer script l.1 l.2
  quality : st.quality.toNativeQuality = (layers.map Prod.snd).foldl NativeQuality.counts q
  out : (args.allEntries layers).foldlM (fun out p => script.emit p.1 p.2 out) out = .ok st.out

private theorem foldlM_layers {groups : List (String × List (DumpFile σ))}
    (hne : ∀ g ∈ groups, g.2 ≠ []) : ∀ {st st' : HbmLoop κ τ},
      groups.foldlM (fun st g => hbmSteps script args 0 none args.states st g.2) st = .ok st' →
      ∃ layers : List (κ × List (DumpFile σ)), layers.map Prod.snd = groups.map Prod.snd ∧
        TraceLayersDone script args layers st.quality.toNativeQuality st.out st' ∧
        ∀ k ∈ layers.map Prod.fst, k ∉ st.seen := by
  induction groups with
  | nil =>
    intro st st' h
    obtain rfl := Except.ok.inj h
    exact ⟨[], rfl, ⟨List.nodup_nil, fun l hl => (nomatch hl), rfl, rfl⟩, fun k hk => (nomatch hk)⟩
  | cons g groups ih =>
    intro st st' h
    rw [List.foldlM_cons] at h
    obtain ⟨st₁, hsteps, h⟩ := except_bind_ok h
    obtain ⟨k, hdone, hfresh, hseen⟩ := hbmSteps_new (hne g List.mem_cons_self) hsteps
    obtain ⟨layers, hfiles, hrest, hnew⟩ := ih (fun g hg => hne g (List.mem_cons_of_mem _ hg)) h
    refine ⟨(k, g.2) :: layers, by rw [List.map_cons, List.map_cons, hfiles], ⟨?_, ?_, ?_, ?_⟩, ?_⟩
    · rw [List.map_cons, List.nodup_cons]
      refine ⟨fun hk => hnew k hk ?_, hrest.nodup⟩
      rw [hseen]
      exact List.mem_append_right _ (List.mem_singleton_self k)
    · intro l hl
      rcases List.mem_cons.mp hl with rfl | hl
      · exact hdone.ofLayer
      · exact hrest.ofLayer l hl
    · rw [hrest.quality, hdone.quality, List.map_cons, List.foldl_cons]
    · unfold HbmArgs.allEntries
      rw [List.flatMap_cons, List.foldlM_append, List.foldlM_map, hdone.out]
      exact hrest.out
    · intro k' hk'
      rw [List.map_cons] at hk'
      rcases List.mem_cons.mp hk' with rfl | hk'
      · exact hfresh
      · intro hin
        refine hnew k' hk' ?_
        rw [hseen]
        exact List.mem_append_left _ hin

theorem hbmLayers_ok {groups : List (String × List (DumpFile σ))} (hne : ∀ g ∈ groups, g.2 ≠ [])
    {out : τ} {st : HbmLoop κ τ} (h : hbmLayers script args groups out = .ok st) :
    ∃ layers : List (κ × List (DumpFile σ)), layers.map Prod.snd = layerFiles groups ∧
      TraceLayersDone script args layers ⟨0, 0, 0⟩ out st := by
  obtain ⟨layers, hfiles, hdone, -⟩ := foldlM_layers (fun g hg =>
    hne g ((List.perm_insertionSort _ _).mem_iff.mp hg)) h
  exact ⟨layers, hfiles, hdone⟩

omit [DecidableEq κ] in
/-- The choices do not depend on how layers are told apart. -/
theorem allEntries_snd (layers : List (κ × List (DumpFile σ))) :
    (args.allEntries layers).map Prod.snd =
      (layers.map Prod.snd).flatMap (args.layerEntries 0 args.states) := by
  unfold HbmArgs.allEntries
  rw [List.map_flatMap, List.flatMap_map]
  simp only [List.map_map, Function.comp_def, List.map_id']

end Loops

end Umm
