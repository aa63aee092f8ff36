import Umm.Media.VirtualMedia
import Umm.Media.SegmentSpec

/-! A batch of reads gives every view the bytes of its unit, wherever these are. -/
namespace Umm
open Umm.Lib

/-- Successive entries are one unit apart. -/
def Consecutive (unitSize : ℕ) (run : List (ℕ × ℕ)) : Prop :=
  run.IsChain fun a b => b.2 = a.2 + unitSize

theorem Consecutive.bounds {unitSize : ℕ} {first : ℕ × ℕ} {rest : List (ℕ × ℕ)}
    (h : Consecutive unitSize (first :: rest)) :
    ∀ e ∈ first :: rest, first.2 ≤ e.2 ∧ e.2 ≤ ((first :: rest).getLast (by simp)).2 := by
  induction rest generalizing first with
  | nil =>
    intro e he
    obtain rfl := List.mem_singleton.mp he
    exact ⟨le_rfl, le_rfl⟩
  | cons second rest ih =>
    obtain ⟨hnext, htail⟩ := List.isChain_cons_cons.mp h
    have hsecond := ih htail
    intro e he
    rw [List.getLast_cons (by simp)]
    rcases List.mem_cons.mp he with rfl | he
    · have := (hsecond second List.mem_cons_self).2
      exact ⟨le_rfl, by omega⟩
    · have := hsecond e he
      exact ⟨by omega, this.2⟩

namespace VirtualMedia

variable {κ : Type} (vm : VirtualMedia κ)

section Runs

/-- A run of `_merge_runs`: consecutive entries, and not more than one read may cover. -/
structure RunOk (run : List (ℕ × ℕ)) : Prop where
  nonempty : run ≠ []
  consecutive : Consecutive vm.unitSize run
  capped : ∀ d, ∀ cap ∈ vm.maxReadBytes, (vm.runRead d run).len ≤ cap

variable {vm}

theorem runRead_cons (d : ℕ) (first : ℕ × ℕ) (rest : List (ℕ × ℕ)) :
    vm.runRead d (first :: rest) =
      ⟨d, first.2, ((first :: rest).getLast (by simp)).2 + vm.unitSize - first.2⟩ := by
  simp [runRead, List.getLast?_eq_some_getLast]

theorem runOk_single (hcap : ∀ cap ∈ vm.maxReadBytes, vm.unitSize ≤ cap) (entry : ℕ × ℕ) :
    vm.RunOk [entry] where
  nonempty := by simp
  consecutive := List.isChain_singleton _
  capped d cap hmem := by
    rw [runRead_cons]
    have := hcap cap hmem
    simp only [List.getLast_singleton]
    omega

theorem mergeEntry_ok (hcap : ∀ cap ∈ vm.maxReadBytes, vm.unitSize ≤ cap)
    {runs : List (List (ℕ × ℕ))} (entry : ℕ × ℕ) (h : ∀ run ∈ runs, vm.RunOk run) :
    (∀ run ∈ vm.mergeEntry runs entry, vm.RunOk run) ∧
      (vm.mergeEntry runs entry).flatten = runs.flatten ++ [entry] := by
  have hnew : (∀ run ∈ runs ++ [[entry]], vm.RunOk run) ∧
      (runs ++ [[entry]]).flatten = runs.flatten ++ [entry] := by
    refine ⟨fun run hrun => ?_, by simp⟩
    rcases List.mem_append.mp hrun with hrun | hrun
    · exact h run hrun
    · obtain rfl := List.mem_singleton.mp hrun
      exact runOk_single hcap entry
  unfold mergeEntry
  split
  · rename_i first rest hlast
    split_ifs with hmerge
    · obtain ⟨before, rfl⟩ := List.getLast?_eq_some_iff.mp hlast
      obtain ⟨-, hnext, hfit⟩ := hmerge
      have hold := h (first :: rest) (by simp)
      rw [List.dropLast_concat]
      refine ⟨fun run hrun => ?_, by simp⟩
      rcases List.mem_append.mp hrun with hrun | hrun
      · exact h run (List.mem_append_left _ hrun)
      · obtain rfl := List.mem_singleton.mp hrun
        refine ⟨by simp, ?_, fun d cap hmem => ?_⟩
        · refine List.isChain_append.mpr ⟨hold.consecutive, List.isChain_singleton _, ?_⟩
          intro x hx y hy
          rw [List.getLast?_eq_some_getLast (by simp)] at hx
          obtain rfl := Option.some.inj hx
          obtain rfl := Option.some.inj hy
          exact hnext
        · rw [List.cons_append, runRead_cons]
          simp only [← List.cons_append, List.getLast_append_singleton]
          exact hfit cap hmem
    · exact hnew
  · exact hnew

/-- The merge so far and the entries that follow. -/
theorem foldl_mergeEntry_ok (hcap : ∀ cap ∈ vm.maxReadBytes, vm.unitSize ≤ cap)
    (entries : List (ℕ × ℕ)) {runs : List (List (ℕ × ℕ))} (h : ∀ run ∈ runs, vm.RunOk run) :
    (∀ run ∈ entries.foldl vm.mergeEntry runs, vm.RunOk run) ∧
      (entries.foldl vm.mergeEntry runs).flatten = runs.flatten ++ entries := by
  induction entries generalizing runs with
  | nil => exact ⟨h, by simp⟩
  | cons entry entries ih =>
    obtain ⟨hok, hflat⟩ := mergeEntry_ok hcap entry h
    obtain ⟨hok', hflat'⟩ := ih hok
    exact ⟨hok', by rw [List.foldl_cons, hflat', hflat, List.append_assoc]; rfl⟩

theorem mergeRuns_ok (hcap : ∀ cap ∈ vm.maxReadBytes, vm.unitSize ≤ cap)
    (entries : List (ℕ × ℕ)) :
    (∀ run ∈ vm.mergeRuns entries, vm.RunOk run) ∧ (vm.mergeRuns entries).flatten = entries :=
  foldl_mergeEntry_ok hcap entries (fun run h => by cases h)

/-- The planned runs cover the entries of the buckets, and nothing else. -/
theorem plannedRuns_ok (hcap : ∀ cap ∈ vm.maxReadBytes, vm.unitSize ≤ cap) (buckets : Buckets) :
    (∀ p ∈ vm.plannedRuns buckets, vm.RunOk p.2 ∧
      ∃ group, (p.1, group) ∈ buckets ∧ ∀ e ∈ p.2, e ∈ group) ∧
    ∀ d group, (d, group) ∈ buckets → ∀ e ∈ group,
      ∃ run, (d, run) ∈ vm.plannedRuns buckets ∧ e ∈ run := by
  refine ⟨fun p hp => ?_, fun d group hmem e he => ?_⟩
  · unfold plannedRuns at hp
    obtain ⟨⟨d, group⟩, hmem, hp⟩ := List.mem_flatMap.mp hp
    obtain ⟨run, hrun, rfl⟩ := List.mem_map.mp hp
    obtain ⟨hok, hflat⟩ := mergeRuns_ok hcap (group.mergeSort fun a b => decide (a.2 ≤ b.2))
    refine ⟨hok run hrun, group, hmem, fun e he => ?_⟩
    have hin : e ∈ (vm.mergeRuns (group.mergeSort fun a b => decide (a.2 ≤ b.2))).flatten :=
      List.mem_flatten.mpr ⟨run, hrun, he⟩
    rw [hflat] at hin
    exact List.mem_mergeSort.mp hin
  · obtain ⟨-, hflat⟩ := mergeRuns_ok hcap (group.mergeSort fun a b => decide (a.2 ≤ b.2))
    have hin : e ∈ (vm.mergeRuns (group.mergeSort fun a b => decide (a.2 ≤ b.2))).flatten := by
      rw [hflat]
      exact List.mem_mergeSort.mpr he
    obtain ⟨run, hrun, he⟩ := List.mem_flatten.mp hin
    refine ⟨run, ?_, he⟩
    unfold plannedRuns
    exact List.mem_flatMap.mpr ⟨(d, group), hmem, List.mem_map.mpr ⟨run, hrun, rfl⟩⟩

end Runs

/-- The managers account for the units in use of their devices. -/
structure WF (live : ℕ → List LiveUnit) : Prop where
  mgr : ∀ (d : ℕ) mgr, vm.mgrs[d]? = some mgr → mgr.WF (live d)
  unit : ∀ (d : ℕ) mgr, vm.mgrs[d]? = some mgr → mgr.geo.unitSize = vm.unitSize
  settled : ∀ (d : ℕ) mgr, vm.mgrs[d]? = some mgr → mgr.Settled
  outside : ∀ d : ℕ, vm.mgrs[d]? = none → live d = []
  cap : ∀ cap ∈ vm.maxReadBytes, vm.unitSize ≤ cap
  devices : vm.mgrs.length = vm.strategy.numDevices

section Batch

variable {vm} {live : ℕ → List LiveUnit}

theorem WF.mgr_of_live (hw : vm.WF live) {d : ℕ} {u : LiveUnit} (hu : u ∈ live d) :
    ∃ mgr, vm.mgrs[d]? = some mgr := by
  cases h : vm.mgrs[d]? with
  | none =>
    rw [hw.outside d h] at hu
    cases hu
  | some mgr => exact ⟨mgr, rfl⟩

theorem WF.length_data (hw : vm.WF live) {d : ℕ} {u : LiveUnit} (hu : u ∈ live d) :
    u.data.length = vm.unitSize := by
  obtain ⟨mgr, hmgr⟩ := hw.mgr_of_live hu
  have hm := hw.mgr d mgr hmgr
  have hin := hm.offset_lt hu
  rw [← hm.length_extent] at hin
  rw [← hm.bytes u hu, ← hw.unit d mgr hmgr]
  exact hm.length_unitAt (hm.aligned u hu) hin

/-- The views of `outs` at the positions in `done` hold their units, the others are as they
were. -/
def Filled (units : List (ℕ × LiveUnit)) (outs : List (List UInt8)) (done : List ℕ)
    (s : ReadState) : Prop :=
  ∀ i p out, units[i]? = some p → outs[i]? = some out →
    s.outs[i]? = some (if i ∈ done then splice out 0 p.2.data else out)

variable {units : List (ℕ × LiveUnit)} {outs : List (List UInt8)} {done : List ℕ} {s : ReadState}

/-- The caller asks for units in use, and its views have room for them. -/
structure Asked (vm : VirtualMedia κ) (live : ℕ → List LiveUnit) (units : List (ℕ × LiveUnit))
    (outs : List (List UInt8)) : Prop where
  live : ∀ p ∈ units, p.2 ∈ live p.1
  length_eq : units.length = outs.length
  room : ∀ out ∈ outs, vm.unitSize ≤ out.length

/-- The device holds the unit. -/
def Holds (vm : VirtualMedia κ) (p : ℕ × LiveUnit) : Prop :=
  ∃ mgr, vm.mgrs[p.1]? = some mgr ∧ mgr.geo.unitSize = vm.unitSize ∧
    mgr.unitAt p.2.offset = p.2.data ∧ p.2.offset + vm.unitSize ≤ mgr.extent.length

/-- There is a view for each unit, with room for it. -/
structure Fitting (vm : VirtualMedia κ) (units : List (ℕ × LiveUnit)) (outs : List (List UInt8)) :
    Prop where
  length_data : ∀ p ∈ units, p.2.data.length = vm.unitSize
  length_eq : units.length = outs.length
  room : ∀ out ∈ outs, vm.unitSize ≤ out.length

structure Found (vm : VirtualMedia κ) (units : List (ℕ × LiveUnit)) (outs : List (List UInt8)) :
    Prop extends Fitting vm units outs where
  holds : ∀ p ∈ units, vm.Holds p

theorem WF.holds (hw : vm.WF live) {d : ℕ} {u : LiveUnit} (hu : u ∈ live d) :
    vm.Holds (d, u) := by
  obtain ⟨mgr, hmgr⟩ := hw.mgr_of_live hu
  have hm := hw.mgr _ mgr hmgr
  have hunit := hw.unit _ mgr hmgr
  refine ⟨mgr, hmgr, hunit, hm.bytes _ hu, ?_⟩
  rw [hm.length_extent, ← hunit]
  exact hm.offset_lt hu

theorem Asked.found (ha : Asked vm live units outs) (hw : vm.WF live) : Found vm units outs where
  length_data p hp := hw.length_data (ha.live p hp)
  length_eq := ha.length_eq
  room := ha.room
  holds p hp := hw.holds (ha.live p hp)

theorem Found.mgr (hf : Found vm units outs) {i d : ℕ} {u : LiveUnit}
    {mgr : DeviceSegmentManager} (hu : units[i]? = some (d, u)) (hmgr : vm.mgrs[d]? = some mgr) :
    mgr.geo.unitSize = vm.unitSize ∧ mgr.unitAt u.offset = u.data ∧
      u.offset + vm.unitSize ≤ mgr.extent.length := by
  obtain ⟨mgr', hmgr', hrest⟩ := hf.holds _ (List.mem_of_getElem? hu)
  obtain rfl := Option.some.inj (hmgr.symm.trans hmgr')
  exact hrest

theorem assign_filled (hf : Fitting vm units outs) (hs : Filled units outs done s) {pos : ℕ}
    {p : ℕ × LiveUnit} (hpos : units[pos]? = some p) :
    ∃ s', vm.assign pos p.2.data s = (.ok (), s') ∧ Filled units outs (pos :: done) s' ∧
      s'.reads = s.reads := by
  have hlt : pos < outs.length := by
    rw [← hf.length_eq]
    exact (List.getElem?_eq_some_iff.mp hpos).1
  obtain ⟨out, hout⟩ : ∃ out, outs[pos]? = some out := ⟨_, List.getElem?_eq_getElem hlt⟩
  have hroom := hf.room out (List.mem_of_getElem? hout)
  have hlen := hf.length_data p (List.mem_of_getElem? hpos)
  have hsame : ∀ out', (out' = out ∨ out' = splice out 0 p.2.data) →
      out'.length = out.length ∧ splice out' 0 p.2.data = splice out 0 p.2.data := by
    rintro out' (rfl | rfl)
    · exact ⟨rfl, rfl⟩
    · exact ⟨length_splice (by omega), splice_start_twice _ _⟩
  obtain ⟨hlen', hsplice⟩ := hsame (if pos ∈ done then splice out 0 p.2.data else out) (by
    split_ifs
    · exact .inr rfl
    · exact .inl rfl)
  have hcur := hs pos p out hpos hout
  refine ⟨{ s with outs := s.outs.set pos (splice out 0 p.2.data) }, ?_, ?_, rfl⟩
  · unfold assign
    simp only [Fallible.get_bind, hcur, hlen', hlen]
    rw [if_neg (by omega), hsplice]
    rfl
  · intro i q o hq ho
    dsimp only
    rw [List.getElem?_set]
    by_cases he : pos = i
    · subst he
      obtain rfl := Option.some.inj (hpos.symm.trans hq)
      obtain rfl := Option.some.inj (hout.symm.trans ho)
      rw [if_pos rfl, if_pos (List.getElem?_eq_some_iff.mp hcur).1, if_pos List.mem_cons_self]
    · rw [if_neg he, hs i q o hq ho]
      simp [Ne.symm he]

section Scan

/-- The device has a bucket with the entry. -/
def InBucket (buckets : Buckets) (d : ℕ) (entry : ℕ × ℕ) : Prop :=
  ∃ group, (d, group) ∈ buckets ∧ entry ∈ group

theorem inBucket_add {buckets : Buckets} {d d' : ℕ} {entry entry' : ℕ × ℕ} :
    InBucket (addToBucket d entry buckets) d' entry' ↔
      d' = d ∧ entry' = entry ∨ InBucket buckets d' entry' := by
  unfold InBucket
  induction buckets with
  | nil => simp [addToBucket]
  | cons p rest ih =>
    obtain ⟨d₀, group⟩ := p
    unfold addToBucket
    split_ifs with he
    · subst he
      simp only [List.mem_cons, Prod.mk.injEq]
      constructor
      · rintro ⟨g, ⟨rfl, rfl⟩ | hg, he⟩
        · rcases List.mem_append.mp he with he | he
          · exact .inr ⟨group, .inl ⟨rfl, rfl⟩, he⟩
          · exact .inl ⟨rfl, List.mem_singleton.mp he⟩
        · exact .inr ⟨g, .inr hg, he⟩
      · rintro (⟨rfl, rfl⟩ | ⟨g, ⟨rfl, rfl⟩ | hg, he⟩)
        · exact ⟨_, .inl ⟨rfl, rfl⟩, by simp⟩
        · exact ⟨_, .inl ⟨rfl, rfl⟩, List.mem_append_left _ he⟩
        · exact ⟨g, .inr hg, he⟩
    · simp only [List.mem_cons, or_and_right, exists_or, ih]
      exact or_left_comm

/-- An entry of a bucket is a unit of the batch that is on its device. -/
def BucketsOk (vm : VirtualMedia κ) (units : List (ℕ × LiveUnit)) (buckets : Buckets) : Prop :=
  ∀ d entry, InBucket buckets d entry → ∃ u mgr, units[entry.1]? = some (d, u) ∧
    u.offset = entry.2 ∧ vm.mgrs[d]? = some mgr ∧ ¬ mgr.Buffered (mgr.geo.segmentOf u.offset)

/-- An item and its position in the batch. -/
def IsItem (units : List (ℕ × LiveUnit)) (item : (ℕ × ℕ) × ℕ) : Prop :=
  ∃ u, units[item.2]? = some (item.1.1, u) ∧ u.offset = item.1.2

/-- Every unit of the batch is in its view or in a bucket. -/
theorem scan_filled (hf : Found vm units outs) {items : List ((ℕ × ℕ) × ℕ)}
    (hitems : ∀ item ∈ items, IsItem units item) {buckets : Buckets}
    (hs : Filled units outs done s) (hb : BucketsOk vm units buckets) :
    ∃ buckets' s' done', vm.scan items buckets s = (.ok buckets', s') ∧
      Filled units outs done' s' ∧ BucketsOk vm units buckets' ∧ s'.reads = s.reads ∧
      (∀ i ∈ done, i ∈ done') ∧ (∀ d e, InBucket buckets d e → InBucket buckets' d e) ∧
      ∀ item ∈ items, item.2 ∈ done' ∨ InBucket buckets' item.1.1 (item.2, item.1.2) := by
  induction items generalizing buckets done s with
  | nil =>
    exact ⟨buckets, s, done, rfl, hs, hb, rfl, fun i hi => hi, fun d e he => he, by simp⟩
  | cons item items ih =>
    obtain ⟨⟨d, offset⟩, pos⟩ := item
    obtain ⟨u, hu, hoff⟩ := hitems _ List.mem_cons_self
    have hrest : ∀ item ∈ items, IsItem units item :=
      fun item hmem => hitems item (List.mem_cons_of_mem _ hmem)
    dsimp only at hu hoff
    subst hoff
    have hdata := hf.length_data _ (List.mem_of_getElem? hu)
    obtain ⟨mgr, hmgr, hunit, hbytes, -⟩ := hf.holds _ (List.mem_of_getElem? hu)
    dsimp only at hdata hmgr hbytes
    have hlt : pos < outs.length := by
      rw [← hf.length_eq]
      exact (List.getElem?_eq_some_iff.mp hu).1
    have hout : outs[pos]? = some outs[pos] := List.getElem?_eq_getElem hlt
    have hcur := hs pos _ _ hu hout
    have hroom := hf.room _ (List.mem_of_getElem? hout)
    have hlong : ∀ done : List ℕ, vm.unitSize ≤
        (if pos ∈ done then splice outs[pos] 0 u.data else outs[pos]).length := by
      intro done
      split_ifs
      · rw [length_splice (by omega)]
        exact hroom
      · exact hroom
    unfold scan
    simp only [Fallible.get_bind, hmgr, hcur]
    rw [if_neg (Nat.not_lt.mpr (hlong done))]
    cases hread : mgr.readBuffer u.offset vm.unitSize with
    | some data =>
      have hdata : data = u.data := by
        rw [← hbytes]
        unfold DeviceSegmentManager.unitAt
        rw [hunit, hread]
        rfl
      subst hdata
      obtain ⟨s₁, hassign, hs₁, hreads⟩ := assign_filled hf.toFitting hs hu
      obtain ⟨buckets', s', done', hscan, hs', hb', hreads', hdone, hkeep, hall⟩ := ih hrest hs₁ hb
      refine ⟨buckets', s', done', ?_, hs', hb', hreads'.trans hreads,
        fun i hi => hdone i (List.mem_cons_of_mem _ hi), hkeep, ?_⟩
      · dsimp only
        rw [Fallible.bind_eq, hassign]
        exact hscan
      · intro item hmem
        rcases List.mem_cons.mp hmem with rfl | hmem
        · exact .inl (hdone pos List.mem_cons_self)
        · exact hall item hmem
    | none =>
      have hnot : ¬ mgr.Buffered (mgr.geo.segmentOf u.offset) := by
        rw [← DeviceSegmentManager.readBuffer_isSome_iff vm.unitSize, hread]
        exact Bool.false_ne_true
      have hb₁ : BucketsOk vm units (addToBucket d (pos, u.offset) buckets) := by
        intro d' e he
        rcases inBucket_add.mp he with ⟨rfl, rfl⟩ | he
        · exact ⟨u, mgr, hu, rfl, hmgr, hnot⟩
        · exact hb d' e he
      obtain ⟨buckets', s', done', hscan, hs', hb', hreads', hdone, hkeep, hall⟩ := ih hrest hs hb₁
      refine ⟨buckets', s', done', hscan, hs', hb', hreads', hdone,
        fun d' e he => hkeep d' e (inBucket_add.mpr (.inr he)), ?_⟩
      intro item hmem
      rcases List.mem_cons.mp hmem with rfl | hmem
      · exact .inr (hkeep d _ (inBucket_add.mpr (.inl ⟨rfl, rfl⟩)))
      · exact hall item hmem

end Scan

section Scatter

variable {d : ℕ} {mgr : DeviceSegmentManager} {first : ℕ × ℕ} {rest : List (ℕ × ℕ)}

/-- The entries of a run are units of the batch on one device. -/
def RunUnits (vm : VirtualMedia κ) (units : List (ℕ × LiveUnit)) (d : ℕ) (run : List (ℕ × ℕ)) :
    Prop :=
  ∀ entry ∈ run, ∃ u mgr, units[entry.1]? = some (d, u) ∧ u.offset = entry.2 ∧
    vm.mgrs[d]? = some mgr ∧ ¬ mgr.Buffered (mgr.geo.segmentOf u.offset)

/-- What the extent has where the read goes. -/
def content (vm : VirtualMedia κ) (r : DeviceRead) : List UInt8 :=
  match vm.mgrs[r.device]? with
  | none => []
  | some mgr => slice mgr.extent r.start r.len

/-- The read of a run stays inside the extent. -/
theorem readInto_run (hf : Found vm units outs) {run : List (ℕ × ℕ)}
    (hrun : vm.RunOk run) (hunits : RunUnits vm units d run) :
    (∃ mgr, vm.mgrs[d]? = some mgr ∧
      (vm.runRead d run).start + (vm.runRead d run).len ≤ mgr.extent.length) ∧
    vm.readInto (vm.runRead d run) = .ok (vm.content (vm.runRead d run)) := by
  cases run with
  | nil => exact absurd rfl hrun.nonempty
  | cons first rest =>
    obtain ⟨u, mgr, hu, hoff, hmgr, -⟩ := hunits _ (List.getLast_mem (List.cons_ne_nil first rest))
    have hend := (hf.mgr hu hmgr).2.2
    have hbound := (hrun.consecutive.bounds _ (List.getLast_mem (List.cons_ne_nil first rest))).1
    have hfit : (vm.runRead d (first :: rest)).start + (vm.runRead d (first :: rest)).len ≤
        mgr.extent.length := by
      rw [runRead_cons]
      rw [hoff] at hend
      dsimp only
      omega
    refine ⟨⟨mgr, hmgr, hfit⟩, ?_⟩
    have hdev : (vm.runRead d (first :: rest)).device = d := rfl
    unfold readInto content
    rw [hdev, hmgr]
    exact if_pos hfit

/-- A piece of what was read for a run is the unit of its entry. -/
theorem slice_content (hf : Found vm units outs) {run : List (ℕ × ℕ)}
    (hrun : vm.RunOk run) (hunits : RunUnits vm units d run) {entry : ℕ × ℕ} (he : entry ∈ run) :
    ∃ u, units[entry.1]? = some (d, u) ∧
      slice (vm.content (vm.runRead d run)) (entry.2 - (vm.runRead d run).start) vm.unitSize =
        u.data := by
  cases run with
  | nil => cases he
  | cons first rest =>
    obtain ⟨u, mgr, hu, hoff, hmgr, hnot⟩ := hunits entry he
    obtain ⟨hunit, hbytes, -⟩ := hf.mgr hu hmgr
    obtain ⟨hlow, hhigh⟩ := hrun.consecutive.bounds entry he
    refine ⟨u, hu, ?_⟩
    rw [← hbytes, DeviceSegmentManager.unitAt_extent hnot, hunit, hoff]
    unfold content
    rw [runRead_cons, hmgr]
    dsimp only
    rw [slice_slice (by omega), Nat.add_sub_cancel' hlow]

theorem scatterRun_filled (hf : Found vm units outs) {staging : List UInt8}
    {start : ℕ} {run : List (ℕ × ℕ)}
    (hpieces : ∀ entry ∈ run, ∃ u, units[entry.1]? = some (d, u) ∧
      slice staging (entry.2 - start) vm.unitSize = u.data)
    (hs : Filled units outs done s) :
    ∃ s' done', vm.scatterRun staging start run s = (.ok (), s') ∧
      Filled units outs done' s' ∧ s'.reads = s.reads ∧ (∀ i ∈ done, i ∈ done') ∧
      ∀ entry ∈ run, entry.1 ∈ done' := by
  induction run generalizing s done with
  | nil => exact ⟨s, done, rfl, hs, rfl, fun i hi => hi, by simp⟩
  | cons entry run ih =>
    obtain ⟨u, hu, hdata⟩ := hpieces entry List.mem_cons_self
    obtain ⟨s₁, hassign, hs₁, hreads⟩ := assign_filled hf.toFitting hs hu
    obtain ⟨s', done', hrest, hs', hreads', hdone, hall⟩ :=
      ih (fun e he => hpieces e (List.mem_cons_of_mem _ he)) hs₁
    refine ⟨s', done', ?_, hs', hreads'.trans hreads,
      fun i hi => hdone i (List.mem_cons_of_mem _ hi), ?_⟩
    · unfold scatterRun
      rw [hdata, Fallible.bind_eq, hassign]
      exact hrest
    · intro e he
      rcases List.mem_cons.mp he with rfl | he
      · exact hdone _ List.mem_cons_self
      · exact hall e he

theorem scatter_filled (hf : Found vm units outs)
    {runs : List (ℕ × List (ℕ × ℕ))}
    (hruns : ∀ p ∈ runs, vm.RunOk p.2 ∧ RunUnits vm units p.1 p.2)
    (hs : Filled units outs done s) :
    ∃ s' done', vm.scatter (runs.map fun p => vm.content (vm.runRead p.1 p.2)) runs s =
        (.ok (), s') ∧
      Filled units outs done' s' ∧ s'.reads = s.reads ∧ (∀ i ∈ done, i ∈ done') ∧
      ∀ p ∈ runs, ∀ entry ∈ p.2, entry.1 ∈ done' := by
  induction runs generalizing s done with
  | nil => exact ⟨s, done, rfl, hs, rfl, fun i hi => hi, by simp⟩
  | cons p runs ih =>
    obtain ⟨d, run⟩ := p
    obtain ⟨hrun, hunits⟩ := hruns _ List.mem_cons_self
    obtain ⟨s₁, done₁, hfirst, hs₁, hreads, hdone, hall⟩ :=
      scatterRun_filled hf (fun entry he => slice_content hf hrun hunits he) hs
    obtain ⟨s', done', hrest, hs', hreads', hdone', hall'⟩ :=
      ih (fun q hq => hruns q (List.mem_cons_of_mem _ hq)) hs₁
    refine ⟨s', done', ?_, hs', hreads'.trans hreads, fun i hi => hdone' i (hdone i hi), ?_⟩
    · rw [List.map_cons]
      unfold scatter
      rw [Fallible.bind_eq, hfirst]
      exact hrest
    · intro q hq entry he
      rcases List.mem_cons.mp hq with rfl | hq
      · exact hdone' _ (hall entry he)
      · exact hall' q hq entry he

end Scatter

/-- A read that the devices allow. -/
def ReadOk (vm : VirtualMedia κ) (r : DeviceRead) : Prop :=
  (∀ cap ∈ vm.maxReadBytes, r.len ≤ cap) ∧
    ∃ mgr, vm.mgrs[r.device]? = some mgr ∧ r.start + r.len ≤ mgr.extent.length

/-- Every view gets the bytes of its unit. -/
theorem Found.readBatch (hf : Found vm units outs)
    (hcap : ∀ cap ∈ vm.maxReadBytes, vm.unitSize ≤ cap) (reads : List DeviceRead) :
    ∃ s', vm.readBatch (units.map fun p => (p.1, p.2.offset)) ⟨outs, reads⟩ = (.ok (), s') ∧
      (∀ (i : ℕ) p out, units[i]? = some p → outs[i]? = some out →
        s'.outs[i]? = some (p.2.data ++ out.drop vm.unitSize)) ∧
      ∃ new, s'.reads = reads ++ new ∧ ∀ r ∈ new, vm.ReadOk r := by
  have hstart : Filled units outs [] ⟨outs, reads⟩ := by
    intro i p out hp hout
    simpa using hout
  have hitem : ∀ item ∈ (units.map fun p => (p.1, p.2.offset)).zipIdx, IsItem units item := by
    rintro ⟨⟨d, offset⟩, pos⟩ hmem
    have hget := List.mem_zipIdx_iff_getElem?.mp hmem
    rw [List.getElem?_map, Option.map_eq_some_iff] at hget
    obtain ⟨⟨d', u⟩, hp, he⟩ := hget
    obtain ⟨rfl, rfl⟩ := Prod.mk.inj he
    exact ⟨u, hp, rfl⟩
  have hempty : BucketsOk vm units [] := by
    rintro d e ⟨group, hmem, -⟩
    cases hmem
  obtain ⟨buckets, s₁, done₁, hscan, hs₁, hbuckets, hreads₁, -, -, hall⟩ :=
    scan_filled hf hitem hstart hempty
  obtain ⟨hplan, hcover⟩ := plannedRuns_ok hcap buckets
  have hruns : ∀ p ∈ vm.plannedRuns buckets, vm.RunOk p.2 ∧ RunUnits vm units p.1 p.2 := by
    intro p hp
    obtain ⟨hok, group, hmem, hsub⟩ := hplan p hp
    exact ⟨hok, fun entry he => hbuckets p.1 entry ⟨group, hmem, hsub entry he⟩⟩
  have hmapM : ((vm.plannedRuns buckets).map fun p => vm.runRead p.1 p.2).mapM vm.readInto =
      .ok (((vm.plannedRuns buckets).map fun p => vm.runRead p.1 p.2).map vm.content) := by
    refine mapM_ok fun r hr => ?_
    obtain ⟨p, hp, rfl⟩ := List.mem_map.mp hr
    exact (readInto_run hf (hruns p hp).1 (hruns p hp).2).2
  rw [List.map_map] at hmapM
  have hs₂ : Filled units outs done₁ { s₁ with
      reads := s₁.reads ++ (vm.plannedRuns buckets).map fun p => vm.runRead p.1 p.2 } := hs₁
  obtain ⟨s', done', hscatter, hs', hreads', hdone, hall'⟩ := scatter_filled hf hruns hs₂
  refine ⟨s', ?_, ?_, _, hreads'.trans (congrArg (· ++ _) hreads₁), ?_⟩
  · unfold VirtualMedia.readBatch
    rw [Fallible.get_bind, List.length_map, if_neg (not_not.mpr hf.length_eq), Fallible.bind_eq,
      hscan]
    simp only [Fallible.get_bind, Fallible.set_bind, hmapM]
    exact hscatter
  · intro i p out hp hout
    have hin : ((p.1, p.2.offset), i) ∈ (units.map fun p => (p.1, p.2.offset)).zipIdx := by
      refine List.mem_zipIdx_iff_getElem?.mpr ?_
      rw [List.getElem?_map, hp]
      rfl
    have hdone_i : i ∈ done' := by
      rcases hall _ hin with h | ⟨group, hmem, he⟩
      · exact hdone i h
      · obtain ⟨run, hrun, he⟩ := hcover _ group hmem _ he
        exact hall' _ hrun _ he
    rw [hs' i p out hp hout, if_pos hdone_i, splice_start,
      hf.length_data p (List.mem_of_getElem? hp)]
  · intro r hr
    obtain ⟨p, hp, rfl⟩ := List.mem_map.mp hr
    obtain ⟨hok, hunits⟩ := hruns p hp
    exact ⟨fun cap hcap => hok.capped p.1 cap hcap, (readInto_run hf hok hunits).1⟩

theorem WF.readBatch (hw : vm.WF live) (ha : Asked vm live units outs) (reads : List DeviceRead) :
    ∃ s', vm.readBatch (units.map fun p => (p.1, p.2.offset)) ⟨outs, reads⟩ = (.ok (), s') ∧
      (∀ (i : ℕ) p out, units[i]? = some p → outs[i]? = some out →
        s'.outs[i]? = some (p.2.data ++ out.drop vm.unitSize)) ∧
      ∃ new, s'.reads = reads ++ new ∧ ∀ r ∈ new, vm.ReadOk r :=
  (ha.found hw).readBatch hw.cap reads

section Inside

/-- A scan that succeeded put every unit that is not in a buffer in a bucket. -/
theorem scan_ok {items : List ((ℕ × ℕ) × ℕ)} {buckets buckets' : Buckets} {s s' : ReadState}
    (h : vm.scan items buckets s = (.ok buckets', s')) :
    (∀ d e, InBucket buckets d e → InBucket buckets' d e) ∧
      ∀ item ∈ items, ∃ mgr, vm.mgrs[item.1.1]? = some mgr ∧
        (mgr.Buffered (mgr.geo.segmentOf item.1.2) ∨
          InBucket buckets' item.1.1 (item.2, item.1.2)) := by
  induction items generalizing buckets s with
  | nil =>
    obtain ⟨he, -⟩ := Prod.mk.inj h
    cases he
    exact ⟨fun d e he => he, by simp⟩
  | cons item items ih =>
    obtain ⟨⟨d, offset⟩, pos⟩ := item
    unfold scan at h
    rw [Fallible.get_bind] at h
    cases hmgr : vm.mgrs[d]? with
    | none =>
      rw [hmgr] at h
      cases h
    | some mgr =>
      cases hout : s.outs[pos]? with
      | none =>
        rw [hmgr, hout] at h
        cases h
      | some out =>
        simp only [hmgr, hout] at h
        split_ifs at h with hroom
        · cases h
        · cases hread : mgr.readBuffer offset vm.unitSize with
          | some data =>
            simp only [hread] at h
            have hbuf : mgr.Buffered (mgr.geo.segmentOf offset) := by
              rw [← DeviceSegmentManager.readBuffer_isSome_iff vm.unitSize, hread]
              rfl
            rcases Fallible.bind_cases h with ⟨e, -, he⟩ | ⟨u, s₁, -, hrest⟩
            · cases he
            · obtain ⟨hkeep, hall⟩ := ih hrest
              refine ⟨hkeep, ?_⟩
              intro item hmem
              rcases List.mem_cons.mp hmem with rfl | hmem
              · exact ⟨mgr, hmgr, .inl hbuf⟩
              · exact hall item hmem
          | none =>
            simp only [hread] at h
            obtain ⟨hkeep, hall⟩ := ih h
            refine ⟨fun d' e he => hkeep d' e (inBucket_add.mpr (.inr he)), ?_⟩
            intro item hmem
            rcases List.mem_cons.mp hmem with rfl | hmem
            · exact ⟨mgr, hmgr, .inr (hkeep d _ (inBucket_add.mpr (.inl ⟨rfl, rfl⟩)))⟩
            · exact hall item hmem

/-- The read of a run covers its entries. -/
theorem runRead_covers {run : List (ℕ × ℕ)} (hrun : vm.RunOk run) (d : ℕ) {entry : ℕ × ℕ}
    (he : entry ∈ run) :
    entry.2 + vm.unitSize ≤ (vm.runRead d run).start + (vm.runRead d run).len := by
  cases run with
  | nil => cases he
  | cons first rest =>
    obtain ⟨hlow, hhigh⟩ := hrun.consecutive.bounds entry he
    rw [runRead_cons]
    dsimp only
    omega

/-- What a batch that succeeded asked for is in a buffer, or inside the extent. -/
theorem readBatch_inside (hcap : ∀ cap ∈ vm.maxReadBytes, vm.unitSize ≤ cap)
    {items : List (ℕ × ℕ)} {s s' : ReadState} (h : vm.readBatch items s = (.ok (), s'))
    {item : ℕ × ℕ} (hitem : item ∈ items) :
    ∃ mgr, vm.mgrs[item.1]? = some mgr ∧ (mgr.Buffered (mgr.geo.segmentOf item.2) ∨
      item.2 + vm.unitSize ≤ mgr.extent.length) := by
  unfold VirtualMedia.readBatch at h
  rw [Fallible.get_bind] at h
  split_ifs at h
  · cases h
  rcases Fallible.bind_cases h with ⟨e, -, he⟩ | ⟨buckets, s₁, hscan, hrest⟩
  · cases he
  simp only [Fallible.get_bind, Fallible.set_bind] at hrest
  obtain ⟨pos, hpos⟩ := List.mem_iff_getElem?.mp hitem
  obtain ⟨mgr, hmgr, hbuf | ⟨group, hgroup, hentry⟩⟩ := (scan_ok hscan).2 (item, pos)
    (List.mem_zipIdx_iff_getElem?.mpr hpos)
  · exact ⟨mgr, hmgr, .inl hbuf⟩
  refine ⟨mgr, hmgr, .inr ?_⟩
  obtain ⟨hplan, hcover⟩ := plannedRuns_ok hcap buckets
  obtain ⟨run, hrun, hin⟩ := hcover _ group hgroup _ hentry
  have hcovers := runRead_covers (hplan _ hrun).1 item.1 hin
  have hreads : ∃ stagings, ((vm.plannedRuns buckets).map fun p => vm.runRead p.1 p.2).mapM
      vm.readInto = .ok stagings := by
    cases hreads : ((vm.plannedRuns buckets).map fun p => vm.runRead p.1 p.2).mapM
        vm.readInto with
    | error e =>
      rw [hreads] at hrest
      cases hrest
    | ok stagings => exact ⟨stagings, rfl⟩
  obtain ⟨stagings, hreads⟩ := hreads
  obtain ⟨staging, hread⟩ := mapM_mem_ok hreads
    (List.mem_map_of_mem (f := fun p => vm.runRead p.1 p.2) hrun)
  have hdev : (vm.runRead item.1 run).device = item.1 := rfl
  unfold readInto at hread
  dsimp only at hread hcovers hmgr
  rw [hdev, hmgr] at hread
  dsimp only at hread
  split_ifs at hread with hfit
  exact hcovers.trans hfit

end Inside

end Batch

end VirtualMedia

end Umm
