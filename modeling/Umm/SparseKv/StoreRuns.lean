import Umm.SparseKv.StorePlan

/-! Runs of the store: it is a map from layer and token to bytes, as long as the addresses of the
units fit the entries of its table. -/
namespace Umm
open Umm.Lib

namespace DeviceSegmentManager

variable {m m' : DeviceSegmentManager} {live : List LiveUnit}

/-- Every unit is held by one segment. -/
theorem sum_held {geo : Geometry} {units : List LiveUnit}
    (hin : ∀ u ∈ units, geo.segmentOf u.offset < geo.nSeg) :
    ∑ seg ∈ Finset.range geo.nSeg, held geo units seg = units.length := by
  induction units with
  | nil => simp [held]
  | cons u units ih =>
    have hrest := ih fun v hv => hin v (List.mem_cons_of_mem _ hv)
    have hu := hin u List.mem_cons_self
    simp only [held, List.countP_cons, decide_eq_true_eq] at hrest ⊢
    rw [Finset.sum_add_distrib, hrest, Finset.sum_ite_eq, if_pos (Finset.mem_range.mpr hu),
      List.length_cons]

/-- The reference counts are the units in use. -/
theorem WF.refcount_sum (hw : m.WF live) : m.refcount.sum = live.length := by
  have hlist : m.refcount = (List.range m.geo.nSeg).map fun seg => (held m.geo live seg : ℤ) := by
    refine List.ext_getElem? fun seg => ?_
    rw [List.getElem?_map]
    by_cases hseg : seg < m.geo.nSeg
    · rw [hw.refcount_eq seg hseg, List.getElem?_range hseg]
      rfl
    · rw [List.getElem?_eq_none (by rw [hw.length_refcount]; omega),
        List.getElem?_eq_none (by rw [List.length_range]; omega)]
      rfl
  rw [hlist, ← sum_held hw.inside]
  push_cast
  rfl

/-- A flush whose write succeeds. -/
theorem WF.flush_done (hw : m.WF live) : ∃ m', DeviceSegmentManager.flush .done m = (.ok (), m') := by
  unfold DeviceSegmentManager.flush
  rw [Fallible.get_bind]
  cases hb : m.buf with
  | none => exact ⟨m, rfl⟩
  | some b =>
    dsimp only
    split_ifs
    · unfold DeviceSegmentManager.flushLocked
      rw [Fallible.get_bind, Fallible.set_bind]
      simp only [Fallible.get_bind, hw.refcount_eq b.seg (hw.buf_lt b hb)]
      exact ⟨_, rfl⟩
    · exact ⟨m, rfl⟩

end DeviceSegmentManager

namespace VirtualMedia

variable {κ : Type} {vm : VirtualMedia κ} {live : ℕ → List LiveUnit}

theorem WF.flushDevices_done (hw : vm.WF live) {ds : List ℕ} (hds : ∀ d ∈ ds, d < vm.mgrs.length) :
    ∃ vm', VirtualMedia.flushDevices (fun _ => .done) ds vm = (.ok (), vm') := by
  induction ds generalizing vm with
  | nil => exact ⟨vm, rfl⟩
  | cons d ds ih =>
    have hlt := hds d List.mem_cons_self
    have hmgr := List.getElem?_eq_getElem hlt
    cases hone : onDevice d (DeviceSegmentManager.flush .done) vm with
    | mk r vm₁ =>
      obtain ⟨mgr', hflush⟩ := (hw.mgr d _ hmgr).flush_done
      obtain ⟨hcall, -⟩ := onDevice_cases hmgr hone
      rw [hflush] at hcall
      obtain ⟨rfl, -⟩ := Prod.mk.inj hcall
      obtain ⟨hsame, hw₁, -, -⟩ := hw.flushDevice hlt hone
      obtain ⟨vm', hrest⟩ := ih hw₁ fun d' hd' => by
        rw [hsame.length_mgrs]
        exact hds d' (List.mem_cons_of_mem _ hd')
      refine ⟨vm', ?_⟩
      unfold VirtualMedia.flushDevices
      rw [Fallible.bind_eq, hone]
      exact hrest

end VirtualMedia

namespace SparseKVStore

variable {st st' : SparseKVStore} {live : ℕ → List LiveUnit}

/-- The store is a map: what is valid is fetched and located with the bytes of its latest offload,
anything else is refused, and no unit is lost. -/
structure Sound (st : SparseKVStore) : Prop where
  fetched : ∀ (l : ℕ) (ts : List ℕ) (outs : List (List UInt8)) (reads : List DeviceRead),
    l < st.table.numLayers → (∀ t ∈ ts, t < st.table.maxTokens) → (∀ t ∈ ts, st.Valid l t) →
    outs.length = ts.length → (∀ out ∈ outs, st.vm.unitSize ≤ out.length) →
    ∃ s', st.fetch l (ts.map Nat.cast) ⟨outs, reads⟩ = (.ok (), s') ∧
      ∀ (i t : ℕ) out, ts[i]? = some t → outs[i]? = some out → ∃ data,
        st.latest l t = some data ∧ data.length = st.vm.unitSize ∧
          s'.outs[i]? = some (data ++ out.drop st.vm.unitSize)
  refused : ∀ (l : ℕ) (ts : List ℕ) (s : ReadState), l < st.table.numLayers →
    (∀ t ∈ ts, t < st.table.maxTokens) → (∃ t ∈ ts, ¬ st.Valid l t) →
    ∃ e s', st.fetch l (ts.map Nat.cast) s = (.error e, s')
  planned : ∀ (extentBase : ℕ → ℕ) (l : ℕ) (ts : List ℕ) (q : Except StoreError PlanView)
    (st' : SparseKVStore), l < st.table.numLayers → (∀ t ∈ ts, t < st.table.maxTokens) →
    plan extentBase l (ts.map Nat.cast) st = (q, st') →
    (∀ view, q = .ok view → view.count = ts.length ∧ ∀ i t : ℕ, ts[i]? = some t →
      st.Valid l t ∧ ∃ pe data, view.entry st'.descBuf i = some pe ∧
        st.latest l t = some data ∧ Located extentBase i (st.deviceOf l t) data st' pe) ∧
    (Addressable extentBase st → ts.length ≤ st.maxTopk → (∀ t ∈ ts, st.Valid l t) →
      ∃ view, q = .ok view)
  counted : (st.vm.mgrs.map fun mgr => mgr.refcount.sum).sum = (st.table.validCount : ℤ)
  released : ∀ (l : ℕ) (ts : List ℕ), l < st.table.numLayers →
    (∀ t ∈ ts, t < st.table.maxTokens) → ∃ st', release l (ts.map Nat.cast) st = (.ok (), st') ∧
      ∀ l' t : ℕ, st'.Valid l' t ↔ st.Valid l' t ∧ ¬ (l' = l ∧ t ∈ ts)
  recycled : (∀ l t, ¬ st.Valid l t) → ∃ st', flush (fun _ => .done) st = (.ok (), st') ∧
    ∀ mgr ∈ st'.vm.mgrs, ∀ seg < mgr.geo.nSeg, seg ∈ mgr.free

theorem WF.counted (hw : st.WF live) :
    (st.vm.mgrs.map fun mgr => mgr.refcount.sum).sum = (st.table.validCount : ℤ) := by
  have hmap : (st.vm.mgrs.map fun mgr => mgr.refcount.sum) =
      (List.range st.vm.mgrs.length).map fun d => ((live d).length : ℤ) := by
    refine List.ext_getElem? fun d => ?_
    rw [List.getElem?_map, List.getElem?_map]
    cases hmgr : st.vm.mgrs[d]? with
    | none =>
      rw [List.getElem?_eq_none_iff] at hmgr
      rw [List.getElem?_eq_none (by rw [List.length_range]; omega)]
      rfl
    | some mgr =>
      rw [List.getElem?_range (List.getElem?_eq_some_iff.mp hmgr).1]
      exact congrArg some (hw.media.mgr d mgr hmgr).refcount_sum
  rw [hmap, ← hw.count]
  push_cast
  rfl

/-- Without valid tokens no unit is in use. -/
theorem WF.none_live (hw : st.WF live) (h : ∀ l t, ¬ st.Valid l t) (d : ℕ) : live d = [] := by
  have hzero : st.table.validCount = 0 := by
    rw [SlotTable.validCount_eq_zero]
    intro l t e he
    cases hv : entryValid e with
    | false => rfl
    | true => exact absurd ⟨e, he, hv⟩ (h l t)
  have hsum := hw.count
  rw [hzero, Finset.sum_eq_zero_iff] at hsum
  by_cases hd : d < st.vm.mgrs.length
  · exact List.length_eq_zero_iff.mp (hsum d (Finset.mem_range.mpr hd))
  · exact hw.media.outside d (List.getElem?_eq_none (by omega))

theorem WF.recycled (hw : st.WF live) (h : ∀ l t, ¬ st.Valid l t) :
    ∃ st', SparseKVStore.flush (fun _ => .done) st = (.ok (), st') ∧
      ∀ mgr ∈ st'.vm.mgrs, ∀ seg < mgr.geo.nSeg, seg ∈ mgr.free := by
  obtain ⟨vm', hflush⟩ := hw.media.flushDevices_done
    fun d (hd : d ∈ List.range st.vm.mgrs.length) => List.mem_range.mp hd
  have hvm : VirtualMedia.flush (fun _ => .done) st.vm = (.ok (), vm') := hflush
  have hst : SparseKVStore.flush (fun _ => .done) st = (.ok (), { st with vm := vm' }) := by
    unfold SparseKVStore.flush onMedia
    simp only [Fallible.get_bind, Fallible.set_bind, hvm]
    rfl
  obtain ⟨hw', -, hdrained⟩ := hw.flush hst
  refine ⟨_, hst, fun mgr hmem seg hseg => ?_⟩
  obtain ⟨d, hd⟩ := List.mem_iff_getElem?.mp hmem
  have hm := hw'.media.mgr d mgr hd
  rw [hw.none_live h] at hm
  refine (hm.free_iff seg hseg).mpr ⟨rfl, ?_⟩
  rintro ⟨b, hb, -⟩
  rw [hdrained rfl d mgr hd] at hb
  cases hb

theorem WF.sound (hw : st.WF live) : st.Sound where
  fetched l ts outs reads hl hts hval hlen hroom := hw.fetch hl hts hval hlen hroom reads
  refused l ts s hl hts hbad := fetch_error hl hts hbad s
  planned extentBase l ts q st' hl hts h := (hw.plan hl hts h).2.2
  counted := hw.counted
  released l ts hl hts := by
    cases h : SparseKVStore.release l (ts.map Nat.cast) st with
    | mk r st' =>
      obtain ⟨-, -, hrel⟩ := hw.release h
      obtain ⟨rfl, hvalid⟩ := hrel fun t ht => by
        obtain ⟨n, hn, rfl⟩ := List.mem_map.mp ht
        have := hts n hn
        exact ⟨⟨by omega, by omega⟩, by omega, by omega⟩
      refine ⟨st', rfl, fun l' t => ?_⟩
      rw [hvalid, Nat.cast_inj, List.mem_map_of_injective Nat.cast_injective]
  recycled h := hw.recycled h

theorem init_addressed {κ : Type} {unitSize : ℤ} {extents : List VirtualMedia.Extent}
    {strategy : PlacementStrategy κ} {readMerge : Bool} {maxReadBytes : Option ℤ}
    {vm : VirtualMedia κ}
    (h : VirtualMedia.init unitSize extents strategy readMerge maxReadBytes = .ok vm)
    (hfit : ∀ e ∈ extents, (e.bytes.length : ℤ) < 2 ^ 48 + unitSize) :
    ∀ geo ∈ vm.mgrs.map DeviceSegmentManager.geo,
      geo.nSeg * geo.spBytes < 2 ^ 48 + vm.unitSize := by
  obtain ⟨hw, hmap, -, hunit, -⟩ := VirtualMedia.init_wf h
  intro geo hgeo
  obtain ⟨mgr, hmgr, rfl⟩ := List.mem_map.mp hgeo
  obtain ⟨d, hd⟩ := List.mem_iff_getElem?.mp hmgr
  have hmem : mgr.extent ∈ extents.map VirtualMedia.Extent.bytes := by
    rw [← hmap]
    exact List.mem_map_of_mem hmgr
  obtain ⟨e, he, hbytes⟩ := List.mem_map.mp hmem
  have hlen := hfit e he
  rw [hbytes, (hw.mgr d mgr hd).length_extent] at hlen
  rw [hunit]
  omega

theorem init_wf {vm : VirtualMedia (ℤ × ℤ)} {numLayers maxTokens maxTopk : ℤ}
    (h : init vm numLayers maxTokens maxTopk = .ok st) (hvm : vm.WF fun _ => [])
    (haddr : ∀ geo ∈ vm.mgrs.map DeviceSegmentManager.geo,
      geo.nSeg * geo.spBytes < 2 ^ 48 + vm.unitSize) : st.WF fun _ => [] := by
  unfold init at h
  split_ifs at h
  cases htable : SlotTable.init numLayers maxTokens with
  | error e =>
    rw [htable] at h
    cases h
  | ok table =>
    rw [htable] at h
    obtain rfl := Except.ok.inj h
    have hnone : ∀ l t e, table.entryAt l t = some e → ¬ entryValid e = true := by
      intro l t e he hv
      rw [SlotTable.init_entryAt htable he] at hv
      cases hv
    have hzero : table.validCount = 0 := by
      rw [SlotTable.validCount_eq_zero]
      exact fun l t e he => Bool.eq_false_iff.mpr (hnone l t e he)
    exact
      { media := hvm
        addressed := haddr
        unit := fun l t e he hv => absurd hv (hnone l t e he)
        apart := fun l t l' t' e e' he hv => absurd hv (hnone l t e he)
        count := by simp [hzero]
        cached := by simp
        length_descBuf := List.length_replicate
        length_staging := List.length_replicate }

end SparseKVStore

inductive StoreEvent where
  | offload (ws : ℕ → ℕ → WriteFrom) (blocks : List KVBlockRef)
  | flush (ws : ℕ → WriteFrom)
  | prefetch (layerId : ℤ) (tokens : List ℤ)
  | release (layerId : ℤ) (tokens : List ℤ)
  | plan (extentBase : ℕ → ℕ) (layerId : ℤ) (tokens : List ℤ)
  | fetch (layerId : ℤ) (tokens : List ℤ) (views : ReadState)

namespace SparseKVStore

variable {st : SparseKVStore}

/-- The store after a call, also one that raised. -/
def next (st : SparseKVStore) : StoreEvent → SparseKVStore
  | .offload ws blocks => (offload ws 0 blocks st).2
  | .flush ws => (flush ws st).2
  | .prefetch layerId tokens => (prefetch layerId tokens st).2
  | .release layerId tokens => (release layerId tokens st).2
  | .plan extentBase layerId tokens => (plan extentBase layerId tokens st).2
  | .fetch _ _ _ => st

/-- A call in which tokens are entered only while they are not valid. -/
def Step (st : SparseKVStore) (ev : StoreEvent) (st' : SparseKVStore) : Prop :=
  st' = st.next ev ∧ st'.EnteredFresh

/-- The calls that do not check it themselves get tokens in range. -/
def TokensInRange (st : SparseKVStore) : StoreEvent → Prop
  | .prefetch layerId tokens => (0 ≤ layerId ∧ layerId < st.table.numLayers) ∧
      ∀ t ∈ tokens, 0 ≤ t ∧ t < st.table.maxTokens
  | .plan _ layerId tokens => (0 ≤ layerId ∧ layerId < st.table.numLayers) ∧
      ∀ t ∈ tokens, 0 ≤ t ∧ t < st.table.maxTokens
  | _ => True

theorem tokens_natCast {layerId : ℤ} {tokens : List ℤ}
    (h : (0 ≤ layerId ∧ layerId < st.table.numLayers) ∧
      ∀ t ∈ tokens, 0 ≤ t ∧ t < st.table.maxTokens) :
    ∃ (l : ℕ) (ts : List ℕ), layerId = l ∧ tokens = ts.map Nat.cast ∧
      l < st.table.numLayers ∧ ∀ t ∈ ts, t < st.table.maxTokens := by
  refine ⟨layerId.toNat, tokens.map Int.toNat, by omega, ?_, by omega, fun t ht => ?_⟩
  · rw [List.map_map]
    refine ((List.map_congr_left fun t ht => ?_).trans (List.map_id _)).symm
    have := (h.2 t ht).1
    simpa using this
  · obtain ⟨n, hn, rfl⟩ := List.mem_map.mp ht
    have := h.2 n hn
    omega

theorem wf_next {ev : StoreEvent} {live : ℕ → List LiveUnit} (hw : st.WF live)
    (hin : st.TokensInRange ev) (hfresh : (st.next ev).EnteredFresh) :
    ∃ live', (st.next ev).WF live' := by
  cases ev with
  | offload ws blocks => exact offload_inv (fun _ => ⟨live, hw⟩) rfl hfresh
  | flush ws => exact ⟨live, (hw.flush rfl).1⟩
  | prefetch layerId tokens =>
    obtain ⟨l, ts, rfl, rfl, hl, hts⟩ := tokens_natCast hin
    exact ⟨live, (hw.prefetch hl hts rfl).1⟩
  | release layerId tokens => exact (hw.release rfl).2.1
  | plan extentBase layerId tokens =>
    obtain ⟨l, ts, rfl, rfl, hl, hts⟩ := tokens_natCast hin
    exact ⟨live, (hw.plan hl hts rfl).1⟩
  | fetch layerId tokens views => exact ⟨live, hw⟩

end SparseKVStore

/-- The store is a map in every state, when every unit of its extents has an address below
`2 ^ 48`. -/
theorem store_sound {unitSize : ℤ} {extents : List VirtualMedia.Extent}
    {strategy : PlacementStrategy (ℤ × ℤ)} {readMerge : Bool} {maxReadBytes : Option ℤ}
    {vm : VirtualMedia (ℤ × ℤ)}
    (hvm : VirtualMedia.init unitSize extents strategy readMerge maxReadBytes = .ok vm)
    (hfit : ∀ e ∈ extents, (e.bytes.length : ℤ) < 2 ^ 48 + unitSize)
    {numLayers maxTokens maxTopk : ℤ} {start st : SparseKVStore}
    (hstart : SparseKVStore.init vm numLayers maxTokens maxTopk = .ok start)
    (h : Reach (· = start) (Guarded SparseKVStore.TokensInRange SparseKVStore.Step) st) :
    st.Sound := by
  have hw : ∃ live, st.WF live := by
    refine h.invariant (P := fun st => ∃ live, st.WF live) ?_ ?_
    · rintro st rfl
      exact ⟨_, SparseKVStore.init_wf hstart (VirtualMedia.init_wf hvm).1
        (SparseKVStore.init_addressed hvm hfit)⟩
    · rintro st ev st' ⟨live, hw⟩ ⟨hin, rfl, hfresh⟩
      exact SparseKVStore.wf_next hw hin hfresh
  obtain ⟨live, hw⟩ := hw
  exact hw.sound

def oneDevice : PlacementStrategy (ℤ × ℤ) := ⟨1, fun _ => 0, fun _ => Nat.one_pos⟩

/-- Two tokens are offloaded, and one of them is released. -/
theorem store_sound_released :
    ∃ vm start st,
      VirtualMedia.init 4096 [⟨List.replicate 8192 0, 4096⟩] oneDevice true none = .ok vm ∧
      SparseKVStore.init vm 1 2 2 = .ok start ∧
      Reach (· = start) (Guarded SparseKVStore.TokensInRange SparseKVStore.Step) st ∧
      st.table.validCount = 1 ∧ st.Sound := by
  have hrun : ((VirtualMedia.init 4096 [⟨List.replicate 8192 0, 4096⟩] oneDevice true
      none).toOption.bind fun vm => (SparseKVStore.init vm 1 2 2).toOption.map fun start =>
      let st₁ := start.next (.offload (fun _ _ => .done) [⟨0, 0, 2, List.replicate 8192 7⟩])
      let st₂ := st₁.next (.release 0 [1])
      (st₁.entered.map Entered.wasValid, st₂.entered.map Entered.wasValid, st₂.table.validCount)) =
      some ([false, false], [false, false], 1) := by decide +kernel
  obtain ⟨vm, hvm, hrun⟩ := Option.bind_eq_some_iff.mp hrun
  obtain ⟨start, hstart, hrun⟩ := Option.map_eq_some_iff.mp hrun
  have hvm' : VirtualMedia.init 4096 [⟨List.replicate 8192 0, 4096⟩] oneDevice true none =
      .ok vm := by
    cases h : VirtualMedia.init 4096 [⟨List.replicate 8192 0, 4096⟩] oneDevice true none with
    | error e =>
      rw [h] at hvm
      cases hvm
    | ok vm' =>
      rw [h] at hvm
      exact congrArg Except.ok (Option.some.inj hvm)
  have hstart' : SparseKVStore.init vm 1 2 2 = .ok start := by
    cases h : SparseKVStore.init vm 1 2 2 with
    | error e =>
      rw [h] at hstart
      cases hstart
    | ok start' =>
      rw [h] at hstart
      exact congrArg Except.ok (Option.some.inj hstart)
  obtain ⟨hfresh₁, hrest⟩ := Prod.mk.inj hrun
  obtain ⟨hfresh₂, hcount⟩ := Prod.mk.inj hrest
  have hfresh : ∀ st : SparseKVStore, st.entered.map Entered.wasValid = [false, false] →
      st.EnteredFresh := by
    intro st h e he
    have hmem : e.wasValid ∈ [false, false] := by
      rw [← h]
      exact List.mem_map_of_mem he
    simpa using hmem
  have hreach : Reach (· = start) (Guarded SparseKVStore.TokensInRange SparseKVStore.Step) start :=
    .start rfl
  have hone := hreach.next
    (StoreEvent.offload (fun _ _ => .done) [⟨0, 0, 2, List.replicate 8192 7⟩])
    (And.intro True.intro (And.intro rfl (hfresh _ hfresh₁)))
  have hend := hone.next (StoreEvent.release 0 [1])
    (And.intro True.intro (And.intro rfl (hfresh _ hfresh₂)))
  refine ⟨vm, start, _, hvm', hstart', hend, hcount, store_sound hvm' ?_ hstart' hend⟩
  intro e he
  rw [List.mem_singleton.mp he, List.length_replicate]
  norm_num

section Overflow

variable {size segs k : ℕ} {mgr : DeviceSegmentManager} {st : SparseKVStore}

/-- The first `k` segments have one unit each, which fills its segment. -/
structure Filled (size segs k : ℕ) (mgr : DeviceSegmentManager) : Prop where
  sp : mgr.geo.spBytes = size
  unit : mgr.geo.unitSize = size
  free : mgr.free = List.range' k (segs - k)
  length : mgr.refcount.length = segs
  full : ∀ b, mgr.buf = some b → b.fill = 1 ∧ ∃ n, mgr.refcount[b.seg]? = some n ∧ n ≠ 0
  unused : ∀ seg, k ≤ seg → seg < segs → mgr.refcount[seg]? = some 0

theorem filled_init {extent : List UInt8} (hpos : 0 < size) (hpage : 4096 ∣ size)
    (hext : extent.length = segs * size) :
    ∃ mgr, DeviceSegmentManager.init extent 0 size size = .ok mgr ∧ Filled size segs 0 mgr ∧
      mgr.refcount.sum = 0 := by
  have hcheck : checkSegmentGeometry size size = .ok () := by
    unfold checkSegmentGeometry
    have hmod : (size : ℤ) % 4096 = 0 := by omega
    rw [if_neg (by omega), if_neg (by omega), if_neg (by omega), if_neg (by simp)]
  have hdvd : ¬ ((extent.length : ℤ) % size ≠ 0) := by
    rw [hext]
    simp
  have hdiv : extent.length / (size : ℤ).toNat = segs := by
    rw [hext, Int.toNat_natCast, Nat.mul_div_cancel _ hpos]
  cases h : DeviceSegmentManager.init extent 0 size size with
  | error e =>
    unfold DeviceSegmentManager.init at h
    split at h
    · rename_i hbad
      rw [hcheck] at hbad
      cases hbad
    · split_ifs at h
  | ok mgr =>
    unfold DeviceSegmentManager.init at h
    split at h
    · cases h
    · split_ifs at h
      obtain rfl := Except.ok.inj h
      refine ⟨_, rfl, ⟨rfl, rfl, ?_, ?_, fun _ hbuf => ?_, fun seg _ hseg => ?_⟩, ?_⟩
      · dsimp only
        rw [hdiv, List.range_eq_range']
        rfl
      · dsimp only
        rw [hdiv, List.length_replicate]
      · cases hbuf
      · dsimp only
        rw [hdiv, List.getElem?_replicate, if_pos hseg]
      · simp

theorem slots_one {geo : Geometry} (hpos : 0 < size) (hsp : geo.spBytes = size)
    (hunit : geo.unitSize = size) : geo.slotsPerSeg = 1 := by
  unfold Geometry.slotsPerSeg
  rw [hsp, hunit]
  exact Nat.div_self hpos

namespace Filled

/-- The next segment is opened for a unit that fills it. -/
theorem startSegment {free : List ℕ} (hsp : mgr.geo.spBytes = size)
    (hfree : mgr.free = k :: free) :
    DeviceSegmentManager.startSegment mgr = (.ok ⟨k, 0, List.replicate size 0⟩, { mgr with
      free
      buf := some ⟨k, 0, List.replicate size 0⟩ }) := by
  unfold DeviceSegmentManager.startSegment
  simp only [Fallible.get_bind, hfree, Fallible.set_bind, hsp]
  rfl

/-- The buffer for the next unit is a new segment; the one before it was full. -/
theorem nextBuf (h : Filled size segs k mgr) (hpos : 0 < size) (hk : k < segs) :
    ∃ m, DeviceSegmentManager.nextBuf .done mgr = (.ok ⟨k, 0, List.replicate size 0⟩, m) ∧
      m.geo = mgr.geo ∧ m.refcount = mgr.refcount ∧
      m.free = List.range' (k + 1) (segs - (k + 1)) := by
  have hslots := slots_one hpos h.sp h.unit
  have hfree : mgr.free = k :: List.range' (k + 1) (segs - (k + 1)) := by
    rw [h.free, show segs - k = segs - (k + 1) + 1 by omega, List.range'_succ]
  unfold DeviceSegmentManager.nextBuf DeviceSegmentManager.openBuf
  rw [Fallible.bind_eq, Fallible.get_bind]
  cases hbuf : mgr.buf with
  | none =>
    dsimp only
    rw [startSegment h.sp hfree]
    dsimp only
    rw [Fallible.get_bind]
    dsimp only
    rw [hslots]
    exact ⟨_, rfl, rfl, rfl, rfl⟩
  | some b =>
    obtain ⟨hfill, n, hn, hne⟩ := h.full b hbuf
    have hflush : DeviceSegmentManager.flushLocked b .done mgr = (.ok (), { mgr with
        extent := splice mgr.extent (b.seg * mgr.geo.spBytes) b.data
        buf := none
        free := mgr.free }) := by
      unfold DeviceSegmentManager.flushLocked
      rw [Fallible.get_bind, Fallible.set_bind]
      simp only [Fallible.get_bind, hn, if_neg hne]
      rfl
    dsimp only
    rw [Fallible.pure_eq]
    dsimp only
    rw [Fallible.get_bind, if_pos (by rw [hfill, hslots]), Fallible.bind_eq, hflush]
    exact ⟨_, startSegment h.sp hfree, rfl, rfl, rfl⟩

theorem sum_modify_succ {l : List ℤ} {i : ℕ} (hi : i < l.length) :
    (l.modify i (· + 1)).sum = l.sum + 1 := by
  have hsplit : l.sum = (l.take i).sum + (l[i] + (l.drop (i + 1)).sum) := by
    rw [← List.sum_cons, List.getElem_cons_drop, ← List.sum_append, List.take_append_drop]
  rw [List.modify_eq_take_cons_drop hi, List.sum_append, List.sum_cons, hsplit]
  omega

theorem append (h : Filled size segs k mgr) (hpos : 0 < size) (hk : k < segs) {data : List UInt8}
    (hdata : data.length = size) :
    ∃ m, DeviceSegmentManager.append data .done mgr = (.ok (k * size), m) ∧
      Filled size segs (k + 1) m ∧ m.refcount.sum = mgr.refcount.sum + 1 := by
  obtain ⟨m₁, hnext, hgeo, hcount, hfree⟩ := h.nextBuf hpos hk
  have hlt : k < mgr.refcount.length := h.length.symm ▸ hk
  have hone : (mgr.refcount.modify k (· + 1))[k]? = some 1 := by
    rw [List.getElem?_modify, h.unused k le_rfl hk]
    simp
  have happ : DeviceSegmentManager.append data .done mgr = (.ok (k * size), { m₁ with
      buf := some ⟨k, 1, splice (List.replicate size 0) (0 * m₁.geo.unitSize) data⟩
      refcount := mgr.refcount.modify k (· + 1) }) := by
    unfold DeviceSegmentManager.append
    rw [Fallible.get_bind, if_neg (by rw [h.unit, hdata]; simp), Fallible.bind_eq, hnext]
    dsimp only
    rw [Fallible.get_bind, Fallible.set_bind, hgeo, h.sp, hcount, Nat.zero_mul]
    rfl
  refine ⟨_, happ, ⟨hgeo ▸ h.sp, hgeo ▸ h.unit, hfree, ?_, ?_, fun seg hseg hlt' => ?_⟩,
    sum_modify_succ hlt⟩
  · exact (List.length_modify ..).trans h.length
  · rintro b ⟨⟩
    exact ⟨rfl, 1, hone, one_ne_zero⟩
  · dsimp only
    have hne : k ≠ seg := by omega
    rw [List.getElem?_modify, h.unused seg (by omega) hlt']
    simp [hne]

end Filled

theorem write_oneDevice {vm : VirtualMedia (ℤ × ℤ)} {mgr' : DeviceSegmentManager}
    (hmgrs : vm.mgrs = [mgr]) (hstrat : vm.strategy = oneDevice) {key : ℤ × ℤ}
    {data : List UInt8} {w : WriteFrom} {r : Except MediaError ℕ}
    (h : DeviceSegmentManager.append data w mgr = (r, mgr')) :
    VirtualMedia.write key data w vm = (r, { vm with mgrs := [mgr'] }) := by
  have hzero : vm.strategy.locate key = 0 := by
    rw [hstrat]
    rfl
  unfold VirtualMedia.write VirtualMedia.onDevice
  rw [Fallible.get_bind, hzero, Fallible.get_bind, hmgrs]
  simp only [List.getElem?_cons_zero, h, List.set_cons_zero, Fallible.set_bind]
  cases r <;> rfl

namespace SparseKVStore

/-- A store on one device, with one layer: the first `k` tokens were offloaded, each to a segment of
its own. -/
structure Filled (size segs k : ℕ) (st : SparseKVStore) : Prop where
  media : ∃ mgr, st.vm = ⟨size, true, none, oneDevice, [mgr]⟩ ∧ Umm.Filled size segs k mgr ∧
    mgr.refcount.sum = st.table.validCount
  layers : st.table.numLayers = 1
  tokens : st.table.maxTokens = segs
  unentered : ∀ t, k ≤ t → t < segs → ∃ e, st.table.entryAt 0 t = some e ∧ entryValid e = false
  fresh : st.EnteredFresh

variable {unit : List UInt8}

/-- A block of one token. -/
theorem next_offloadOne (hin : st.InRange 0 k) (hunit : unit.length = st.vm.unitSize) :
    st.next (.offload (fun _ _ => .done) [⟨0, k, 1, unit⟩]) =
      (offloadToken .done 0 k unit st).2 := by
  have hcheck : checkBlock ⟨0, k, 1, unit⟩ st = (.ok (), st) := by
    unfold checkBlock
    obtain ⟨⟨-, hl⟩, h0, ht⟩ := hin
    rw [Fallible.get_bind, if_neg (by dsimp only; omega), if_neg (by dsimp only; omega),
      if_neg (by dsimp only; omega)]
    rfl
  have hslice : slice unit (0 * st.vm.unitSize) st.vm.unitSize = unit := by
    rw [Nat.zero_mul, ← hunit, slice_self]
  have htoken : offloadTokens (fun _ => .done) ⟨0, k, 1, unit⟩ 0 1 st =
      offloadToken .done 0 k unit st := by
    unfold offloadTokens
    rw [Fallible.get_bind, hslice, Fallible.bind_eq]
    dsimp only
    rw [Nat.cast_zero, add_zero]
    generalize offloadToken .done 0 k unit st = r
    obtain ⟨r, st'⟩ := r
    cases r <;> rfl
  change (offload (fun _ _ => .done) 0 [⟨0, k, 1, unit⟩] st).2 = _
  unfold offload
  rw [Fallible.bind_eq, hcheck]
  dsimp only
  rw [Fallible.bind_eq, show (1 : ℤ).toNat = 1 from rfl, htoken]
  generalize offloadToken .done 0 k unit st = r
  obtain ⟨r, st'⟩ := r
  cases r <;> rfl

theorem Filled.inRange (h : Filled size segs k st) (hk : k < segs) : st.InRange 0 k := by
  unfold InRange
  rw [h.layers, h.tokens]
  omega

/-- The next token gets the next segment, as long as the entry can hold the address. -/
theorem Filled.next (h : Filled size segs k st) (hpos : 0 < size) (hk : k < segs)
    (hlow : k * size < 2 ^ 48) (hunit : unit.length = size) :
    Filled size segs (k + 1) (st.next (.offload (fun _ _ => .done) [⟨0, k, 1, unit⟩])) := by
  obtain ⟨mgr, hvm, hfilled, hsum⟩ := h.media
  obtain ⟨m, happ, hfilled', hsum'⟩ := hfilled.append hpos hk hunit
  obtain ⟨e, hpack, -, hvalid⟩ := packEntry_ok hlow
  obtain ⟨old, hold, hinvalid⟩ := h.unentered k le_rfl hk
  have hin := h.inRange hk
  have hl : 0 < st.table.numLayers := by
    rw [h.layers]
    exact Nat.one_pos
  have ht : k < st.table.maxTokens := by rwa [h.tokens]
  have hwrite : VirtualMedia.write ((0 : ℤ), (k : ℤ)) unit .done st.vm =
      (.ok (k * size), { st.vm with mgrs := [m] }) :=
    write_oneDevice (by rw [hvm]) (by rw [hvm]) happ
  have hwas : st.hasValid 0 k = false := by
    unfold hasValid SlotTable.get
    rw [check_ok hin]
    simp only [bind, Except.bind, Int.toNat_zero, Int.toNat_natCast, hold]
    exact hinvalid
  have henters := offloadToken_enters hin hwrite hpack
  rw [next_offloadOne hin (by rw [hvm]; exact hunit), henters]
  refine ⟨⟨m, ?_, hfilled', ?_⟩, h.layers, h.tokens, fun t h1 h2 => ?_, fun x hx => ?_⟩
  · dsimp only
    rw [hvm]
  · have hcount := st.table.validCount_put hl ht hold e
    rw [hinvalid, hvalid] at hcount
    dsimp only
    rw [hsum', hsum]
    simp only [Bool.false_eq_true, if_false, if_true, Nat.add_zero] at hcount
    rw [Int.toNat_zero, Int.toNat_natCast, hcount, Nat.cast_succ]
  · obtain ⟨e', he', hv'⟩ := h.unentered t (by omega) h2
    refine ⟨e', ?_, hv'⟩
    dsimp only
    rw [Int.toNat_zero, Int.toNat_natCast, SlotTable.entryAt_put hl ht,
      if_neg (by rintro ⟨-, rfl⟩; omega)]
    exact he'
  · obtain rfl | hx := List.mem_cons.mp hx
    · exact hwas
    · exact h.fresh x hx

/-- Where the address is too large, the unit is written and not entered. -/
theorem Filled.leaks (h : Filled size segs k st) (hpos : 0 < size) (hk : k < segs)
    (hbig : 2 ^ 48 ≤ k * size) (hunit : unit.length = size) :
    let st' := st.next (.offload (fun _ _ => .done) [⟨0, k, 1, unit⟩])
    st'.EnteredFresh ∧
      (st'.vm.mgrs.map fun mgr => mgr.refcount.sum).sum = st'.table.validCount + 1 := by
  obtain ⟨mgr, hvm, hfilled, hsum⟩ := h.media
  obtain ⟨m, happ, -, hsum'⟩ := hfilled.append hpos hk hunit
  have hin := h.inRange hk
  have hwrite : VirtualMedia.write ((0 : ℤ), (k : ℤ)) unit .done st.vm =
      (.ok (k * size), { st.vm with mgrs := [m] }) :=
    write_oneDevice (by rw [hvm]) (by rw [hvm]) happ
  rw [next_offloadOne hin (by rw [hvm]; exact hunit), offloadToken_leaks hin hwrite hbig]
  refine ⟨h.fresh, ?_⟩
  dsimp only
  rw [List.map_singleton, List.sum_singleton, hsum', hsum]

/-- Tokens are offloaded one after the other. -/
theorem reach_filled {start : SparseKVStore} (hstart : Filled size segs 0 start) (hpos : 0 < size)
    (hunit : unit.length = size) (hk : k < segs) (hlow : ∀ t < k, t * size < 2 ^ 48) :
    ∃ st, Reach (· = start) (Guarded TokensInRange Step) st ∧ Filled size segs k st := by
  induction k with
  | zero => exact ⟨start, .start rfl, hstart⟩
  | succ k ih =>
    obtain ⟨st, hreach, hst⟩ := ih (by omega) fun t ht => hlow t (by omega)
    have hnext := hst.next hpos (by omega) (hlow k (by omega)) hunit
    exact ⟨_, hreach.next (.offload (fun _ _ => .done) [⟨0, k, 1, unit⟩])
      ⟨trivial, rfl, hnext.fresh⟩, hnext⟩

theorem filled_start {extent : List UInt8} {maxTopk : ℤ} (hpos : 0 < size) (hpage : 4096 ∣ size)
    (hsegs : 0 < segs) (hext : extent.length = segs * size) (htopk : 0 < maxTopk) :
    ∃ vm start, VirtualMedia.init size [⟨extent, size⟩] oneDevice true none = .ok vm ∧
      init vm 1 segs maxTopk = .ok start ∧ Filled size segs 0 start := by
  obtain ⟨mgr, hmgr, hfilled, hsum⟩ := filled_init hpos hpage hext
  have hvm : VirtualMedia.init size [⟨extent, size⟩] oneDevice true none =
      .ok ⟨size, true, none, oneDevice, [mgr]⟩ := by
    unfold VirtualMedia.init VirtualMedia.initMgrs
    rw [if_neg (by simp), if_neg (by simp), if_neg (by simp [oneDevice]), hmgr]
    rfl
  obtain ⟨table, htable, hl, ht⟩ : ∃ table, SlotTable.init 1 segs = .ok table ∧
      table.numLayers = 1 ∧ table.maxTokens = segs := by
    unfold SlotTable.init
    rw [if_neg (by omega)]
    exact ⟨_, rfl, rfl, Int.toNat_natCast segs⟩
  have hzero : table.validCount = 0 :=
    table.validCount_eq_zero.mpr fun l t e he => SlotTable.init_entryAt htable he
  have hstart : ∃ start, init ⟨size, true, none, oneDevice, [mgr]⟩ 1 segs maxTopk = .ok start ∧
      start.vm = ⟨size, true, none, oneDevice, [mgr]⟩ ∧ start.table = table ∧
      start.entered = [] := by
    unfold init
    rw [if_neg (by omega), htable]
    exact ⟨_, rfl, rfl, rfl, rfl⟩
  obtain ⟨start, hinit, hsvm, rfl, hentered⟩ := hstart
  refine ⟨_, start, hvm, hinit, ⟨mgr, hsvm, hfilled, by rw [hsum, hzero]; rfl⟩, hl, ht,
    fun t _ hlt => ?_, ?_⟩
  · obtain ⟨e, he⟩ := start.table.entryAt_some (show 0 < start.table.numLayers by omega)
      (show t < start.table.maxTokens by omega)
    exact ⟨e, he, SlotTable.init_entryAt htable he⟩
  · intro x hx
    rw [hentered] at hx
    cases hx

end SparseKVStore

end Overflow

/-- Units of 1 GiB fill the segments below `2 ^ 48`. The next one is written, but its entry is
refused: the segment keeps a reference that no token has. -/
theorem store_addressOverflow :
    ∃ extent vm start st,
      extent.length = (2 ^ 18 + 1) * 2 ^ 30 ∧
      VirtualMedia.init (2 ^ 30) [⟨extent, 2 ^ 30⟩] oneDevice true none = .ok vm ∧
      SparseKVStore.init vm 1 (2 ^ 18 + 1) 1 = .ok start ∧
      Reach (· = start) (Guarded SparseKVStore.TokensInRange SparseKVStore.Step) st ∧
      ¬ st.Sound := by
  obtain ⟨extent, hext⟩ : ∃ extent : List UInt8, extent.length = (2 ^ 18 + 1) * 2 ^ 30 :=
    ⟨List.replicate _ 0, List.length_replicate⟩
  obtain ⟨unit, hunit⟩ : ∃ unit : List UInt8, unit.length = 2 ^ 30 :=
    ⟨List.replicate _ 0, List.length_replicate⟩
  obtain ⟨vm, start, hvm, hinit, hstart⟩ := SparseKVStore.filled_start (by norm_num)
    (by norm_num) (Nat.succ_pos _) hext Int.one_pos
  obtain ⟨st, hreach, hst⟩ := SparseKVStore.reach_filled hstart (by norm_num) hunit
    (Nat.lt_succ_self (2 ^ 18)) fun t ht => by omega
  obtain ⟨hfresh, hcount⟩ := hst.leaks (by norm_num) (Nat.lt_succ_self _) (by norm_num) hunit
  refine ⟨extent, vm, start, _, hext, by exact_mod_cast hvm, by exact_mod_cast hinit,
    hreach.next (.offload (fun _ _ => .done) [⟨0, (2 ^ 18 : ℕ), 1, unit⟩])
      ⟨trivial, rfl, hfresh⟩, fun hsound => ?_⟩
  have := hsound.counted
  omega

end Umm
