import Umm.SparseKv.StoreSpec

/-! Reads of the store: every valid token is fetched with the bytes of its latest offload, from
the cache, from a buffer or from its device. -/
namespace Umm
open Umm.Lib

namespace SparseKVStore

variable {st : SparseKVStore} {live : ℕ → List LiveUnit} {l : ℕ} {ts : List ℕ}

/-- The entry of a token in range. -/
def entryOf (st : SparseKVStore) (l t : ℕ) : ℕ := (st.table.entryAt l t).getD 0

theorem entryAt_entryOf (hl : l < st.table.numLayers) {t : ℕ} (ht : t < st.table.maxTokens) :
    st.table.entryAt l t = some (st.entryOf l t) := by
  obtain ⟨e, he⟩ := SlotTable.entryAt_some hl ht
  rw [entryOf, he]
  rfl

theorem valid_iff (hl : l < st.table.numLayers) {t : ℕ} (ht : t < st.table.maxTokens) :
    st.Valid l t ↔ entryValid (st.entryOf l t) = true := by
  have he := entryAt_entryOf hl ht
  constructor
  · rintro ⟨e, he', hv⟩
    obtain rfl := Option.some.inj (he.symm.trans he')
    exact hv
  · exact fun hv => ⟨_, he, hv⟩

theorem valid_lt {l n : ℕ} (h : st.Valid l n) :
    l < st.table.numLayers ∧ n < st.table.maxTokens := by
  obtain ⟨e, he, -⟩ := h
  unfold SlotTable.entryAt at he
  obtain ⟨row, hrow, hget⟩ := Option.bind_eq_some_iff.mp he
  have hlen := st.table.length_row row (List.mem_of_getElem? hrow)
  have hl := (List.getElem?_eq_some_iff.mp hrow).1
  have hn := (List.getElem?_eq_some_iff.mp hget).1
  rw [st.table.length_layers] at hl
  exact ⟨hl, hlen ▸ hn⟩

theorem gather_ok (hl : l < st.table.numLayers) (hts : ∀ t ∈ ts, t < st.table.maxTokens) :
    st.table.gather l (ts.map Nat.cast) = .ok (ts.map (st.entryOf l)) := by
  have hl' : l < st.table.layers.length := by rwa [st.table.length_layers]
  have hrow := List.getElem?_eq_getElem hl'
  unfold SlotTable.gather
  rw [if_neg (by omega), Int.toNat_natCast, hrow]
  dsimp only
  rw [mapM_ok (g := fun t => st.entryOf l t.toNat)]
  · rw [List.map_map]
    refine congrArg _ (List.map_congr_left fun t _ => ?_)
    simp
  · intro t ht
    obtain ⟨n, hn, rfl⟩ := List.mem_map.mp ht
    have hentry := entryAt_entryOf hl (hts n hn)
    unfold SlotTable.entryAt at hentry
    rw [hrow, Option.bind_some] at hentry
    rw [pyIndex_natCast, hentry, Int.toNat_natCast]

/-- The tokens of a call, with their entries. -/
def pairs (st : SparseKVStore) (l : ℕ) (ts : List ℕ) : List (ℤ × ℕ) :=
  ts.map fun t : ℕ => ((t : ℤ), st.entryOf l t)

theorem zip_entries (l : ℕ) (ts : List ℕ) :
    (ts.map (Nat.cast : ℕ → ℤ)).zip (ts.map (st.entryOf l)) = st.pairs l ts :=
  List.zip_map'

section Invalid

theorem fetchScan_error (hl : l < st.table.numLayers) (hts : ∀ t ∈ ts, t < st.table.maxTokens)
    (hbad : ∃ t ∈ ts, ¬ st.Valid l t) (pos : ℕ) (s : ReadState) :
    ∃ e s', st.fetchScan l pos (st.pairs l ts) s = (.error e, s') := by
  induction ts generalizing pos s with
  | nil =>
    obtain ⟨t, ht, -⟩ := hbad
    cases ht
  | cons t ts ih =>
    have hlt := hts t List.mem_cons_self
    unfold pairs
    rw [List.map_cons]
    unfold fetchScan
    cases hval : entryValid (st.entryOf l t) with
    | false =>
      rw [if_pos (by simp)]
      exact ⟨_, _, rfl⟩
    | true =>
      rw [if_neg (by simp)]
      have hrest : ∃ t ∈ ts, ¬ st.Valid l t := by
        obtain ⟨t', ht', hnot⟩ := hbad
        rcases List.mem_cons.mp ht' with rfl | ht'
        · exact absurd ((valid_iff hl hlt).mpr hval) hnot
        · exact ⟨t', ht', hnot⟩
      have hih := ih (fun t' ht' => hts t' (List.mem_cons_of_mem _ ht')) hrest (pos + 1)
      cases st.cache ((l : ℤ), (t : ℤ)) with
      | some cached =>
        dsimp only
        rw [Fallible.bind_eq]
        cases honView : onViews (st.vm.assign pos cached) s with
        | mk q s₁ =>
          cases q with
          | error e => exact ⟨e, s₁, rfl⟩
          | ok u => exact hih s₁
      | none =>
        obtain ⟨e, s₁, he⟩ := hih s
        dsimp only
        rw [Fallible.bind_eq]
        refine ⟨e, s₁, ?_⟩
        unfold pairs at he
        rw [he]

/-- A token that is not valid makes the call raise. -/
theorem fetch_error (hl : l < st.table.numLayers) (hts : ∀ t ∈ ts, t < st.table.maxTokens)
    (hbad : ∃ t ∈ ts, ¬ st.Valid l t) (s : ReadState) :
    ∃ e s', st.fetch l (ts.map Nat.cast) s = (.error e, s') := by
  unfold fetch
  rw [Fallible.get_bind]
  split_ifs
  · exact ⟨_, _, rfl⟩
  · rw [gather_ok hl hts]
    dsimp only
    rw [zip_entries, Fallible.bind_eq]
    obtain ⟨e, s', he⟩ := fetchScan_error hl hts hbad 0 s
    rw [he]
    exact ⟨e, s', rfl⟩

end Invalid

section Valid

open VirtualMedia

variable {units : List (ℕ × LiveUnit)} {outs : List (List UInt8)} {done : List ℕ} {s : ReadState}

/-- The units of valid tokens. -/
def UnitsOf (st : SparseKVStore) (live : ℕ → List LiveUnit) (l : ℕ) (ts : List ℕ)
    (units : List (ℕ × LiveUnit)) : Prop :=
  units.length = ts.length ∧ ∀ (i t : ℕ), ts[i]? = some t → ∃ u : LiveUnit,
    units[i]? = some (st.deviceOf l t, u) ∧ u ∈ live (st.deviceOf l t) ∧
      u.offset = entryOffset (st.entryOf l t) ∧ st.latest l t = some u.data

theorem Held.unitsOf (hw : st.Held live) (hl : l < st.table.numLayers)
    (hts : ∀ t ∈ ts, t < st.table.maxTokens) (hval : ∀ t ∈ ts, st.Valid l t) :
    ∃ units, UnitsOf st live l ts units := by
  induction ts with
  | nil => exact ⟨[], rfl, by simp⟩
  | cons t ts ih =>
    obtain ⟨units, hlen, hunits⟩ := ih (fun t' ht' => hts t' (List.mem_cons_of_mem _ ht'))
      fun t' ht' => hval t' (List.mem_cons_of_mem _ ht')
    have hlt := hts t List.mem_cons_self
    obtain ⟨data, hlat, hmem⟩ := hw.unit l t _ (entryAt_entryOf hl hlt)
      ((valid_iff hl hlt).mp (hval t List.mem_cons_self))
    refine ⟨(st.deviceOf l t, ⟨entryOffset (st.entryOf l t), data⟩) :: units, by simp [hlen], ?_⟩
    intro i t' ht'
    cases i with
    | zero =>
      obtain rfl := Option.some.inj ht'
      exact ⟨_, rfl, hmem, rfl, hlat⟩
    | succ i => exact hunits i t' ht'

theorem onViews_ok {call : Fallible MediaError ReadState Unit} {s' : ReadState}
    (h : call s = (.ok (), s')) : onViews call s = (.ok (), s') := by
  unfold onViews
  simp only [Fallible.get_bind, Fallible.set_bind, h]
  rfl

/-- What a call gives for its tokens: the bytes in the cache, or the unit at the address. -/
structure Serves (st : SparseKVStore) (layerId : ℤ) (ps : List (ℤ × ℕ))
    (units : List (ℕ × LiveUnit)) : Prop where
  length_eq : units.length = ps.length
  cached : ∀ (i : ℕ) p u c, ps[i]? = some p → units[i]? = some u →
    st.cache (layerId, p.1) = some c → u.2.data = c
  placed : ∀ (i : ℕ) p u, ps[i]? = some p → units[i]? = some u →
    st.cache (layerId, p.1) = none → u.1 = st.vm.strategy.locate (layerId, p.1) ∧
      u.2.offset = entryOffset p.2 ∧ st.vm.Holds u

variable {layerId : ℤ} {ps : List (ℤ × ℕ)}

/-- An item for a unit that its device holds. -/
def IsHeldItem (vm : VirtualMedia (ℤ × ℤ)) (units : List (ℕ × LiveUnit))
    (item : (ℕ × ℕ) × ℕ) : Prop :=
  ∃ u, units[item.2]? = some u ∧ (u.1, u.2.offset) = item.1 ∧ vm.Holds u

/-- The loop copies what is in the cache, and lists the other units. -/
theorem fetchScan_ok (hval : ∀ p ∈ ps, entryValid p.2 = true) (hu : Serves st layerId ps units)
    (ha : Fitting st.vm units outs) {pos : ℕ} {rest : List (ℤ × ℕ)} (hrest : ps.drop pos = rest)
    (hs : Filled units outs done s) :
    ∃ items s' done', st.fetchScan layerId pos rest s = (.ok items, s') ∧
      Filled units outs done' s' ∧ s'.reads = s.reads ∧ (∀ i ∈ done, i ∈ done') ∧
      (∀ item ∈ items, IsHeldItem st.vm units item) ∧
      ∀ i, pos ≤ i → i < ps.length → i ∈ done' ∨ i ∈ items.map Prod.snd := by
  induction rest generalizing pos done s with
  | nil =>
    refine ⟨[], s, done, rfl, hs, rfl, fun i hi => hi, by simp, fun i hi hlt => ?_⟩
    have := List.drop_eq_nil_iff.mp hrest
    omega
  | cons p rest ih =>
    have hpos : ps[pos]? = some p := by
      rw [← List.head?_drop, hrest]
      rfl
    have hnext : ps.drop (pos + 1) = rest := by
      rw [← List.tail_drop, hrest]
      rfl
    have hv := hval p (List.mem_of_getElem? hpos)
    obtain ⟨u, hunit⟩ : ∃ u, units[pos]? = some u := by
      have hlt : pos < units.length := by
        rw [hu.length_eq]
        exact (List.getElem?_eq_some_iff.mp hpos).1
      exact ⟨_, List.getElem?_eq_getElem hlt⟩
    obtain ⟨t, e⟩ := p
    unfold fetchScan
    rw [if_neg (by simp [hv])]
    cases hcache : st.cache (layerId, t) with
    | some cached =>
      obtain rfl := hu.cached pos _ u cached hpos hunit hcache
      obtain ⟨s₁, hassign, hs₁, hreads⟩ := assign_filled ha hs hunit
      obtain ⟨items, s', done', hscan, hs', hreads', hdone, hitems, hall⟩ := ih hnext hs₁
      refine ⟨items, s', done', ?_, hs', hreads'.trans hreads,
        fun i hi => hdone i (List.mem_cons_of_mem _ hi), hitems, fun i hi hlt => ?_⟩
      · dsimp only
        rw [Fallible.bind_eq, onViews_ok hassign]
        exact hscan
      · rcases Nat.eq_or_lt_of_le hi with rfl | hi
        · exact .inl (hdone _ List.mem_cons_self)
        · exact hall i hi hlt
    | none =>
      obtain ⟨hdev, hoff, hholds⟩ := hu.placed pos _ u hpos hunit hcache
      obtain ⟨items, s', done', hscan, hs', hreads', hdone, hitems, hall⟩ := ih hnext hs
      refine ⟨((st.vm.strategy.locate (layerId, t), entryOffset e), pos) :: items, s', done', ?_,
        hs', hreads', hdone, ?_, fun i hi hlt => ?_⟩
      · dsimp only
        rw [Fallible.bind_eq, hscan]
        rfl
      · intro item hitem
        rcases List.mem_cons.mp hitem with rfl | hitem
        · exact ⟨u, hunit, Prod.ext hdev hoff, hholds⟩
        · exact hitems item hitem
      · rcases Nat.eq_or_lt_of_le hi with rfl | hi
        · exact .inr (by simp)
        · rcases hall i hi hlt with h | h
          · exact .inl h
          · exact .inr (List.mem_cons_of_mem _ h)

/-- The view of a unit has one of two contents, and gets the unit in either case. -/
theorem filled_view (ha : Fitting st.vm units outs) (hs : Filled units outs done s) {i : ℕ}
    {p : ℕ × LiveUnit} (hp : units[i]? = some p) :
    ∃ out view, outs[i]? = some out ∧ s.outs[i]? = some view ∧ st.vm.unitSize ≤ view.length ∧
      p.2.data ++ view.drop st.vm.unitSize = splice out 0 p.2.data := by
  have hlt : i < outs.length := by
    rw [← ha.length_eq]
    exact (List.getElem?_eq_some_iff.mp hp).1
  have hout := List.getElem?_eq_getElem hlt
  have hroom := ha.room _ (List.mem_of_getElem? hout)
  have hlen := ha.length_data p (List.mem_of_getElem? hp)
  refine ⟨_, _, hout, hs i p _ hp hout, ?_, ?_⟩
  · split_ifs
    · rwa [length_splice (by omega)]
    · exact hroom
  · rw [splice_start, hlen]
    split_ifs
    · rw [List.drop_append_of_le_length (by omega), List.drop_of_length_le (by omega),
        List.nil_append]
    · rfl

/-- The unit of an item. -/
def itemUnit (units : List (ℕ × LiveUnit)) (item : (ℕ × ℕ) × ℕ) : ℕ × LiveUnit :=
  (units[item.2]?).getD (0, ⟨0, []⟩)

/-- The view of an item. -/
def itemView (s : ReadState) (item : (ℕ × ℕ) × ℕ) : List UInt8 := (s.outs[item.2]?).getD []

theorem IsHeldItem.itemUnit {vm : VirtualMedia (ℤ × ℤ)} {item : (ℕ × ℕ) × ℕ}
    (h : IsHeldItem vm units item) : units[item.2]? = some (itemUnit units item) ∧
      ((itemUnit units item).1, (itemUnit units item).2.offset) = item.1 ∧
        vm.Holds (itemUnit units item) := by
  obtain ⟨u, hget, hoff, hholds⟩ := h
  unfold SparseKVStore.itemUnit
  rw [hget]
  exact ⟨rfl, hoff, hholds⟩

section ReadAt

variable {items : List ((ℕ × ℕ) × ℕ)}

theorem found_items (ha : Fitting st.vm units outs)
    (hitems : ∀ item ∈ items, IsHeldItem st.vm units item) (hs : Filled units outs done s) :
    Found st.vm (items.map (itemUnit units)) (items.map (itemView s)) := by
  refine ⟨⟨fun p hp => ?_, by simp, fun out hout => ?_⟩, fun p hp => ?_⟩
  · obtain ⟨item, hitem, rfl⟩ := List.mem_map.mp hp
    exact ha.length_data _ (List.mem_of_getElem? (hitems item hitem).itemUnit.1)
  · obtain ⟨item, hitem, rfl⟩ := List.mem_map.mp hout
    obtain ⟨out, view, -, hview, hroom, -⟩ := filled_view ha hs (hitems item hitem).itemUnit.1
    unfold itemView
    rw [hview]
    exact hroom
  · obtain ⟨item, hitem, rfl⟩ := List.mem_map.mp hp
    exact (hitems item hitem).itemUnit.2.2

/-- The batch fills the views of the items, position by position. -/
theorem readBatch_items (ha : Fitting st.vm units outs)
    (hcap : ∀ cap ∈ st.vm.maxReadBytes, st.vm.unitSize ≤ cap)
    (hitems : ∀ item ∈ items, IsHeldItem st.vm units item) (hs : Filled units outs done s) :
    ∃ s', st.vm.readBatch (items.map Prod.fst) ⟨items.map (itemView s), s.reads⟩ = (.ok (), s') ∧
      ∀ (k : ℕ) item, items[k]? = some item → s'.outs[k]? =
        some ((itemUnit units item).2.data ++ (itemView s item).drop st.vm.unitSize) := by
  obtain ⟨s', hbatch, houts, -⟩ := (found_items ha hitems hs).readBatch hcap s.reads
  have hfst : (items.map (itemUnit units)).map (fun p => (p.1, p.2.offset)) =
      items.map Prod.fst := by
    rw [List.map_map]
    exact List.map_congr_left fun item hitem => (hitems item hitem).itemUnit.2.1
  rw [hfst] at hbatch
  refine ⟨s', hbatch, fun k item hk => ?_⟩
  exact houts k _ _ (by rw [List.getElem?_map, hk]; rfl) (by rw [List.getElem?_map, hk]; rfl)

theorem readAt_ok (ha : Fitting st.vm units outs)
    (hcap : ∀ cap ∈ st.vm.maxReadBytes, st.vm.unitSize ≤ cap)
    (hitems : ∀ item ∈ items, IsHeldItem st.vm units item)
    (hs : Filled units outs done s) :
    ∃ s', st.readAt items s = (.ok (), s') ∧
      Filled units outs (items.map Prod.snd ++ done) s' := by
  obtain ⟨s', hbatch, hviews⟩ := readBatch_items ha hcap hitems hs
  have hlen : (items.map Prod.snd).length ≤ s'.outs.length := by
    rw [List.length_map]
    by_contra hlt
    have hk := hviews s'.outs.length items[s'.outs.length]
      (List.getElem?_eq_getElem (by omega))
    rw [List.getElem?_eq_none le_rfl] at hk
    cases hk
  refine ⟨⟨((items.map Prod.snd).zip s'.outs).foldl (fun outs p => outs.set p.1 p.2) s.outs,
    s'.reads⟩, ?_, ?_⟩
  · unfold readAt
    rw [Fallible.get_bind]
    have hres : st.vm.readBatch (items.map Prod.fst)
        ⟨items.map fun item => (s.outs[item.2]?).getD [], s.reads⟩ = (.ok (), s') := hbatch
    rw [hres]
    rfl
  · intro i p out hp hout
    obtain ⟨out', view, hout', hview, -, hsplice⟩ := filled_view ha hs hp
    obtain rfl := Option.some.inj (hout.symm.trans hout')
    have hagree : ∀ q ∈ (items.map Prod.snd).zip s'.outs, q.1 = i → q.2 = splice out 0 p.2.data := by
      intro q hq hqi
      obtain ⟨k, hk⟩ := List.mem_iff_getElem?.mp hq
      obtain ⟨hpos, hval⟩ := List.getElem?_zip_eq_some.mp hk
      rw [List.getElem?_map, Option.map_eq_some_iff] at hpos
      obtain ⟨item, hitem, hsnd⟩ := hpos
      have hpk := (hitems item (List.mem_of_getElem? hitem)).itemUnit.1
      rw [hsnd, hqi, hp] at hpk
      have hvk : itemView s item = view := by
        unfold itemView
        rw [hsnd, hqi, hview]
        rfl
      rw [hviews k item hitem, ← Option.some.inj hpk, hvk, hsplice] at hval
      exact (Option.some.inj hval).symm
    dsimp only
    rw [getElem?_foldl_set hagree, List.map_fst_zip hlen]
    have hlt : i < s.outs.length := (List.getElem?_eq_some_iff.mp hview).1
    by_cases hin : i ∈ items.map Prod.snd
    · rw [if_pos ⟨hin, hlt⟩, if_pos (List.mem_append_left _ hin)]
    · rw [if_neg fun h => hin h.1, hs i p out hp hout]
      simp [hin]

end ReadAt

/-- A call whose tokens are valid, and whose units the devices hold, gives the units. -/
theorem fetch_served {tokens : List ℤ} {entries : List ℕ}
    (hgather : st.table.gather layerId tokens = .ok entries)
    (hval : ∀ p ∈ tokens.zip entries, entryValid p.2 = true)
    (hu : Serves st layerId (tokens.zip entries) units) (ha : Fitting st.vm units outs)
    (hcap : ∀ cap ∈ st.vm.maxReadBytes, st.vm.unitSize ≤ cap)
    (hlen : outs.length = tokens.length) (reads : List DeviceRead) :
    ∃ s', st.fetch layerId tokens ⟨outs, reads⟩ = (.ok (), s') ∧
      ∀ (i : ℕ) p out, units[i]? = some p → outs[i]? = some out →
        s'.outs[i]? = some (p.2.data ++ out.drop st.vm.unitSize) := by
  have hstart : Filled units outs [] ⟨outs, reads⟩ := by
    intro i p out hp hout
    simpa using hout
  obtain ⟨items, s₁, done₁, hscan, hs₁, -, -, hitems, hall⟩ :=
    fetchScan_ok hval hu ha List.drop_zero hstart
  have hend : ∃ s' done', (if items = [] then pure () else onViews (st.readAt items) :
      Fallible StoreError ReadState Unit) s₁ = (.ok (), s') ∧ Filled units outs done' s' ∧
      ∀ i < units.length, i ∈ done' := by
    split_ifs with hempty
    · subst hempty
      refine ⟨s₁, done₁, rfl, hs₁, fun i hi => ?_⟩
      rcases hall i (Nat.zero_le _) (hu.length_eq ▸ hi) with h | h
      · exact h
      · cases h
    · obtain ⟨s', hread, hs'⟩ := readAt_ok ha hcap hitems hs₁
      refine ⟨s', _, onViews_ok hread, hs', fun i hi => ?_⟩
      rcases hall i (Nat.zero_le _) (hu.length_eq ▸ hi) with h | h
      · exact List.mem_append_right _ h
      · exact List.mem_append_left _ h
  obtain ⟨s', done', hread, hs', hdone⟩ := hend
  refine ⟨s', ?_, fun i p out hp hout => ?_⟩
  · unfold SparseKVStore.fetch
    rw [Fallible.get_bind, if_neg (not_not.mpr hlen), hgather]
    dsimp only
    rw [Fallible.bind_eq, hscan]
    exact hread
  · have hlt := (List.getElem?_eq_some_iff.mp hp).1
    have hdata := ha.length_data p (List.mem_of_getElem? hp)
    rw [hs' i p out hp hout, if_pos (hdone i hlt), splice_start, hdata]

/-- The bytes that a fetch of a valid token gives: those in the cache, or those of the latest
offload. -/
def ownBytes (st : SparseKVStore) (l t : ℕ) : List UInt8 :=
  (st.cache ((l : ℤ), (t : ℤ))).getD ((st.latest l t).getD [])

/-- A fetch of the tokens goes through, and gives every view the bytes of its token. -/
def Fetches (st : SparseKVStore) (l : ℕ) (bytes : ℕ → List UInt8) (ts : List ℕ) : Prop :=
  ∀ (outs : List (List UInt8)) (reads : List DeviceRead), outs.length = ts.length →
    (∀ out ∈ outs, st.vm.unitSize ≤ out.length) →
    ∃ s', st.fetch l (ts.map Nat.cast) ⟨outs, reads⟩ = (.ok (), s') ∧
      ∀ (i t : ℕ) out, ts[i]? = some t → outs[i]? = some out →
        s'.outs[i]? = some (bytes t ++ out.drop st.vm.unitSize)

/-- The units at the addresses, with the bytes in the cache where there are some. -/
def servedUnits (st : SparseKVStore) (l : ℕ) (units : List (ℕ × LiveUnit)) (ts : List ℕ) :
    List (ℕ × LiveUnit) :=
  (units.zip ts).map fun p =>
    (p.1.1, ⟨p.1.2.offset, (st.cache ((l : ℤ), (p.2 : ℤ))).getD p.1.2.data⟩)

theorem UnitsOf.length_served (hu : UnitsOf st live l ts units) :
    (st.servedUnits l units ts).length = ts.length := by
  unfold servedUnits
  rw [List.length_map, List.length_zip, hu.1, Nat.min_self]

theorem UnitsOf.served (hu : UnitsOf st live l ts units) {i t : ℕ} (ht : ts[i]? = some t)
    {p : ℕ × LiveUnit} (hp : (st.servedUnits l units ts)[i]? = some p) : ∃ u : LiveUnit,
      p = (st.deviceOf l t, ⟨u.offset, (st.cache ((l : ℤ), (t : ℤ))).getD u.data⟩) ∧
        u ∈ live (st.deviceOf l t) ∧ u.offset = entryOffset (st.entryOf l t) ∧
          st.latest l t = some u.data := by
  unfold servedUnits at hp
  rw [List.getElem?_map, Option.map_eq_some_iff] at hp
  obtain ⟨⟨q, t'⟩, hzip, rfl⟩ := hp
  obtain ⟨hq, ht'⟩ := List.getElem?_zip_eq_some.mp hzip
  obtain rfl := Option.some.inj (ht.symm.trans ht')
  obtain ⟨u, hunit, hlive, hoff, hlat⟩ := hu.2 i t ht
  obtain rfl := Option.some.inj (hq.symm.trans hunit)
  exact ⟨u, rfl, hlive, hoff, hlat⟩

theorem Held.fitting_served (hw : st.Held live) (hu : UnitsOf st live l ts units)
    (hlen : outs.length = ts.length) (hroom : ∀ out ∈ outs, st.vm.unitSize ≤ out.length) :
    Fitting st.vm (st.servedUnits l units ts) outs := by
  refine ⟨fun p hp => ?_, hu.length_served.trans hlen.symm, hroom⟩
  obtain ⟨i, hi⟩ := List.mem_iff_getElem?.mp hp
  have hlt : i < ts.length := hu.length_served ▸ (List.getElem?_eq_some_iff.mp hi).1
  obtain ⟨u, rfl, hlive, -⟩ := hu.served (List.getElem?_eq_getElem hlt) hi
  dsimp only
  cases hcache : st.cache ((l : ℤ), (ts[i] : ℤ)) with
  | none => exact hw.media.length_data hlive
  | some c => exact hw.length_cached _ c hcache

theorem Held.serves_served (hw : st.Held live) (hu : UnitsOf st live l ts units) :
    Serves st l (st.pairs l ts) (st.servedUnits l units ts) := by
  have hpair : ∀ (i : ℕ) p, (st.pairs l ts)[i]? = some p →
      ∃ t, ts[i]? = some t ∧ p = ((t : ℤ), st.entryOf l t) := by
    intro i p hp
    unfold pairs at hp
    rw [List.getElem?_map, Option.map_eq_some_iff] at hp
    obtain ⟨t, ht, rfl⟩ := hp
    exact ⟨t, ht, rfl⟩
  refine ⟨?_, ?_, ?_⟩
  · unfold pairs
    rw [hu.length_served, List.length_map]
  · intro i p u c hp hunit hcache
    obtain ⟨t, ht, rfl⟩ := hpair i p hp
    obtain ⟨u', rfl, -⟩ := hu.served ht hunit
    simp only [hcache, Option.getD_some]
  · intro i p u hp hunit hcache
    obtain ⟨t, ht, rfl⟩ := hpair i p hp
    obtain ⟨u', rfl, hlive, hoff, -⟩ := hu.served ht hunit
    refine ⟨rfl, hoff, ?_⟩
    simp only [hcache, Option.getD_none]
    exact hw.media.holds hlive

/-- Valid tokens are fetched in every state. -/
theorem Held.fetch (hw : st.Held live) (hl : l < st.table.numLayers)
    (hts : ∀ t ∈ ts, t < st.table.maxTokens) (hval : ∀ t ∈ ts, st.Valid l t) :
    st.Fetches l (st.ownBytes l) ts := by
  intro outs reads hlen hroom
  obtain ⟨units, hu⟩ := hw.unitsOf hl hts hval
  have hserves := hw.serves_served hu
  have hvalid : ∀ p ∈ st.pairs l ts, entryValid p.2 = true := by
    intro p hp
    obtain ⟨t, ht, rfl⟩ := List.mem_map.mp hp
    exact (valid_iff hl (hts t ht)).mp (hval t ht)
  rw [← zip_entries] at hserves hvalid
  obtain ⟨s', hfetch, houts⟩ := fetch_served (gather_ok hl hts) hvalid hserves
    (hw.fitting_served hu hlen hroom) hw.media.cap (by simp [hlen]) reads
  refine ⟨s', hfetch, fun i t out ht hout => ?_⟩
  have hlt : i < (st.servedUnits l units ts).length := by
    rw [hu.length_served]
    exact (List.getElem?_eq_some_iff.mp ht).1
  have hi := List.getElem?_eq_getElem hlt
  obtain ⟨u, hserved, -, -, hlat⟩ := hu.served ht hi
  rw [houts i _ out hi hout, hserved]
  unfold ownBytes
  rw [hlat]
  rfl

/-- Valid tokens are fetched with the bytes of their latest offload. -/
theorem WF.fetch (hw : st.WF live) (hl : l < st.table.numLayers)
    (hts : ∀ t ∈ ts, t < st.table.maxTokens) (hval : ∀ t ∈ ts, st.Valid l t)
    (hlen : outs.length = ts.length) (hroom : ∀ out ∈ outs, st.vm.unitSize ≤ out.length)
    (reads : List DeviceRead) :
    ∃ s', st.fetch l (ts.map Nat.cast) ⟨outs, reads⟩ = (.ok (), s') ∧
      ∀ (i t : ℕ) out, ts[i]? = some t → outs[i]? = some out → ∃ data,
        st.latest l t = some data ∧ data.length = st.vm.unitSize ∧
          s'.outs[i]? = some (data ++ out.drop st.vm.unitSize) := by
  obtain ⟨s', hfetch, houts⟩ := hw.held.fetch hl hts hval outs reads hlen hroom
  refine ⟨s', hfetch, fun i t out ht hout => ?_⟩
  obtain ⟨e, he, hv⟩ := hval t (List.mem_of_getElem? ht)
  obtain ⟨data, hlat, hmem⟩ := hw.unit l t e he hv
  have hown : st.ownBytes l t = data := by
    unfold ownBytes
    cases hcache : st.cache ((l : ℤ), (t : ℤ)) with
    | none => rw [hlat, Option.getD_none, Option.getD_some]
    | some c =>
      obtain ⟨l', t', hkey, -, hlat'⟩ := hw.cached _ _ hcache
      obtain ⟨h1, h2⟩ := Prod.mk.inj hkey
      obtain rfl := Nat.cast_inj.mp h1
      obtain rfl := Nat.cast_inj.mp h2
      exact Option.some.inj (hlat'.symm.trans hlat)
  refine ⟨data, hlat, hw.media.length_data hmem, ?_⟩
  rw [houts i t out ht hout, hown]

end Valid

section Prefetch

theorem foldl_update_cases (key : ℤ → ℤ × ℤ) {new : List (ℤ × List UInt8)}
    {cache : ℤ × ℤ → Option (List UInt8)} {k : ℤ × ℤ} {v : List UInt8}
    (h : new.foldl (fun cache p => Function.update cache (key p.1) (some p.2)) cache k = some v) :
    cache k = some v ∨ ∃ p ∈ new, key p.1 = k ∧ p.2 = v := by
  induction new generalizing cache with
  | nil => exact .inl h
  | cons p new ih =>
    rw [List.foldl_cons] at h
    rcases ih h with h | ⟨q, hq, hkey, hval⟩
    · rw [Function.update_apply] at h
      split_ifs at h with he
      · exact .inr ⟨p, List.mem_cons_self, he.symm, Option.some.inj h⟩
      · exact .inl h
    · exact .inr ⟨q, List.mem_cons_of_mem _ hq, hkey, hval⟩

/-- The cache holds latest bytes of valid tokens only. -/
theorem WF.prefetch (hw : st.WF live) (hl : l < st.table.numLayers)
    (hts : ∀ t ∈ ts, t < st.table.maxTokens) {r : Except StoreError Unit} {st' : SparseKVStore}
    (h : prefetch l (ts.map Nat.cast) st = (r, st')) :
    st'.WF live ∧ st'.entered = st.entered := by
  unfold SparseKVStore.prefetch at h
  rw [Fallible.get_bind] at h
  rw [List.filter_map] at h
  generalize hpend : ts.filter ((fun t => (st.cache ((l : ℤ), t)).isNone) ∘ Nat.cast) = pending at h
  have hsub : ∀ t ∈ pending, t < st.table.maxTokens := by
    intro t ht
    rw [← hpend] at ht
    exact hts t (List.mem_of_mem_filter ht)
  split_ifs at h with hempty
  · obtain ⟨rfl, rfl⟩ := Prod.mk.inj h
    exact ⟨hw, rfl⟩
  · by_cases hval : ∀ t ∈ pending, st.Valid l t
    · have hlen : ((pending.map Nat.cast).map fun _ : ℤ =>
          List.replicate st.vm.unitSize (0 : UInt8)).length = pending.length := by simp
      obtain ⟨s, hfetch, houts⟩ := hw.fetch hl hsub hval hlen (fun out hout => by
        obtain ⟨t, -, rfl⟩ := List.mem_map.mp hout
        rw [List.length_replicate]) []
      rw [hfetch] at h
      obtain ⟨rfl, rfl⟩ := Prod.mk.inj h
      refine ⟨{ hw with cached := fun key data hc => ?_ }, rfl⟩
      rcases foldl_update_cases (fun t => ((l : ℤ), t)) hc with hc | ⟨p, hp, rfl, rfl⟩
      · exact hw.cached key data hc
      · obtain ⟨k, hk⟩ := List.mem_iff_getElem?.mp hp
        obtain ⟨htok, hview⟩ := List.getElem?_zip_eq_some.mp hk
        rw [List.getElem?_map, Option.map_eq_some_iff] at htok
        obtain ⟨t, ht, hcast⟩ := htok
        obtain ⟨data, hlat, hlen, hdata⟩ := houts k t (List.replicate st.vm.unitSize 0) ht (by
          rw [List.getElem?_map, List.getElem?_map, ht]
          rfl)
        rw [hdata, List.drop_of_length_le (by simp), List.append_nil] at hview
        refine ⟨l, t, by rw [← hcast], hval t (List.mem_of_getElem? ht), ?_⟩
        rw [← Option.some.inj hview]
        exact hlat
    · obtain ⟨t, ht, hnot⟩ := not_forall₂.mp hval
      obtain ⟨e, s, hfetch⟩ := fetch_error hl hsub ⟨t, ht, hnot⟩
        ⟨(pending.map Nat.cast).map fun _ : ℤ => List.replicate st.vm.unitSize 0, []⟩
      rw [hfetch] at h
      obtain ⟨rfl, rfl⟩ := Prod.mk.inj h
      exact ⟨hw, rfl⟩

end Prefetch

end SparseKVStore

end Umm
