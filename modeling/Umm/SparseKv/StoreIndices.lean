import Umm.SparseKv.StoreRuns

/-! The calls of the store for any indices, also negative ones, which name a token from the end of
a row. -/
namespace Umm
open Umm.Lib

namespace SparseKVStore

variable {st st' : SparseKVStore} {live : ℕ → List LiveUnit} {layerId : ℤ} {tokens : List ℤ}

/-- The token whose entry an index reads. -/
def named (st : SparseKVStore) (t : ℤ) : ℕ :=
  if 0 ≤ t then t.toNat else (st.table.maxTokens + t).toNat

/-- The indices of a row. -/
def Indexes (st : SparseKVStore) (t : ℤ) : Prop :=
  -st.table.maxTokens ≤ t ∧ t < st.table.maxTokens

instance (st : SparseKVStore) (t : ℤ) : Decidable (st.Indexes t) :=
  inferInstanceAs (Decidable (_ ∧ _))

theorem named_natCast (st : SparseKVStore) (t : ℕ) : st.named t = t := by
  unfold named
  rw [if_pos (Int.natCast_nonneg t), Int.toNat_natCast]

theorem named_lt {t : ℤ} (h : st.Indexes t) : st.named t < st.table.maxTokens := by
  obtain ⟨hlow, hhigh⟩ := h
  unfold named
  split_ifs <;> omega

section Gather

theorem pyIndex_row {l : ℕ} (hl : l < st.table.numLayers) {row : List ℕ}
    (hrow : st.table.layers[l]? = some row) (t : ℤ) :
    pyIndex row t = if st.Indexes t then some (st.entryOf l (st.named t)) else none := by
  have hlen : row.length = st.table.maxTokens :=
    st.table.length_row row (List.mem_of_getElem? hrow)
  have hentry : ∀ n < st.table.maxTokens, row[n]? = some (st.entryOf l n) := by
    intro n hn
    have he := entryAt_entryOf hl hn
    unfold SlotTable.entryAt at he
    rwa [hrow] at he
  by_cases hin : st.Indexes t
  · have hlt := named_lt hin
    rw [if_pos hin, ← hentry _ hlt]
    obtain ⟨hlow, -⟩ := hin
    unfold pyIndex named
    rw [hlen]
    split_ifs
    · rfl
    · rfl
  · rw [if_neg hin]
    unfold Indexes at hin
    unfold pyIndex
    rw [hlen]
    split_ifs with h0 hlow
    · exact List.getElem?_eq_none (by omega)
    · omega
    · rfl

/-- What `gather` reads, and when it does not raise. -/
theorem gather_eq (st : SparseKVStore) (layerId : ℤ) (tokens : List ℤ) :
    (∃ e, st.table.gather layerId tokens = .error e ∧
      ¬ ((0 ≤ layerId ∧ layerId < st.table.numLayers) ∧ ∀ t ∈ tokens, st.Indexes t)) ∨
    ∃ l : ℕ, layerId = l ∧ l < st.table.numLayers ∧ (∀ t ∈ tokens, st.Indexes t) ∧
      st.table.gather layerId tokens =
        .ok (tokens.map fun t => st.entryOf l (st.named t)) := by
  by_cases hlayer : 0 ≤ layerId ∧ layerId < st.table.numLayers
  · obtain ⟨l, rfl⟩ := Int.eq_ofNat_of_zero_le hlayer.1
    have hl : l < st.table.numLayers := by exact_mod_cast hlayer.2
    have hrow := List.getElem?_eq_getElem (st.table.length_layers.symm ▸ hl)
    cases hres : st.table.gather l tokens with
    | error e =>
      refine .inl ⟨e, rfl, fun hin => ?_⟩
      unfold SlotTable.gather at hres
      rw [if_neg (not_not.mpr hlayer), Int.toNat_natCast, hrow] at hres
      simp only [pyIndex_row hl hrow] at hres
      rw [mapM_ok (g := fun t => st.entryOf l (st.named t))] at hres
      · cases hres
      · intro t ht
        rw [if_pos (hin.2 t ht)]
    | ok entries =>
      unfold SlotTable.gather at hres
      rw [if_neg (not_not.mpr hlayer), Int.toNat_natCast, hrow] at hres
      simp only [pyIndex_row hl hrow] at hres
      have hin : ∀ t ∈ tokens, st.Indexes t := by
        intro t ht
        obtain ⟨e, he⟩ := mapM_mem_ok hres ht
        by_contra hnot
        rw [if_neg hnot] at he
        cases he
      refine .inr ⟨l, rfl, hl, hin, ?_⟩
      rw [mapM_ok (g := fun t => st.entryOf l (st.named t))] at hres
      · exact hres.symm
      · intro t ht
        rw [if_pos (hin t ht)]
  · refine .inl ⟨.layerRange layerId, ?_, fun h => hlayer h.1⟩
    unfold SlotTable.gather
    rw [if_pos hlayer]

variable {l : ℕ}

theorem getElem?_zip_entries {i : ℕ} {p : ℤ × ℕ} :
    (tokens.zip (tokens.map fun t => st.entryOf l (st.named t)))[i]? = some p ↔
      tokens[i]? = some p.1 ∧ p.2 = st.entryOf l (st.named p.1) := by
  rw [List.getElem?_zip_eq_some, List.getElem?_map]
  constructor
  · rintro ⟨htoken, hentry⟩
    rw [htoken] at hentry
    exact ⟨htoken, (Option.some.inj hentry).symm⟩
  · rintro ⟨htoken, hentry⟩
    rw [htoken, hentry]
    exact ⟨rfl, rfl⟩

theorem mem_zip_entries {p : ℤ × ℕ} :
    p ∈ tokens.zip (tokens.map fun t => st.entryOf l (st.named t)) ↔
      p.1 ∈ tokens ∧ p.2 = st.entryOf l (st.named p.1) := by
  simp only [List.mem_iff_getElem?, getElem?_zip_entries, exists_and_right]

theorem zip_entries_room (st : SparseKVStore) (l : ℕ) {k : ℕ} (h : tokens.length ≤ k) :
    0 + (tokens.zip (tokens.map fun t => st.entryOf l (st.named t))).length ≤ k := by
  rw [Nat.zero_add, List.length_zip, List.length_map, Nat.min_self]
  exact h

end Gather

section Plan

variable {t : ℤ} {i e : ℕ} {extentBase : ℕ → ℕ}

/-- The bytes of a unit that is still in the buffer of its device. -/
def readyData (st : SparseKVStore) (layerId t : ℤ) (e : ℕ) : Option (List UInt8) :=
  (st.vm.mgrs[st.vm.strategy.locate (layerId, t)]?).bind fun mgr =>
    if mgr.isBuffered (entryOffset e) then mgr.readBuffer (entryOffset e) st.vm.unitSize else none

/-- The entry that a round of `plan` packs. -/
def plannedEntry (extentBase : ℕ → ℕ) (st : SparseKVStore) (layerId t : ℤ) (i e : ℕ) : PlanEntry :=
  ⟨st.vm.strategy.locate (layerId, t),
    if (st.readyData layerId t e).isSome then flagHostReady else flagDisk,
    extentBase (st.vm.strategy.locate (layerId, t)) + entryOffset e, st.vm.unitSize,
    i * st.vm.unitSize⟩

/-- The staging area that a round of `plan` leaves. -/
def plannedStaging (st : SparseKVStore) (layerId t : ℤ) (i e : ℕ) : List UInt8 :=
  (st.readyData layerId t e).elim st.staging
    (setSlice st.staging (i * st.vm.unitSize) st.vm.unitSize)

theorem planEntry_invalid (hv : entryValid e = false) :
    planEntry extentBase layerId t i e st = (.error (.notOffloaded layerId t), st) := by
  unfold planEntry
  rw [Fallible.get_bind, if_pos (by simp [hv])]
  rfl

theorem Held.mgr_at (hw : st.Held live) (key : ℤ × ℤ) :
    ∃ mgr, st.vm.mgrs[st.vm.strategy.locate key]? = some mgr := by
  have hlt : st.vm.strategy.locate key < st.vm.mgrs.length := by
    rw [hw.media.devices]
    exact st.vm.strategy.locate_lt key
  exact ⟨_, List.getElem?_eq_getElem hlt⟩

/-- What one round of `plan` does for a valid entry. -/
theorem Held.planEntry_valid (hw : st.Held live) (extentBase : ℕ → ℕ) (layerId t : ℤ) (i : ℕ)
    (hv : entryValid e = true) :
    (∃ err, (plannedEntry extentBase st layerId t i e).pack = .error err ∧
      planEntry extentBase layerId t i e st =
        (.error err, { st with staging := st.plannedStaging layerId t i e })) ∨
    ∃ bs, (plannedEntry extentBase st layerId t i e).pack = .ok bs ∧
      planEntry extentBase layerId t i e st =
        (.ok (), { st with
          staging := st.plannedStaging layerId t i e
          descBuf := splice st.descBuf (headerSize + i * entrySize) bs }) := by
  obtain ⟨mgr, hmgr⟩ := hw.mgr_at (layerId, t)
  have hready : st.readyData layerId t e = if mgr.isBuffered (entryOffset e) then
      mgr.readBuffer (entryOffset e) st.vm.unitSize else none := by
    unfold readyData
    rw [hmgr]
    rfl
  unfold planEntry
  simp only [Fallible.get_bind, hv, not_true_eq_false, if_false, hmgr, ← hready,
    Fallible.set_bind]
  unfold plannedStaging plannedEntry
  cases hr : st.readyData layerId t e with
  | none =>
    simp only [Option.isSome_none, Option.elim_none, Bool.false_eq_true, if_false]
    generalize PlanEntry.pack _ = q
    cases q with
    | error err => exact .inl ⟨err, rfl, rfl⟩
    | ok bs => exact .inr ⟨bs, rfl, rfl⟩
  | some data =>
    simp only [Option.isSome_some, Option.elim_some, if_true]
    generalize PlanEntry.pack _ = q
    cases q with
    | error err => exact .inl ⟨err, rfl, rfl⟩
    | ok bs => exact .inr ⟨bs, rfl, rfl⟩

/-- The offset of a valid entry is a multiple of the unit. -/
theorem Held.aligned (hw : st.Held live) {l n : ℕ} (he : st.table.entryAt l n = some e)
    (hv : entryValid e = true) : st.vm.unitSize ∣ entryOffset e := by
  obtain ⟨data, -, hmem⟩ := hw.unit l n e he hv
  obtain ⟨mgr, hmgr⟩ := hw.media.mgr_of_live hmem
  rw [← hw.media.unit _ mgr hmgr]
  exact (hw.media.mgr _ mgr hmgr).aligned _ hmem

theorem Held.unit_pos (hw : st.Held live) {d : ℕ} {mgr : DeviceSegmentManager}
    (hmgr : st.vm.mgrs[d]? = some mgr) : 0 < st.vm.unitSize := by
  rw [← hw.media.unit _ mgr hmgr]
  exact mgr.geo.unit_pos

/-- A whole unit is copied from the buffer of any device. -/
theorem Held.length_ready (hw : st.Held live) (ha : st.vm.unitSize ∣ entryOffset e)
    {data : List UInt8} (h : st.readyData layerId t e = some data) :
    data.length = st.vm.unitSize := by
  obtain ⟨mgr, hmgr⟩ := hw.mgr_at (layerId, t)
  have hm := hw.media.mgr _ mgr hmgr
  have hunit := hw.media.unit _ mgr hmgr
  unfold readyData at h
  rw [hmgr, Option.bind_some] at h
  split_ifs at h with hbuf
  have hbuffered := DeviceSegmentManager.isBuffered_iff.mp hbuf
  rw [← hunit] at ha h ⊢
  rw [DeviceSegmentManager.readBuffer_of_buffered hbuffered] at h
  obtain rfl := Option.some.inj h
  exact hm.length_unitAt ha (hm.buffered_inside ha hbuffered)

/-- A round changes its own slot of the staging area only. -/
theorem Held.plannedStaging_slots (hw : st.Held live) (layerId t : ℤ)
    (ha : st.vm.unitSize ∣ entryOffset e) (hi : i < st.maxTopk) :
    (st.plannedStaging layerId t i e).length = st.staging.length ∧
      (∀ j, j ≠ i → slice (st.plannedStaging layerId t i e) (j * st.vm.unitSize) st.vm.unitSize =
        slice st.staging (j * st.vm.unitSize) st.vm.unitSize) ∧
      ∀ data, st.readyData layerId t e = some data →
        slice (st.plannedStaging layerId t i e) (i * st.vm.unitSize) st.vm.unitSize = data := by
  have hroom : i * st.vm.unitSize + st.vm.unitSize ≤ st.staging.length := by
    rw [hw.length_staging, ← Nat.succ_mul]
    exact Nat.mul_le_mul_right _ hi
  unfold plannedStaging
  cases hr : st.readyData layerId t e with
  | none => exact ⟨rfl, fun _ _ => rfl, by simp⟩
  | some data =>
    have hlen := hw.length_ready ha hr
    rw [Option.elim_some, setSlice_eq_splice hlen]
    refine ⟨length_splice (by omega), fun j hj => slice_outside_unit hlen hroom hj, ?_⟩
    intro data' hdata
    obtain rfl := Option.some.inj hdata
    rw [slice_splice_inside (by omega) le_rfl (by omega), Nat.sub_self, ← hlen, slice_self]

theorem Held.withBuffers (hw : st.Held live) {descBuf staging : List UInt8}
    (hd : descBuf.length = st.descBuf.length) (hs : staging.length = st.staging.length) :
    Held { st with descBuf, staging } live :=
  { hw with
    length_descBuf := hd.trans hw.length_descBuf
    length_staging := hs.trans hw.length_staging }

theorem PlannedFrom.held {i : ℕ} (h : PlannedFrom i st st') (hw : st.Held live) :
    st'.Held live := by
  rw [h.same]
  exact hw.withBuffers h.length_descBuf h.length_staging

theorem Held.desc_room (hw : st.Held live) (hi : i < st.maxTopk) {bs : List UInt8}
    (hbs : bs.length = entrySize) :
    headerSize + i * entrySize + bs.length ≤ st.descBuf.length := by
  rw [hw.length_descBuf, hbs]
  unfold entrySize
  omega

/-- One round of `plan`. -/
theorem Held.planEntry_from (hw : st.Held live)
    (ha : entryValid e = true → st.vm.unitSize ∣ entryOffset e) (hi : i < st.maxTopk)
    {r : Except StoreError Unit} (h : planEntry extentBase layerId t i e st = (r, st')) :
    PlannedFrom i st st' ∧
      (r = .ok () ↔ entryValid e = true ∧
        ∃ bs, (plannedEntry extentBase st layerId t i e).pack = .ok bs) ∧
      ∀ bs, r = .ok () → (plannedEntry extentBase st layerId t i e).pack = .ok bs →
        slice st'.descBuf (headerSize + i * entrySize) entrySize = bs := by
  cases hv : entryValid e with
  | false =>
    rw [planEntry_invalid hv] at h
    obtain ⟨rfl, rfl⟩ := Prod.mk.inj h
    exact ⟨.refl _ _, by simp, by simp⟩
  | true =>
    obtain ⟨hlen, hother, -⟩ := hw.plannedStaging_slots layerId t (ha hv) hi
    rcases hw.planEntry_valid extentBase layerId t i hv with ⟨err, hpack, heq⟩ | ⟨bs, hpack, heq⟩
    · rw [heq] at h
      obtain ⟨rfl, rfl⟩ := Prod.mk.inj h
      refine ⟨⟨rfl, rfl, hlen, fun j hj => ⟨rfl, hother j (by omega)⟩⟩, ?_, by simp⟩
      rw [hpack]
      simp
    · rw [heq] at h
      obtain ⟨rfl, rfl⟩ := Prod.mk.inj h
      have hbs := PlanEntry.length_pack hpack
      have hfit := hw.desc_room hi hbs
      refine ⟨⟨rfl, length_splice hfit, hlen, fun j hj => ⟨?_, hother j (by omega)⟩⟩, ?_, ?_⟩
      · refine slice_splice_outside hfit (.inl ?_)
        unfold entrySize
        omega
      · exact iff_of_true rfl ⟨rfl, bs, hpack⟩
      · intro bs' _ hpack'
        obtain rfl := Except.ok.inj (hpack.symm.trans hpack')
        dsimp only
        rw [slice_splice_inside hfit le_rfl (by omega), Nat.sub_self, ← hbs, slice_self]

theorem PlannedFrom.plannedEntry {k : ℕ} (h : PlannedFrom k st st') (layerId t : ℤ) (i e : ℕ) :
    plannedEntry extentBase st' layerId t i e = plannedEntry extentBase st layerId t i e := by
  rw [h.same]
  rfl

/-- The rounds of `plan`. -/
theorem Held.planEntries_from {ps : List (ℤ × ℕ)} (hw : st.Held live)
    (ha : ∀ p ∈ ps, entryValid p.2 = true → st.vm.unitSize ∣ entryOffset p.2)
    (hi : i + ps.length ≤ st.maxTopk) {r : Except StoreError Unit}
    (h : planEntries extentBase layerId i ps st = (r, st')) :
    PlannedFrom i st st' ∧
      (r = .ok () ↔ ∀ (k : ℕ) p, ps[k]? = some p → entryValid p.2 = true ∧
        ∃ bs, (plannedEntry extentBase st layerId p.1 (i + k) p.2).pack = .ok bs) ∧
      ∀ (k : ℕ) p bs, r = .ok () → ps[k]? = some p →
        (plannedEntry extentBase st layerId p.1 (i + k) p.2).pack = .ok bs →
        slice st'.descBuf (headerSize + (i + k) * entrySize) entrySize = bs := by
  induction ps generalizing st i with
  | nil =>
    obtain ⟨rfl, rfl⟩ := Prod.mk.inj h
    exact ⟨.refl _ _, by simp, by simp⟩
  | cons p ps ih =>
    obtain ⟨t, e⟩ := p
    unfold planEntries at h
    rw [List.length_cons] at hi
    have hlt : i < st.maxTopk := by omega
    have hfirst_ok : ∀ {q : Except StoreError Unit} {st₁ : SparseKVStore},
        planEntry extentBase layerId t i e st = (q, st₁) → _ :=
      fun hone => hw.planEntry_from (ha _ List.mem_cons_self) hlt hone
    rcases Fallible.bind_cases h with ⟨err, hone, rfl⟩ | ⟨u, st₁, hone, hrest⟩
    · obtain ⟨hfrom, hok, -⟩ := hfirst_ok hone
      refine ⟨hfrom, iff_of_false (by simp) ?_, by simp⟩
      intro hall
      exact absurd (hok.mpr (hall 0 (t, e) rfl)) (by simp)
    · obtain ⟨hfrom, hok, hslot⟩ := hfirst_ok hone
      have hvm : st₁.vm = st.vm := by rw [hfrom.same]
      have htopk : st₁.maxTopk = st.maxTopk := by rw [hfrom.same]
      have ha₁ : ∀ p ∈ ps, entryValid p.2 = true → st₁.vm.unitSize ∣ entryOffset p.2 := by
        intro p hp hv
        rw [hvm]
        exact ha p (List.mem_cons_of_mem _ hp) hv
      obtain ⟨hfrom', hok', hslot'⟩ := ih (hfrom.held hw) ha₁ (by omega) hrest
      simp only [hfrom.plannedEntry] at hok' hslot'
      refine ⟨hfrom.trans hfrom', ?_, ?_⟩
      · rw [hok']
        constructor
        · intro hall k p hk
          cases k with
          | zero =>
            obtain rfl := Option.some.inj hk
            exact hok.mp rfl
          | succ k =>
            rw [show i + (k + 1) = i + 1 + k by omega]
            exact hall k p hk
        · intro hall k p hk
          rw [show i + 1 + k = i + (k + 1) by omega]
          exact hall (k + 1) p hk
      · intro k p bs hr hk hpack
        cases k with
        | zero =>
          obtain rfl := Option.some.inj hk
          exact (hfrom'.before i (by omega)).1.trans (hslot bs rfl hpack)
        | succ k =>
          rw [show i + (k + 1) = i + 1 + k by omega] at hpack ⊢
          exact hslot' k p bs hr hk hpack

end Plan

section Fetch

variable {ps : List (ℤ × ℕ)} {s s' : ReadState}

theorem onViews_result {α : Type} {call : Fallible MediaError ReadState α} {a : α}
    (h : onViews call s = (.ok a, s')) : call s = (.ok a, s') := by
  unfold onViews at h
  simp only [Fallible.get_bind, Fallible.set_bind] at h
  cases hc : call s with
  | mk q s₁ =>
    rw [hc] at h
    cases q with
    | error e => cases h
    | ok b =>
      obtain ⟨he, rfl⟩ := Prod.mk.inj h
      rw [Except.ok.inj he]

/-- A loop that went through saw valid entries only, and listed what is not in the cache. -/
theorem fetchScan_result {pos : ℕ} {items : List ((ℕ × ℕ) × ℕ)}
    (h : st.fetchScan layerId pos ps s = (.ok items, s')) :
    ∀ p ∈ ps, entryValid p.2 = true ∧ (st.cache (layerId, p.1) = none →
      (st.vm.strategy.locate (layerId, p.1), entryOffset p.2) ∈ items.map Prod.fst) := by
  induction ps generalizing pos items s s' with
  | nil => simp
  | cons p ps ih =>
    obtain ⟨t, e⟩ := p
    unfold fetchScan at h
    split_ifs at h with hval
    swap
    · cases h
    cases hcache : st.cache (layerId, t) with
    | some cached =>
      simp only [hcache] at h
      rcases Fallible.bind_cases h with ⟨err, -, he⟩ | ⟨u, s₁, -, hrest⟩
      · cases he
      intro p hp
      rcases List.mem_cons.mp hp with rfl | hp
      · exact ⟨hval, fun hnone => by rw [hcache] at hnone; cases hnone⟩
      · exact ih hrest p hp
    | none =>
      simp only [hcache] at h
      rcases Fallible.bind_cases h with ⟨err, -, he⟩ | ⟨rest, s₁, hrest, hitems⟩
      · cases he
      obtain ⟨he, -⟩ := Prod.mk.inj hitems
      obtain rfl := Except.ok.inj he
      intro p hp
      rcases List.mem_cons.mp hp with rfl | hp
      · exact ⟨hval, fun _ => List.mem_cons_self⟩
      · obtain ⟨hv', hin⟩ := ih hrest p hp
        exact ⟨hv', fun hnone => List.mem_cons_of_mem _ (hin hnone)⟩

/-- What a fetch that went through says about its tokens. -/
theorem fetch_result (h : st.fetch layerId tokens s = (.ok (), s')) :
    s.outs.length = tokens.length ∧ ∃ l : ℕ, layerId = l ∧ l < st.table.numLayers ∧
      ∀ t ∈ tokens, st.Indexes t ∧ entryValid (st.entryOf l (st.named t)) = true ∧
        (st.cache (l, t) = none → ∃ items s₁ s₂, st.vm.readBatch items s₁ = (.ok (), s₂) ∧
          (st.vm.strategy.locate ((l : ℤ), t), entryOffset (st.entryOf l (st.named t))) ∈
            items) := by
  unfold SparseKVStore.fetch at h
  rw [Fallible.get_bind] at h
  split_ifs at h with hlen
  · cases h
  rcases gather_eq st layerId tokens with ⟨e, hgather, -⟩ | ⟨l, rfl, hl, hin, hgather⟩
  · rw [hgather] at h
    cases h
  rw [hgather] at h
  dsimp only at h
  rcases Fallible.bind_cases h with ⟨err, -, he⟩ | ⟨items, s₁, hscan, hrest⟩
  · cases he
  refine ⟨not_not.mp hlen, l, rfl, hl, fun t ht => ?_⟩
  obtain ⟨hval, hitem⟩ := fetchScan_result hscan (t, st.entryOf l (st.named t))
    (mem_zip_entries.mpr ⟨ht, rfl⟩)
  refine ⟨hin t ht, hval, fun hnone => ?_⟩
  have hmem := hitem hnone
  rw [if_neg (by rintro rfl; cases hmem)] at hrest
  have hread := onViews_result hrest
  unfold readAt at hread
  rw [Fallible.get_bind] at hread
  cases hbatch : st.vm.readBatch (items.map Prod.fst)
      ⟨items.map fun item => (s₁.outs[item.2]?).getD [], s₁.reads⟩ with
  | mk q s₂ =>
    simp only [hbatch, Fallible.set_bind] at hread
    cases q with
    | error e => cases hread
    | ok u => exact ⟨_, _, s₂, hbatch, hmem⟩

/-- The unit of an index can be read at the address that the call forms. -/
def Readable (st : SparseKVStore) (l : ℕ) (t : ℤ) : Prop :=
  st.cache (l, t) ≠ none ∨ ∃ mgr, st.vm.mgrs[st.vm.strategy.locate ((l : ℤ), t)]? = some mgr ∧
    entryOffset (st.entryOf l (st.named t)) + st.vm.unitSize ≤ mgr.extent.length

/-- An address that a batch was read from can be read. -/
theorem Held.readable_of_batch (hw : st.Held live) {l : ℕ} (hl : l < st.table.numLayers) {t : ℤ}
    (hin : st.Indexes t) (hval : entryValid (st.entryOf l (st.named t)) = true)
    {items : List (ℕ × ℕ)} {s₁ s₂ : ReadState} (hbatch : st.vm.readBatch items s₁ = (.ok (), s₂))
    (hmem : (st.vm.strategy.locate ((l : ℤ), t), entryOffset (st.entryOf l (st.named t))) ∈ items) :
    st.Readable l t := by
  obtain ⟨mgr, hmgr, hbuf | hfit⟩ := VirtualMedia.readBatch_inside hw.media.cap hbatch hmem
  · have halign := hw.aligned (entryAt_entryOf hl (named_lt hin)) hval
    refine .inr ⟨mgr, hmgr, ?_⟩
    rw [← hw.media.unit _ mgr hmgr] at halign ⊢
    exact (hw.media.mgr _ mgr hmgr).buffered_inside halign hbuf
  · exact .inr ⟨mgr, hmgr, hfit⟩

/-- What a call gives for an index: the cached bytes, or the unit at the address. -/
def readUnit (st : SparseKVStore) (l : ℕ) (t : ℤ) : ℕ × LiveUnit :=
  (st.vm.strategy.locate ((l : ℤ), t), ⟨entryOffset (st.entryOf l (st.named t)),
    (st.cache (l, t)).getD (((st.vm.mgrs[st.vm.strategy.locate ((l : ℤ), t)]?).map
      fun mgr => mgr.unitAt (entryOffset (st.entryOf l (st.named t)))).getD [])⟩)

section ReadUnit

variable {l : ℕ} {t : ℤ}

theorem readUnit_cached {c : List UInt8} (hcache : st.cache (l, t) = some c) :
    (st.readUnit l t).2.data = c := by
  unfold readUnit
  rw [hcache]
  rfl

/-- A unit that is not cached is at its address, and whole. -/
theorem Held.readUnit_placed (hw : st.Held live) (hl : l < st.table.numLayers)
    (hin : st.Indexes t) (hval : entryValid (st.entryOf l (st.named t)) = true)
    (hread : st.Readable l t) (hnone : st.cache (l, t) = none) :
    st.vm.Holds (st.readUnit l t) ∧ (st.readUnit l t).2.data.length = st.vm.unitSize := by
  obtain hsome | ⟨mgr, hmgr, hfit⟩ := hread
  · exact absurd hnone hsome
  have hdata : (st.readUnit l t).2.data =
      mgr.unitAt (entryOffset (st.entryOf l (st.named t))) := by
    simp only [readUnit, hnone, hmgr, Option.getD_none, Option.map_some, Option.getD_some]
  have hunit := hw.media.unit _ mgr hmgr
  have halign := hw.aligned (entryAt_entryOf hl (named_lt hin)) hval
  refine ⟨⟨mgr, hmgr, hunit, hdata.symm, hfit⟩, ?_⟩
  rw [hdata, ← hunit]
  rw [← hunit] at halign hfit
  exact (hw.media.mgr _ mgr hmgr).length_unitAt halign hfit

theorem Held.length_readUnit (hw : st.Held live) (hl : l < st.table.numLayers)
    (hin : st.Indexes t) (hval : entryValid (st.entryOf l (st.named t)) = true)
    (hread : st.Readable l t) : (st.readUnit l t).2.data.length = st.vm.unitSize := by
  cases hcache : st.cache (l, t) with
  | none => exact (hw.readUnit_placed hl hin hval hread hcache).2
  | some c =>
    rw [readUnit_cached hcache]
    exact hw.length_cached _ c hcache

theorem serves_readUnit
    (hplaced : ∀ t ∈ tokens, st.cache (l, t) = none → st.vm.Holds (st.readUnit l t)) :
    Serves st l (tokens.zip (tokens.map fun t => st.entryOf l (st.named t)))
      (tokens.map (st.readUnit l)) := by
  refine ⟨by simp, ?_, ?_⟩
  · intro i p u c hp hu hcache
    obtain ⟨ht, -⟩ := getElem?_zip_entries.mp hp
    rw [List.getElem?_map, ht] at hu
    obtain rfl := Option.some.inj hu
    exact readUnit_cached hcache
  · intro i p u hp hu hcache
    obtain ⟨ht, hentry⟩ := getElem?_zip_entries.mp hp
    rw [List.getElem?_map, ht] at hu
    obtain rfl := Option.some.inj hu
    refine ⟨rfl, ?_, hplaced _ (List.mem_of_getElem? ht) hcache⟩
    rw [hentry]
    rfl

end ReadUnit

/-- When a fetch goes through. -/
theorem Held.fetch_ok_iff (hw : st.Held live) {outs : List (List UInt8)}
    (hlen : outs.length = tokens.length) (hroom : ∀ out ∈ outs, st.vm.unitSize ≤ out.length)
    (reads : List DeviceRead) :
    (∃ s', st.fetch layerId tokens ⟨outs, reads⟩ = (.ok (), s')) ↔
      ∃ l : ℕ, layerId = l ∧ l < st.table.numLayers ∧ ∀ t ∈ tokens, st.Indexes t ∧
        entryValid (st.entryOf l (st.named t)) = true ∧ st.Readable l t := by
  constructor
  · rintro ⟨s', h⟩
    obtain ⟨-, l, rfl, hl, hall⟩ := fetch_result h
    refine ⟨l, rfl, hl, fun t ht => ?_⟩
    obtain ⟨hin, hval, hread⟩ := hall t ht
    refine ⟨hin, hval, ?_⟩
    by_cases hcache : st.cache (l, t) = none
    · obtain ⟨items, s₁, s₂, hbatch, hmem⟩ := hread hcache
      exact hw.readable_of_batch hl hin hval hbatch hmem
    · exact .inl hcache
  · rintro ⟨l, rfl, hl, hall⟩
    obtain ⟨e, -, hnot⟩ | ⟨l', hl', -, hin, hgather⟩ := gather_eq st (l : ℤ) tokens
    · exact absurd ⟨⟨by omega, by omega⟩, fun t ht => (hall t ht).1⟩ hnot
    obtain rfl := Nat.cast_inj.mp hl'
    have hfitting : VirtualMedia.Fitting st.vm (tokens.map (st.readUnit l)) outs := by
      refine ⟨fun p hp => ?_, by rw [List.length_map, hlen], hroom⟩
      obtain ⟨t, ht, rfl⟩ := List.mem_map.mp hp
      obtain ⟨hidx, hval, hread⟩ := hall t ht
      exact hw.length_readUnit hl hidx hval hread
    have hserves := serves_readUnit (l := l) fun t ht hnone =>
      (hw.readUnit_placed hl (hall t ht).1 (hall t ht).2.1 (hall t ht).2.2 hnone).1
    have hvalid : ∀ p ∈ tokens.zip (tokens.map fun t => st.entryOf l (st.named t)),
        entryValid p.2 = true := by
      intro p hp
      obtain ⟨ht, hentry⟩ := mem_zip_entries.mp hp
      rw [hentry]
      exact (hall _ ht).2.1
    obtain ⟨s', hfetch, -⟩ := fetch_served hgather hvalid hserves hfitting hw.media.cap hlen reads
    exact ⟨s', hfetch⟩

end Fetch

end SparseKVStore

end Umm
