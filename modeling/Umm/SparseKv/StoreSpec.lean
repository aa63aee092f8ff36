import Umm.SparseKv.StoreHeld

/-! What the calls of the store do to the tokens that are valid, and to the units that hold
them. -/
namespace Umm
open Umm.Lib

namespace SparseKVStore

variable {st st' : SparseKVStore} {live : ℕ → List LiveUnit}

/-- The valid entries are exactly the units in use, with the bytes of the latest offload. -/
structure WF (st : SparseKVStore) (live : ℕ → List LiveUnit) : Prop where
  media : st.vm.WF live
  addressed : ∀ geo ∈ st.vm.mgrs.map DeviceSegmentManager.geo,
    geo.nSeg * geo.spBytes < 2 ^ 48 + st.vm.unitSize
  unit : ∀ l t e, st.table.entryAt l t = some e → entryValid e = true →
    ∃ data, st.latest l t = some data ∧ ⟨entryOffset e, data⟩ ∈ live (st.deviceOf l t)
  apart : ∀ l t l' t' e e', st.table.entryAt l t = some e → entryValid e = true →
    st.table.entryAt l' t' = some e' → entryValid e' = true →
    st.deviceOf l t = st.deviceOf l' t' → entryOffset e = entryOffset e' → l = l' ∧ t = t'
  count : ∑ d ∈ Finset.range st.vm.mgrs.length, (live d).length = st.table.validCount
  cached : ∀ key data, st.cache key = some data →
    ∃ l t : ℕ, key = ((l : ℤ), (t : ℤ)) ∧ st.Valid l t ∧ st.latest l t = some data
  length_descBuf : st.descBuf.length = headerSize + entrySize * st.maxTopk
  length_staging : st.staging.length = st.maxTopk * st.vm.unitSize

section Calls

/-- The address of a unit fits an entry. -/
theorem offset_lt {vm : VirtualMedia (ℤ × ℤ)} (hvm : vm.WF live)
    (haddr : ∀ geo ∈ vm.mgrs.map DeviceSegmentManager.geo,
      geo.nSeg * geo.spBytes < 2 ^ 48 + vm.unitSize) {d : ℕ} {u : LiveUnit} (hu : u ∈ live d) :
    u.offset < 2 ^ 48 := by
  obtain ⟨mgr, hmgr⟩ := hvm.mgr_of_live hu
  have hend := (hvm.mgr d mgr hmgr).offset_lt hu
  have hroom := haddr mgr.geo (List.mem_map_of_mem (List.mem_of_getElem? hmgr))
  rw [hvm.unit d mgr hmgr] at hend
  omega

/-- The media layer made a step that keeps the units in use. -/
theorem WF.withMedia (hw : st.WF live) {vm : VirtualMedia (ℤ × ℤ)} (hvm : vm.WF live)
    (hsame : VirtualMedia.SameSetup st.vm vm) : WF { st with vm } live := by
  obtain ⟨hunit, hstrat, hgeo⟩ := id hsame
  have hdev : ∀ l t, deviceOf { st with vm } l t = st.deviceOf l t := by
    intro l t
    unfold deviceOf
    rw [hstrat]
  exact
    { media := hvm
      addressed := by
        dsimp only
        rw [hgeo, hunit]
        exact hw.addressed
      unit := fun l t e he hv => by
        rw [hdev]
        exact hw.unit l t e he hv
      apart := fun l t l' t' e e' => by
        rw [hdev, hdev]
        exact hw.apart l t l' t' e e'
      count := by
        rw [hsame.length_mgrs]
        exact hw.count
      cached := hw.cached
      length_descBuf := hw.length_descBuf
      length_staging := by
        dsimp only
        rw [hunit]
        exact hw.length_staging }

theorem sum_length_update (live : ℕ → List LiveUnit) {n d : ℕ} (hd : d < n)
    (units : List LiveUnit) :
    ∑ i ∈ Finset.range n, (Function.update live d units i).length + (live d).length =
      ∑ i ∈ Finset.range n, (live i).length + units.length := by
  have hmem := Finset.mem_range.mpr hd
  have hupd : ∀ i, (Function.update live d units i).length =
      Function.update (fun i => (live i).length) d units.length i :=
    fun i => Function.apply_update (fun _ => List.length) live d units i
  simp only [hupd]
  rw [Finset.sum_update_of_mem hmem, ← Finset.sum_sdiff (Finset.singleton_subset_iff.mpr hmem),
    Finset.sum_singleton]
  omega

/-- What is kept whatever was called before. -/
theorem WF.held (hw : st.WF live) : st.Held live where
  media := hw.media
  unit := hw.unit
  apart := hw.apart
  length_cached key data hc := by
    obtain ⟨l, t, rfl, ⟨e, he, hv⟩, hlat⟩ := hw.cached key data hc
    obtain ⟨data', hlat', hmem⟩ := hw.unit l t e he hv
    obtain rfl := Option.some.inj (hlat.symm.trans hlat')
    exact hw.media.length_data hmem
  cached l t hc := by
    obtain ⟨data, hdata⟩ := Option.ne_none_iff_exists'.mp hc
    obtain ⟨l', t', hkey, hval, -⟩ := hw.cached _ _ hdata
    obtain ⟨h1, h2⟩ := Prod.mk.inj hkey
    obtain rfl := Nat.cast_inj.mp h1
    obtain rfl := Nat.cast_inj.mp h2
    exact hval
  length_descBuf := hw.length_descBuf
  length_staging := hw.length_staging

theorem WF.device_lt (hw : st.WF live) (l t : ℕ) : st.deviceOf l t < st.vm.mgrs.length :=
  hw.held.device_lt l t

/-- A token that is not valid is entered with a new unit. -/
theorem WF.enter (hw : st.WF live) {l t old e : ℕ} (hl : l < st.table.numLayers)
    (ht : t < st.table.maxTokens) (hold : st.table.entryAt l t = some old)
    (hnot : entryValid old = false) (hval : entryValid e = true) {data : List UInt8}
    {vm : VirtualMedia (ℤ × ℤ)} (hsame : VirtualMedia.SameSetup st.vm vm)
    (hvm : vm.WF (Function.update live (st.deviceOf l t)
      (⟨entryOffset e, data⟩ :: live (st.deviceOf l t)))) (was : Bool) :
    WF { st with
      vm
      table := st.table.put l t e
      entered := ⟨((l : ℤ), (t : ℤ)), data, was⟩ :: st.entered }
      (Function.update live (st.deviceOf l t)
        (⟨entryOffset e, data⟩ :: live (st.deviceOf l t))) := by
  have hheld := hw.held.enter hl ht hval hsame hvm was
  refine
    { media := hvm
      addressed := ?_
      unit := hheld.unit
      apart := hheld.apart
      count := ?_
      cached := fun key data' hc => ?_
      length_descBuf := hheld.length_descBuf
      length_staging := hheld.length_staging }
  · dsimp only
    rw [hsame.2.2, hsame.1]
    exact hw.addressed
  · have hsum := sum_length_update live (hw.device_lt l t)
      (⟨entryOffset e, data⟩ :: live (st.deviceOf l t))
    have hcount := SlotTable.validCount_put hl ht hold e
    rw [hnot, hval] at hcount
    rw [List.length_cons] at hsum
    have hold := hw.count
    dsimp only
    rw [hsame.length_mgrs]
    simp only [Bool.false_eq_true, if_false, if_true] at hcount
    omega
  · obtain ⟨l', t', rfl, ⟨e', he', hv'⟩, hlat⟩ := hw.cached key data' hc
    have hne : ¬ (l' = l ∧ t' = t) := by
      rintro ⟨rfl, rfl⟩
      obtain rfl := Option.some.inj (hold.symm.trans he')
      rw [hnot] at hv'
      cases hv'
    refine ⟨l', t', rfl, ⟨e', ?_, hv'⟩, ?_⟩
    · dsimp only
      rw [SlotTable.entryAt_put hl ht, if_neg hne, he']
    · refine (latest_cons { st with vm, table := st.table.put l t e } _ l' t' st.entered).trans ?_
      rw [if_neg, ← hlat]
      · rfl
      · simp only [Prod.mk.injEq, Nat.cast_inj]
        exact fun heq => hne ⟨heq.1.symm, heq.2.symm⟩

/-- A valid token gives up its unit. -/
theorem WF.leave (hw : st.WF live) {l t old : ℕ} (hl : l < st.table.numLayers)
    (ht : t < st.table.maxTokens) (hold : st.table.entryAt l t = some old)
    (hval : entryValid old = true) {data : List UInt8}
    (hmem : ⟨entryOffset old, data⟩ ∈ live (st.deviceOf l t)) {vm : VirtualMedia (ℤ × ℤ)}
    (hsame : VirtualMedia.SameSetup st.vm vm)
    (hvm : vm.WF (Function.update live (st.deviceOf l t)
      ((live (st.deviceOf l t)).erase ⟨entryOffset old, data⟩))) :
    WF { st with
      vm
      table := st.table.put l t 0
      cache := Function.update st.cache ((l : ℤ), (t : ℤ)) none }
      (Function.update live (st.deviceOf l t)
        ((live (st.deviceOf l t)).erase ⟨entryOffset old, data⟩)) := by
  have hheld := hw.held.leave hl ht hold hval hsame hvm
  refine
    { media := hvm
      addressed := ?_
      unit := hheld.unit
      apart := hheld.apart
      count := ?_
      cached := fun key data' hc => ?_
      length_descBuf := hheld.length_descBuf
      length_staging := hheld.length_staging }
  · dsimp only
    rw [hsame.2.2, hsame.1]
    exact hw.addressed
  · have hsum := sum_length_update live (hw.device_lt l t)
      ((live (st.deviceOf l t)).erase ⟨entryOffset old, data⟩)
    have hcount := SlotTable.validCount_put hl ht hold 0
    have hpos := List.length_pos_of_mem hmem
    rw [show entryValid 0 = false from rfl, hval] at hcount
    rw [List.length_erase_of_mem hmem] at hsum
    have hold := hw.count
    dsimp only
    rw [hsame.length_mgrs]
    simp only [Bool.false_eq_true, if_false, if_true] at hcount
    omega
  · dsimp only at hc
    rw [Function.update_apply] at hc
    split_ifs at hc with hkey
    obtain ⟨l', t', rfl, ⟨e', he', hv'⟩, hlat⟩ := hw.cached key data' hc
    refine ⟨l', t', rfl, ⟨e', ?_, hv'⟩, hlat⟩
    dsimp only
    rw [SlotTable.entryAt_put hl ht, if_neg, he']
    rintro ⟨rfl, rfl⟩
    exact hkey rfl

end Calls

section Offload

variable {w : WriteFrom} {r : Except StoreError Unit}

/-- What an offload keeps in any case, with the history that it adds to. -/
structure Grows (st st' : SparseKVStore) : Prop where
  numLayers : st'.table.numLayers = st.table.numLayers
  maxTokens : st'.table.maxTokens = st.table.maxTokens
  unitSize : st'.vm.unitSize = st.vm.unitSize
  entered : st.entered <:+ st'.entered

theorem Grows.refl (st : SparseKVStore) : Grows st st := ⟨rfl, rfl, rfl, List.suffix_refl _⟩

theorem Grows.trans (st₁ st₂ st₃ : SparseKVStore) (h : Grows st₁ st₂) (h' : Grows st₂ st₃) :
    Grows st₁ st₃ :=
  ⟨h'.numLayers.trans h.numLayers, h'.maxTokens.trans h.maxTokens, h'.unitSize.trans h.unitSize,
    h.entered.trans h'.entered⟩

theorem EnteredFresh.of_grows (h : st'.EnteredFresh) (hs : Grows st st') : st.EnteredFresh :=
  fun e he => h e (hs.entered.subset he)

theorem set_grows (layerId tokenIdx : ℤ) (offset flags : ℕ) :
    Fallible.Keeps Grows (onTable fun tbl => tbl.set layerId tokenIdx offset flags) := by
  intro st r st' h
  cases hset : st.table.set layerId tokenIdx offset flags with
  | error e =>
    rw [onTable_error hset] at h
    obtain ⟨-, rfl⟩ := Prod.mk.inj h
    exact .refl _
  | ok table =>
    rw [onTable_ok hset] at h
    obtain ⟨-, rfl⟩ := Prod.mk.inj h
    unfold SlotTable.set at hset
    cases hcheck : st.table.check layerId tokenIdx with
    | error e =>
      rw [hcheck] at hset
      cases hset
    | ok u =>
      cases hpack : packEntry offset flags with
      | error e =>
        rw [hcheck, hpack] at hset
        cases hset
      | ok e =>
        rw [hcheck, hpack] at hset
        obtain rfl := Except.ok.inj hset
        exact ⟨rfl, rfl, rfl, List.suffix_refl _⟩

theorem offloadToken_grows (layerId tokenIdx : ℤ) (unit : List UInt8) :
    Fallible.Keeps Grows (offloadToken w layerId tokenIdx unit) := by
  refine Fallible.Keeps.bind Grows.trans ?_ fun offset => ?_
  · intro st r st' h
    cases hwrite : VirtualMedia.write (layerId, tokenIdx) unit w st.vm with
    | mk q vm =>
      obtain ⟨rfl, -⟩ := onMedia_cases hwrite h
      exact ⟨rfl, rfl, VirtualMedia.write_unitSize hwrite, List.suffix_refl _⟩
  · refine Fallible.Keeps.get fun st r st' h => ?_
    refine Fallible.Keeps.bind Grows.trans (set_grows _ _ _ _) (fun _ => ?_) st r st' h
    refine Fallible.Keeps.get fun st₁ r₁ st₂ h₁ => ?_
    obtain ⟨-, rfl⟩ := Prod.mk.inj h₁
    exact ⟨rfl, rfl, rfl, List.suffix_cons _ _⟩

theorem offloadTokens_grows (ws : ℕ → WriteFrom) (blk : KVBlockRef) (i n : ℕ) :
    Fallible.Keeps Grows (offloadTokens ws blk i n) := by
  induction n generalizing i with
  | zero => exact Fallible.Keeps.pure Grows.refl _
  | succ n ih =>
    refine Fallible.Keeps.get fun st r st' h => ?_
    exact Fallible.Keeps.bind Grows.trans (offloadToken_grows _ _ _) (fun _ => ih (i + 1)) st r st' h

/-- A property that every round keeps is kept by an offload. -/
theorem offload_keeps {P : SparseKVStore → Prop}
    (hround : ∀ (s s' : SparseKVStore) (w : WriteFrom) (l t : ℕ) (unit : List UInt8)
      (r : Except StoreError Unit), P s → l < s.table.numLayers → t < s.table.maxTokens →
      offloadToken w l t unit s = (r, s') → P s')
    {ws : ℕ → ℕ → WriteFrom} {j : ℕ} {blks : List KVBlockRef} (hst : P st)
    (h : offload ws j blks st = (r, st')) : P st' := by
  induction blks generalizing j st with
  | nil =>
    obtain ⟨-, rfl⟩ := Prod.mk.inj h
    exact hst
  | cons blk blks ih =>
    unfold offload at h
    rcases Fallible.bind_cases h with ⟨e, hcheck, rfl⟩ | ⟨u, st₁, hcheck, hrest⟩
    · obtain ⟨rfl, -⟩ := checkBlock_cases hcheck
      exact hst
    · obtain ⟨rfl, ⟨e, he⟩ | ⟨-, hlow, hhigh, hstart, hstop⟩⟩ := checkBlock_cases hcheck
      · cases he
      have htokens : ∀ {i n : ℕ} {s s' : SparseKVStore} {q : Except StoreError Unit}, P s →
          blk.layerId < s.table.numLayers → (i + n ≤ blk.tokenCount.toNat) →
          blk.tokenStart + blk.tokenCount ≤ s.table.maxTokens →
          offloadTokens (ws j) blk i n s = (q, s') → P s' := by
        intro i n
        induction n generalizing i with
        | zero =>
          intro s s' q hs _ _ _ h
          obtain ⟨-, rfl⟩ := Prod.mk.inj h
          exact hs
        | succ n ihn =>
          intro s s' q hs hl hi hend h
          unfold offloadTokens at h
          rw [Fallible.get_bind] at h
          have hlayer : blk.layerId = (blk.layerId.toNat : ℤ) := by omega
          have htoken : blk.tokenStart + i = ((blk.tokenStart.toNat + i : ℕ) : ℤ) := by omega
          rw [hlayer, htoken] at h
          rcases Fallible.bind_cases h with ⟨e, hone, rfl⟩ | ⟨u, s₁, hone, hrest⟩
          · exact hround _ _ _ _ _ _ _ hs (by omega) (by omega) hone
          · have hgrows := offloadToken_grows _ _ _ _ _ _ hone
            refine ihn (hround _ _ _ _ _ _ _ hs (by omega) (by omega) hone) ?_ (by omega) ?_ hrest
            · rwa [hgrows.numLayers]
            · rwa [hgrows.maxTokens]
      rcases Fallible.bind_cases hrest with ⟨e, hall, rfl⟩ | ⟨u', st₂, hall, hnext⟩
      · exact htokens hst hhigh (by omega) hstop hall
      · exact ih (htokens hst hhigh (by omega) hstop hall) hnext

/-- As long as tokens are entered only while they are not valid, the store is in order. -/
def Inv (st : SparseKVStore) : Prop := st.EnteredFresh → ∃ live, st.WF live

theorem offloadToken_wf (hw : st.WF live) {l t : ℕ} (hl : l < st.table.numLayers)
    (ht : t < st.table.maxTokens) {unit : List UInt8}
    (h : offloadToken w l t unit st = (r, st')) : st'.Inv := by
  intro hfresh
  rcases offloadToken_cases hw.media hl ht h with ⟨e, -, hraised⟩ | ⟨-, e, hentered⟩
  · rw [hraised.same]
    rcases hraised.media with hvm | ⟨offset, hbig, hvm⟩
    · exact ⟨live, hw.withMedia hvm hraised.setup⟩
    · have haddr := hw.addressed
      rw [← hraised.setup.2.2, ← hraised.setup.1] at haddr
      have hlt : offset < 2 ^ 48 := by
        refine offset_lt hvm haddr (d := st.deviceOf l t) (u := ⟨offset, unit⟩) ?_
        rw [Function.update_self]
        exact List.mem_cons_self
      omega
  · obtain ⟨old, hold, -⟩ := get_ok hl ht
    have hsame := hentered.same
    rw [hold] at hsame
    rw [hsame] at hfresh ⊢
    have hnot : entryValid old = false := hfresh _ List.mem_cons_self
    exact ⟨_, hw.enter hl ht hold hnot hentered.valid hentered.setup hentered.media _⟩

theorem offload_inv (hinv : st.Inv) {ws : ℕ → ℕ → WriteFrom} {j : ℕ} {blks : List KVBlockRef}
    (h : offload ws j blks st = (r, st')) : st'.Inv := by
  refine offload_keeps (P := Inv) ?_ hinv h
  intro s s' w l t unit r hinv hl ht hone hfresh
  obtain ⟨live, hw⟩ := hinv (hfresh.of_grows (offloadToken_grows _ _ _ _ _ _ hone))
  exact offloadToken_wf hw hl ht hone hfresh

end Offload

theorem WF.flush (hw : st.WF live) {ws : ℕ → WriteFrom} {r : Except StoreError Unit}
    (h : flush ws st = (r, st')) :
    st'.WF live ∧ st'.entered = st.entered ∧ (r = .ok () → ∀ d, st'.vm.Drained d) := by
  cases hflush : VirtualMedia.flush ws st.vm with
  | mk q vm =>
    obtain ⟨hsame, hvm, hdrained⟩ := hw.media.flush hflush
    obtain ⟨rfl, hr⟩ := onMedia_cases hflush h
    refine ⟨hw.withMedia hvm hsame, rfl, fun hok => hdrained ?_⟩
    rcases hr with ⟨e, -, rfl⟩ | ⟨u, rfl, -⟩
    · cases hok
    · rfl

section Release

variable {layerId tokenIdx : ℤ} {r : Except StoreError Unit}

/-- What a release leaves: the token is not valid, and the others are as they were. -/
structure Released (layerId tokenIdx : ℤ) (st st' : SparseKVStore) : Prop where
  entered : st'.entered = st.entered
  numLayers : st'.table.numLayers = st.table.numLayers
  maxTokens : st'.table.maxTokens = st.table.maxTokens
  valid : ∀ l t, st'.Valid l t ↔
    st.Valid l t ∧ ¬ ((l : ℤ) = layerId ∧ (t : ℤ) = tokenIdx)

theorem WF.releaseToken (hw : st.WF live) (h : releaseToken layerId tokenIdx st = (r, st')) :
    (∃ e, r = .error e ∧ st' = st ∧ ¬ st.InRange layerId tokenIdx) ∨
      r = .ok () ∧ Released layerId tokenIdx st st' ∧ ∃ live', st'.WF live' := by
  rcases hw.held.releaseToken_cases h with herr | ⟨rfl, l, t, rfl, rfl, hl, ht, hcases⟩
  · exact .inl herr
  have hsame_key : ∀ l' t' : ℕ, (l' : ℤ) = l ∧ (t' : ℤ) = t ↔ l' = l ∧ t' = t := by
    intro l' t'
    rw [Nat.cast_inj, Nat.cast_inj]
  rcases hcases with ⟨rfl, hnot⟩ | ⟨old, data, hrel⟩
  · refine .inr ⟨rfl, ⟨rfl, rfl, rfl, fun l' t' => ?_⟩, live, hw⟩
    rw [hsame_key, iff_self_and]
    rintro hval ⟨rfl, rfl⟩
    exact hnot hval
  · refine .inr ⟨rfl, ?_, ?_⟩
    · rw [hrel.same]
      refine ⟨rfl, rfl, rfl, fun l' t' => ?_⟩
      unfold Valid
      dsimp only
      rw [hsame_key, SlotTable.entryAt_put hl ht]
      constructor
      · rintro ⟨e', he', hv'⟩
        split_ifs at he' with hkey
        · obtain rfl := Option.some.inj he'
          cases hv'
        · exact ⟨⟨e', he', hv'⟩, hkey⟩
      · rintro ⟨⟨e', he', hv'⟩, hkey⟩
        rw [if_neg hkey]
        exact ⟨e', he', hv'⟩
    · rw [hrel.same]
      exact ⟨_, hw.leave hl ht hrel.entry hrel.valid hrel.unit hrel.setup hrel.media⟩

theorem WF.release (hw : st.WF live) {tokens : List ℤ} (h : release layerId tokens st = (r, st')) :
    st'.entered = st.entered ∧ (∃ live', st'.WF live') ∧
      ((∀ t ∈ tokens, st.InRange layerId t) → r = .ok () ∧ ∀ l t : ℕ, st'.Valid l t ↔
        st.Valid l t ∧ ¬ ((l : ℤ) = layerId ∧ (t : ℤ) ∈ tokens)) := by
  induction tokens generalizing st live with
  | nil =>
    obtain ⟨rfl, rfl⟩ := Prod.mk.inj h
    exact ⟨rfl, ⟨live, hw⟩, fun _ => ⟨rfl, by simp⟩⟩
  | cons t ts ih =>
    unfold SparseKVStore.release at h
    rcases Fallible.bind_cases h with ⟨e, hone, rfl⟩ | ⟨u, st₁, hone, hrest⟩
    · obtain ⟨e', -, rfl, hnot⟩ | ⟨hok, -⟩ := hw.releaseToken hone
      · exact ⟨rfl, ⟨live, hw⟩, fun hin => absurd (hin t List.mem_cons_self) hnot⟩
      · cases hok
    · obtain ⟨e', hbad, -⟩ | ⟨-, hrel, live₁, hw₁⟩ := hw.releaseToken hone
      · cases hbad
      · obtain ⟨hent, hlive, hall⟩ := ih hw₁ hrest
        refine ⟨hent.trans hrel.entered, hlive, fun hin => ?_⟩
        obtain ⟨hok, hvalid⟩ := hall fun t' ht' => by
          have := hin t' (List.mem_cons_of_mem _ ht')
          unfold InRange at this ⊢
          rw [hrel.numLayers, hrel.maxTokens]
          exact this
        refine ⟨hok, fun l t' => ?_⟩
        rw [hvalid, hrel.valid, List.mem_cons]
        tauto

end Release

end SparseKVStore

end Umm
