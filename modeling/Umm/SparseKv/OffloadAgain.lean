import Umm.SparseKv.OffloadPrefix

/-! What an offload does to a token that is valid already: the old unit is not given back, and a
prefetched one is fetched on. -/
namespace Umm
open Umm.Lib

theorem card_filter_change {α : Type} [DecidableEq α] {s : Finset α} {P Q : α → Prop}
    [DecidablePred P] [DecidablePred Q] {a : α} (ha : a ∈ s)
    (h : ∀ b ∈ s, b ≠ a → (P b ↔ Q b)) :
    (s.filter Q).card + (if P a then 1 else 0) = (s.filter P).card + if Q a then 1 else 0 := by
  have hrest : ∑ b ∈ s.erase a, (if Q b then 1 else 0) = ∑ b ∈ s.erase a, if P b then 1 else 0 := by
    refine Finset.sum_congr rfl fun b hb => ?_
    obtain ⟨hne, hmem⟩ := Finset.mem_erase.mp hb
    simp only [h b hmem hne]
  rw [Finset.card_filter, Finset.card_filter, ← Finset.add_sum_erase s _ ha,
    ← Finset.add_sum_erase s (fun b => if P b then 1 else 0) ha, hrest]
  omega

namespace SparseKVStore

variable {st st' : SparseKVStore} {live : ℕ → List LiveUnit} {l t : ℕ}

/-- The segment of an offset on a device. -/
def segmentAt (st : SparseKVStore) (d offset : ℕ) : ℕ :=
  ((st.vm.mgrs[d]?).map fun mgr => mgr.geo.segmentOf offset).getD 0

/-- The references of a segment. -/
def references (st : SparseKVStore) (d seg : ℕ) : ℤ :=
  ((st.vm.mgrs[d]?).bind fun mgr => mgr.refcount[seg]?).getD 0

/-- The token has a valid entry in a segment. -/
def InSegment (st : SparseKVStore) (d seg l t : ℕ) : Prop :=
  entryValid (st.entryOf l t) = true ∧ st.deviceOf l t = d ∧
    st.segmentAt d (entryOffset (st.entryOf l t)) = seg

instance (st : SparseKVStore) (d seg l t : ℕ) : Decidable (st.InSegment d seg l t) :=
  inferInstanceAs (Decidable (_ ∧ _ ∧ _))

/-- The number of valid entries in a segment. -/
def entriesIn (st : SparseKVStore) (d seg : ℕ) : ℕ :=
  ((Finset.range st.table.numLayers ×ˢ Finset.range st.table.maxTokens).filter fun p =>
    st.InSegment d seg p.1 p.2).card

/-- The references of a segment that no valid entry stands for. -/
def unnamed (st : SparseKVStore) (d seg : ℕ) : ℤ := st.references d seg - st.entriesIn d seg

theorem Held.references_eq (hw : st.Held live) (d seg : ℕ) :
    st.references d seg = (live d).countP fun u => st.segmentAt d u.offset = seg := by
  unfold references segmentAt
  cases hmgr : st.vm.mgrs[d]? with
  | none =>
    rw [hw.media.outside d hmgr]
    rfl
  | some mgr =>
    have hm := hw.media.mgr d mgr hmgr
    by_cases hseg : seg < mgr.geo.nSeg
    · rw [Option.bind_some, hm.refcount_eq seg hseg]
      rfl
    · have hnone : mgr.refcount[seg]? = none := by
        rw [List.getElem?_eq_none_iff, hm.length_refcount]
        omega
      have hzero : (live d).countP (fun u => mgr.geo.segmentOf u.offset = seg) = 0 := by
        rw [List.countP_eq_zero]
        intro u hu hin
        have := hm.inside u hu
        have := of_decide_eq_true hin
        omega
      rw [Option.bind_some, hnone]
      exact (congrArg Nat.cast hzero).symm

theorem segmentAt_setup (h : VirtualMedia.SameSetup st.vm st'.vm) (d offset : ℕ) :
    st'.segmentAt d offset = st.segmentAt d offset := by
  have hgeo := congrArg (fun gs : List Geometry => gs[d]?) h.2.2
  simp only [List.getElem?_map] at hgeo
  have hmap : ∀ x : SparseKVStore, x.segmentAt d offset =
      ((x.vm.mgrs[d]?.map DeviceSegmentManager.geo).map fun geo => geo.segmentOf offset).getD 0 := by
    intro x
    unfold segmentAt
    rw [Option.map_map]
    rfl
  rw [hmap, hmap, hgeo]

theorem inSegment_setup (h : VirtualMedia.SameSetup st.vm st'.vm)
    (hentry : st'.entryOf l t = st.entryOf l t) (d seg : ℕ) :
    st'.InSegment d seg l t ↔ st.InSegment d seg l t := by
  unfold InSegment deviceOf
  rw [hentry, segmentAt_setup h, h.2.1]

section Rounds

/-- A round that raised gives no reference back. -/
theorem RoundRaised.unnamed_le {unit : List UInt8} (h : RoundRaised st live l t unit st')
    (hw : st.Held live) (d seg : ℕ) : st.unnamed d seg ≤ st'.unnamed d seg := by
  have hentries : st'.entriesIn d seg = st.entriesIn d seg := by
    unfold entriesIn
    have hsame : ∀ l' t', st'.InSegment d seg l' t' ↔ st.InSegment d seg l' t' := by
      intro l' t'
      refine inSegment_setup h.setup ?_ d seg
      rw [h.same]
      rfl
    simp only [hsame]
    rw [h.same]
  have hrefs : st.references d seg ≤ st'.references d seg := by
    have hheld : ∃ live', st'.Held live' ∧ (live d).Sublist (live' d) := by
      rw [h.same]
      rcases h.media with hvm | ⟨offset, -, hvm⟩
      · exact ⟨live, hw.withMedia hvm h.setup fun d u hu => hu, List.Sublist.refl _⟩
      · refine ⟨_, hw.withMedia hvm h.setup fun d u hu => mem_update_cons hu, ?_⟩
        rw [Function.update_apply]
        split_ifs with hd
        · subst hd
          exact List.sublist_cons_self _ _
        · exact List.Sublist.refl _
    obtain ⟨live', hw', hsub⟩ := hheld
    rw [hw.references_eq, hw'.references_eq]
    simp only [segmentAt_setup h.setup]
    exact_mod_cast hsub.countP_le
  unfold unnamed
  rw [hentries]
  omega

/-- A round that entered a token adds a reference, and the entry that stood for another one no
longer does. -/
theorem RoundEntered.unnamed_eq {unit : List UInt8} {e : ℕ}
    (h : RoundEntered st live l t unit st' e) (hw : st.Held live) (hl : l < st.table.numLayers)
    (ht : t < st.table.maxTokens) (d seg : ℕ) :
    st'.unnamed d seg = st.unnamed d seg + if st.InSegment d seg l t then 1 else 0 := by
  have hentry : ∀ l' t', st'.entryOf l' t' = if l' = l ∧ t' = t then e else st.entryOf l' t' := by
    intro l' t'
    unfold entryOf
    rw [h.same]
    dsimp only
    rw [SlotTable.entryAt_put hl ht]
    split_ifs
    · rfl
    · rfl
  have hdev : st'.deviceOf l t = st.deviceOf l t := by
    unfold deviceOf
    rw [h.setup.2.1]
  have hown : st'.InSegment d seg l t ↔
      st.deviceOf l t = d ∧ st.segmentAt d (entryOffset e) = seg := by
    unfold InSegment
    rw [hentry, if_pos ⟨rfl, rfl⟩, hdev, segmentAt_setup h.setup]
    simp [h.valid]
  have hrefs : st'.references d seg =
      st.references d seg + if st'.InSegment d seg l t then 1 else 0 := by
    rw [hw.references_eq, (h.held hw hl ht).references_eq]
    simp only [segmentAt_setup h.setup, hown]
    rw [Function.update_apply]
    split_ifs with hd hin hin
    · rw [List.countP_cons, if_pos (decide_eq_true hin.2), hd]
      push_cast
      rfl
    · rw [List.countP_cons, if_neg, hd]
      · push_cast
        rfl
      · intro hseg
        exact hin ⟨hd.symm, of_decide_eq_true hseg⟩
    · exact absurd hin.1.symm hd
    · rw [add_zero]
  have hdims : st'.table.numLayers = st.table.numLayers ∧
      st'.table.maxTokens = st.table.maxTokens := by
    rw [h.same]
    exact ⟨rfl, rfl⟩
  have hmem : (l, t) ∈ Finset.range st.table.numLayers ×ˢ Finset.range st.table.maxTokens :=
    Finset.mk_mem_product (Finset.mem_range.mpr hl) (Finset.mem_range.mpr ht)
  have hcount := card_filter_change (P := fun p : ℕ × ℕ => st.InSegment d seg p.1 p.2)
    (Q := fun p : ℕ × ℕ => st'.InSegment d seg p.1 p.2) hmem (by
      intro p _ hne
      refine (inSegment_setup h.setup ?_ d seg).symm
      rw [hentry, if_neg]
      exact fun heq => hne (Prod.ext heq.1 heq.2))
  unfold unnamed entriesIn
  rw [hrefs, hdims.1, hdims.2]
  dsimp only at hcount
  split_ifs at hcount ⊢ <;> omega

/-- What the rounds that went through do to the units in use: none is given back, the tokens get
other entries, and where one was valid its reference stands for no entry any more. -/
structure Wastes (st : SparseKVStore) (live : ℕ → List LiveUnit) (done : List Round)
    (st' : SparseKVStore) : Prop where
  entry : ∀ l t, ¬ Named done l t → st'.entryOf l t = st.entryOf l t
  fresh : ∀ l t, Named done l t → ∀ u ∈ live (st.deviceOf l t),
    u.offset ≠ entryOffset (st'.entryOf l t)
  unnamed_le : ∀ d seg, st.unnamed d seg ≤ st'.unnamed d seg
  unnamed_lt : ∀ l t, Named done l t → ∀ d seg, st.InSegment d seg l t →
    st.unnamed d seg < st'.unnamed d seg

theorem Wastes.nil (h : ∀ l t, st'.entryOf l t = st.entryOf l t)
    (hle : ∀ d seg, st.unnamed d seg ≤ st'.unnamed d seg) : Wastes st live [] st' where
  entry l t _ := h l t
  fresh l t hnamed := by
    obtain ⟨p, hp, -⟩ := hnamed
    cases hp
  unnamed_le := hle
  unnamed_lt l t hnamed := by
    obtain ⟨p, hp, -⟩ := hnamed
    cases hp

theorem Wastes.cons {e : ℕ} {p : Round} {ps : List Round} {st₁ : SparseKVStore}
    (hw : st.Held live) (hkey : p.key = ((l : ℤ), (t : ℤ))) (hl : l < st.table.numLayers)
    (ht : t < st.table.maxTokens) (hround : RoundEntered st live l t p.unit st₁ e)
    (h : Wastes st₁ (Function.update live (st.deviceOf l t)
      (⟨entryOffset e, p.unit⟩ :: live (st.deviceOf l t))) ps st') :
    Wastes st live (p :: ps) st' := by
  have hown : ∀ {l' t' : ℕ}, p.key = ((l' : ℤ), (t' : ℤ)) → l' = l ∧ t' = t := by
    intro l' t' heq
    rw [hkey, Prod.mk.injEq, Nat.cast_inj, Nat.cast_inj] at heq
    exact ⟨heq.1.symm, heq.2.symm⟩
  have hentry : ∀ l' t', st₁.entryOf l' t' = if l' = l ∧ t' = t then e else st.entryOf l' t' := by
    intro l' t'
    unfold entryOf
    rw [hround.same]
    dsimp only
    rw [SlotTable.entryAt_put hl ht]
    split_ifs
    · rfl
    · rfl
  have hdev : ∀ l' t', st₁.deviceOf l' t' = st.deviceOf l' t' := by
    intro l' t'
    unfold deviceOf
    rw [hround.setup.2.1]
  have hunnamed := hround.unnamed_eq hw hl ht
  have hle : ∀ d seg, st.unnamed d seg ≤ st₁.unnamed d seg := by
    intro d seg
    rw [hunnamed]
    split_ifs <;> omega
  refine ⟨fun l' t' hnot => ?_, fun l' t' hnamed u hu => ?_,
    fun d seg => (hle d seg).trans (h.unnamed_le d seg), fun l' t' hnamed d seg hin => ?_⟩
  · rw [named_cons, not_or] at hnot
    rw [h.entry l' t' hnot.2, hentry, if_neg]
    rintro ⟨rfl, rfl⟩
    exact hnot.1 hkey
  · by_cases hrest : Named ps l' t'
    · refine h.fresh l' t' hrest u ?_
      rw [hdev]
      exact mem_update_cons hu
    · obtain ⟨rfl, rfl⟩ := hown ((named_cons.mp hnamed).resolve_right hrest)
      rw [h.entry _ _ hrest, hentry, if_pos ⟨rfl, rfl⟩]
      -- The offset of the new unit is apart from those in use.
      have hlt : st.deviceOf l' t' < st₁.vm.mgrs.length := by
        rw [hround.setup.length_mgrs]
        exact hw.device_lt l' t'
      have hnodup := (hround.media.mgr _ _ (List.getElem?_eq_getElem hlt)).nodup
      rw [Function.update_self, List.map_cons] at hnodup
      intro heq
      refine (List.nodup_cons.mp hnodup).1 ?_
      dsimp only
      rw [← heq]
      exact List.mem_map_of_mem (f := LiveUnit.offset) hu
  · by_cases hsame : l' = l ∧ t' = t
    · obtain ⟨rfl, rfl⟩ := hsame
      have hmore := h.unnamed_le d seg
      rw [hunnamed, if_pos hin] at hmore
      omega
    · have hrest : Named ps l' t' :=
        (named_cons.mp hnamed).resolve_left fun heq => hsame (hown heq)
      have hin₁ : st₁.InSegment d seg l' t' := by
        refine (inSegment_setup hround.setup ?_ d seg).mpr hin
        rw [hentry, if_neg hsame]
      exact (hle d seg).trans_lt (h.unnamed_lt l' t' hrest d seg hin₁)

theorem Held.offload_wastes (hw : st.Held live) {ws : ℕ → ℕ → WriteFrom} {blks : List KVBlockRef}
    {r : Except StoreError Unit} (h : SparseKVStore.offload ws 0 blks st = (r, st')) :
    Wastes st live (st.enteredRounds ws blks) st' := by
  obtain ⟨r₀, hrun, -⟩ := offload_rounds h
  refine (runRounds_induct (R := Wastes) (fun st live => .nil (fun _ _ => rfl) fun _ _ => le_rfl)
    (fun hw hround => .nil (fun l t => ?_) (hround.unnamed_le hw))
    (fun hw hkey hl ht hround hrest => hrest.cons hw hkey hl ht hround) hw
    (fun p hp => InRange.of_checked hp) hrun).1
  rw [hround.same]
  rfl

end Rounds

/-- The call left the token as it was. -/
structure Unchanged (st st' : SparseKVStore) (l t : ℕ) : Prop where
  entry : st'.entryOf l t = st.entryOf l t
  cache : st'.cache ((l : ℤ), (t : ℤ)) = st.cache ((l : ℤ), (t : ℤ))
  latest : st'.latest l t = st.latest l t

/-- The call replaced the unit of the token: as long as no other unit is offloaded for it, it is
fetched with the new bytes, and the reference of the old unit is given back. -/
structure Replaced (st st' : SparseKVStore) (l t : ℕ) (unit : List UInt8) : Prop where
  valid : st'.Valid l t
  latest : st'.latest l t = some unit
  fetched : ∀ {st''}, Reach (· = st') AnyStep st'' → st''.Valid l t → st''.latest l t = some unit →
    st''.Fetches l (fun _ => unit) [t]
  givenBack : ∀ {d seg}, st.InSegment d seg l t → st'.unnamed d seg ≤ st.unnamed d seg

/-- An offload is safe for a token: it raises and leaves it, or replaces its unit. -/
def OffloadSafe (st : SparseKVStore) (ws : ℕ → ℕ → WriteFrom) (blks : List KVBlockRef)
    (l t : ℕ) : Prop :=
  (∃ e, (SparseKVStore.offload ws 0 blks st).1 = .error e ∧
      Unchanged st (SparseKVStore.offload ws 0 blks st).2 l t) ∨
    ∃ p ∈ callRounds st.vm.unitSize ws 0 blks, p.key = ((l : ℤ), (t : ℤ)) ∧
      Replaced st (SparseKVStore.offload ws 0 blks st).2 l t p.unit

/-- An offload is safe for a valid token exactly if it does not get to enter it. -/
theorem Held.offloadSafe_iff (hw : st.Held live) {ws : ℕ → ℕ → WriteFrom}
    {blks : List KVBlockRef} (hval : st.Valid l t)
    (hnamed : Named (callRounds st.vm.unitSize ws 0 blks) l t) :
    OffloadSafe st ws blks l t ↔ ¬ Named (st.enteredRounds ws blks) l t := by
  obtain ⟨hl, ht⟩ := valid_lt hval
  have hentry : entryValid (st.entryOf l t) = true := (valid_iff hl ht).mp hval
  unfold OffloadSafe
  cases hoff : SparseKVStore.offload ws 0 blks st with
  | mk r st' =>
    obtain ⟨hadv, hok⟩ := hw.offload_advanced hoff
    have hwastes := hw.offload_wastes hoff
    constructor
    · rintro (⟨e, -, hsame⟩ | ⟨p, -, -, hrepl⟩) hentered
      · obtain ⟨data, -, hmem⟩ := hw.unit l t _ (entryAt_entryOf hl ht) hentry
        refine hwastes.fresh l t hentered _ hmem ?_
        rw [hsame.entry]
      · have hin : st.InSegment (st.deviceOf l t)
            (st.segmentAt (st.deviceOf l t) (entryOffset (st.entryOf l t))) l t :=
          ⟨hentry, rfl, rfl⟩
        exact absurd (hwastes.unnamed_lt l t hentered _ _ hin) (hrepl.givenBack hin).not_gt
    · intro hnot
      refine .inl ?_
      cases r with
      | ok u =>
        rw [hok rfl] at hnot
        exact absurd hnamed hnot
      | error e =>
        refine ⟨e, rfl, hwastes.entry l t hnot, ?_, ?_⟩
        · rw [hadv.cache]
        · rw [hadv.latest, lastUnit_eq_none hnot]
          rfl

end SparseKVStore

open SparseKVStore in
/-- When an offload of a valid token is safe, in every run of the store. -/
theorem offload_again_iff {unitSize : ℤ} {extents : List VirtualMedia.Extent}
    {strategy : PlacementStrategy (ℤ × ℤ)} {readMerge : Bool} {maxReadBytes : Option ℤ}
    {vm : VirtualMedia (ℤ × ℤ)}
    (hvm : VirtualMedia.init unitSize extents strategy readMerge maxReadBytes = .ok vm)
    {numLayers maxTokens maxTopk : ℤ} {start st : SparseKVStore}
    (hstart : SparseKVStore.init vm numLayers maxTokens maxTopk = .ok start)
    (h : Reach (· = start) AnyStep st) {ws : ℕ → ℕ → WriteFrom} {blks : List KVBlockRef}
    {l t : ℕ} (hval : st.Valid l t) (hnamed : Named (callRounds st.vm.unitSize ws 0 blks) l t) :
    OffloadSafe st ws blks l t ↔ ¬ Named (st.enteredRounds ws blks) l t := by
  obtain ⟨live, hw⟩ := held_of_reach hvm hstart h
  exact hw.offloadSafe_iff hval hnamed

/-- The first token with given bytes. -/
def firstToken (b : UInt8) : KVBlockRef := ⟨0, 0, 1, List.replicate 4096 b⟩

/-- The first two tokens are offloaded, which leaves no room. -/
def storeFull (start : SparseKVStore) : SparseKVStore :=
  start.next (.offload (fun _ _ => .done)
    [⟨0, 0, 2, List.replicate 4096 7 ++ List.replicate 4096 8⟩])

/-- The first token is offloaded, then read into the cache. -/
def firstPrefetched (start : SparseKVStore) : SparseKVStore :=
  (start.next (.offload (fun _ _ => .done) [firstToken 7])).next (.prefetch 0 [0])

namespace SparseKVStore

theorem valid_of_entry {st : SparseKVStore} {l t : ℕ} (h : entryValid (st.entryOf l t) = true) :
    st.Valid l t := by
  unfold entryOf at h
  cases hentry : st.table.entryAt l t with
  | none =>
    rw [hentry] at h
    cases h
  | some e =>
    rw [hentry] at h
    exact ⟨e, hentry, h⟩

theorem named_firstToken (unitSize : ℕ) (b : UInt8) :
    Named (callRounds unitSize (fun _ _ => .done) 0 [firstToken b]) 0 0 :=
  ⟨_, List.mem_cons_self, rfl⟩

end SparseKVStore

open SparseKVStore in
/-- There is no room for the first token again, and it is left as it was. -/
theorem offload_again_full : ∃ start, threeTokenStore = some start ∧
    OffloadSafe (storeFull start) (fun _ _ => .done) [firstToken 9] 0 0 := by
  have hrun : threeTokenStore.map (fun start =>
      (entryValid ((storeFull start).entryOf 0 0),
        ((storeFull start).enteredRounds (fun _ _ => .done) [firstToken 9]).length)) =
      some (true, 0) := by
    decide +kernel
  obtain ⟨start, hstart, hrun⟩ := Option.map_eq_some_iff.mp hrun
  obtain ⟨hvalid, hnone⟩ := Prod.mk.inj hrun
  obtain ⟨vm, hvm, hinit⟩ := freshStore_eq_some hstart
  have hfresh : Reach (· = start) AnyStep start := .start rfl
  have hreach : Reach (· = start) AnyStep (storeFull start) := hfresh.next _ rfl
  refine ⟨start, hstart, (offload_again_iff hvm hinit hreach (valid_of_entry hvalid)
    (named_firstToken _ _)).mpr ?_⟩
  rw [List.length_eq_zero_iff.mp hnone]
  rintro ⟨p, hp, -⟩
  cases hp

open SparseKVStore in
/-- A token that was prefetched is offloaded again: it is fetched with its old bytes, and its
segment has a reference that no entry stands for. -/
theorem offload_again_stale : ∃ start, threeTokenStore = some start ∧
    (SparseKVStore.offload (fun _ _ => .done) 0 [firstToken 9]
      (firstPrefetched start)).1 = .ok () ∧
    (((firstPrefetched start).next (.offload (fun _ _ => .done) [firstToken 9])).fetch 0 [0]
      ⟨[List.replicate 4096 0], []⟩).2.outs.map List.head? = [some 7] ∧
    (firstPrefetched start).unnamed 0 0 = 0 ∧
    ((firstPrefetched start).next (.offload (fun _ _ => .done) [firstToken 9])).unnamed 0 0 = 1 ∧
    ¬ OffloadSafe (firstPrefetched start) (fun _ _ => .done) [firstToken 9] 0 0 := by
  have hentered : threeTokenStore.map (fun start =>
      (entryValid ((firstPrefetched start).entryOf 0 0),
        ((firstPrefetched start).enteredRounds (fun _ _ => .done) [firstToken 9]).map Round.key)) =
      some (true, [(0, 0)]) := by
    decide +kernel
  have hrun : threeTokenStore.map (fun start =>
      ((SparseKVStore.offload (fun _ _ => .done) 0 [firstToken 9]
          (firstPrefetched start)).1.toOption,
        (((firstPrefetched start).next (.offload (fun _ _ => .done) [firstToken 9])).fetch 0 [0]
          ⟨[List.replicate 4096 0], []⟩).2.outs.map List.head?,
        (firstPrefetched start).unnamed 0 0,
        ((firstPrefetched start).next (.offload (fun _ _ => .done) [firstToken 9])).unnamed 0 0)) =
      some (some (), [some 7], 0, 1) := by
    decide +kernel
  obtain ⟨start, hstart, hrun⟩ := Option.map_eq_some_iff.mp hrun
  rw [hstart, Option.map_some] at hentered
  obtain ⟨hvalid, hkeys⟩ := Prod.mk.inj (Option.some.inj hentered)
  obtain ⟨hok, hrest⟩ := Prod.mk.inj hrun
  obtain ⟨hbytes, hrest⟩ := Prod.mk.inj hrest
  obtain ⟨hbefore, hafter⟩ := Prod.mk.inj hrest
  obtain ⟨vm, hvm, hinit⟩ := freshStore_eq_some hstart
  have hfresh : Reach (· = start) AnyStep start := .start rfl
  have hreach : Reach (· = start) AnyStep (firstPrefetched start) :=
    (hfresh.next _ rfl).next _ rfl
  obtain ⟨live, hw⟩ := held_of_reach hvm hinit hreach
  refine ⟨start, hstart, ok_of_toOption hok, hbytes, hbefore, hafter, ?_⟩
  rw [hw.offloadSafe_iff (valid_of_entry hvalid) (named_firstToken _ _), not_not]
  have hmem : ((0 : ℤ), (0 : ℤ)) ∈ ((firstPrefetched start).enteredRounds (fun _ _ => .done)
      [firstToken 9]).map Round.key := by
    rw [hkeys]
    exact List.mem_cons_self
  obtain ⟨p, hp, hkey⟩ := List.mem_map.mp hmem
  exact ⟨p, hp, hkey⟩

end Umm
