import Umm.SparseKv.StoreIndices

/-! What holds of the store in every run, with tokens entered twice and indices of any sign. -/
namespace Umm
open Umm.Lib

section Views

variable {κ : Type} {vm : VirtualMedia κ} {st : SparseKVStore}

/-- Every view has the length that it had. -/
def SameViews (s t : ReadState) : Prop := t.outs.map List.length = s.outs.map List.length

theorem SameViews.refl (s : ReadState) : SameViews s s := rfl

theorem SameViews.trans (s t u : ReadState) (h : SameViews s t) (h' : SameViews t u) :
    SameViews s u :=
  Eq.trans h' h

theorem lengths_set {outs : List (List UInt8)} {pos : ℕ} {data : List UInt8}
    (h : ∀ out, outs[pos]? = some out → data.length = out.length) :
    (outs.set pos data).map List.length = outs.map List.length := by
  refine List.ext_getElem? fun i => ?_
  rw [List.getElem?_map, List.getElem?_map, List.getElem?_set]
  split_ifs with he hlt
  · subst he
    rw [List.getElem?_eq_getElem hlt, Option.map_some, Option.map_some,
      h _ (List.getElem?_eq_getElem hlt)]
  · subst he
    rw [List.getElem?_eq_none (not_lt.mp hlt)]
  · rfl

theorem lengths_foldl_set {new : List (ℕ × List UInt8)} {outs orig : List (List UInt8)}
    (h : outs.map List.length = orig.map List.length)
    (hnew : ∀ p ∈ new, ∀ out, orig[p.1]? = some out → p.2.length = out.length) :
    (new.foldl (fun outs p => outs.set p.1 p.2) outs).map List.length =
      orig.map List.length := by
  induction new generalizing outs with
  | nil => exact h
  | cons p new ih =>
    rw [List.foldl_cons]
    refine ih ?_ fun q hq => hnew q (List.mem_cons_of_mem _ hq)
    rw [lengths_set, h]
    intro out hout
    have hlen := congrArg (fun l : List ℕ => l[p.1]?) h
    simp only [List.getElem?_map, hout, Option.map_some] at hlen
    obtain ⟨out', hout', he⟩ := Option.map_eq_some_iff.mp hlen.symm
    rw [hnew p List.mem_cons_self out' hout', he]

namespace VirtualMedia

theorem assign_views (pos : ℕ) (data : List UInt8) : Fallible.Keeps SameViews (vm.assign pos data) := by
  intro s r t h
  unfold assign at h
  rw [Fallible.get_bind] at h
  cases hout : s.outs[pos]? with
  | none =>
    simp only [hout] at h
    obtain ⟨-, rfl⟩ := Prod.mk.inj h
    exact rfl
  | some out =>
    simp only [hout] at h
    split_ifs at h with hlen
    · obtain ⟨-, rfl⟩ := Prod.mk.inj h
      exact rfl
    · obtain ⟨-, rfl⟩ := Prod.mk.inj h
      refine lengths_set fun out' hout' => ?_
      obtain rfl := Option.some.inj (hout.symm.trans hout')
      exact length_splice (by omega)

theorem scan_views (items : List ((ℕ × ℕ) × ℕ)) (buckets : Buckets) :
    Fallible.Keeps SameViews (vm.scan items buckets) := by
  induction items generalizing buckets with
  | nil => exact Fallible.Keeps.pure SameViews.refl _
  | cons item items ih =>
    obtain ⟨⟨d, offset⟩, pos⟩ := item
    unfold scan
    refine Fallible.Keeps.get fun s r t h => ?_
    cases hmgr : vm.mgrs[d]? with
    | none =>
      simp only [hmgr] at h
      obtain ⟨-, rfl⟩ := Prod.mk.inj h
      exact rfl
    | some mgr =>
      cases hout : s.outs[pos]? with
      | none =>
        simp only [hmgr, hout] at h
        obtain ⟨-, rfl⟩ := Prod.mk.inj h
        exact rfl
      | some out =>
        simp only [hmgr, hout] at h
        split_ifs at h
        · obtain ⟨-, rfl⟩ := Prod.mk.inj h
          exact rfl
        · cases hread : mgr.readBuffer offset vm.unitSize with
          | none =>
            simp only [hread] at h
            exact ih _ s r t h
          | some data =>
            simp only [hread] at h
            exact Fallible.Keeps.bind SameViews.trans (assign_views _ _) (fun _ => ih _) s r t h

theorem scatterRun_views (staging : List UInt8) (start : ℕ) (run : List (ℕ × ℕ)) :
    Fallible.Keeps SameViews (vm.scatterRun staging start run) := by
  induction run with
  | nil => exact Fallible.Keeps.pure SameViews.refl _
  | cons entry run ih =>
    exact Fallible.Keeps.bind SameViews.trans (assign_views _ _) fun _ => ih

theorem scatter_views (stagings : List (List UInt8)) (runs : List (ℕ × List (ℕ × ℕ))) :
    Fallible.Keeps SameViews (vm.scatter stagings runs) := by
  induction stagings generalizing runs with
  | nil => exact Fallible.Keeps.pure SameViews.refl _
  | cons staging stagings ih =>
    cases runs with
    | nil => exact Fallible.Keeps.pure SameViews.refl _
    | cons p runs =>
      exact Fallible.Keeps.bind SameViews.trans (scatterRun_views _ _ _) fun _ => ih runs

theorem readBatch_views (items : List (ℕ × ℕ)) : Fallible.Keeps SameViews (vm.readBatch items) := by
  unfold VirtualMedia.readBatch
  refine Fallible.Keeps.get fun s r t h => ?_
  split_ifs at h
  · obtain ⟨-, rfl⟩ := Prod.mk.inj h
    exact rfl
  · refine Fallible.Keeps.bind SameViews.trans (scan_views _ _) (fun buckets => ?_) s r t h
    refine Fallible.Keeps.get fun s r t h => ?_
    rw [Fallible.set_bind] at h
    cases hreads : ((vm.plannedRuns buckets).map fun p => vm.runRead p.1 p.2).mapM vm.readInto with
    | error e =>
      simp only [hreads] at h
      obtain ⟨-, rfl⟩ := Prod.mk.inj h
      exact rfl
    | ok stagings =>
      simp only [hreads] at h
      have hkeep := scatter_views _ _ _ _ _ h
      exact hkeep

end VirtualMedia

namespace SparseKVStore

theorem onViews_views {α : Type} {call : Fallible MediaError ReadState α}
    (hcall : Fallible.Keeps SameViews call) : Fallible.Keeps SameViews (onViews call) := by
  unfold onViews
  refine Fallible.Keeps.get fun s r t h => ?_
  rw [Fallible.set_bind] at h
  have hkeep := hcall s (call s).1 (call s).2 rfl
  cases hres : (call s).1 with
  | error e =>
    simp only [hres] at h
    obtain ⟨-, rfl⟩ := Prod.mk.inj h
    exact hkeep
  | ok a =>
    simp only [hres] at h
    obtain ⟨-, rfl⟩ := Prod.mk.inj h
    exact hkeep

theorem fetchScan_views (layerId : ℤ) (pos : ℕ) (ps : List (ℤ × ℕ)) :
    Fallible.Keeps SameViews (st.fetchScan layerId pos ps) := by
  induction ps generalizing pos with
  | nil => exact Fallible.Keeps.pure SameViews.refl _
  | cons p ps ih =>
    obtain ⟨t, e⟩ := p
    unfold fetchScan
    intro s r u h
    split_ifs at h
    · cases hcache : st.cache (layerId, t) with
      | none =>
        rw [hcache] at h
        exact Fallible.Keeps.bind SameViews.trans (ih _)
          (fun _ => Fallible.Keeps.pure SameViews.refl _) s r u h
      | some cached =>
        rw [hcache] at h
        exact Fallible.Keeps.bind SameViews.trans
          (onViews_views (VirtualMedia.assign_views _ _)) (fun _ => ih _) s r u h
    · obtain ⟨-, rfl⟩ := Prod.mk.inj h
      exact rfl

theorem readAt_views (items : List ((ℕ × ℕ) × ℕ)) :
    Fallible.Keeps SameViews (st.readAt items) := by
  unfold readAt
  refine Fallible.Keeps.get fun s r t h => ?_
  cases hres : st.vm.readBatch (items.map Prod.fst)
      ⟨items.map fun item => (s.outs[item.2]?).getD [], s.reads⟩ with
  | mk q s₂ =>
    have hkeep := VirtualMedia.readBatch_views _ _ _ _ hres
    simp only [hres, Fallible.set_bind] at h
    have hviews : (((items.map Prod.snd).zip s₂.outs).foldl
        (fun outs p => outs.set p.1 p.2) s.outs).map List.length = s.outs.map List.length := by
      refine lengths_foldl_set rfl fun p hp out hout => ?_
      obtain ⟨k, hk⟩ := List.mem_iff_getElem?.mp hp
      obtain ⟨hpos, hnew⟩ := List.getElem?_zip_eq_some.mp hk
      rw [List.getElem?_map] at hpos
      obtain ⟨item, hitem, hsnd⟩ := Option.map_eq_some_iff.mp hpos
      have hlen := congrArg (fun l : List ℕ => l[k]?) hkeep
      simp only [List.getElem?_map, hnew, hitem, Option.map_some, hsnd, hout,
        Option.getD_some] at hlen
      exact Option.some.inj hlen
    cases q with
    | error e =>
      obtain ⟨-, rfl⟩ := Prod.mk.inj h
      exact hviews
    | ok u =>
      obtain ⟨-, rfl⟩ := Prod.mk.inj h
      exact hviews

/-- A fetch leaves the lengths of the views. -/
theorem fetch_views (layerId : ℤ) (tokens : List ℤ) :
    Fallible.Keeps SameViews (st.fetch layerId tokens) := by
  unfold SparseKVStore.fetch
  refine Fallible.Keeps.get fun s r t h => ?_
  split_ifs at h
  · obtain ⟨-, rfl⟩ := Prod.mk.inj h
    exact rfl
  · cases hgather : st.table.gather layerId tokens with
    | error e =>
      rw [hgather] at h
      obtain ⟨-, rfl⟩ := Prod.mk.inj h
      exact rfl
    | ok entries =>
      rw [hgather] at h
      refine Fallible.Keeps.bind SameViews.trans (fetchScan_views _ _ _) (fun items => ?_) s r t h
      intro s r t h
      split_ifs at h
      · obtain ⟨-, rfl⟩ := Prod.mk.inj h
        exact rfl
      · exact onViews_views (readAt_views _) s r t h

end SparseKVStore

end Views

namespace SparseKVStore

variable {st st' : SparseKVStore} {live : ℕ → List LiveUnit} {layerId : ℤ} {tokens : List ℤ}

section Calls

theorem Held.offload (hw : st.Held live) {ws : ℕ → ℕ → WriteFrom} {blks : List KVBlockRef}
    {r : Except StoreError Unit} (h : offload ws 0 blks st = (r, st')) :
    ∃ live', st'.Held live' := by
  refine offload_keeps (P := fun s => ∃ live, s.Held live) ?_ ⟨live, hw⟩ h
  rintro s s' w l t unit r ⟨live, hw⟩ hl ht hone
  rcases offloadToken_cases hw.media hl ht hone with ⟨e, -, hraised⟩ | ⟨-, e, hentered⟩
  · exact hraised.held hw
  · exact ⟨_, hentered.held hw hl ht⟩

theorem Held.flush (hw : st.Held live) {ws : ℕ → WriteFrom} {r : Except StoreError Unit}
    (h : SparseKVStore.flush ws st = (r, st')) : st'.Held live := by
  cases hflush : VirtualMedia.flush ws st.vm with
  | mk q vm =>
    obtain ⟨hsame, hvm, -⟩ := hw.media.flush hflush
    obtain ⟨rfl, -⟩ := onMedia_cases hflush h
    exact hw.withMedia hvm hsame fun d u hu => hu

theorem Held.release (hw : st.Held live) {r : Except StoreError Unit}
    (h : SparseKVStore.release layerId tokens st = (r, st')) : ∃ live', st'.Held live' := by
  induction tokens generalizing st live with
  | nil =>
    obtain ⟨-, rfl⟩ := Prod.mk.inj h
    exact ⟨live, hw⟩
  | cons t ts ih =>
    unfold SparseKVStore.release at h
    have hone : ∀ {q : Except StoreError Unit} {s : SparseKVStore},
        releaseToken layerId t st = (q, s) → ∃ live', s.Held live' := by
      intro q s hone
      obtain ⟨e, -, rfl, -⟩ | ⟨-, l, t, -, -, hl, ht, ⟨rfl, -⟩ | ⟨old, data, hrel⟩⟩ :=
        hw.releaseToken_cases hone
      · exact ⟨live, hw⟩
      · exact ⟨live, hw⟩
      · exact ⟨_, hrel.held hw hl ht⟩
    rcases Fallible.bind_cases h with ⟨e, hfirst, rfl⟩ | ⟨u, st₁, hfirst, hrest⟩
    · exact hone hfirst
    · obtain ⟨live₁, hw₁⟩ := hone hfirst
      exact ih hw₁ hrest

/-- The entries that a plan reads are multiples of the unit. -/
theorem Held.aligned_zip (hw : st.Held live) {l : ℕ} (hl : l < st.table.numLayers)
    (hin : ∀ t ∈ tokens, st.Indexes t) :
    ∀ p ∈ tokens.zip (tokens.map fun t => st.entryOf l (st.named t)),
      entryValid p.2 = true → st.vm.unitSize ∣ entryOffset p.2 := by
  intro p hp hv
  obtain ⟨ht, hentry⟩ := mem_zip_entries.mp hp
  rw [hentry] at hv ⊢
  exact hw.aligned (entryAt_entryOf hl (named_lt (hin _ ht))) hv

theorem Held.plan (hw : st.Held live) {extentBase : ℕ → ℕ} {r : Except StoreError PlanView}
    (h : SparseKVStore.plan extentBase layerId tokens st = (r, st')) : st'.Held live := by
  unfold SparseKVStore.plan at h
  rw [Fallible.get_bind] at h
  split_ifs at h with htopk
  · obtain ⟨-, rfl⟩ := Prod.mk.inj h
    exact hw
  rcases gather_eq st layerId tokens with ⟨e, hgather, -⟩ | ⟨l, rfl, hl, hin, hgather⟩
  · rw [hgather] at h
    obtain ⟨-, rfl⟩ := Prod.mk.inj h
    exact hw
  rw [hgather] at h
  dsimp only at h
  have hroom := zip_entries_room st l (not_lt.mp htopk)
  rcases Fallible.bind_cases h with ⟨e, hentries, rfl⟩ | ⟨u, st₁, hentries, hrest⟩
  · exact (hw.planEntries_from (hw.aligned_zip hl hin) hroom hentries).1.held hw
  · have hw₁ := (hw.planEntries_from (hw.aligned_zip hl hin) hroom hentries).1.held hw
    cases hheader : packHeader tokens.length l with
    | error e =>
      rw [hheader] at hrest
      obtain ⟨-, rfl⟩ := Prod.mk.inj hrest
      exact hw₁
    | ok bs =>
      simp only [hheader, Fallible.get_bind, Fallible.set_bind] at hrest
      obtain ⟨-, rfl⟩ := Prod.mk.inj hrest
      have hbs := length_packHeader hheader
      refine hw₁.withBuffers (length_splice ?_) rfl
      rw [hw₁.length_descBuf]
      omega

theorem Held.prefetch (hw : st.Held live) {r : Except StoreError Unit}
    (h : SparseKVStore.prefetch layerId tokens st = (r, st')) : st'.Held live := by
  unfold SparseKVStore.prefetch at h
  rw [Fallible.get_bind] at h
  generalize hpend : tokens.filter (fun t => (st.cache (layerId, t)).isNone) = pending at h
  split_ifs at h
  · obtain ⟨-, rfl⟩ := Prod.mk.inj h
    exact hw
  cases hfetch : st.fetch layerId pending
      ⟨pending.map fun _ => List.replicate st.vm.unitSize 0, []⟩ with
  | mk q s =>
    rw [hfetch] at h
    cases q with
    | error e =>
      obtain ⟨-, rfl⟩ := Prod.mk.inj h
      exact hw
    | ok u =>
      obtain ⟨-, rfl⟩ := Prod.mk.inj h
      obtain ⟨-, l, rfl, hl, hall⟩ := fetch_result hfetch
      have hviews := fetch_views _ _ _ _ _ hfetch
      have hnew : ∀ p ∈ pending.zip s.outs,
          p.1 ∈ pending ∧ p.2.length = st.vm.unitSize := by
        intro p hp
        obtain ⟨k, hk⟩ := List.mem_iff_getElem?.mp hp
        obtain ⟨htok, hout⟩ := List.getElem?_zip_eq_some.mp hk
        have hlen := congrArg (fun l : List ℕ => l[k]?) hviews
        simp only [List.getElem?_map, hout, htok, Option.map_some, List.length_replicate] at hlen
        exact ⟨List.mem_of_getElem? htok, Option.some.inj hlen⟩
      refine { hw with
        length_cached := fun key data hc => ?_
        cached := fun l' t hc => ?_ }
      · rcases foldl_update_cases (fun t => ((l : ℤ), t)) hc with hc | ⟨p, hp, -, rfl⟩
        · exact hw.length_cached key data hc
        · exact (hnew p hp).2
      · obtain ⟨data, hdata⟩ := Option.ne_none_iff_exists'.mp hc
        rcases foldl_update_cases (fun t => ((l : ℤ), t)) hdata with hc | ⟨p, hp, hkey, -⟩
        · refine hw.cached l' t ?_
          rw [hc]
          simp
        · obtain ⟨h1, h2⟩ := Prod.mk.inj hkey
          obtain rfl := Nat.cast_inj.mp h1
          obtain ⟨hin, hval, -⟩ := hall _ (hnew p hp).1
          have hlt := named_lt hin
          rw [h2, named_natCast] at hval hlt
          exact ⟨_, entryAt_entryOf hl hlt, hval⟩

end Calls

/-- A call in any state, with any arguments. -/
def AnyStep (st : SparseKVStore) (ev : StoreEvent) (st' : SparseKVStore) : Prop := st' = st.next ev

theorem Held.next (hw : st.Held live) (ev : StoreEvent) : ∃ live', (st.next ev).Held live' := by
  cases ev with
  | offload ws blocks => exact hw.offload rfl
  | flush ws => exact ⟨live, hw.flush rfl⟩
  | prefetch layerId tokens => exact ⟨live, hw.prefetch rfl⟩
  | release layerId tokens => exact hw.release rfl
  | plan extentBase layerId tokens => exact ⟨live, hw.plan rfl⟩
  | fetch layerId tokens views => exact ⟨live, hw⟩

theorem init_not_valid {vm : VirtualMedia (ℤ × ℤ)} {numLayers maxTokens maxTopk : ℤ}
    (h : init vm numLayers maxTokens maxTopk = .ok st) (l t : ℕ) : ¬ st.Valid l t := by
  unfold init at h
  split_ifs at h
  obtain ⟨table, htable, h⟩ := except_bind_ok h
  obtain rfl := Except.ok.inj h
  rintro ⟨e, he, hv⟩
  rw [SlotTable.init_entryAt htable he] at hv
  cases hv

theorem init_held {vm : VirtualMedia (ℤ × ℤ)} {numLayers maxTokens maxTopk : ℤ}
    (h : init vm numLayers maxTokens maxTopk = .ok st) (hvm : vm.WF fun _ => []) :
    st.Held fun _ => [] := by
  have hnone : ∀ l t e, st.table.entryAt l t = some e → ¬ entryValid e = true :=
    fun l t e he hv => init_not_valid h l t ⟨e, he, hv⟩
  unfold init at h
  split_ifs at h
  obtain ⟨table, htable, h⟩ := except_bind_ok h
  obtain rfl := Except.ok.inj h
  exact
    { media := hvm
      unit := fun l t e he hv => absurd hv (hnone l t e he)
      apart := fun l t l' t' e e' he hv => absurd hv (hnone l t e he)
      length_cached := by simp
      cached := by simp
      length_descBuf := List.length_replicate
      length_staging := List.length_replicate }

/-- Every run keeps the valid entries at units in use. -/
theorem held_of_reach {unitSize : ℤ} {extents : List VirtualMedia.Extent}
    {strategy : PlacementStrategy (ℤ × ℤ)} {readMerge : Bool} {maxReadBytes : Option ℤ}
    {vm : VirtualMedia (ℤ × ℤ)}
    (hvm : VirtualMedia.init unitSize extents strategy readMerge maxReadBytes = .ok vm)
    {numLayers maxTokens maxTopk : ℤ} {start : SparseKVStore}
    (hstart : init vm numLayers maxTokens maxTopk = .ok start)
    (h : Reach (· = start) AnyStep st) : ∃ live, st.Held live := by
  refine h.invariant (P := fun st => ∃ live, st.Held live) ?_ ?_
  · rintro st rfl
    exact ⟨_, init_held hstart (VirtualMedia.init_wf hvm).1⟩
  · rintro st ev st' ⟨live, hw⟩ rfl
    exact hw.next ev

end SparseKVStore

/-- A store on devices with fixed contents. -/
def freshStore (unitSize : ℤ) (extents : List VirtualMedia.Extent)
    (strategy : PlacementStrategy (ℤ × ℤ)) (numLayers maxTokens maxTopk : ℤ) :
    Option SparseKVStore :=
  (VirtualMedia.init unitSize extents strategy true none).toOption.bind fun vm =>
    (SparseKVStore.init vm numLayers maxTokens maxTopk).toOption

theorem ok_of_toOption {ε α : Type} {x : Except ε α} {a : α} (h : x.toOption = some a) :
    x = .ok a := by
  cases x with
  | error e => cases h
  | ok b => exact congrArg Except.ok (Option.some.inj h)

theorem freshStore_eq_some {unitSize : ℤ} {extents : List VirtualMedia.Extent}
    {strategy : PlacementStrategy (ℤ × ℤ)} {numLayers maxTokens maxTopk : ℤ}
    {start : SparseKVStore}
    (h : freshStore unitSize extents strategy numLayers maxTokens maxTopk = some start) :
    ∃ vm, VirtualMedia.init unitSize extents strategy true none = .ok vm ∧
      SparseKVStore.init vm numLayers maxTokens maxTopk = .ok start := by
  obtain ⟨vm, hvm, hstart⟩ := Option.bind_eq_some_iff.mp h
  exact ⟨vm, ok_of_toOption hvm, ok_of_toOption hstart⟩

end Umm
