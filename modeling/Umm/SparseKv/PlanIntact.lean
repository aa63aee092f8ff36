import Umm.SparseKv.StoreAnyRun

/-! What a plan that raises leaves in the descriptor buffer and in the staging area. -/
namespace Umm
open Umm.Lib

namespace SparseKVStore

variable {st st' : SparseKVStore} {live : ℕ → List LiveUnit} {layerId : ℤ} {tokens : List ℤ}
  {extentBase : ℕ → ℕ}

/-- What an earlier view shows is as it was. -/
def Intact (st st' : SparseKVStore) : Prop :=
  st'.descBuf = st.descBuf ∧ st'.staging = st.staging

/-- What the rounds write before one of them raises is what was there already. -/
def Undisturbed (extentBase : ℕ → ℕ) (st : SparseKVStore) (layerId : ℤ) :
    ℕ → List (ℤ × ℕ) → Prop
  | _, [] => True
  | i, (t, e) :: rest => entryValid e = true → st.plannedStaging layerId t i e = st.staging ∧
    ∀ bs, (plannedEntry extentBase st layerId t i e).pack = .ok bs →
      splice st.descBuf (headerSize + i * entrySize) bs = st.descBuf ∧
        Undisturbed extentBase st layerId (i + 1) rest

theorem Held.plannedStaging_eq (hw : st.Held live) {t : ℤ} {i e : ℕ}
    (ha : st.vm.unitSize ∣ entryOffset e) (hi : i < st.maxTopk)
    (hslot : slice (st.plannedStaging layerId t i e) (i * st.vm.unitSize) st.vm.unitSize =
      slice st.staging (i * st.vm.unitSize) st.vm.unitSize) :
    st.plannedStaging layerId t i e = st.staging := by
  have hroom : i * st.vm.unitSize + st.vm.unitSize ≤ st.staging.length := by
    rw [hw.length_staging, ← Nat.succ_mul]
    exact Nat.mul_le_mul_right _ hi
  have hdata := (hw.plannedStaging_slots layerId t ha hi).2.2
  cases hr : st.readyData layerId t e with
  | none =>
    unfold plannedStaging
    rw [hr]
    rfl
  | some data =>
    have hsame := (hdata data hr).symm.trans hslot
    unfold plannedStaging
    rw [hr, Option.elim_some, setSlice_eq_splice (hw.length_ready ha hr), hsame,
      splice_slice hroom]

/-- The rounds of a plan leave the buffers as they were exactly if they write nothing new. -/
theorem Held.planEntries_intact_iff {ps : List (ℤ × ℕ)} (hw : st.Held live)
    (ha : ∀ p ∈ ps, entryValid p.2 = true → st.vm.unitSize ∣ entryOffset p.2) {i : ℕ}
    (hi : i + ps.length ≤ st.maxTopk) {r : Except StoreError Unit}
    (h : planEntries extentBase layerId i ps st = (r, st')) :
    Intact st st' ↔ Undisturbed extentBase st layerId i ps := by
  induction ps generalizing st i with
  | nil =>
    obtain ⟨rfl, rfl⟩ := Prod.mk.inj h
    exact iff_of_true ⟨rfl, rfl⟩ trivial
  | cons p ps ih =>
    obtain ⟨t, e⟩ := p
    unfold planEntries at h
    rw [List.length_cons] at hi
    have hlt : i < st.maxTopk := by omega
    unfold Undisturbed
    cases hv : entryValid e with
    | false =>
      rw [Fallible.bind_eq, planEntry_invalid hv] at h
      obtain ⟨rfl, rfl⟩ := Prod.mk.inj h
      exact iff_of_true ⟨rfl, rfl⟩ (by simp)
    | true =>
      have hal := ha _ List.mem_cons_self hv
      simp only [forall_const]
      rcases hw.planEntry_valid extentBase layerId t i hv with ⟨err, hpack, heq⟩ | ⟨bs, hpack, heq⟩
      · rw [Fallible.bind_eq, heq] at h
        obtain ⟨rfl, rfl⟩ := Prod.mk.inj h
        constructor
        · rintro ⟨-, hstag⟩
          refine ⟨hstag, fun bs hbs => ?_⟩
          rw [hpack] at hbs
          cases hbs
        · rintro ⟨hstag, -⟩
          exact ⟨rfl, hstag⟩
      · rw [Fallible.bind_eq, heq] at h
        dsimp only at h
        have hbs := PlanEntry.length_pack hpack
        have hfit := hw.desc_room hlt hbs
        obtain ⟨hlen, -, -⟩ := hw.plannedStaging_slots layerId t hal hlt
        have hw₁ : Held { st with
            staging := st.plannedStaging layerId t i e
            descBuf := splice st.descBuf (headerSize + i * entrySize) bs } live :=
          hw.withBuffers (length_splice hfit) hlen
        have ha₁ : ∀ p ∈ ps, entryValid p.2 = true → st.vm.unitSize ∣ entryOffset p.2 :=
          fun p hp => ha p (List.mem_cons_of_mem _ hp)
        constructor
        · rintro ⟨hdesc, hstag⟩
          -- The later rounds leave the slot of this one, so it is as it was.
          obtain ⟨hfrom, -, -⟩ := hw₁.planEntries_from ha₁ (by dsimp only; omega) h
          obtain ⟨hslot, hslot'⟩ := hfrom.before i (Nat.lt_succ_self i)
          dsimp only at hslot hslot'
          rw [hdesc] at hslot
          rw [hstag] at hslot'
          have hstag₁ := hw.plannedStaging_eq hal hlt hslot'.symm
          have hown : slice (splice st.descBuf (headerSize + i * entrySize) bs)
              (headerSize + i * entrySize) entrySize = bs := by
            rw [slice_splice_inside hfit le_rfl (by omega), Nat.sub_self, ← hbs, slice_self]
          have hdesc₁ : splice st.descBuf (headerSize + i * entrySize) bs = st.descBuf := by
            rw [← hslot.trans hown]
            exact splice_slice (hbs ▸ hfit)
          refine ⟨hstag₁, fun bs' hbs' => ?_⟩
          obtain rfl := Except.ok.inj (hpack.symm.trans hbs')
          rw [hdesc₁, hstag₁] at h
          exact ⟨hdesc₁, (ih hw ha₁ (by omega) h).mp ⟨hdesc, hstag⟩⟩
        · rintro ⟨hstag₁, hall⟩
          obtain ⟨hdesc₁, hrest⟩ := hall bs hpack
          rw [hdesc₁, hstag₁] at h
          exact (ih hw ha₁ (by omega) h).mpr hrest

/-- A call writes nothing new before it raises: its list or an index is refused at once, or its
rounds write what was there. -/
def WritesNothingNew (extentBase : ℕ → ℕ) (st : SparseKVStore) (layerId : ℤ) (tokens : List ℤ) :
    Prop :=
  tokens.length ≤ st.maxTopk → 0 ≤ layerId → layerId < st.table.numLayers →
    (∀ t ∈ tokens, st.Indexes t) →
    Undisturbed extentBase st layerId 0
      (tokens.map fun t => (t, st.entryOf layerId.toNat (st.named t)))

theorem Held.intact_iff (hw : st.Held live) {e : StoreError}
    (h : SparseKVStore.plan extentBase layerId tokens st = (.error e, st')) :
    Intact st st' ↔ WritesNothingNew extentBase st layerId tokens := by
  unfold SparseKVStore.plan at h
  rw [Fallible.get_bind] at h
  split_ifs at h with htopk
  · obtain ⟨-, rfl⟩ := Prod.mk.inj h
    exact iff_of_true ⟨rfl, rfl⟩ fun hlen => absurd hlen (by omega)
  rcases gather_eq st layerId tokens with ⟨err, hgather, hnot⟩ | ⟨l, rfl, hl, hin, hgather⟩
  · rw [hgather] at h
    obtain ⟨-, rfl⟩ := Prod.mk.inj h
    exact iff_of_true ⟨rfl, rfl⟩ fun _ h0 hlt hin => absurd ⟨⟨h0, hlt⟩, hin⟩ hnot
  rw [hgather] at h
  dsimp only at h
  have hzip : tokens.zip (tokens.map fun t => st.entryOf l (st.named t)) =
      tokens.map fun t => (t, st.entryOf l (st.named t)) := by
    have hmap := List.zip_map' (l := tokens) (f := id) (g := fun t => st.entryOf l (st.named t))
    rwa [List.map_id] at hmap
  have hcond : WritesNothingNew extentBase st l tokens ↔ Undisturbed extentBase st l 0
      (tokens.zip (tokens.map fun t => st.entryOf l (st.named t))) := by
    unfold WritesNothingNew
    rw [hzip, Int.toNat_natCast]
    exact ⟨fun hall => hall (by omega) (by omega) (by omega) hin, fun hall _ _ _ _ => hall⟩
  have hroom := zip_entries_room st l (not_lt.mp htopk)
  rw [hcond]
  rcases Fallible.bind_cases h with ⟨err, hentries, -⟩ | ⟨u, st₁, hentries, hrest⟩
  · exact hw.planEntries_intact_iff (hw.aligned_zip hl hin) hroom hentries
  · rw [← hw.planEntries_intact_iff (hw.aligned_zip hl hin) hroom hentries]
    cases hheader : packHeader tokens.length l with
    | error err =>
      rw [hheader] at hrest
      obtain ⟨-, rfl⟩ := Prod.mk.inj hrest
      exact Iff.rfl
    | ok bs =>
      simp only [hheader, Fallible.get_bind, Fallible.set_bind] at hrest
      cases (Prod.mk.inj hrest).1

end SparseKVStore

open SparseKVStore in
/-- When a plan that raises leaves the descriptor buffer and the staging area as they were, in
every run of the store. -/
theorem plan_intact_iff {unitSize : ℤ} {extents : List VirtualMedia.Extent}
    {strategy : PlacementStrategy (ℤ × ℤ)} {readMerge : Bool} {maxReadBytes : Option ℤ}
    {vm : VirtualMedia (ℤ × ℤ)}
    (hvm : VirtualMedia.init unitSize extents strategy readMerge maxReadBytes = .ok vm)
    {numLayers maxTokens maxTopk : ℤ} {start st : SparseKVStore}
    (hstart : SparseKVStore.init vm numLayers maxTokens maxTopk = .ok start)
    (h : Reach (· = start) AnyStep st) {extentBase : ℕ → ℕ} {layerId : ℤ} {tokens : List ℤ}
    {e : StoreError} {st' : SparseKVStore}
    (hplan : SparseKVStore.plan extentBase layerId tokens st = (.error e, st')) :
    Intact st st' ↔ WritesNothingNew extentBase st layerId tokens := by
  obtain ⟨live, hw⟩ := held_of_reach hvm hstart h
  exact hw.intact_iff hplan

/-- One layer with three tokens, on one device. -/
def threeTokenStore : Option SparseKVStore :=
  freshStore 4096 [⟨List.replicate 8192 0, 8192⟩] oneDevice 1 3 2

/-- Two of the tokens are offloaded, and the first one is planned. -/
def firstTokenPlanned (start : SparseKVStore) : SparseKVStore :=
  (start.next (.offload (fun _ _ => .done)
    [⟨0, 0, 2, List.replicate 4096 7 ++ List.replicate 4096 9⟩])).next (.plan (fun _ => 0) 0 [0])

open SparseKVStore in
theorem firstTokenPlanned_reach (start : SparseKVStore) :
    Reach (· = start) AnyStep (firstTokenPlanned start) := by
  have hstart : Reach (· = start) AnyStep start := .start rfl
  exact (hstart.next _ rfl).next _ rfl

open SparseKVStore in
theorem plan_intact_first : ∃ start e, threeTokenStore = some start ∧
    (plan (fun _ => 0) 0 [2, 1] (firstTokenPlanned start)).1 = .error e ∧
    Intact (firstTokenPlanned start) (plan (fun _ => 0) 0 [2, 1] (firstTokenPlanned start)).2 := by
  have hrun : threeTokenStore.map (fun start =>
      ((plan (fun _ => 0) 0 [2, 1] (firstTokenPlanned start)).1.toOption.isSome,
        entryValid ((firstTokenPlanned start).entryOf 0 ((firstTokenPlanned start).named 2)))) =
      some (false, false) := by
    decide +kernel
  obtain ⟨start, hstart, hrun⟩ := Option.map_eq_some_iff.mp hrun
  obtain ⟨hfails, hinvalid⟩ := Prod.mk.inj hrun
  obtain ⟨vm, hvm, hinit⟩ := freshStore_eq_some hstart
  cases hplan : plan (fun _ => 0) 0 [2, 1] (firstTokenPlanned start) with
  | mk r st' =>
    rw [hplan] at hfails
    cases r with
    | ok view => cases hfails
    | error e =>
      refine ⟨start, e, hstart, by rw [hplan], ?_⟩
      rw [hplan]
      refine (plan_intact_iff hvm hinit (firstTokenPlanned_reach start) hplan).mpr ?_
      intro _ _ _ _
      rw [List.map_cons]
      unfold Undisturbed
      rw [Int.toNat_zero, hinvalid]
      simp

open SparseKVStore in
/-- A list whose last token is not valid raises when the entry of the first one, and its bytes in
the staging area, are those of another token. -/
theorem plan_overwrites : ∃ start e, threeTokenStore = some start ∧
    (plan (fun _ => 0) 0 [1, 2] (firstTokenPlanned start)).1 = .error e ∧
    ((PlanView.mk 1 0).entry (firstTokenPlanned start).descBuf 0).map PlanEntry.lbaOffset =
      some 0 ∧
    ((PlanView.mk 1 0).entry (plan (fun _ => 0) 0 [1, 2] (firstTokenPlanned start)).2.descBuf
      0).map PlanEntry.lbaOffset = some 4096 ∧
    (firstTokenPlanned start).staging.head? = some 7 ∧
    (plan (fun _ => 0) 0 [1, 2] (firstTokenPlanned start)).2.staging.head? = some 9 ∧
    ¬ Intact (firstTokenPlanned start)
      (plan (fun _ => 0) 0 [1, 2] (firstTokenPlanned start)).2 := by
  have hrun : threeTokenStore.map (fun start =>
      ((plan (fun _ => 0) 0 [1, 2] (firstTokenPlanned start)).1.toOption.isSome,
        ((PlanView.mk 1 0).entry (firstTokenPlanned start).descBuf 0).map PlanEntry.lbaOffset,
        ((PlanView.mk 1 0).entry (plan (fun _ => 0) 0 [1, 2] (firstTokenPlanned start)).2.descBuf
          0).map PlanEntry.lbaOffset,
        (firstTokenPlanned start).staging.head?,
        (plan (fun _ => 0) 0 [1, 2] (firstTokenPlanned start)).2.staging.head?)) =
      some (false, some 0, some 4096, some 7, some 9) := by
    decide +kernel
  obtain ⟨start, hstart, hrun⟩ := Option.map_eq_some_iff.mp hrun
  obtain ⟨hfails, hrest⟩ := Prod.mk.inj hrun
  obtain ⟨hbefore, hrest⟩ := Prod.mk.inj hrest
  obtain ⟨hafter, hrest⟩ := Prod.mk.inj hrest
  obtain ⟨hseven, hnine⟩ := Prod.mk.inj hrest
  cases hplan : plan (fun _ => 0) 0 [1, 2] (firstTokenPlanned start) with
  | mk r st' =>
    rw [hplan] at hfails hafter hnine
    cases r with
    | ok view => cases hfails
    | error e =>
      refine ⟨start, e, hstart, by rw [hplan], hbefore, by rw [hplan]; exact hafter, hseven,
        by rw [hplan]; exact hnine, ?_⟩
      rw [hplan]
      rintro ⟨-, hstaging⟩
      rw [hstaging, hseven] at hnine
      cases hnine

end Umm
