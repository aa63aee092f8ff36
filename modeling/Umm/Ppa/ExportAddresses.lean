import Umm.Ppa.ExportLayout
import Mathlib.Data.List.ReduceOption

/-! The address map that an export writes. Layers that are laid end to end share no row of the SSD.
With a stride, a token at or past the stride leaves the region of its layer, and nothing checks that
the rows it takes there are free. -/
namespace Umm
open Umm.Lib

section

variable {σ : Type}

/-- No two tokens share an offset, and each row lies in the snapshot. -/
structure AddressMap (slotBytes : ℤ) (out : ExportManifest × List (CandidateRow σ)) : Prop where
  injective : ∀ layer token offset layer' token' offset', Assigned out.2 layer token offset →
    Assigned out.2 layer' token' offset' → (layer, token) ≠ (layer', token') → offset ≠ offset'
  inside : ∀ layer token offset, Assigned out.2 layer token offset →
    0 ≤ offset ∧ offset + slotBytes ≤ out.1.snapshotBytes

/-- What a layout with a stride needs: a token under the stride only that the place of its layer is
not negative, a token at or past it rows in the snapshot that no other layer has. -/
structure StrideRoom (args : ExportArgs) (stride : ℤ) (chosen : List (ChosenLayer σ)) : Prop where
  rank_nonneg : ∀ p ∈ chosen.zipIdx, ∀ t, p.1.Exports t → t < stride → 0 ≤ p.1.rankAt p.2
  overrun_inside : ∀ p ∈ chosen.zipIdx, ∀ t, p.1.Exports t → stride ≤ t →
    0 ≤ p.1.rankAt p.2 * stride + t ∧
      (p.1.rankAt p.2 * stride + t + 1) * args.slotBytes ≤
        snapshotBytes (regionsEnd args stride 0 (ranksFrom 0 chosen)) args.segmentBytes
  overrun_free : ∀ p ∈ chosen.zipIdx, ∀ q ∈ chosen.zipIdx, p ≠ q →
    ∀ t, p.1.Exports t → stride ≤ t →
      ¬ q.1.Exports (t + (p.1.rankAt p.2 - q.1.rankAt q.2) * stride)

theorem le_snapshotBytes (offset : ℤ) {segmentBytes : ℤ} (h : 0 < segmentBytes) :
    offset ≤ snapshotBytes offset segmentBytes := by
  unfold snapshotBytes
  have hdiv := Int.mul_ediv_add_emod (offset + segmentBytes - 1) segmentBytes
  have hlt := Int.emod_lt_of_pos (offset + segmentBytes - 1) h
  rw [mul_comm] at hdiv
  omega

section Done

variable {args : ExportArgs} {stride : ℤ} {chosen : List (ChosenLayer σ)} {st : ExportState σ}
  {out : ExportManifest × List (CandidateRow σ)}

theorem addresses_endToEnd (hslot : args.slotBytes = 4096)
    (hseg : 0 < args.segmentBytes) (hdone : LayersDone args 0 0 ⟨0, [], [], [], 0⟩ st chosen)
    (hsnap : out.1.snapshotBytes = snapshotBytes st.offset args.segmentBytes)
    (hout : ∀ layer t offset, Assigned out.2 layer t offset ↔ Assigned st.rows layer t offset) :
    AddressMap args.slotBytes out := by
  obtain ⟨b, hb, hnonneg, hlaid⟩ := placements_endToEnd chosen 0 0 hslot
  have hplaced : ∀ layer t offset, Assigned out.2 layer t offset →
      ∃ p ∈ placements args 0 0 0 chosen, p.1.layer = layer ∧ p.2 + t * 4096 = offset ∧
        0 ≤ p.2 ∧ 0 ≤ t ∧ t < p.1.context := by
    intro layer t offset h
    rw [hout, hdone.assigned, hslot] at h
    rcases h with ⟨row, hrow, -⟩ | ⟨p, hp, hlayer, ht, ho⟩
    · cases hrow
    · exact ⟨p, hp, hlayer, ho, hnonneg p hp,
        hdone.tokens p.1 (fst_mem_of_mem_placements hp) t ht⟩
  constructor
  · intro layer t offset layer' t' offset' h h' hne heq
    obtain ⟨p, hp, hlayer, ho, hp0, ht0, hlt⟩ := hplaced layer t offset h
    obtain ⟨q, hq, hlayer', ho', hq0, ht0', hlt'⟩ := hplaced layer' t' offset' h'
    obtain ⟨i, hi⟩ := List.mem_iff_getElem?.mp hp
    obtain ⟨j, hj⟩ := List.mem_iff_getElem?.mp hq
    have hin : p.2.toNat ≤ offset.toNat ∧ offset.toNat < p.2.toNat + p.1.context * 4096 := by
      omega
    have hin' : q.2.toNat ≤ offset.toNat ∧ offset.toNat < q.2.toNat + q.1.context * 4096 := by
      omega
    obtain rfl := hlaid.within_unique hi hj hin hin'
    obtain rfl := Option.some.inj (hi.symm.trans hj)
    have htt : t = t' := by omega
    exact hne (by rw [← hlayer, ← hlayer', htt])
  · intro layer t offset h
    obtain ⟨p, hp, -, ho, hp0, ht0, hlt⟩ := hplaced layer t offset h
    have hroom : p.2.toNat + p.1.context * 4096 ≤ b := (hlaid.inside hp).2
    have hend : st.offset = b := hdone.offset.trans hb
    have hle := le_snapshotBytes st.offset hseg
    rw [hslot, hsnap]
    omega

theorem LayersDone.assigned_stride (hs : stride ≠ 0) (hslot : args.slotBytes = 4096)
    (hdone : LayersDone args stride 0 ⟨0, [], [], [], 0⟩ st chosen) {layer : ℕ} {t offset : ℤ} :
    Assigned st.rows layer t offset ↔ ∃ p ∈ chosen.zipIdx, p.1.layer = layer ∧ p.1.Exports t ∧
      (p.1.rankAt p.2 * stride + t) * 4096 = offset := by
  rw [hdone.assigned, placements_stride hs, hslot]
  simp only [List.mem_map, exists_exists_and_eq_and, add_mul]
  constructor
  · rintro (⟨row, hrow, -⟩ | h)
    · cases hrow
    · exact h
  · exact Or.inr

/-- Tokens in the regions of their layers have one offset only in one place. -/
theorem rank_eq_of_offset {r r' t t' : ℤ} (ht : 0 ≤ t) (hlt : t < stride) (ht' : 0 ≤ t')
    (hlt' : t' < stride) (heq : r * stride + t = r' * stride + t') : r = r' := by
  have hmul : (r - r') * stride = t' - t := by
    rw [sub_mul]
    omega
  have hdvd : stride ∣ t' - t := ⟨_, by rw [← hmul, mul_comm]⟩
  have hsub := Int.eq_zero_of_abs_lt_dvd hdvd (abs_lt.mpr ⟨by omega, by omega⟩)
  rw [hsub] at hmul
  have hzero := (mul_eq_zero.mp hmul).resolve_right (by omega)
  omega

section Room

variable (hslot : args.slotBytes = 4096)
  (hassigned : ∀ layer t offset, Assigned out.2 layer t offset ↔ ∃ p ∈ chosen.zipIdx,
    p.1.layer = layer ∧ p.1.Exports t ∧ (p.1.rankAt p.2 * stride + t) * 4096 = offset)
  (hsnap : out.1.snapshotBytes =
    snapshotBytes (regionsEnd args stride 0 (ranksFrom 0 chosen)) args.segmentBytes)
  (htokens : ∀ p ∈ chosen.zipIdx, ∀ t, p.1.Exports t → 0 ≤ t)
include hslot hassigned hsnap htokens

theorem AddressMap.strideRoom (hmap : AddressMap args.slotBytes out)
    (hnodup : (chosen.map (·.layer)).Nodup) : StrideRoom args stride chosen := by
  constructor
  · intro p hp t ht hlt
    have hin := hmap.inside p.1.layer t _ ((hassigned _ _ _).mpr ⟨p, hp, rfl, ht, rfl⟩)
    have h0 := htokens p hp t ht
    by_contra hneg
    have hbelow := mul_le_mul_of_nonneg_right (show p.1.rankAt p.2 ≤ -1 by omega)
      (show 0 ≤ stride by omega)
    omega
  · intro p hp t ht hle
    have hin := hmap.inside p.1.layer t _ ((hassigned _ _ _).mpr ⟨p, hp, rfl, ht, rfl⟩)
    rw [hsnap, hslot] at hin
    rw [hslot]
    constructor
    · omega
    · linarith
  · intro p hp q hq hpq t ht hle hother
    rw [← List.zipIdx_map_fst 0 chosen, List.map_map] at hnodup
    have hlayers : p.1.layer ≠ q.1.layer :=
      fun heq => hpq (List.inj_on_of_nodup_map hnodup hp hq heq)
    apply hmap.injective p.1.layer t _ q.1.layer (t + (p.1.rankAt p.2 - q.1.rankAt q.2) * stride)
      _ ((hassigned _ _ _).mpr ⟨p, hp, rfl, ht, rfl⟩)
      ((hassigned _ _ _).mpr ⟨q, hq, rfl, hother, rfl⟩)
    · intro heq
      exact hlayers (Prod.mk.inj heq).1
    · ring

theorem StrideRoom.addressMap (hroom : StrideRoom args stride chosen)
    (hseg : 0 < args.segmentBytes)
    (hsame : ∀ p ∈ chosen.zipIdx, ∀ q ∈ chosen.zipIdx,
      p.1.rankAt p.2 = q.1.rankAt q.2 → p = q) : AddressMap args.slotBytes out := by
  constructor
  · intro layer t offset layer' t' offset' h h' hne heq
    obtain ⟨p, hp, hlayer, ht, ho⟩ := (hassigned _ _ _).mp h
    obtain ⟨q, hq, hlayer', ht', ho'⟩ := (hassigned _ _ _).mp h'
    have hplace : p.1.rankAt p.2 * stride + t = q.1.rankAt q.2 * stride + t' := by omega
    have hpq : p ≠ q := by
      rintro rfl
      exact hne (by rw [← hlayer, ← hlayer', add_left_cancel hplace])
    have hdistance : t' = t + (p.1.rankAt p.2 - q.1.rankAt q.2) * stride := by
      rw [sub_mul]
      omega
    by_cases hge : stride ≤ t
    · exact hroom.overrun_free p hp q hq hpq t ht hge (hdistance ▸ ht')
    by_cases hge' : stride ≤ t'
    · apply hroom.overrun_free q hq p hp hpq.symm t' ht' hge'
      have hback : t' + (q.1.rankAt q.2 - p.1.rankAt p.2) * stride = t := by
        rw [sub_mul]
        omega
      rw [hback]
      exact ht
    -- Both tokens are in the regions of their layers, which have different places.
    · exact hpq (hsame p hp q hq (rank_eq_of_offset (htokens p hp t ht) (not_le.mp hge)
        (htokens q hq t' ht') (not_le.mp hge') hplace))
  · intro layer t offset h
    obtain ⟨p, hp, -, ht, ho⟩ := (hassigned _ _ _).mp h
    have hsnapshot := le_snapshotBytes (regionsEnd args stride 0 (ranksFrom 0 chosen)) hseg
    rw [hsnap, hslot, ← ho]
    rcases lt_or_ge t stride with hlt | hge
    · have h0 := htokens p hp t ht
      have hrank := hroom.rank_nonneg p hp t ht hlt
      have hbase := mul_nonneg hrank (show 0 ≤ stride by omega)
      have hregion : (p.1.rankAt p.2 + 1) * stride * args.slotBytes ≤
          regionsEnd args stride 0 (ranksFrom 0 chosen) :=
        region_le (List.mem_map_of_mem hp)
      rw [hslot, add_mul, one_mul] at hregion
      omega
    · have hin := hroom.overrun_inside p hp t ht hge
      rw [hslot] at hin
      omega

end Room

theorem addresses_stride (hs : stride ≠ 0) (hslot : args.slotBytes = 4096)
    (hseg : 0 < args.segmentBytes) (hnodup : (chosen.map (·.layer)).Nodup)
    (hdone : LayersDone args stride 0 ⟨0, [], [], [], 0⟩ st chosen)
    (hsnap : out.1.snapshotBytes = snapshotBytes st.offset args.segmentBytes)
    (hout : ∀ layer t offset, Assigned out.2 layer t offset ↔ Assigned st.rows layer t offset) :
    AddressMap args.slotBytes out ↔ StrideRoom args stride chosen := by
  have hassigned := fun layer t offset =>
    (hout layer t offset).trans (hdone.assigned_stride hs hslot)
  have hend : st.offset = regionsEnd args stride 0 (ranksFrom 0 chosen) :=
    hdone.offset.trans (layersEnd_stride hs)
  rw [hend] at hsnap
  have hsame : ∀ p ∈ chosen.zipIdx, ∀ q ∈ chosen.zipIdx,
      p.1.rankAt p.2 = q.1.rankAt q.2 → p = q :=
    fun p hp q hq => List.inj_on_of_nodup_map (hdone.ranks hs List.nodup_nil) hp hq
  have htokens : ∀ p ∈ chosen.zipIdx, ∀ t, p.1.Exports t → 0 ≤ t :=
    fun p hp t ht => (hdone.tokens p.1 (List.fst_mem_of_mem_zipIdx hp) t ht).1
  constructor
  · exact fun hmap => hmap.strideRoom hslot hassigned hsnap htokens hnodup
  · exact fun hroom => hroom.addressMap hslot hassigned hsnap htokens hseg hsame

end Done

end

section Export

variable {σ : Type} [LinearOrder σ] {layerId : String → Option ℕ} {args : ExportArgs}
  {dir : List (DumpFile σ)} {chosen : List (ChosenLayer σ)} {stride : ℤ}
  {out : ExportManifest × List (CandidateRow σ)}

/-- A layer that is chosen has the first steps of one of the groups. -/
theorem chooseLayer_ok {files : List (DumpFile σ)} {c : ChosenLayer σ}
    (h : chooseLayer layerId args files = .ok (some c)) : c.files.Sublist files := by
  unfold chooseLayer at h
  cases files with
  | nil => cases h
  | cons first rest =>
    obtain ⟨r, -, h⟩ := except_bind_ok h
    split at h
    · cases h
    · split at h
      · obtain rfl := Option.some.inj (Except.ok.inj h)
        dsimp only
        split
        · exact List.Sublist.refl _
        · exact List.take_sublist _ _
      · cases h

theorem chosenLayers_ok (h : chosenLayers layerId args dir = .ok chosen) :
    (chosen.map (·.layer)).Nodup ∧
      ∀ c ∈ chosen, c.files.Pairwise (fun a b => a.seq ≤ b.seq) := by
  unfold chosenLayers at h
  obtain ⟨groups, hgroups, h⟩ := except_bind_ok h
  split at h
  · cases h
  obtain ⟨picked, hpicked, h⟩ := except_bind_ok h
  dsimp only at h
  split at h
  · cases h
  next hlayers =>
    split at h
    · cases h
    obtain rfl := Except.ok.inj h
    push Not at hlayers
    refine ⟨hlayers.2, fun c hc => ?_⟩
    rw [(List.perm_insertionSort _ _).mem_iff, List.reduceOption_mem_iff] at hc
    obtain ⟨g, hg, hchoose⟩ := mem_of_mapM hpicked hc
    exact (discover_sorted (liftExport_ok hgroups) g hg).sublist (chooseLayer_ok hchoose)

theorem exportCandidates_ok (h : exportCandidates layerId args dir = .ok out) :
    args.slotBytes = 4096 ∧ 0 < args.segmentBytes ∧
      ∃ chosen stride, chosenLayers layerId args dir = .ok chosen ∧
        layoutStride args chosen = .ok stride ∧ ∃ st,
        LayersDone args stride 0 ⟨0, [], [], [], 0⟩ st chosen ∧
        out.1.snapshotBytes = snapshotBytes st.offset args.segmentBytes ∧
        ∀ layer t offset, Assigned out.2 layer t offset ↔ Assigned st.rows layer t offset := by
  unfold exportCandidates at h
  split at h
  · cases h
  next hargs =>
    split at h
    · cases h
    obtain ⟨chosen, hchosen, h⟩ := except_bind_ok h
    obtain ⟨stride, hstride, h⟩ := except_bind_ok h
    obtain ⟨st, hlayers, h⟩ := except_bind_ok h
    split at h
    · cases h
    obtain rfl := Except.ok.inj h
    push Not at hargs
    obtain ⟨hslot, hseg, -⟩ := hargs
    refine ⟨hslot, hseg, chosen, stride, hchosen, hstride, st,
      exportLayers_ok hlayers (chosenLayers_ok hchosen).2, rfl, fun layer t offset => ?_⟩
    unfold Assigned
    constructor
    · rintro ⟨row, hrow, ha⟩
      exact ⟨row, (List.perm_insertionSort _ _).mem_iff.mp hrow, ha⟩
    · rintro ⟨row, hrow, ha⟩
      exact ⟨row, (List.perm_insertionSort _ _).mem_iff.mpr hrow, ha⟩

/-- What an export writes maps the tokens to rows of their own in the snapshot exactly when the
layers are laid end to end, or the tokens past the stride have room. -/
theorem exportCandidates_addresses_iff (h : exportCandidates layerId args dir = .ok out) :
    AddressMap args.slotBytes out ↔
      ∀ chosen stride, chosenLayers layerId args dir = .ok chosen →
        layoutStride args chosen = .ok stride → stride ≠ 0 → StrideRoom args stride chosen := by
  obtain ⟨hslot, hseg, chosen, stride, hchosen, hstride, st, hdone, hsnap, hout⟩ :=
    exportCandidates_ok h
  have hnodup := (chosenLayers_ok hchosen).1
  constructor
  · intro hmap chosen' stride' hchosen' hstride' hs
    obtain rfl := Except.ok.inj (hchosen.symm.trans hchosen')
    obtain rfl := Except.ok.inj (hstride.symm.trans hstride')
    exact (addresses_stride hs hslot hseg hnodup hdone hsnap hout).mp hmap
  · intro hroom
    by_cases hs : stride = 0
    · subst hs
      exact addresses_endToEnd hslot hseg hdone hsnap hout
    · exact (addresses_stride hs hslot hseg hnodup hdone hsnap hout).mpr
        (hroom chosen stride hchosen hstride hs)

end Export

/-- Two layers with one step each, of a context of two tokens. -/
def twoTokenRecord (layer : String) : DumpRecord ℕ :=
  { layer
    seqLensKey := [2]
    seqLensQuery := [1]
    hasReferenceCandidates := true
    indices := [0, 1]
    candidateIndices := [0, 1]
    candidateScores := [some 7, some 3]
    strideTokens := none
    layerRank := none
    applied := none }

def twoLayerDir : List (DumpFile ℕ) :=
  [⟨"layer0", 2, "layer0_s2.pt", twoTokenRecord "model.layers.0.attn"⟩,
    ⟨"layer1", 2, "layer1_s2.pt", twoTokenRecord "model.layers.1.attn"⟩]

def twoLayerId (name : String) : Option ℕ :=
  if name = "model.layers.0.attn" then some 0
  else if name = "model.layers.1.attn" then some 1
  else none

def twoLayerArgs (stride : ℤ) : ExportArgs :=
  { layers := none
    maxSteps := none
    expectedLayers := none
    slotBytes := 4096
    segmentBytes := 16384
    declaredStrideTokens := stride }

theorem exportCandidates_addresses_twoLayers :
    ∃ out, exportCandidates twoLayerId (twoLayerArgs 2) twoLayerDir = .ok out ∧
      (AddressMap 4096 out ↔ ∀ chosen stride,
        chosenLayers twoLayerId (twoLayerArgs 2) twoLayerDir = .ok chosen →
          layoutStride (twoLayerArgs 2) chosen = .ok stride → stride ≠ 0 →
            StrideRoom (twoLayerArgs 2) stride chosen) := by
  have hok : (exportCandidates twoLayerId (twoLayerArgs 2) twoLayerDir).isOk = true := by decide
  cases h : exportCandidates twoLayerId (twoLayerArgs 2) twoLayerDir with
  | error e =>
    rw [h] at hok
    cases hok
  | ok out => exact ⟨out, rfl, exportCandidates_addresses_iff h⟩

/-- With a stride of one token, token 1 of layer 0 and token 0 of layer 1 share a row. -/
theorem exportCandidates_addresses_overrun :
    ∃ out, exportCandidates twoLayerId (twoLayerArgs 1) twoLayerDir = .ok out ∧
      ¬ AddressMap 4096 out := by
  have hok : (exportCandidates twoLayerId (twoLayerArgs 1) twoLayerDir).toOption.any
      (fun out => Assigned out.2 0 1 4096 ∧ Assigned out.2 1 0 4096) = true := by decide
  cases h : exportCandidates twoLayerId (twoLayerArgs 1) twoLayerDir with
  | error e =>
    rw [h] at hok
    cases hok
  | ok out =>
    rw [h] at hok
    obtain ⟨h0, h1⟩ := of_decide_eq_true hok
    exact ⟨out, rfl, fun hmap => hmap.injective 0 1 4096 1 0 4096 h0 h1 (by decide) rfl⟩

end Umm
