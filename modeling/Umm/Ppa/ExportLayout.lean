import Umm.Ppa.ExportCandidates
import Umm.Lib.Fallible
import Umm.Lib.Layout

/-! The loop of an export over its layers: the base of each layer, the bytes counted, and the lines
that give the tokens of the layer their offsets. -/
namespace Umm
open Umm.Lib

theorem liftExport_ok {α : Type} {r : Except ValueError α} {a : α} (h : liftExport r = .ok a) :
    r = .ok a := by
  cases r with
  | error e => cases h
  | ok a' => rw [Except.ok.inj h]

section

variable {σ : Type}

/-- The line gives the token of the layer this offset. -/
def CandidateRow.Assigns (row : CandidateRow σ) (layer : ℕ) (token offset : ℤ) : Prop :=
  row.layerId = layer ∧ ∃ c ∈ row.candidates, c.token = token ∧ c.offsetBytes = offset

def Assigned (rows : List (CandidateRow σ)) (layer : ℕ) (token offset : ℤ) : Prop :=
  ∃ row ∈ rows, row.Assigns layer token offset

instance (row : CandidateRow σ) (layer : ℕ) (token offset : ℤ) :
    Decidable (row.Assigns layer token offset) := by
  unfold CandidateRow.Assigns
  infer_instance

instance (rows : List (CandidateRow σ)) (layer : ℕ) (token offset : ℤ) :
    Decidable (Assigned rows layer token offset) := by
  unfold Assigned
  infer_instance

theorem assigned_append {rows rows' : List (CandidateRow σ)} {layer : ℕ} {token offset : ℤ} :
    Assigned (rows ++ rows') layer token offset ↔
      Assigned rows layer token offset ∨ Assigned rows' layer token offset := by
  unfold Assigned
  simp only [List.mem_append, or_and_right, exists_or]

namespace ChosenLayer

/-- The token is in a step of the layer that is exported. -/
def Exports (c : ChosenLayer σ) (t : ℤ) : Prop := ∃ f ∈ c.files, f.Exports t

def context (c : ChosenLayer σ) : ℕ := (c.files.getLast?.map DumpFile.seq).getD 0

/-- The steps are in their order, and each has its tokens in its context. -/
structure Ordered (c : ChosenLayer σ) : Prop where
  nonempty : c.files ≠ []
  ordered : c.files.Pairwise (fun a b => a.seq ≤ b.seq)

theorem Ordered.seq_le {c : ChosenLayer σ} (h : c.Ordered) {f : DumpFile σ} (hf : f ∈ c.files) :
    f.seq ≤ c.context := by
  have hlast := List.getLast?_eq_getLast_of_ne_nil h.nonempty
  unfold context
  rw [hlast, Option.map_some, Option.getD_some]
  obtain ⟨init, hinit⟩ : ∃ init, c.files = init ++ [c.files.getLast h.nonempty] :=
    ⟨c.files.dropLast, (List.dropLast_append_getLast h.nonempty).symm⟩
  have hord := h.ordered
  rw [hinit] at hord hf
  rcases List.mem_append.mp hf with hf | hf
  · exact (List.pairwise_append.mp hord).2.2 f hf _ (List.mem_singleton_self _)
  · rw [List.mem_singleton.mp hf]

end ChosenLayer

end

section Placement

variable {σ : Type} {args : ExportArgs} {stride : ℤ} {st st' : ExportState σ} {c : ChosenLayer σ}

/-- The base of a layer that stands at this place, and what the bytes counted so far become. -/
def baseOf (args : ExportArgs) (stride : ℤ) (rank : ℕ) (offset : ℤ) (c : ChosenLayer σ) : ℤ :=
  if stride ≠ 0 then c.rankAt rank * stride * args.slotBytes else offset

def endOf (args : ExportArgs) (stride : ℤ) (rank : ℕ) (offset : ℤ) (c : ChosenLayer σ) : ℤ :=
  if stride ≠ 0 then max offset ((c.rankAt rank + 1) * stride * args.slotBytes)
  else offset + c.context * args.slotBytes

/-- The layers with the base of each. -/
def placements (args : ExportArgs) (stride : ℤ) :
    ℕ → ℤ → List (ChosenLayer σ) → List (ChosenLayer σ × ℤ)
  | _, _, [] => []
  | rank, offset, c :: chosen => (c, baseOf args stride rank offset c) ::
      placements args stride (rank + 1) (endOf args stride rank offset c) chosen

/-- The bytes counted after the last layer. -/
def layersEnd (args : ExportArgs) (stride : ℤ) : ℕ → ℤ → List (ChosenLayer σ) → ℤ
  | _, offset, [] => offset
  | rank, offset, c :: chosen =>
      layersEnd args stride (rank + 1) (endOf args stride rank offset c) chosen

/-- The places of the layers, from this one on. -/
def ranksFrom (rank : ℕ) (chosen : List (ChosenLayer σ)) : List ℤ :=
  (chosen.zipIdx rank).map fun p => p.1.rankAt p.2

theorem fst_mem_of_mem_placements {chosen : List (ChosenLayer σ)} {rank : ℕ} {offset : ℤ}
    {p : ChosenLayer σ × ℤ} (hp : p ∈ placements args stride rank offset chosen) :
    p.1 ∈ chosen := by
  induction chosen generalizing rank offset with
  | nil => cases hp
  | cons c chosen ih =>
    rcases List.mem_cons.mp hp with rfl | hp
    · exact List.mem_cons_self
    · exact List.mem_cons_of_mem c (ih hp)

theorem placeLayer_ok {rank context : ℕ} {base : ℤ}
    (h : placeLayer args stride rank c context st = .ok (base, st')) (hc : c.context = context) :
    base = baseOf args stride rank st.offset c ∧
      st'.offset = endOf args stride rank st.offset c ∧ st'.rows = st.rows ∧
      (stride ≠ 0 → c.rankAt rank ∉ st.ranks.map (·.2) ∧
        st'.ranks = st.ranks ++ [(c.layer, c.rankAt rank)]) := by
  unfold placeLayer at h
  unfold baseOf endOf
  by_cases hs : stride ≠ 0
  · rw [if_pos hs] at h ⊢
    rw [if_pos hs]
    dsimp only at h
    split at h
    · cases h
    next hfresh =>
      obtain ⟨rfl, rfl⟩ := Prod.mk.inj (Except.ok.inj h)
      exact ⟨rfl, rfl, rfl, fun _ => ⟨hfresh, rfl⟩⟩
  · rw [if_neg hs] at h ⊢
    obtain ⟨rfl, rfl⟩ := Prod.mk.inj (Except.ok.inj h)
    rw [if_neg hs, hc]
    exact ⟨rfl, rfl, rfl, fun hs' => absurd hs' hs⟩

/-- End to end, each layer starts where the contexts of those before it stop. -/
theorem placements_endToEnd (chosen : List (ChosenLayer σ)) (rank a : ℕ) {slot : ℕ}
    (hslot : args.slotBytes = slot) :
    ∃ b : ℕ, layersEnd args 0 rank a chosen = b ∧
      (∀ p ∈ placements args 0 rank a chosen, 0 ≤ p.2) ∧
      EndToEnd (fun p => p.2.toNat) (fun p => p.1.context * slot) a
        (placements args 0 rank a chosen) b := by
  induction chosen generalizing rank a with
  | nil => exact ⟨a, rfl, fun p hp => absurd hp List.not_mem_nil, rfl⟩
  | cons c chosen ih =>
    have hbase : baseOf args 0 rank (a : ℤ) c = a := if_neg (not_not.mpr rfl)
    have hend : endOf args 0 rank (a : ℤ) c = ((a + c.context * slot : ℕ) : ℤ) := by
      unfold endOf
      rw [if_neg (not_not.mpr rfl), hslot]
      push_cast
      rfl
    obtain ⟨b, hb, hnonneg, hlaid⟩ := ih (rank + 1) (a + c.context * slot)
    unfold layersEnd placements
    rw [hend, hbase]
    refine ⟨b, hb, ?_, Int.toNat_natCast a, hlaid⟩
    intro p hp
    rcases List.mem_cons.mp hp with rfl | hp
    · exact Int.natCast_nonneg a
    · exact hnonneg p hp

/-- With a stride, each layer starts at its own multiple of it. -/
theorem placements_stride {chosen : List (ChosenLayer σ)} {rank : ℕ} {offset : ℤ}
    (hs : stride ≠ 0) : placements args stride rank offset chosen =
      (chosen.zipIdx rank).map fun p => (p.1, p.1.rankAt p.2 * stride * args.slotBytes) := by
  induction chosen generalizing rank offset with
  | nil => rfl
  | cons c chosen ih =>
    unfold placements
    rw [ih, List.zipIdx_cons, List.map_cons, baseOf, if_pos hs]

/-- Where the last of the regions with these places ends. -/
def regionsEnd (args : ExportArgs) (stride offset : ℤ) (ranks : List ℤ) : ℤ :=
  ranks.foldl (fun m r => max m ((r + 1) * stride * args.slotBytes)) offset

theorem le_regionsEnd {offset : ℤ} {ranks : List ℤ} :
    offset ≤ regionsEnd args stride offset ranks := by
  induction ranks generalizing offset with
  | nil => exact le_refl _
  | cons r ranks ih => exact (le_max_left _ _).trans ih

theorem region_le {offset r : ℤ} {ranks : List ℤ} (hr : r ∈ ranks) :
    (r + 1) * stride * args.slotBytes ≤ regionsEnd args stride offset ranks := by
  induction ranks generalizing offset with
  | nil => cases hr
  | cons r' ranks ih =>
    rcases List.mem_cons.mp hr with rfl | hr
    · exact (le_max_right _ _).trans le_regionsEnd
    · exact ih hr

theorem layersEnd_stride {chosen : List (ChosenLayer σ)} {rank : ℕ} {offset : ℤ}
    (hs : stride ≠ 0) : layersEnd args stride rank offset chosen =
      regionsEnd args stride offset (ranksFrom rank chosen) := by
  induction chosen generalizing rank offset with
  | nil => rfl
  | cons c chosen ih =>
    unfold layersEnd
    rw [ih, endOf, if_pos hs]
    rfl

end Placement

section Loop

variable {σ : Type} [LinearOrder σ] {layerId : String → Option ℕ} {args : ExportArgs} {stride : ℤ}
  {st st' : ExportState σ} {c : ChosenLayer σ} {f : DumpFile σ} {row : CandidateRow σ}

/-- One line has the tokens of its step. -/
theorem exportRecord_ok {ranks : List (ℕ × ℤ)} {base : ℤ} {step : ℕ}
    (h : exportRecord layerId args stride ranks c base step f = .ok row) :
    (∀ t, f.Exports t → 0 ≤ t ∧ t < f.seq) ∧ ∀ layer t offset, row.Assigns layer t offset ↔
      c.layer = layer ∧ f.Exports t ∧ base + t * args.slotBytes = offset := by
  unfold exportRecord at h
  obtain ⟨r, hr, h⟩ := except_bind_ok h
  split_ifs at h with hlayer
  · cases h
  obtain ⟨-, -, h⟩ := except_bind_ok h
  obtain ⟨applied, -, h⟩ := except_bind_ok h
  obtain rfl := Except.ok.inj h
  obtain ⟨-, hin, htokens⟩ := loadRecord_ok (liftExport_ok hr)
  refine ⟨hin, fun layer t offset => ?_⟩
  have hids : ∀ t, t ∈ BatchLru.sorted (r.native ++ r.ranked) ↔ f.Exports t := by
    intro t
    rw [← htokens t, ← List.mem_append]
    unfold BatchLru.sorted
    rw [(List.perm_insertionSort _ _).mem_iff, List.mem_dedup]
  unfold CandidateRow.Assigns
  simp only [List.mem_map, exists_exists_and_eq_and]
  constructor
  · rintro ⟨hl, t', ht', rfl, ho⟩
    exact ⟨hl, (hids _).mp ht', ho⟩
  · rintro ⟨hl, ht, ho⟩
    exact ⟨hl, t, (hids t).mpr ht, rfl, ho⟩

/-- The lines of one layer have the tokens of all its steps. -/
theorem exportFiles_ok {ranks : List (ℕ × ℤ)} {base : ℤ} {files : List (DumpFile σ × ℕ)}
    {rows : List (CandidateRow σ)}
    (h : files.mapM (fun f => exportRecord layerId args stride ranks c base f.2 f.1) = .ok rows) :
    (∀ f ∈ files, ∀ t, f.1.Exports t → 0 ≤ t ∧ t < f.1.seq) ∧
      ∀ layer t offset, Assigned rows layer t offset ↔
        c.layer = layer ∧ (∃ f ∈ files, f.1.Exports t) ∧ base + t * args.slotBytes = offset := by
  have hall := forall₂_of_mapM h
  clear h
  induction hall with
  | nil => simp [Assigned]
  | @cons f row files rows hrow _ ih =>
    obtain ⟨hin, hassigns⟩ := exportRecord_ok hrow
    obtain ⟨hin', hassigned⟩ := ih
    constructor
    · intro g hg
      rcases List.mem_cons.mp hg with rfl | hg
      · exact hin
      · exact hin' g hg
    · intro layer t offset
      have hcons : Assigned (row :: rows) layer t offset ↔
          row.Assigns layer t offset ∨ Assigned rows layer t offset := by
        unfold Assigned
        simp only [List.mem_cons, exists_eq_or_imp]
      rw [hcons, hassigns, hassigned]
      simp only [List.mem_cons, exists_eq_or_imp]
      tauto

/-- One layer adds its tokens at its base, and counts its bytes. -/
theorem exportLayer_ok {rank : ℕ} (h : exportLayer layerId args stride rank st c = .ok st')
    (hord : c.files.Pairwise (fun a b => a.seq ≤ b.seq)) :
    st'.offset = endOf args stride rank st.offset c ∧
      (stride ≠ 0 → c.rankAt rank ∉ st.ranks.map (·.2) ∧
        st'.ranks = st.ranks ++ [(c.layer, c.rankAt rank)]) ∧
      (∀ t, c.Exports t → 0 ≤ t ∧ t < c.context) ∧
      ∀ layer t offset, Assigned st'.rows layer t offset ↔ Assigned st.rows layer t offset ∨
        c.layer = layer ∧ c.Exports t ∧
          baseOf args stride rank st.offset c + t * args.slotBytes = offset := by
  unfold exportLayer at h
  split at h
  · cases h
  next last hlast =>
    have hctx : c.context = last.seq := by
      unfold ChosenLayer.context
      rw [hlast]
      rfl
    have hne : c.files ≠ [] := by
      intro hnil
      rw [hnil] at hlast
      cases hlast
    obtain ⟨⟨base, st₁⟩, hplace, h⟩ := except_bind_ok h
    obtain ⟨rows, hrows, h⟩ := except_bind_ok h
    obtain rfl := Except.ok.inj h
    obtain ⟨rfl, hoffset, hsame, hranks⟩ := placeLayer_ok hplace hctx
    obtain ⟨hin, hassigned⟩ := exportFiles_ok hrows
    have hnumbered : ∀ f ∈ c.files, ∃ i, (f, i) ∈ c.files.zipIdx := by
      intro f hf
      obtain ⟨i, hi⟩ := List.mem_iff_getElem?.mp hf
      exact ⟨i, List.mem_zipIdx_iff_getElem?.mpr hi⟩
    have hfiles : ∀ t, (∃ f ∈ c.files.zipIdx, f.1.Exports t) ↔ c.Exports t := by
      intro t
      constructor
      · rintro ⟨f, hf, ht⟩
        exact ⟨f.1, List.fst_mem_of_mem_zipIdx hf, ht⟩
      · rintro ⟨f, hf, ht⟩
        obtain ⟨i, hi⟩ := hnumbered f hf
        exact ⟨(f, i), hi, ht⟩
    refine ⟨hoffset, hranks, ?_, fun layer t offset => ?_⟩
    · rintro t ⟨f, hf, ht⟩
      have hle := ChosenLayer.Ordered.seq_le ⟨hne, hord⟩ hf
      obtain ⟨i, hi⟩ := hnumbered f hf
      obtain ⟨h0, hlt⟩ := hin _ hi t ht
      dsimp only at hlt
      omega
    · dsimp only
      rw [assigned_append, hsame, hassigned, hfiles]

/-- What a loop over the layers has written and counted. -/
structure LayersDone (args : ExportArgs) (stride : ℤ) (rank : ℕ) (st st' : ExportState σ)
    (chosen : List (ChosenLayer σ)) : Prop where
  offset : st'.offset = layersEnd args stride rank st.offset chosen
  ranks : stride ≠ 0 → (st.ranks.map (·.2)).Nodup →
    (st.ranks.map (·.2) ++ ranksFrom rank chosen).Nodup
  tokens : ∀ c ∈ chosen, ∀ t, c.Exports t → 0 ≤ t ∧ t < c.context
  assigned : ∀ layer t offset, Assigned st'.rows layer t offset ↔
    Assigned st.rows layer t offset ∨ ∃ p ∈ placements args stride rank st.offset chosen,
      p.1.layer = layer ∧ p.1.Exports t ∧ p.2 + t * args.slotBytes = offset

theorem exportLayers_ok {chosen : List (ChosenLayer σ)} {rank : ℕ}
    (h : exportLayers layerId args stride rank st chosen = .ok st')
    (hord : ∀ c ∈ chosen, c.files.Pairwise (fun a b => a.seq ≤ b.seq)) :
    LayersDone args stride rank st st' chosen := by
  induction chosen generalizing rank st with
  | nil =>
    obtain rfl := Except.ok.inj h
    constructor
    · rfl
    · intro _ hnodup
      rw [ranksFrom, List.zipIdx_nil, List.map_nil, List.append_nil]
      exact hnodup
    · intro c hc
      cases hc
    · intro layer t offset
      simp [placements]
  | cons c chosen ih =>
    obtain ⟨st₁, hlayer, h⟩ := except_bind_ok h
    obtain ⟨hoffset, hranks, htokens, hassigned⟩ := exportLayer_ok hlayer (hord c List.mem_cons_self)
    obtain ⟨ihoffset, ihranks, ihtokens, ihassigned⟩ :=
      ih h fun d hd => hord d (List.mem_cons_of_mem c hd)
    rw [hoffset] at ihoffset ihassigned
    constructor
    · exact ihoffset
    · intro hs hnodup
      obtain ⟨hfresh, hadd⟩ := hranks hs
      have hnext : (st₁.ranks.map (·.2)).Nodup := by
        rw [hadd, List.map_append, List.map_singleton, ← List.concat_eq_append]
        exact hnodup.concat hfresh
      have hall := ihranks hs hnext
      rw [hadd, List.map_append, List.append_assoc] at hall
      exact hall
    · intro d hd
      rcases List.mem_cons.mp hd with rfl | hd
      · exact htokens
      · exact ihtokens d hd
    · intro layer t offset
      rw [ihassigned, hassigned]
      simp only [placements, List.mem_cons, exists_eq_or_imp]
      rw [or_assoc]

end Loop

end Umm
