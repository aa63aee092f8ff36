import Umm.SparseKv.StoreAnyRun
import Umm.Media.PositionHash

/-! Which token lists `plan` and `fetch` accept, and which keys `locate_batch` does. -/
namespace Umm
open Umm.Lib

namespace SparseKVStore

variable {st st' : SparseKVStore} {live : ℕ → List LiveUnit} {layerId : ℤ} {tokens : List ℤ}
  {extentBase : ℕ → ℕ}

/-- Every index is that of a token with a valid entry. -/
def AllValid (st : SparseKVStore) (layerId : ℤ) (tokens : List ℤ) : Prop :=
  ∀ t ∈ tokens, ∃ l n : ℕ, layerId = l ∧ t = n ∧ st.Valid l n

/-- A plan accepts the lists of valid tokens only, and its entries have the device on which the
token was placed, and the address at which its bytes are. -/
structure PlansExactly (extentBase : ℕ → ℕ) (st : SparseKVStore) (layerId : ℤ)
    (tokens : List ℤ) : Prop where
  accepts : (∃ view, (plan extentBase layerId tokens st).1 = .ok view) ↔
    st.AllValid layerId tokens
  placed : ∀ view, (plan extentBase layerId tokens st).1 = .ok view →
    view.count = tokens.length ∧ ∀ (i : ℕ) t, tokens[i]? = some t → ∃ (l n e : ℕ) (pe : PlanEntry)
      (data : List UInt8), layerId = l ∧ t = n ∧ st.table.entryAt l n = some e ∧
        view.entry (plan extentBase layerId tokens st).2.descBuf i = some pe ∧
        pe.ssdId = st.deviceOf l n ∧ pe.lbaOffset = extentBase (st.deviceOf l n) + entryOffset e ∧
        pe.length = st.vm.unitSize ∧ pe.dstOffset = i * st.vm.unitSize ∧
        st.latest l n = some data ∧ st.vm.Holds (st.deviceOf l n, ⟨entryOffset e, data⟩)

/-- A fetch accepts the lists of valid tokens only. -/
def FetchesExactly (st : SparseKVStore) (layerId : ℤ) (tokens : List ℤ) (s : ReadState) : Prop :=
  (∃ s', st.fetch layerId tokens s = (.ok (), s')) ↔ st.AllValid layerId tokens

/-- A list of no tokens does not hide a layer that is out of range. -/
def LayerChecked (st : SparseKVStore) (layerId : ℤ) (tokens : List ℤ) : Prop :=
  tokens = [] → 0 ≤ layerId ∧ layerId < st.table.numLayers

/-- Every index names a valid entry of the layer. -/
def NamesValid (st : SparseKVStore) (layerId : ℤ) (tokens : List ℤ) : Prop :=
  ∃ l : ℕ, layerId = l ∧ l < st.table.numLayers ∧
    ∀ t ∈ tokens, st.Indexes t ∧ entryValid (st.entryOf l (st.named t)) = true

/-- Every index names a valid entry, some of them from the end of the row. -/
def Reinterpreted (st : SparseKVStore) (layerId : ℤ) (tokens : List ℤ) : Prop :=
  st.NamesValid layerId tokens ∧ ∃ t ∈ tokens, t < 0

/-- The values of a plan fit the fields of the descriptor buffer. -/
def FieldsFit (extentBase : ℕ → ℕ) (st : SparseKVStore) (layerId : ℤ) (tokens : List ℤ) : Prop :=
  tokens.length < 2 ^ 32 ∧ layerId < 2 ^ 32 ∧ ∀ (i : ℕ) t, tokens[i]? = some t →
    st.vm.strategy.locate (layerId, t) < 2 ^ 32 ∧
    extentBase (st.vm.strategy.locate (layerId, t)) +
      entryOffset (st.entryOf layerId.toNat (st.named t)) < 2 ^ 64 ∧
    st.vm.unitSize < 2 ^ 64 ∧ i * st.vm.unitSize < 2 ^ 64

theorem pack_ok_iff {t : ℤ} {i e : ℕ} :
    (∃ bs, (plannedEntry extentBase st layerId t i e).pack = .ok bs) ↔
      st.vm.strategy.locate (layerId, t) < 2 ^ 32 ∧
      extentBase (st.vm.strategy.locate (layerId, t)) + entryOffset e < 2 ^ 64 ∧
      st.vm.unitSize < 2 ^ 64 ∧ i * st.vm.unitSize < 2 ^ 64 := by
  have hflags : (plannedEntry extentBase st layerId t i e).flags < 2 ^ 32 := by
    unfold plannedEntry flagHostReady flagDisk
    dsimp only
    split_ifs <;> decide
  unfold PlanEntry.pack
  constructor
  · rintro ⟨bs, hbs⟩
    by_contra hnot
    rw [if_neg fun h => hnot ⟨h.1, h.2.2⟩] at hbs
    cases hbs
  · rintro ⟨hdev, hrest⟩
    exact ⟨_, if_pos ⟨hdev, hflags, hrest⟩⟩

theorem packHeader_ok_iff {count l : ℕ} :
    (∃ bs, packHeader count l = .ok bs) ↔ count < 2 ^ 32 ∧ (l : ℤ) < 2 ^ 32 := by
  unfold packHeader
  split_ifs with hfit
  · exact iff_of_true ⟨_, rfl⟩ ⟨hfit.1, hfit.2.2⟩
  · refine iff_of_false ?_ fun h => hfit ⟨h.1, by omega, h.2⟩
    rintro ⟨bs, hbs⟩
    cases hbs

theorem namesValid_iff {l : ℕ} (hl : l < st.table.numLayers) (hin : ∀ t ∈ tokens, st.Indexes t) :
    st.NamesValid l tokens ↔ ∀ t ∈ tokens, entryValid (st.entryOf l (st.named t)) = true := by
  constructor
  · rintro ⟨l', hl', -, hall⟩ t ht
    obtain rfl := Nat.cast_inj.mp hl'
    exact (hall t ht).2
  · exact fun hall => ⟨l, rfl, hl, fun t ht => ⟨hin t ht, hall t ht⟩⟩

theorem entriesPack_iff {l : ℕ} :
    (∀ (k : ℕ) p, (tokens.zip (tokens.map fun t => st.entryOf l (st.named t)))[k]? = some p →
      entryValid p.2 = true ∧
        ∃ bs, (plannedEntry extentBase st l p.1 (0 + k) p.2).pack = .ok bs) ↔
      (∀ t ∈ tokens, entryValid (st.entryOf l (st.named t)) = true) ∧
        ∀ (i : ℕ) t, tokens[i]? = some t →
          ∃ bs, (plannedEntry extentBase st l t i (st.entryOf l (st.named t))).pack = .ok bs := by
  simp only [Nat.zero_add]
  constructor
  · intro hall
    refine ⟨fun t ht => ?_, fun i t ht =>
      (hall i (t, _) (getElem?_zip_entries.mpr ⟨ht, rfl⟩)).2⟩
    obtain ⟨i, hi⟩ := List.mem_iff_getElem?.mp ht
    exact (hall i (t, _) (getElem?_zip_entries.mpr ⟨hi, rfl⟩)).1
  · rintro ⟨hval, hpack⟩ k p hk
    obtain ⟨ht, hentry⟩ := getElem?_zip_entries.mp hk
    rw [hentry]
    exact ⟨hval _ (List.mem_of_getElem? ht), hpack k _ ht⟩

theorem Held.plan_ok_iff (hw : st.Held live) (extentBase : ℕ → ℕ) (layerId : ℤ)
    (hlen : tokens.length ≤ st.maxTopk) :
    ((∃ view, (SparseKVStore.plan extentBase layerId tokens st).1 = .ok view) ↔
      st.NamesValid layerId tokens ∧ FieldsFit extentBase st layerId tokens) ∧
    ∀ view, (SparseKVStore.plan extentBase layerId tokens st).1 = .ok view → view.count = tokens.length ∧
      ∀ (i : ℕ) t, tokens[i]? = some t →
        view.entry (SparseKVStore.plan extentBase layerId tokens st).2.descBuf i =
          some (plannedEntry extentBase st layerId t i
            (st.entryOf layerId.toNat (st.named t))) := by
  cases h : SparseKVStore.plan extentBase layerId tokens st with
  | mk r st' =>
    unfold SparseKVStore.plan at h
    rw [Fallible.get_bind, if_neg (by omega)] at h
    rcases gather_eq st layerId tokens with ⟨e, hgather, hnot⟩ | ⟨l, rfl, hl, hin, hgather⟩
    · rw [hgather] at h
      obtain ⟨rfl, rfl⟩ := Prod.mk.inj h
      refine ⟨iff_of_false (by simp) ?_, by simp⟩
      rintro ⟨⟨l, rfl, hl, hall⟩, -⟩
      exact hnot ⟨⟨by omega, by omega⟩, fun t ht => (hall t ht).1⟩
    rw [hgather] at h
    dsimp only at h
    rw [namesValid_iff hl hin]
    unfold FieldsFit
    simp only [Int.toNat_natCast, ← pack_ok_iff]
    have hroom := zip_entries_room st l hlen
    rcases Fallible.bind_cases h with ⟨e, hentries, rfl⟩ | ⟨u, st₁, hentries, hrest⟩
    · obtain ⟨-, hok, -⟩ := hw.planEntries_from (hw.aligned_zip hl hin) hroom hentries
      refine ⟨iff_of_false (by simp) ?_, by simp⟩
      rintro ⟨hval, -, -, hpack⟩
      exact absurd (hok.mpr (entriesPack_iff.mpr ⟨hval, hpack⟩)) (by simp)
    · obtain ⟨hfrom, hok, hslots⟩ := hw.planEntries_from (hw.aligned_zip hl hin) hroom hentries
      obtain ⟨hval, hpack⟩ := entriesPack_iff.mp (hok.mp rfl)
      have hw₁ := hfrom.held hw
      cases hheader : packHeader tokens.length l with
      | error e =>
        rw [hheader] at hrest
        obtain ⟨rfl, rfl⟩ := Prod.mk.inj hrest
        refine ⟨iff_of_false (by simp) ?_, by simp⟩
        rintro ⟨-, hcount, hlayer, -⟩
        obtain ⟨bs, hbs⟩ := packHeader_ok_iff.mpr ⟨hcount, hlayer⟩
        rw [hheader] at hbs
        cases hbs
      | ok bs =>
        simp only [hheader, Fallible.get_bind, Fallible.set_bind] at hrest
        obtain ⟨rfl, rfl⟩ := Prod.mk.inj hrest
        obtain ⟨hcount, hlayer⟩ := packHeader_ok_iff.mp ⟨bs, hheader⟩
        refine ⟨iff_of_true ⟨_, rfl⟩ ⟨hval, hcount, hlayer, hpack⟩, fun view hview => ?_⟩
        obtain rfl := Except.ok.inj hview
        refine ⟨rfl, fun i t ht => ?_⟩
        obtain ⟨bytes, hbytes⟩ := hpack i t ht
        have hslot := hslots i (t, st.entryOf l (st.named t)) bytes rfl
          (getElem?_zip_entries.mpr ⟨ht, rfl⟩) (by rw [Nat.zero_add]; exact hbytes)
        rw [Nat.zero_add] at hslot
        have hbs := length_packHeader hheader
        have hfit : headerSize ≤ st₁.descBuf.length := by
          rw [hw₁.length_descBuf]
          omega
        refine PlanView.entry_of_slice (List.getElem?_eq_some_iff.mp ht).1 hbytes ?_
        dsimp only
        rw [← hslot]
        exact slice_splice_outside (by omega) (.inr (by omega))

theorem allValid_iff (hlayer : st.LayerChecked layerId tokens) :
    st.AllValid layerId tokens ↔ st.NamesValid layerId tokens ∧ ∀ t ∈ tokens, 0 ≤ t := by
  constructor
  · intro hall
    refine ⟨?_, fun t ht => ?_⟩
    · have hrange : 0 ≤ layerId ∧ layerId < st.table.numLayers := by
        cases htok : tokens with
        | nil => exact hlayer htok
        | cons t ts =>
          obtain ⟨l, n, rfl, -, hval⟩ := hall t (htok ▸ List.mem_cons_self)
          have := (valid_lt hval).1
          exact ⟨by omega, by omega⟩
      refine ⟨layerId.toNat, by omega, by omega, fun t ht => ?_⟩
      obtain ⟨l, n, rfl, rfl, hval⟩ := hall t ht
      obtain ⟨hl, hn⟩ := valid_lt hval
      rw [Int.toNat_natCast, named_natCast]
      exact ⟨⟨by omega, by omega⟩, (valid_iff hl hn).mp hval⟩
    · obtain ⟨l, n, -, rfl, -⟩ := hall t ht
      exact Int.natCast_nonneg n
  · rintro ⟨⟨l, rfl, hl, hall⟩, hpos⟩ t ht
    obtain ⟨n, rfl⟩ := Int.eq_ofNat_of_zero_le (hpos t ht)
    obtain ⟨hin, hval⟩ := hall _ ht
    have hlt := named_lt hin
    rw [named_natCast] at hval hlt
    exact ⟨l, n, rfl, rfl, (valid_iff hl hlt).mpr hval⟩

theorem Held.plansExactly_iff (hw : st.Held live) (hlen : tokens.length ≤ st.maxTopk) :
    PlansExactly extentBase st layerId tokens ↔
      st.LayerChecked layerId tokens ∧
      ¬ (st.Reinterpreted layerId tokens ∧ FieldsFit extentBase st layerId tokens) ∧
      (st.AllValid layerId tokens → FieldsFit extentBase st layerId tokens) := by
  obtain ⟨hok, hentries⟩ := hw.plan_ok_iff extentBase layerId hlen
  constructor
  · intro h
    have haccepts := hok.symm.trans h.accepts
    have hlayer : st.LayerChecked layerId tokens := by
      rintro rfl
      obtain ⟨⟨l, rfl, hl, -⟩, -⟩ := haccepts.mpr (fun t ht => by cases ht)
      exact ⟨by omega, by omega⟩
    refine ⟨hlayer, ?_, fun hall => (haccepts.mpr hall).2⟩
    rintro ⟨⟨hnames, t, ht, hneg⟩, hfit⟩
    have := ((allValid_iff hlayer).mp (haccepts.mp ⟨hnames, hfit⟩)).2 t ht
    omega
  · rintro ⟨hlayer, hnot, hfit⟩
    have haccepts : (∃ view, (SparseKVStore.plan extentBase layerId tokens st).1 = .ok view) ↔
        st.AllValid layerId tokens := by
      rw [hok]
      constructor
      · rintro ⟨hnames, hfit⟩
        refine (allValid_iff hlayer).mpr ⟨hnames, fun t ht => ?_⟩
        by_contra hneg
        exact hnot ⟨⟨hnames, t, ht, by omega⟩, hfit⟩
      · intro hall
        exact ⟨((allValid_iff hlayer).mp hall).1, hfit hall⟩
    refine ⟨haccepts, fun view hview => ?_⟩
    obtain ⟨hcount, hget⟩ := hentries view hview
    refine ⟨hcount, fun i t ht => ?_⟩
    obtain ⟨l, n, rfl, rfl, hval⟩ := haccepts.mp ⟨view, hview⟩ t (List.mem_of_getElem? ht)
    obtain ⟨hl, hn⟩ := valid_lt hval
    have hentry := entryAt_entryOf hl hn
    obtain ⟨data, hlat, hmem⟩ := hw.unit l n _ hentry ((valid_iff hl hn).mp hval)
    have hpe := hget i _ ht
    rw [Int.toNat_natCast, named_natCast] at hpe
    exact ⟨l, n, _, _, data, rfl, rfl, hentry, hpe, rfl, rfl, rfl, rfl, hlat,
      hw.media.holds hmem⟩

theorem Held.fetchesExactly_iff (hw : st.Held live) {outs : List (List UInt8)}
    (hlen : outs.length = tokens.length) (hroom : ∀ out ∈ outs, st.vm.unitSize ≤ out.length)
    (reads : List DeviceRead) :
    st.FetchesExactly layerId tokens ⟨outs, reads⟩ ↔
      st.LayerChecked layerId tokens ∧ ¬ (st.Reinterpreted layerId tokens ∧
        ∀ t ∈ tokens, st.Readable layerId.toNat t) := by
  have hok : (∃ s', st.fetch layerId tokens ⟨outs, reads⟩ = (.ok (), s')) ↔
      st.NamesValid layerId tokens ∧ ∀ t ∈ tokens, st.Readable layerId.toNat t := by
    rw [hw.fetch_ok_iff hlen hroom]
    constructor
    · rintro ⟨l, rfl, hl, hall⟩
      refine ⟨⟨l, rfl, hl, fun t ht => ⟨(hall t ht).1, (hall t ht).2.1⟩⟩, fun t ht => ?_⟩
      rw [Int.toNat_natCast]
      exact (hall t ht).2.2
    · rintro ⟨⟨l, rfl, hl, hall⟩, hread⟩
      rw [Int.toNat_natCast] at hread
      exact ⟨l, rfl, hl, fun t ht => ⟨(hall t ht).1, (hall t ht).2, hread t ht⟩⟩
  unfold FetchesExactly
  rw [hok]
  constructor
  · intro haccepts
    have hlayer : st.LayerChecked layerId tokens := by
      rintro rfl
      obtain ⟨⟨l, rfl, hl, -⟩, -⟩ := haccepts.mpr (fun t ht => by cases ht)
      exact ⟨by omega, by omega⟩
    refine ⟨hlayer, ?_⟩
    rintro ⟨⟨hnames, t, ht, hneg⟩, hread⟩
    have := ((allValid_iff hlayer).mp (haccepts.mp ⟨hnames, hread⟩)).2 t ht
    omega
  · rintro ⟨hlayer, hnot⟩
    constructor
    · rintro ⟨hnames, hread⟩
      refine (allValid_iff hlayer).mpr ⟨hnames, fun t ht => ?_⟩
      by_contra hneg
      exact hnot ⟨⟨hnames, t, ht, by omega⟩, hread⟩
    · intro hall
      refine ⟨((allValid_iff hlayer).mp hall).1, fun t ht => ?_⟩
      obtain ⟨l, n, rfl, rfl, hval⟩ := hall t ht
      obtain ⟨hl, hn⟩ := valid_lt hval
      obtain ⟨data, -, hmem⟩ := hw.unit l n _ (entryAt_entryOf hl hn)
        ((valid_iff hl hn).mp hval)
      obtain ⟨mgr, hmgr, -, -, hfit⟩ := hw.media.holds hmem
      refine .inr ⟨mgr, hmgr, ?_⟩
      rw [Int.toNat_natCast, named_natCast]
      exact hfit

end SparseKVStore

namespace PositionHashStrategy

variable (s : PositionHashStrategy)

/-- The strategy as the media layer uses it. -/
def placement : PlacementStrategy (ℤ × ℤ) where
  numDevices := s.numDevices.toNat
  locate key := (s.device key).toNat
  locate_lt key := by
    obtain ⟨hlow, hhigh⟩ := s.device_mem key
    omega

/-- `locate_batch` is `locate` on every key, where no index is negative. -/
theorem locateBatch_eq_iff (keys : List (ℤ × ℤ)) :
    s.locateBatch keys = keys.mapM s.locate ↔ ∀ key ∈ keys, 0 ≤ key.1 ∧ 0 ≤ key.2 := by
  unfold locateBatch
  constructor
  · intro h key hkey
    obtain ⟨d, hd⟩ := mapM_mem_ok h.symm hkey
    unfold locate at hd
    split_ifs at hd with hneg
    omega
  · intro h
    refine (mapM_ok fun key hkey => ?_).symm
    obtain ⟨hl, ht⟩ := h key hkey
    unfold locate
    rw [if_neg (by omega)]

end PositionHashStrategy

open SparseKVStore in
/-- When `plan`, `fetch` and `locate_batch` accept what they should, in every run of the store. -/
theorem accepts_exactly_iff {unitSize : ℤ} {extents : List VirtualMedia.Extent}
    {strategy : PlacementStrategy (ℤ × ℤ)} {readMerge : Bool} {maxReadBytes : Option ℤ}
    {vm : VirtualMedia (ℤ × ℤ)}
    (hvm : VirtualMedia.init unitSize extents strategy readMerge maxReadBytes = .ok vm)
    {numLayers maxTokens maxTopk : ℤ} {start st : SparseKVStore}
    (hstart : SparseKVStore.init vm numLayers maxTokens maxTopk = .ok start)
    (h : Reach (· = start) AnyStep st) (extentBase : ℕ → ℕ) (layerId : ℤ) {tokens : List ℤ}
    (hlen : tokens.length ≤ st.maxTopk) {outs : List (List UInt8)}
    (houts : outs.length = tokens.length) (hroom : ∀ out ∈ outs, st.vm.unitSize ≤ out.length)
    (reads : List DeviceRead) (s : PositionHashStrategy) (keys : List (ℤ × ℤ)) :
    (PlansExactly extentBase st layerId tokens ↔ st.LayerChecked layerId tokens ∧
      ¬ (st.Reinterpreted layerId tokens ∧ FieldsFit extentBase st layerId tokens) ∧
      (st.AllValid layerId tokens → FieldsFit extentBase st layerId tokens)) ∧
    (st.FetchesExactly layerId tokens ⟨outs, reads⟩ ↔ st.LayerChecked layerId tokens ∧
      ¬ (st.Reinterpreted layerId tokens ∧ ∀ t ∈ tokens, st.Readable layerId.toNat t)) ∧
    (s.locateBatch keys = keys.mapM s.locate ↔ ∀ key ∈ keys, 0 ≤ key.1 ∧ 0 ≤ key.2) := by
  obtain ⟨live, hw⟩ := held_of_reach hvm hstart h
  exact ⟨hw.plansExactly_iff hlen, hw.fetchesExactly_iff houts hroom reads,
    s.locateBatch_eq_iff keys⟩

/-- Two devices, and steps that are just large enough. -/
def twoDeviceHash : PositionHashStrategy where
  numDevices := 2
  stepIdx := ⟨3, isPrime_iff.mpr (show Nat.Prime 3 by norm_num), by norm_num⟩
  stepLayer := ⟨5, isPrime_iff.mpr (show Nat.Prime 5 by norm_num), by norm_num⟩
  prime := 7
  numDevices_pos := by norm_num
  steps_ne := by norm_num
  prime_prime := isPrime_iff.mpr (show Nat.Prime 7 by norm_num)
  steps_lt_prime := by norm_num

/-- One layer with two tokens on two devices of one segment each. -/
def twoDeviceStore : Option SparseKVStore :=
  freshStore 4096 [⟨List.replicate 4096 0, 4096⟩, ⟨List.replicate 4096 0, 4096⟩]
    twoDeviceHash.placement 1 2 2

/-- The second token is offloaded. -/
def secondTokenOffloaded (start : SparseKVStore) : SparseKVStore :=
  start.next (.offload (fun _ _ => .done) [⟨0, 1, 1, List.replicate 4096 7⟩])

open SparseKVStore in
theorem accepts_exactly_second : ∃ start, twoDeviceStore = some start ∧
    PlansExactly (fun _ => 0) (secondTokenOffloaded start) 0 [1] ∧
    (secondTokenOffloaded start).FetchesExactly 0 [1] ⟨[List.replicate 4096 0], []⟩ ∧
    twoDeviceHash.locateBatch [(0, 1)] = [(0, 1)].mapM twoDeviceHash.locate := by
  have hrun : twoDeviceStore.map (fun start =>
      ((secondTokenOffloaded start).maxTopk, (secondTokenOffloaded start).vm.unitSize,
        (secondTokenOffloaded start).vm.strategy.locate (0, 1),
        entryOffset ((secondTokenOffloaded start).entryOf 0
          ((secondTokenOffloaded start).named 1)))) = some (2, 4096, 1, 0) := by
    decide +kernel
  obtain ⟨start, hstart, hrun⟩ := Option.map_eq_some_iff.mp hrun
  obtain ⟨htopk, hrest⟩ := Prod.mk.inj hrun
  obtain ⟨hunit, hrest⟩ := Prod.mk.inj hrest
  obtain ⟨hdev, hoff⟩ := Prod.mk.inj hrest
  obtain ⟨vm, hvm, hinit⟩ := freshStore_eq_some hstart
  have hinit' : Reach (· = start) AnyStep start := .start rfl
  have hreach : Reach (· = start) AnyStep (secondTokenOffloaded start) := hinit'.next _ rfl
  have hlen : [(1 : ℤ)].length ≤ (secondTokenOffloaded start).maxTopk := by simp [htopk]
  have hroom : ∀ out ∈ [List.replicate 4096 (0 : UInt8)],
      (secondTokenOffloaded start).vm.unitSize ≤ out.length := by
    intro out hout
    rw [List.mem_singleton.mp hout, hunit, List.length_replicate]
  obtain ⟨hplan, hfetch, hbatch⟩ := accepts_exactly_iff hvm hinit hreach (fun _ => 0) 0 hlen rfl
    hroom [] twoDeviceHash [(0, 1)]
  have hpos : ¬ (secondTokenOffloaded start).Reinterpreted 0 [1] := by
    rintro ⟨-, t, ht, hneg⟩
    obtain rfl := List.mem_singleton.mp ht
    cases hneg
  have hfit : FieldsFit (fun _ => 0) (secondTokenOffloaded start) 0 [1] := by
    refine ⟨by decide, by decide, fun i t ht => ?_⟩
    have hlt := (List.getElem?_eq_some_iff.mp ht).1
    obtain rfl : i = 0 := by simpa using hlt
    obtain rfl := Option.some.inj ht
    rw [hdev, hunit, Int.toNat_zero, hoff]
    decide
  refine ⟨start, hstart, hplan.mpr ⟨by simp [LayerChecked], fun h => hpos h.1, fun _ => hfit⟩,
    hfetch.mpr ⟨by simp [LayerChecked], fun h => hpos h.1⟩, hbatch.mpr (by decide)⟩

open SparseKVStore in
/-- The index before the first token names the second one, on the device of another key. -/
theorem accepts_negative : ∃ start, twoDeviceStore = some start ∧
    (secondTokenOffloaded start).deviceOf 0 1 = 1 ∧
    (∃ view pe, (plan (fun _ => 0) 0 [-1] (secondTokenOffloaded start)).1 = .ok view ∧
      view.entry (plan (fun _ => 0) 0 [-1] (secondTokenOffloaded start)).2.descBuf 0 = some pe ∧
      pe.ssdId = 0) ∧
    ¬ PlansExactly (fun _ => 0) (secondTokenOffloaded start) 0 [-1] ∧
    ¬ (secondTokenOffloaded start).FetchesExactly 0 [-1] ⟨[List.replicate 4096 0], []⟩ ∧
    twoDeviceHash.locateBatch [(0, -1)] ≠ [(0, -1)].mapM twoDeviceHash.locate := by
  have hrun : twoDeviceStore.map (fun start =>
      ((secondTokenOffloaded start).deviceOf 0 1,
        (plan (fun _ => 0) 0 [-1] (secondTokenOffloaded start)).1.toOption.bind (fun view =>
          (view.entry (plan (fun _ => 0) 0 [-1] (secondTokenOffloaded start)).2.descBuf 0).map
            PlanEntry.ssdId),
        ((secondTokenOffloaded start).fetch 0 [-1]
          ⟨[List.replicate 4096 0], []⟩).1.toOption)) = some (1, some 0, some ()) := by
    decide +kernel
  obtain ⟨start, hstart, hrun⟩ := Option.map_eq_some_iff.mp hrun
  obtain ⟨hdev, hrest⟩ := Prod.mk.inj hrun
  obtain ⟨hplan, hfetch⟩ := Prod.mk.inj hrest
  obtain ⟨view, hview, hentry⟩ := Option.bind_eq_some_iff.mp hplan
  obtain ⟨pe, hpe, hssd⟩ := Option.map_eq_some_iff.mp hentry
  have hnot : ¬ (secondTokenOffloaded start).AllValid 0 [-1] := by
    intro hall
    obtain ⟨l, n, -, hn, -⟩ := hall (-1) List.mem_cons_self
    omega
  refine ⟨start, hstart, hdev, ⟨view, pe, ok_of_toOption hview, hpe, hssd⟩, ?_, ?_, by decide⟩
  · intro h
    exact hnot (h.accepts.mp ⟨view, ok_of_toOption hview⟩)
  · intro h
    exact hnot (h.mp ⟨_, Prod.ext (ok_of_toOption hfetch) rfl⟩)

end Umm
