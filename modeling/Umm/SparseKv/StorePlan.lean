import Umm.SparseKv.StoreFetch

/-! The descriptor buffer: what a plan says about every token is where its bytes are. -/
namespace Umm
open Umm.Lib

theorem PlanEntry.length_pack {e : PlanEntry} {bs : List UInt8} (h : e.pack = .ok bs) :
    bs.length = entrySize := by
  unfold PlanEntry.pack at h
  split_ifs at h
  obtain rfl := Except.ok.inj h
  simp [entrySize]

/-- An entry that was packed is unpacked again. -/
theorem PlanEntry.unpack_pack {e : PlanEntry} {bs : List UInt8} (h : e.pack = .ok bs) :
    PlanEntry.unpack.Decodes bs e := by
  unfold PlanEntry.pack at h
  split_ifs at h with hfit
  obtain ⟨h1, h2, h3, h4, h5⟩ := hfit
  obtain rfl := Except.ok.inj h
  unfold PlanEntry.unpack
  exact (Decoder.Decodes.le (by omega)).bind ((Decoder.Decodes.le (by omega)).bind
    ((Decoder.Decodes.le (by omega)).bind ((Decoder.Decodes.le (by omega)).bind
      ((Decoder.Decodes.le (by omega)).map _))))

/-- An entry that stands in the buffer is what the view shows. -/
theorem PlanView.entry_of_slice {view : PlanView} {buf bs : List UInt8} {i : ℕ} {e : PlanEntry}
    (hi : i < view.count) (hpack : e.pack = .ok bs)
    (hslice : slice buf (headerSize + i * entrySize) entrySize = bs) :
    view.entry buf i = some e := by
  have hsplit : buf.drop (headerSize + i * entrySize) =
      bs ++ (buf.drop (headerSize + i * entrySize)).drop entrySize := by
    rw [← hslice]
    exact (List.take_append_drop _ _).symm
  unfold PlanView.entry
  rw [if_pos hi, hsplit, PlanEntry.unpack_pack hpack]

namespace SparseKVStore

variable {st st' : SparseKVStore} {live : ℕ → List LiveUnit} {l : ℕ} {ts : List ℕ}
  {extentBase : ℕ → ℕ} {r : Except StoreError Unit}

theorem setSlice_eq_splice {xs data : List UInt8} {dst n : ℕ} (h : data.length = n) :
    setSlice xs dst n data = splice xs dst data := by
  unfold setSlice splice
  rw [h, List.append_assoc]

/-- Only the buffers that a plan writes have changed, and of these only the entries from the
`i`-th on. -/
structure PlannedFrom (i : ℕ) (st st' : SparseKVStore) : Prop where
  same : st' = { st with descBuf := st'.descBuf, staging := st'.staging }
  length_descBuf : st'.descBuf.length = st.descBuf.length
  length_staging : st'.staging.length = st.staging.length
  before : ∀ j < i, slice st'.descBuf (headerSize + j * entrySize) entrySize =
      slice st.descBuf (headerSize + j * entrySize) entrySize ∧
    slice st'.staging (j * st.vm.unitSize) st.vm.unitSize =
      slice st.staging (j * st.vm.unitSize) st.vm.unitSize

/-- The `i`-th entry says where the bytes of a unit are: in the staging area, or in the extent of
its device, at the address that the entry has. -/
def Located (extentBase : ℕ → ℕ) (i d : ℕ) (data : List UInt8) (st : SparseKVStore)
    (e : PlanEntry) : Prop :=
  e.ssdId = d ∧ e.length = st.vm.unitSize ∧ e.dstOffset = i * st.vm.unitSize ∧
    (e.flags = flagHostReady ∧ slice st.staging e.dstOffset e.length = data ∨
      e.flags = flagDisk ∧ ∃ mgr off, st.vm.mgrs[d]? = some mgr ∧
        e.lbaOffset = extentBase d + off ∧ slice mgr.extent off e.length = data)

/-- The addresses fit the fields of the descriptor buffer. -/
structure Addressable (extentBase : ℕ → ℕ) (st : SparseKVStore) : Prop where
  devices : st.vm.mgrs.length ≤ 2 ^ 32
  lba : ∀ (d : ℕ) mgr, st.vm.mgrs[d]? = some mgr → extentBase d + mgr.extent.length ≤ 2 ^ 64
  unit : st.vm.unitSize < 2 ^ 64
  staging : st.maxTopk * st.vm.unitSize ≤ 2 ^ 64
  layers : st.table.numLayers ≤ 2 ^ 32
  topk : st.maxTopk < 2 ^ 32

theorem slice_outside_unit {xs data : List UInt8} {n i j : ℕ} (hlen : data.length = n)
    (hfit : i * n + n ≤ xs.length) (hne : j ≠ i) :
    slice (splice xs (i * n) data) (j * n) n = slice xs (j * n) n := by
  refine slice_splice_outside (by omega) ?_
  rw [hlen]
  rcases Nat.lt_or_gt_of_ne hne with h | h
  · refine .inl ?_
    rw [← Nat.succ_mul]
    exact Nat.mul_le_mul_right _ h
  · refine .inr ?_
    rw [← Nat.succ_mul]
    exact Nat.mul_le_mul_right _ h

/-- The entry of a unit fits its fields. -/
theorem WF.planned_pack (hw : st.WF live) {t i o : ℕ} {data : List UInt8}
    (hmem : ⟨o, data⟩ ∈ live (st.deviceOf l t)) (hi : i < st.maxTopk) {flags : ℕ}
    (hflags : flags < 2 ^ 32) (haddr : Addressable extentBase st) :
    ∃ bs, PlanEntry.pack ⟨st.deviceOf l t, flags, extentBase (st.deviceOf l t) + o,
      st.vm.unitSize, i * st.vm.unitSize⟩ = .ok bs := by
  obtain ⟨mgr, hmgr⟩ := hw.media.mgr_of_live hmem
  have hm := hw.media.mgr _ mgr hmgr
  have hend := hm.offset_lt hmem
  have hlba := haddr.lba _ mgr hmgr
  have hdevices := haddr.devices
  have hlt := hw.device_lt l t
  have hstaging := haddr.staging
  have hslot : i * st.vm.unitSize + st.vm.unitSize ≤ st.maxTopk * st.vm.unitSize := by
    rw [← Nat.succ_mul]
    exact Nat.mul_le_mul_right _ hi
  have hunit := mgr.geo.unit_pos
  rw [hw.media.unit _ mgr hmgr] at hend hunit
  rw [hm.length_extent] at hlba
  dsimp only at hend
  have hdev : st.deviceOf l t < 2 ^ 32 := by omega
  have hlbaFits : extentBase (st.deviceOf l t) + o < 2 ^ 64 := by omega
  have hdst : i * st.vm.unitSize < 2 ^ 64 := by omega
  exact ⟨_, if_pos ⟨hdev, hflags, hlbaFits, haddr.unit, hdst⟩⟩

/-- What one round of `plan` does for a valid token. -/
theorem planEntry_eq (hw : st.WF live) (hl : l < st.table.numLayers) {t i : ℕ}
    (ht : t < st.table.maxTokens) (hval : st.Valid l t) (hi : i < st.maxTopk) :
    ∃ (pe : PlanEntry) (g data : List UInt8), st.latest l t = some data ∧
      g.length = st.staging.length ∧
      (∀ j, j ≠ i → slice g (j * st.vm.unitSize) st.vm.unitSize =
        slice st.staging (j * st.vm.unitSize) st.vm.unitSize) ∧
      Located extentBase i (st.deviceOf l t) data { st with staging := g } pe ∧
      (Addressable extentBase st → ∃ bs, pe.pack = .ok bs) ∧
      planEntry extentBase l t i (st.entryOf l t) st =
        match pe.pack with
        | .error e => (.error e, { st with staging := g })
        | .ok bs => (.ok (), { st with
          staging := g
          descBuf := splice st.descBuf (headerSize + i * entrySize) bs }) := by
  have hv := (valid_iff hl ht).mp hval
  obtain ⟨data, hlat, hmem⟩ := hw.unit l t _ (entryAt_entryOf hl ht) hv
  obtain ⟨mgr, hmgr⟩ := hw.media.mgr_of_live hmem
  have hm := hw.media.mgr _ mgr hmgr
  have hunit := hw.media.unit _ mgr hmgr
  have hdata := hw.media.length_data hmem
  have hbytes := hm.bytes _ hmem
  have hpos : 0 < st.vm.unitSize := by
    rw [← hunit]
    exact mgr.geo.unit_pos
  dsimp only at hdata hbytes
  have hroom : i * st.vm.unitSize + st.vm.unitSize ≤ st.staging.length := by
    rw [hw.length_staging, ← Nat.succ_mul]
    exact Nat.mul_le_mul_right _ hi
  have hmgr' : st.vm.mgrs[st.vm.strategy.locate ((l : ℤ), (t : ℤ))]? = some mgr := hmgr
  by_cases hbuf : mgr.Buffered (mgr.geo.segmentOf (entryOffset (st.entryOf l t)))
  · have his := DeviceSegmentManager.isBuffered_iff.mpr hbuf
    have hread : mgr.readBuffer (entryOffset (st.entryOf l t)) st.vm.unitSize = some data := by
      rw [← hunit, DeviceSegmentManager.readBuffer_of_buffered hbuf, hbytes]
    have hset : setSlice st.staging (i * st.vm.unitSize) st.vm.unitSize data =
        splice st.staging (i * st.vm.unitSize) data := setSlice_eq_splice hdata
    refine ⟨⟨st.deviceOf l t, flagHostReady,
      extentBase (st.deviceOf l t) + entryOffset (st.entryOf l t), st.vm.unitSize,
      i * st.vm.unitSize⟩, splice st.staging (i * st.vm.unitSize) data, data, hlat,
      length_splice (by omega), fun j hj => slice_outside_unit hdata hroom hj, ?_,
      hw.planned_pack hmem hi (by decide), ?_⟩
    · refine ⟨rfl, rfl, rfl, .inl ⟨rfl, ?_⟩⟩
      dsimp only
      rw [slice_splice_inside (by omega) le_rfl (by omega), Nat.sub_self, ← hdata, slice_self]
    · unfold planEntry
      simp only [Fallible.get_bind, hv, not_true_eq_false, if_false, hmgr', his, if_true, hread,
        Fallible.set_bind, hset, Option.isSome_some]
      unfold deviceOf
      generalize PlanEntry.pack _ = q
      cases q <;> rfl
  · have his : mgr.isBuffered (entryOffset (st.entryOf l t)) = false :=
      Bool.eq_false_iff.mpr fun h => hbuf (DeviceSegmentManager.isBuffered_iff.mp h)
    rw [DeviceSegmentManager.unitAt_extent hbuf, hunit] at hbytes
    refine ⟨⟨st.deviceOf l t, flagDisk,
      extentBase (st.deviceOf l t) + entryOffset (st.entryOf l t), st.vm.unitSize,
      i * st.vm.unitSize⟩, st.staging, data, hlat, rfl, fun _ _ => rfl, ?_,
      hw.planned_pack hmem hi (by decide), ?_⟩
    · exact ⟨rfl, rfl, rfl, .inr ⟨rfl, mgr, _, hmgr, rfl, hbytes⟩⟩
    · unfold planEntry
      simp only [Fallible.get_bind, hv, not_true_eq_false, if_false, hmgr', his,
        Bool.false_eq_true, Fallible.set_bind, Option.isSome_none]
      unfold deviceOf
      generalize PlanEntry.pack _ = q
      cases q <;> rfl

theorem WF.withBuffers (hw : st.WF live) {descBuf staging : List UInt8}
    (hd : descBuf.length = st.descBuf.length) (hs : staging.length = st.staging.length) :
    WF { st with descBuf, staging } live :=
  { hw with
    length_descBuf := hd.trans hw.length_descBuf
    length_staging := hs.trans hw.length_staging }

/-- The entry of the buffer for a token, and where it says that the bytes are. -/
def Planned (extentBase : ℕ → ℕ) (l t i : ℕ) (st : SparseKVStore) : Prop :=
  ∃ pe bs data, PlanEntry.pack pe = .ok bs ∧
    slice st.descBuf (headerSize + i * entrySize) entrySize = bs ∧
    st.latest l t = some data ∧ Located extentBase i (st.deviceOf l t) data st pe

theorem PlannedFrom.refl (i : ℕ) (st : SparseKVStore) : PlannedFrom i st st :=
  ⟨rfl, rfl, rfl, fun _ _ => ⟨rfl, rfl⟩⟩

theorem PlannedFrom.wf {i : ℕ} (h : PlannedFrom i st st') (hw : st.WF live) : st'.WF live := by
  rw [h.same]
  exact hw.withBuffers h.length_descBuf h.length_staging

/-- What was planned for an earlier token stays. -/
theorem PlannedFrom.planned {i j t : ℕ} (h : PlannedFrom i st st') (hj : j < i)
    (hp : Planned extentBase l t j st) : Planned extentBase l t j st' := by
  obtain ⟨pe, bs, data, hpack, hslice, hlat, hssd, hlen, hdst, hwhere⟩ := hp
  obtain ⟨hdesc, hstag⟩ := h.before j hj
  have hvm : st'.vm = st.vm := by rw [h.same]
  have hlat' : st'.latest l t = some data := by
    rw [h.same]
    exact hlat
  have hdev : st'.deviceOf l t = st.deviceOf l t := by
    unfold deviceOf
    rw [hvm]
  refine ⟨pe, bs, data, hpack, hdesc.trans hslice, hlat', hssd.trans hdev.symm, ?_, ?_, ?_⟩
  · rw [hvm]
    exact hlen
  · rw [hvm]
    exact hdst
  · rcases hwhere with ⟨hflags, hdata⟩ | ⟨hflags, mgr, off, hmgr, hlba, hdata⟩
    · refine .inl ⟨hflags, ?_⟩
      rw [hdst, hlen] at hdata ⊢
      exact hstag.trans hdata
    · refine .inr ⟨hflags, mgr, off, ?_, ?_, hdata⟩
      · rw [hdev, hvm]
        exact hmgr
      · rw [hdev]
        exact hlba

theorem PlannedFrom.trans {i : ℕ} {st₁ st₂ st₃ : SparseKVStore} (h : PlannedFrom i st₁ st₂)
    (h' : PlannedFrom (i + 1) st₂ st₃) : PlannedFrom i st₁ st₃ := by
  have hvm : st₂.vm = st₁.vm := by rw [h.same]
  refine ⟨?_, h'.length_descBuf.trans h.length_descBuf, h'.length_staging.trans h.length_staging,
    fun j hj => ?_⟩
  · rw [h'.same, h.same]
  · obtain ⟨h1, h2⟩ := h.before j hj
    obtain ⟨h3, h4⟩ := h'.before j (by omega)
    rw [hvm] at h4
    exact ⟨h3.trans h1, h4.trans h2⟩

theorem planEntry_planned (hw : st.WF live) (hl : l < st.table.numLayers) {t i : ℕ}
    (ht : t < st.table.maxTokens) (hi : i < st.maxTopk)
    (h : planEntry extentBase l t i (st.entryOf l t) st = (r, st')) :
    PlannedFrom i st st' ∧ (r = .ok () → st.Valid l t ∧ Planned extentBase l t i st') ∧
      (Addressable extentBase st → st.Valid l t → r = .ok ()) := by
  by_cases hval : st.Valid l t
  · obtain ⟨pe, g, data, hlat, hlen, hother, hloc, hpack, heq⟩ := planEntry_eq hw hl ht hval hi
    rw [heq] at h
    cases hp : pe.pack with
    | error e =>
      rw [hp] at h
      obtain ⟨rfl, rfl⟩ := Prod.mk.inj h
      refine ⟨⟨rfl, rfl, hlen, fun j hj => ⟨rfl, hother j (by omega)⟩⟩, by simp,
        fun haddr _ => ?_⟩
      obtain ⟨bs, hbs⟩ := hpack haddr
      rw [hp] at hbs
      cases hbs
    | ok bs =>
      rw [hp] at h
      obtain ⟨rfl, rfl⟩ := Prod.mk.inj h
      have hbs := PlanEntry.length_pack hp
      have hfit : headerSize + i * entrySize + bs.length ≤ st.descBuf.length := by
        rw [hw.length_descBuf, hbs]
        unfold entrySize
        omega
      refine ⟨⟨rfl, length_splice hfit, hlen, fun j hj => ⟨?_, hother j (by omega)⟩⟩,
        fun _ => ⟨hval, ?_⟩, fun _ _ => rfl⟩
      · refine slice_splice_outside hfit (.inl ?_)
        unfold entrySize
        omega
      · refine ⟨pe, bs, data, hp, ?_, hlat, hloc⟩
        dsimp only
        rw [slice_splice_inside hfit le_rfl (by omega), Nat.sub_self, ← hbs, slice_self]
  · unfold planEntry at h
    rw [Fallible.get_bind, if_pos fun hv => hval ((valid_iff hl ht).mpr hv)] at h
    obtain ⟨rfl, rfl⟩ := Prod.mk.inj h
    exact ⟨.refl _ _, by simp, fun _ hv => absurd hv hval⟩

theorem PlannedFrom.addressable {i : ℕ} (h : PlannedFrom i st st')
    (ha : Addressable extentBase st) : Addressable extentBase st' := by
  rw [h.same]
  exact ⟨ha.devices, ha.lba, ha.unit, ha.staging, ha.layers, ha.topk⟩

theorem planEntries_planned (hw : st.WF live) (hl : l < st.table.numLayers) {i : ℕ}
    (hts : ∀ t ∈ ts, t < st.table.maxTokens) (hi : i + ts.length ≤ st.maxTopk)
    (h : planEntries extentBase l i (st.pairs l ts) st = (r, st')) :
    PlannedFrom i st st' ∧
      (r = .ok () → ∀ k t : ℕ, ts[k]? = some t →
        st.Valid l t ∧ Planned extentBase l t (i + k) st') ∧
      (Addressable extentBase st → (∀ t ∈ ts, st.Valid l t) → r = .ok ()) := by
  induction ts generalizing st i with
  | nil =>
    obtain ⟨rfl, rfl⟩ := Prod.mk.inj h
    exact ⟨.refl _ _, by simp, fun _ _ => rfl⟩
  | cons t ts ih =>
    unfold pairs at h
    rw [List.map_cons] at h
    unfold planEntries at h
    rw [List.length_cons] at hi
    have ht := hts t List.mem_cons_self
    have hlt : i < st.maxTopk := by omega
    rcases Fallible.bind_cases h with ⟨e, hfirst, rfl⟩ | ⟨u, st₁, hfirst, hrest⟩
    · obtain ⟨hfrom, -, haddr⟩ := planEntry_planned hw hl ht hlt hfirst
      exact ⟨hfrom, by simp, fun ha hval => haddr ha (hval t List.mem_cons_self)⟩
    · obtain ⟨hfrom, hplanned, -⟩ := planEntry_planned hw hl ht hlt hfirst
      have htable : st₁.table = st.table := by rw [hfrom.same]
      have htopk : st₁.maxTopk = st.maxTopk := by rw [hfrom.same]
      have hpairs : planEntries extentBase l (i + 1) (st₁.pairs l ts) st₁ = (r, st') := by
        unfold pairs entryOf
        rw [htable]
        exact hrest
      have hvalid : ∀ t', st₁.Valid l t' ↔ st.Valid l t' := by
        intro t'
        unfold Valid
        rw [htable]
      have hl₁ : l < st₁.table.numLayers := by rwa [htable]
      have hts₁ : ∀ t' ∈ ts, t' < st₁.table.maxTokens := by
        intro t' ht'
        rw [htable]
        exact hts t' (List.mem_cons_of_mem _ ht')
      have hi₁ : i + 1 + ts.length ≤ st₁.maxTopk := by omega
      obtain ⟨hfrom', hplanned', haddr'⟩ := ih (hfrom.wf hw) hl₁ hts₁ hi₁ hpairs
      refine ⟨hfrom.trans hfrom', fun hr k t' hk => ?_, fun ha hval => ?_⟩
      · cases k with
        | zero =>
          obtain rfl := Option.some.inj hk
          obtain ⟨hv, hp⟩ := hplanned rfl
          exact ⟨hv, hfrom'.planned (Nat.lt_succ_self i) hp⟩
        | succ k =>
          obtain ⟨hv, hp⟩ := hplanned' hr k t' hk
          rw [show i + 1 + k = i + (k + 1) by omega] at hp
          exact ⟨(hvalid t').mp hv, hp⟩
      · exact haddr' (hfrom.addressable ha)
          fun t' ht' => (hvalid t').mpr (hval t' (List.mem_cons_of_mem _ ht'))

/-- The header is in front of the entries. -/
theorem Planned.header {t i : ℕ} (h : Planned extentBase l t i st) {bs : List UInt8}
    (hbs : bs.length = headerSize) (hfit : headerSize ≤ st.descBuf.length) :
    Planned extentBase l t i { st with descBuf := splice st.descBuf 0 bs } := by
  obtain ⟨pe, bytes, data, hpack, hslice, hlat, hloc⟩ := h
  refine ⟨pe, bytes, data, hpack, ?_, hlat, hloc⟩
  rw [← hslice]
  exact slice_splice_outside (by omega) (.inr (by omega))

theorem length_packHeader {count : ℕ} {layerId : ℤ} {bs : List UInt8}
    (h : packHeader count layerId = .ok bs) : bs.length = headerSize := by
  unfold packHeader at h
  split_ifs at h
  obtain rfl := Except.ok.inj h
  simp [headerSize]

/-- What `plan` says about valid tokens; others make it raise. -/
theorem WF.plan (hw : st.WF live) (hl : l < st.table.numLayers)
    (hts : ∀ t ∈ ts, t < st.table.maxTokens) {q : Except StoreError PlanView}
    (h : plan extentBase l (ts.map Nat.cast) st = (q, st')) :
    st'.WF live ∧ st'.entered = st.entered ∧
      (∀ view, q = .ok view → view.count = ts.length ∧ ∀ i t : ℕ, ts[i]? = some t →
        st.Valid l t ∧ ∃ pe data, view.entry st'.descBuf i = some pe ∧
          st.latest l t = some data ∧ Located extentBase i (st.deviceOf l t) data st' pe) ∧
      (Addressable extentBase st → ts.length ≤ st.maxTopk → (∀ t ∈ ts, st.Valid l t) →
        ∃ view, q = .ok view) := by
  unfold SparseKVStore.plan at h
  rw [Fallible.get_bind, List.length_map] at h
  split_ifs at h with htopk
  · obtain ⟨rfl, rfl⟩ := Prod.mk.inj h
    exact ⟨hw, rfl, by simp, fun _ hle => by omega⟩
  · rw [gather_ok hl hts] at h
    dsimp only at h
    rw [zip_entries] at h
    have hroom : 0 + ts.length ≤ st.maxTopk := by omega
    rcases Fallible.bind_cases h with ⟨e, hentries, rfl⟩ | ⟨u, st₁, hentries, hrest⟩
    · obtain ⟨hfrom, -, haddr⟩ := planEntries_planned hw hl hts hroom hentries
      refine ⟨hfrom.wf hw, by rw [hfrom.same], by simp, fun ha _ hval => ?_⟩
      cases haddr ha hval
    · obtain ⟨hfrom, hplanned, -⟩ := planEntries_planned hw hl hts hroom hentries
      have hw₁ := hfrom.wf hw
      have hent : st₁.entered = st.entered := by rw [hfrom.same]
      cases hheader : packHeader ts.length l with
      | error e =>
        rw [hheader] at hrest
        obtain ⟨rfl, rfl⟩ := Prod.mk.inj hrest
        refine ⟨hw₁, hent, by simp, fun ha hle _ => ?_⟩
        have h1 := ha.topk
        have h2 := ha.layers
        have hfit : ts.length < 2 ^ 32 ∧ (0 : ℤ) ≤ l ∧ (l : ℤ) < 2 ^ 32 := by omega
        unfold packHeader at hheader
        rw [if_pos hfit] at hheader
        cases hheader
      | ok bs =>
        simp only [hheader, Fallible.get_bind, Fallible.set_bind] at hrest
        obtain ⟨rfl, rfl⟩ := Prod.mk.inj hrest
        have hbs := length_packHeader hheader
        have hfit : headerSize ≤ st₁.descBuf.length := by
          rw [hw₁.length_descBuf]
          omega
        have hlen : (splice st₁.descBuf 0 bs).length = st₁.descBuf.length :=
          length_splice (by omega)
        refine ⟨hw₁.withBuffers hlen rfl, hent, fun view hview => ?_, fun _ _ _ => ⟨_, rfl⟩⟩
        obtain rfl := Except.ok.inj hview
        refine ⟨rfl, fun i t ht => ?_⟩
        obtain ⟨hv, hp⟩ := hplanned rfl i t ht
        rw [Nat.zero_add] at hp
        obtain ⟨pe, bytes, data, hpack, hslice, hlat, hloc⟩ := hp.header hbs hfit
        have hvm : st₁.vm = st.vm := by rw [hfrom.same]
        have hdev : deviceOf { st₁ with descBuf := splice st₁.descBuf 0 bs } l t =
            st.deviceOf l t := by
          unfold deviceOf
          rw [hvm]
        have hlat' : st.latest l t = some data := by
          rw [← hlat]
          unfold latest
          rw [hent]
        rw [hdev] at hloc
        exact ⟨hv, pe, data, PlanView.entry_of_slice (List.getElem?_eq_some_iff.mp ht).1 hpack hslice,
          hlat', hloc⟩

end SparseKVStore

end Umm
