import Umm.Media.Segment

/-! What the calls of a segment manager do to the units that are in use. -/
namespace Umm
open Umm.Lib

namespace Geometry

variable (geo : Geometry)

theorem slots_mul : geo.slotsPerSeg * geo.unitSize = geo.spBytes :=
  Nat.div_mul_cancel geo.unit_dvd

theorem slots_pos : 0 < geo.slotsPerSeg :=
  Nat.div_pos (Nat.le_of_dvd geo.sp_pos geo.unit_dvd) geo.unit_pos

/-- A unit lies in one segment. -/
theorem unit_inside {offset : ℕ} (h : geo.unitSize ∣ offset) :
    geo.segmentOf offset * geo.spBytes ≤ offset ∧
      offset + geo.unitSize ≤ geo.segmentOf offset * geo.spBytes + geo.spBytes := by
  have hmod : geo.unitSize ∣ offset % geo.spBytes := (Nat.dvd_mod_iff geo.unit_dvd).mpr h
  have hlt := Nat.mod_lt offset geo.sp_pos
  have hdiv := Nat.div_add_mod' offset geo.spBytes
  have hroom : offset % geo.spBytes + geo.unitSize ≤ geo.spBytes := by
    obtain ⟨a, ha⟩ := hmod
    obtain ⟨b, hb⟩ := geo.unit_dvd
    rw [ha, hb] at hlt ⊢
    have hab : a < b := Nat.lt_of_mul_lt_mul_left hlt
    calc geo.unitSize * a + geo.unitSize = geo.unitSize * (a + 1) := by ring
      _ ≤ geo.unitSize * b := Nat.mul_le_mul_left _ hab
  unfold segmentOf
  omega

/-- Segments are apart. -/
theorem seg_apart {s t : ℕ} (h : s ≠ t) :
    s * geo.spBytes + geo.spBytes ≤ t * geo.spBytes ∨
      t * geo.spBytes + geo.spBytes ≤ s * geo.spBytes := by
  rcases Nat.lt_or_gt_of_ne h with h | h
  · refine .inl ?_
    rw [← Nat.succ_mul]
    exact Nat.mul_le_mul_right _ h
  · refine .inr ?_
    rw [← Nat.succ_mul]
    exact Nat.mul_le_mul_right _ h

theorem seg_inside {s : ℕ} (h : s < geo.nSeg) :
    s * geo.spBytes + geo.spBytes ≤ geo.nSeg * geo.spBytes := by
  rw [← Nat.succ_mul]
  exact Nat.mul_le_mul_right _ h

/-- The offset of a slot. -/
def slotOffset (s k : ℕ) : ℕ := s * geo.spBytes + k * geo.unitSize

theorem slot_inside {k : ℕ} (h : k < geo.slotsPerSeg) :
    k * geo.unitSize + geo.unitSize ≤ geo.spBytes := by
  rw [← geo.slots_mul, ← Nat.succ_mul]
  exact Nat.mul_le_mul_right _ h

theorem segmentOf_slot {s k : ℕ} (h : k < geo.slotsPerSeg) :
    geo.segmentOf (geo.slotOffset s k) = s := by
  have hlt := geo.slot_inside h
  have hpos := geo.unit_pos
  unfold segmentOf slotOffset
  rw [Nat.add_comm, Nat.add_mul_div_right _ _ geo.sp_pos, Nat.div_eq_of_lt (by omega),
    Nat.zero_add]

theorem unit_dvd_slot (s k : ℕ) : geo.unitSize ∣ geo.slotOffset s k :=
  (geo.unit_dvd.mul_left s).add (Dvd.intro_left k rfl)

end Geometry

/-- A unit in use: its offset, and the bytes that were appended. -/
structure LiveUnit where
  offset : ℕ
  data : List UInt8
deriving DecidableEq

namespace DeviceSegmentManager

/-- The bytes of a unit, in the buffer or in the extent. -/
def unitAt (m : DeviceSegmentManager) (offset : ℕ) : List UInt8 :=
  (m.readBuffer offset m.geo.unitSize).getD (slice m.extent offset m.geo.unitSize)

/-- The units in use that a segment holds. -/
def held (geo : Geometry) (live : List LiveUnit) (seg : ℕ) : ℕ :=
  live.countP fun u => geo.segmentOf u.offset = seg

def Buffered (m : DeviceSegmentManager) (seg : ℕ) : Prop := ∃ b, m.buf = some b ∧ b.seg = seg

/-- The manager accounts for exactly the units in use, and has their bytes. -/
structure WF (m : DeviceSegmentManager) (live : List LiveUnit) : Prop where
  length_extent : m.extent.length = m.geo.nSeg * m.geo.spBytes
  free_nodup : m.free.Nodup
  free_lt : ∀ seg ∈ m.free, seg < m.geo.nSeg
  length_refcount : m.refcount.length = m.geo.nSeg
  refcount_eq : ∀ seg < m.geo.nSeg, m.refcount[seg]? = some (held m.geo live seg : ℤ)
  free_iff : ∀ seg < m.geo.nSeg,
    seg ∈ m.free ↔ held m.geo live seg = 0 ∧ ¬ m.Buffered seg
  buf_lt : ∀ b, m.buf = some b → b.seg < m.geo.nSeg
  buf_fill : ∀ b, m.buf = some b → b.fill ≤ m.geo.slotsPerSeg
  buf_length : ∀ b, m.buf = some b → b.data.length = m.geo.spBytes
  nodup : (live.map LiveUnit.offset).Nodup
  aligned : ∀ u ∈ live, m.geo.unitSize ∣ u.offset
  inside : ∀ u ∈ live, m.geo.segmentOf u.offset < m.geo.nSeg
  filled : ∀ u ∈ live, ∀ b, m.buf = some b → m.geo.segmentOf u.offset = b.seg →
    u.offset + m.geo.unitSize ≤ m.geo.slotOffset b.seg b.fill
  bytes : ∀ u ∈ live, m.unitAt u.offset = u.data

/-- Between calls the buffer holds a unit. -/
def Settled (m : DeviceSegmentManager) : Prop := ∀ b, m.buf = some b → 0 < b.fill

section Reads

variable {m : DeviceSegmentManager} {offset : ℕ}

theorem not_buffered (hnone : m.buf = none) (seg : ℕ) : ¬ m.Buffered seg := by
  rintro ⟨b, hb, -⟩
  rw [hnone] at hb
  cases hb

theorem buffered_iff {b : SegBuf} (hb : m.buf = some b) {seg : ℕ} :
    m.Buffered seg ↔ b.seg = seg := by
  constructor
  · rintro ⟨b', hb', rfl⟩
    obtain rfl := Option.some.inj (hb.symm.trans hb')
    rfl
  · intro he
    exact ⟨b, hb, he⟩

theorem unitAt_buf {b : SegBuf} (hb : m.buf = some b) (h : m.geo.segmentOf offset = b.seg) :
    m.unitAt offset = slice b.data (offset - b.seg * m.geo.spBytes) m.geo.unitSize := by
  simp [unitAt, readBuffer, hb, h]

theorem unitAt_extent (h : ¬ m.Buffered (m.geo.segmentOf offset)) :
    m.unitAt offset = slice m.extent offset m.geo.unitSize := by
  unfold unitAt readBuffer
  cases hb : m.buf with
  | none => rfl
  | some b =>
    have hne : m.geo.segmentOf offset ≠ b.seg := fun he => h ⟨b, hb, he.symm⟩
    simp [hne]

theorem readBuffer_isSome_iff (size : ℕ) :
    (m.readBuffer offset size).isSome = true ↔ m.Buffered (m.geo.segmentOf offset) := by
  unfold readBuffer
  cases hb : m.buf with
  | none => exact iff_of_false Bool.false_ne_true (not_buffered hb _)
  | some b =>
    rw [buffered_iff hb]
    dsimp only
    split_ifs with hseg
    · exact iff_of_true rfl hseg.symm
    · exact iff_of_false Bool.false_ne_true fun he => hseg he.symm

theorem readBuffer_of_buffered (h : m.Buffered (m.geo.segmentOf offset)) :
    m.readBuffer offset m.geo.unitSize = some (m.unitAt offset) := by
  obtain ⟨data, hread⟩ :=
    Option.isSome_iff_exists.mp ((readBuffer_isSome_iff m.geo.unitSize).mpr h)
  unfold unitAt
  rw [hread]
  rfl

end Reads

theorem WF.offset_lt {m : DeviceSegmentManager} {live : List LiveUnit} (hw : m.WF live)
    {u : LiveUnit} (hu : u ∈ live) :
    u.offset + m.geo.unitSize ≤ m.geo.nSeg * m.geo.spBytes := by
  have h1 := m.geo.unit_inside (hw.aligned u hu)
  have h2 := m.geo.seg_inside (hw.inside u hu)
  omega

theorem WF.buffered_inside {m : DeviceSegmentManager} {live : List LiveUnit} (hw : m.WF live)
    {offset : ℕ} (ha : m.geo.unitSize ∣ offset) (hbuf : m.Buffered (m.geo.segmentOf offset)) :
    offset + m.geo.unitSize ≤ m.extent.length := by
  obtain ⟨b, hb, hseg⟩ := hbuf
  have hlt := hw.buf_lt b hb
  rw [hseg] at hlt
  have hunit := m.geo.unit_inside ha
  have hinside := m.geo.seg_inside hlt
  rw [hw.length_extent]
  omega

/-- A unit is read whole, from the buffer or from the extent. -/
theorem WF.length_unitAt {m : DeviceSegmentManager} {live : List LiveUnit} (hw : m.WF live)
    {offset : ℕ} (ha : m.geo.unitSize ∣ offset)
    (hin : offset + m.geo.unitSize ≤ m.extent.length) :
    (m.unitAt offset).length = m.geo.unitSize := by
  by_cases hbuf : m.Buffered (m.geo.segmentOf offset)
  · obtain ⟨b, hb, he⟩ := hbuf
    have hseg := m.geo.unit_inside ha
    have hlen := hw.buf_length b hb
    rw [← he] at hseg
    rw [unitAt_buf hb he.symm, length_slice (by omega)]
  · rw [unitAt_extent hbuf, length_slice hin]

section Calls

variable {m m' : DeviceSegmentManager} {live : List LiveUnit} {b : SegBuf} {w : WriteFrom}

theorem startSegment_cases {r : Except MediaError SegBuf} (h : startSegment m = (r, m')) :
    (m.free = [] ∧ r = .error (.segmentFull m.deviceIdx m.geo.nSeg) ∧ m' = m) ∨
      ∃ seg free, m.free = seg :: free ∧ r = .ok ⟨seg, 0, List.replicate m.geo.spBytes 0⟩ ∧
        m' = { m with free, buf := some ⟨seg, 0, List.replicate m.geo.spBytes 0⟩ } := by
  unfold startSegment at h
  rw [Fallible.get_bind] at h
  cases hf : m.free with
  | nil =>
    simp only [hf] at h
    obtain ⟨rfl, rfl⟩ := Prod.mk.inj h
    exact .inl ⟨rfl, rfl, rfl⟩
  | cons seg free =>
    simp only [hf, Fallible.set_bind] at h
    obtain ⟨rfl, rfl⟩ := Prod.mk.inj h
    exact .inr ⟨seg, free, rfl, rfl, rfl⟩

/-- A new buffer takes a segment that holds no unit. -/
theorem WF.startSegment (hw : m.WF live) (hnone : m.buf = none) {r : Except MediaError SegBuf}
    (h : startSegment m = (r, m')) :
    m'.WF live ∧ m'.geo = m.geo ∧
      ((∃ e, r = .error e ∧ m' = m) ∨ ∃ b, r = .ok b ∧ m'.buf = some b ∧ b.fill = 0) := by
  rcases startSegment_cases h with ⟨-, rfl, rfl⟩ | ⟨seg, free, hf, rfl, rfl⟩
  · exact ⟨hw, rfl, .inl ⟨_, rfl, rfl⟩⟩
  · have hlt : seg < m.geo.nSeg := hw.free_lt seg (by simp [hf])
    obtain ⟨hzero, -⟩ := (hw.free_iff seg hlt).mp (by simp [hf])
    have hempty : ∀ u ∈ live, m.geo.segmentOf u.offset ≠ seg := by
      intro u hu he
      have hpos : 0 < held m.geo live seg := List.countP_pos_iff.mpr ⟨u, hu, by simp [he]⟩
      omega
    have hnodup := hw.free_nodup
    rw [hf, List.nodup_cons] at hnodup
    refine ⟨?_, rfl, .inr ⟨_, rfl, rfl, rfl⟩⟩
    refine
      { hw with
        free_nodup := hnodup.2
        free_lt := fun s hs => hw.free_lt s (by rw [hf]; exact List.mem_cons_of_mem _ hs)
        free_iff := ?_
        buf_lt := ?_
        buf_fill := ?_
        buf_length := ?_
        filled := ?_
        bytes := ?_ }
    · intro s hs
      have hiff := hw.free_iff s hs
      rw [hf, List.mem_cons] at hiff
      constructor
      · intro hmem
        refine ⟨(hiff.mp (.inr hmem)).1, ?_⟩
        rintro ⟨b, hb, rfl⟩
        obtain rfl := Option.some.inj hb
        exact hnodup.1 hmem
      · rintro ⟨hheld, hbuf⟩
        refine (hiff.mpr ⟨hheld, not_buffered hnone s⟩).resolve_left ?_
        rintro rfl
        exact hbuf ⟨_, rfl, rfl⟩
    · rintro b hb
      obtain rfl := Option.some.inj hb
      exact hlt
    · rintro b hb
      obtain rfl := Option.some.inj hb
      exact Nat.zero_le _
    · rintro b hb
      obtain rfl := Option.some.inj hb
      exact List.length_replicate
    · intro u hu b hb he
      obtain rfl := Option.some.inj hb
      exact absurd he (hempty u hu)
    · intro u hu
      rw [unitAt_extent]
      · rw [← hw.bytes u hu, unitAt_extent (not_buffered hnone _)]
      · exact fun hin => hempty u hu ((buffered_iff rfl).mp hin).symm

/-- The extent may be overwritten where the segment of the buffer lies. -/
theorem WF.overwrite (hw : m.WF live) (hb : m.buf = some b) {xs : List UInt8}
    (hlen : xs.length = m.geo.spBytes) :
    WF { m with extent := splice m.extent (b.seg * m.geo.spBytes) xs } live := by
  have hfit : b.seg * m.geo.spBytes + xs.length ≤ m.extent.length := by
    rw [hlen, hw.length_extent]
    exact m.geo.seg_inside (hw.buf_lt b hb)
  refine { hw with length_extent := (length_splice hfit).trans hw.length_extent, bytes := ?_ }
  intro u hu
  by_cases he : m.geo.segmentOf u.offset = b.seg
  · rw [← hw.bytes u hu, unitAt_buf hb he]
    exact unitAt_buf (m := { m with extent := splice m.extent (b.seg * m.geo.spBytes) xs }) hb he
  · have hnot : ¬ m.Buffered (m.geo.segmentOf u.offset) :=
      fun hin => he ((buffered_iff hb).mp hin).symm
    have hin := m.geo.unit_inside (hw.aligned u hu)
    have hapart := m.geo.seg_apart he
    have hkeep : slice (splice m.extent (b.seg * m.geo.spBytes) xs) u.offset m.geo.unitSize =
        slice m.extent u.offset m.geo.unitSize := slice_splice_outside hfit (by omega)
    rw [← hw.bytes u hu, unitAt_extent hnot, ← hkeep]
    exact unitAt_extent (m := { m with extent := splice m.extent (b.seg * m.geo.spBytes) xs }) hnot

/-- The segment of a buffer that is in the extent already is closed, or free when it holds no
unit. -/
theorem WF.dropBuf (hw : m.WF live) (hb : m.buf = some b)
    (hsame : slice m.extent (b.seg * m.geo.spBytes) m.geo.spBytes = b.data) :
    WF { m with buf := none, free := if held m.geo live b.seg = 0 then b.seg :: m.free else m.free }
      live := by
  have hlt := hw.buf_lt b hb
  have hnot : b.seg ∉ m.free := fun hmem => ((hw.free_iff _ hlt).mp hmem).2 ⟨b, hb, rfl⟩
  have hnobuf : ∀ free seg, ¬ Buffered { m with buf := none, free } seg :=
    fun _ => not_buffered rfl
  refine
    { hw with
      free_nodup := ?_
      free_lt := ?_
      free_iff := ?_
      buf_lt := by simp
      buf_fill := by simp
      buf_length := by simp
      filled := by simp
      bytes := ?_ }
  · dsimp only
    split_ifs
    · exact List.nodup_cons.mpr ⟨hnot, hw.free_nodup⟩
    · exact hw.free_nodup
  · intro seg hseg
    dsimp only at hseg
    split_ifs at hseg
    · rcases List.mem_cons.mp hseg with rfl | hseg
      · exact hlt
      · exact hw.free_lt seg hseg
    · exact hw.free_lt seg hseg
  · intro seg hseg
    have hiff := hw.free_iff seg hseg
    simp only [hnobuf, not_false_eq_true, and_true]
    by_cases he : seg = b.seg
    · subst he
      split_ifs with hz
      · simpa using hz
      · simpa [hz] using hnot
    · have hother : ¬ m.Buffered seg := fun hin => he ((buffered_iff hb).mp hin).symm
      simp only [hother, not_false_eq_true, and_true] at hiff
      split_ifs
      · rw [List.mem_cons, or_iff_right he]
        exact hiff
      · exact hiff
  · intro u hu
    have hread : ∀ free, unitAt { m with buf := none, free } u.offset =
        slice m.extent u.offset m.geo.unitSize := fun free => unitAt_extent (hnobuf free _)
    rw [hread, ← hw.bytes u hu]
    by_cases he : m.geo.segmentOf u.offset = b.seg
    · have hin := m.geo.unit_inside (hw.aligned u hu)
      rw [he] at hin
      rw [unitAt_buf hb he, ← hsame, slice_slice (by omega), Nat.add_sub_cancel' hin.1]
    · rw [unitAt_extent]
      exact fun hin => he ((buffered_iff hb).mp hin).symm

theorem flushLocked_cases {r : Except MediaError Unit} {n : ℤ} (hn : m.refcount[b.seg]? = some n)
    (h : flushLocked b w m = (r, m')) :
    (∃ e, r = .error e ∧ m' = { m with
        extent := splice m.extent (b.seg * m.geo.spBytes) (w.bytes b.data) }) ∨
      w = .done ∧ r = .ok () ∧ m' = { m with
        extent := splice m.extent (b.seg * m.geo.spBytes) b.data
        buf := none
        free := if n = 0 then b.seg :: m.free else m.free } := by
  unfold flushLocked at h
  rw [Fallible.get_bind, Fallible.set_bind] at h
  cases w with
  | raised left =>
    obtain ⟨rfl, rfl⟩ := Prod.mk.inj h
    exact .inl ⟨_, rfl, rfl⟩
  | done =>
    simp only [Fallible.get_bind, hn] at h
    obtain ⟨rfl, rfl⟩ := Prod.mk.inj h
    exact .inr ⟨rfl, rfl, rfl⟩

theorem WriteFrom.length_bytes (w : WriteFrom) (data : List UInt8) :
    (w.bytes data).length = data.length := by
  cases w <;> simp [WriteFrom.bytes]

/-- A flush that raises keeps the buffer. -/
theorem WF.flushLocked (hw : m.WF live) (hb : m.buf = some b) {r : Except MediaError Unit}
    (h : flushLocked b w m = (r, m')) :
    m'.WF live ∧ m'.geo = m.geo ∧
      ((∃ e, r = .error e ∧ m'.buf = some b) ∨ r = .ok () ∧ m'.buf = none) := by
  have hn := hw.refcount_eq b.seg (hw.buf_lt b hb)
  have hlen := hw.buf_length b hb
  have hfit : b.seg * m.geo.spBytes + b.data.length ≤ m.extent.length := by
    rw [hlen, hw.length_extent]
    exact m.geo.seg_inside (hw.buf_lt b hb)
  rcases flushLocked_cases hn h with ⟨e, rfl, rfl⟩ | ⟨-, rfl, rfl⟩
  · exact ⟨hw.overwrite hb ((WriteFrom.length_bytes w _).trans hlen), rfl, .inl ⟨e, rfl, hb⟩⟩
  · have hover := hw.overwrite hb hlen
    have hsame : slice (splice m.extent (b.seg * m.geo.spBytes) b.data)
        (b.seg * m.geo.spBytes) m.geo.spBytes = b.data := by
      rw [slice_splice_inside hfit le_rfl (by omega), Nat.sub_self, ← hlen, slice_self]
    have hdrop := hover.dropBuf hb hsame
    refine ⟨?_, rfl, .inr ⟨rfl, rfl⟩⟩
    simpa only [Int.natCast_eq_zero] using hdrop

theorem WF.openBuf (hw : m.WF live) {r : Except MediaError SegBuf} (h : openBuf m = (r, m')) :
    m'.WF live ∧ m'.geo = m.geo ∧
      ((∃ e, r = .error e ∧ m' = m) ∨ ∃ b, r = .ok b ∧ m'.buf = some b) := by
  unfold DeviceSegmentManager.openBuf at h
  rw [Fallible.get_bind] at h
  cases hb : m.buf with
  | none =>
    rw [hb] at h
    obtain ⟨hw', hgeo, hsame | ⟨b, hr, hbuf, -⟩⟩ := hw.startSegment hb h
    · exact ⟨hw', hgeo, .inl hsame⟩
    · exact ⟨hw', hgeo, .inr ⟨b, hr, hbuf⟩⟩
  | some b =>
    rw [hb] at h
    obtain ⟨rfl, rfl⟩ := Prod.mk.inj h
    exact ⟨hw, rfl, .inr ⟨b, rfl, hb⟩⟩

theorem WF.nextBuf (hw : m.WF live) {r : Except MediaError SegBuf} (h : nextBuf w m = (r, m')) :
    m'.WF live ∧ m'.geo = m.geo ∧
      ((∃ e, r = .error e ∧ (m.Settled → m'.Settled)) ∨
        ∃ b, r = .ok b ∧ m'.buf = some b ∧ b.fill < m.geo.slotsPerSeg) := by
  have hpos := m.geo.slots_pos
  unfold DeviceSegmentManager.nextBuf at h
  rcases Fallible.bind_cases h with ⟨e, hopen, rfl⟩ | ⟨b, m₁, hopen, h⟩
  · obtain ⟨hw₁, hgeo, ⟨e', -, rfl⟩ | ⟨b, hb, -⟩⟩ := hw.openBuf hopen
    · exact ⟨hw₁, hgeo, .inl ⟨e, rfl, id⟩⟩
    · cases hb
  · obtain ⟨hw₁, hgeo, ⟨e, he, -⟩ | ⟨b₁, hb₁, hbuf⟩⟩ := hw.openBuf hopen
    · cases he
    · obtain rfl := Except.ok.inj hb₁
      rw [Fallible.get_bind] at h
      split_ifs at h with hfull
      · rcases Fallible.bind_cases h with ⟨e, hflush, rfl⟩ | ⟨u, m₂, hflush, h⟩
        · obtain ⟨hw₂, hgeo₂, ⟨e', -, hbuf₂⟩ | ⟨hok, -⟩⟩ := hw₁.flushLocked hbuf hflush
          · refine ⟨hw₂, hgeo₂.trans hgeo, .inl ⟨e, rfl, fun _ b' hb' => ?_⟩⟩
            obtain rfl := Option.some.inj (hbuf₂.symm.trans hb')
            rw [hgeo] at hfull
            omega
          · cases hok
        · obtain ⟨hw₂, hgeo₂, ⟨e, he, -⟩ | ⟨-, hnone⟩⟩ := hw₁.flushLocked hbuf hflush
          · cases he
          · obtain ⟨hw₃, hgeo₃, ⟨e, he, rfl⟩ | ⟨b', hb', hbuf', hfill⟩⟩ := hw₂.startSegment hnone h
            · refine ⟨hw₃, hgeo₃.trans (hgeo₂.trans hgeo), .inl ⟨e, he, fun _ b' hb' => ?_⟩⟩
              rw [hnone] at hb'
              cases hb'
            · exact ⟨hw₃, hgeo₃.trans (hgeo₂.trans hgeo), .inr ⟨b', hb', hbuf', by omega⟩⟩
      · obtain ⟨rfl, rfl⟩ := Prod.mk.inj h
        have hfill := hw₁.buf_fill b hbuf
        rw [hgeo] at hfill hfull
        exact ⟨hw₁, hgeo, .inr ⟨b, rfl, hbuf, lt_of_le_of_ne hfill hfull⟩⟩

theorem unitAt_setBuf (refcount : List ℤ) (buf : SegBuf) {offset : ℕ}
    (h : m.geo.segmentOf offset = buf.seg) : unitAt { m with refcount, buf := some buf } offset =
      slice buf.data (offset - buf.seg * m.geo.spBytes) m.geo.unitSize :=
  unitAt_buf (m := { m with refcount, buf := some buf }) rfl h

section Place

variable (hw : m.WF live) (hb : m.buf = some b) (hfill : b.fill < m.geo.slotsPerSeg)
  {data : List UInt8} (hdata : data.length = m.geo.unitSize) (refcount : List ℤ)
include hw hb hfill hdata

theorem WF.unitAt_placed : unitAt { m with
    refcount
    buf := some ⟨b.seg, b.fill + 1, splice b.data (b.fill * m.geo.unitSize) data⟩ }
      (m.geo.slotOffset b.seg b.fill) = data := by
  have hlen := hw.buf_length b hb
  have hslot := m.geo.slot_inside hfill
  rw [unitAt_setBuf _ _ (m.geo.segmentOf_slot hfill)]
  simp only [Geometry.slotOffset, Nat.add_sub_cancel_left]
  rw [slice_splice_inside (by omega) le_rfl (by omega), Nat.sub_self, ← hdata, slice_self]

/-- The other units keep their bytes. -/
theorem WF.unitAt_kept {u : LiveUnit} (hu : u ∈ live) : unitAt { m with
    refcount
    buf := some ⟨b.seg, b.fill + 1, splice b.data (b.fill * m.geo.unitSize) data⟩ }
      u.offset = u.data := by
  have hlen := hw.buf_length b hb
  have hslot := m.geo.slot_inside hfill
  rw [← hw.bytes u hu]
  by_cases he : m.geo.segmentOf u.offset = b.seg
  · have hin := m.geo.unit_inside (hw.aligned u hu)
    have hlow := hw.filled u hu b hb he
    rw [he] at hin
    unfold Geometry.slotOffset at hlow
    rw [unitAt_setBuf _ ⟨b.seg, b.fill + 1, _⟩ he, unitAt_buf hb he]
    dsimp only
    exact slice_splice_outside (by omega) (by omega)
  · have hnot : ¬ m.Buffered (m.geo.segmentOf u.offset) :=
      fun hin => he ((buffered_iff hb).mp hin).symm
    rw [unitAt_extent hnot, unitAt_extent]
    exact fun hin => he ((buffered_iff (b := ⟨b.seg, b.fill + 1, _⟩) rfl).mp hin).symm

end Place

/-- The unit goes to the next slot of the buffer. -/
theorem WF.place (hw : m.WF live) (hb : m.buf = some b) (hfill : b.fill < m.geo.slotsPerSeg)
    {data : List UInt8} (hdata : data.length = m.geo.unitSize) :
    WF { m with
      buf := some ⟨b.seg, b.fill + 1, splice b.data (b.fill * m.geo.unitSize) data⟩
      refcount := m.refcount.modify b.seg (· + 1) }
      (⟨m.geo.slotOffset b.seg b.fill, data⟩ :: live) := by
  have hlt := hw.buf_lt b hb
  have hlen := hw.buf_length b hb
  have hslot := m.geo.slot_inside hfill
  have hseg := m.geo.segmentOf_slot (s := b.seg) hfill
  have hfit : b.fill * m.geo.unitSize + data.length ≤ b.data.length := by omega
  have hheld : ∀ seg, held m.geo (⟨m.geo.slotOffset b.seg b.fill, data⟩ :: live) seg =
      held m.geo live seg + if b.seg = seg then 1 else 0 := by
    intro seg
    simp [held, List.countP_cons, hseg]
  have hbuffered : ∀ refcount buf seg, Buffered { m with
      refcount, buf := some ⟨b.seg, b.fill + 1, buf⟩ } seg ↔ m.Buffered seg :=
    fun _ buf _ => (buffered_iff (b := ⟨b.seg, b.fill + 1, buf⟩) rfl).trans (buffered_iff hb).symm
  have hbelow : ∀ u ∈ live, m.geo.segmentOf u.offset = b.seg →
      u.offset + m.geo.unitSize ≤ m.geo.slotOffset b.seg b.fill :=
    fun u hu he => hw.filled u hu b hb he
  have hpos := m.geo.unit_pos
  constructor
  · exact hw.length_extent
  · exact hw.free_nodup
  · exact hw.free_lt
  · rw [List.length_modify]
    exact hw.length_refcount
  · intro seg hs
    rw [List.getElem?_modify, hw.refcount_eq seg hs, hheld]
    split_ifs <;> simp
  · intro seg hs
    rw [hbuffered]
    refine (hw.free_iff seg hs).trans ?_
    rw [hheld]
    by_cases he : b.seg = seg
    · have hin : m.Buffered seg := (buffered_iff hb).mpr he
      simp [hin]
    · simp [he]
  · intro b' hb'
    obtain rfl := Option.some.inj hb'
    exact hlt
  · intro b' hb'
    obtain rfl := Option.some.inj hb'
    exact hfill
  · intro b' hb'
    obtain rfl := Option.some.inj hb'
    exact (length_splice hfit).trans hlen
  · rw [List.map_cons, List.nodup_cons]
    refine ⟨fun hmem => ?_, hw.nodup⟩
    obtain ⟨u, hu, he⟩ := List.mem_map.mp hmem
    have hlow := hbelow u hu (by rw [he, hseg])
    dsimp only at he
    omega
  · intro u hu
    rcases List.mem_cons.mp hu with rfl | hu
    · exact m.geo.unit_dvd_slot _ _
    · exact hw.aligned u hu
  · intro u hu
    rcases List.mem_cons.mp hu with rfl | hu
    · exact lt_of_eq_of_lt hseg hlt
    · exact hw.inside u hu
  · intro u hu b' hb' he
    obtain rfl := Option.some.inj hb'
    have hnext : m.geo.slotOffset b.seg (b.fill + 1) =
        m.geo.slotOffset b.seg b.fill + m.geo.unitSize := by
      simp only [Geometry.slotOffset]
      ring
    rcases List.mem_cons.mp hu with rfl | hu
    · exact hnext.ge
    · have := hbelow u hu he
      exact this.trans (by rw [hnext]; exact Nat.le_add_right _ _)
  · intro u hu
    rcases List.mem_cons.mp hu with rfl | hu
    · exact hw.unitAt_placed hb hfill hdata _
    · exact hw.unitAt_kept hb hfill hdata _ hu

end Calls

end DeviceSegmentManager

end Umm
