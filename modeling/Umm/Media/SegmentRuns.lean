import Umm.Media.SegmentSpec
import Umm.Lib.Reach

/-! Runs of a segment manager: appends, flushes and releases in any order, with writes that
may raise. -/
namespace Umm
open Umm.Lib

namespace DeviceSegmentManager

variable {m m' : DeviceSegmentManager} {live : List LiveUnit} {w : WriteFrom}

theorem WF.append (hw : m.WF live) {data : List UInt8} {r : Except MediaError ℕ}
    (h : append data w m = (r, m')) :
    m'.geo = m.geo ∧ (m.Settled → m'.Settled) ∧ ((∃ e, r = .error e ∧ m'.WF live) ∨
      ∃ offset, r = .ok offset ∧ data.length = m.geo.unitSize ∧
        m'.WF (⟨offset, data⟩ :: live)) := by
  unfold DeviceSegmentManager.append at h
  rw [Fallible.get_bind] at h
  split_ifs at h with hlen
  · obtain ⟨rfl, rfl⟩ := Prod.mk.inj h
    exact ⟨rfl, id, .inl ⟨_, rfl, hw⟩⟩
  · rcases Fallible.bind_cases h with ⟨e, hnext, rfl⟩ | ⟨b, m₁, hnext, h⟩
    · obtain ⟨hw₁, hgeo, ⟨e', -, hset⟩ | ⟨b, hb, -⟩⟩ := hw.nextBuf hnext
      · exact ⟨hgeo, hset, .inl ⟨e, rfl, hw₁⟩⟩
      · cases hb
    · obtain ⟨hw₁, hgeo, ⟨e', he, -⟩ | ⟨b₁, hb₁, hbuf, hfill⟩⟩ := hw.nextBuf hnext
      · cases he
      · obtain rfl := Except.ok.inj hb₁
        rw [Fallible.get_bind, Fallible.set_bind] at h
        obtain ⟨rfl, rfl⟩ := Prod.mk.inj h
        rw [← hgeo] at hfill hlen
        refine ⟨hgeo, fun _ b' hb' => ?_, .inr ⟨_, rfl, ?_, hw₁.place hbuf hfill (not_not.mp hlen)⟩⟩
        · obtain rfl := Option.some.inj hb'
          exact Nat.succ_pos _
        · rw [← hgeo]
          exact not_not.mp hlen

theorem WF.flush (hw : m.WF live) {r : Except MediaError Unit} (h : flush w m = (r, m')) :
    m'.WF live ∧ m'.geo = m.geo ∧ (m.Settled → m'.Settled) ∧
      (r = .ok () → m.Settled → m'.buf = none) := by
  unfold DeviceSegmentManager.flush at h
  rw [Fallible.get_bind] at h
  cases hb : m.buf with
  | none =>
    rw [hb] at h
    obtain ⟨rfl, rfl⟩ := Prod.mk.inj h
    exact ⟨hw, rfl, id, fun _ _ => hb⟩
  | some b =>
    simp only [hb] at h
    split_ifs at h with hfill
    · obtain ⟨hw', hgeo, ⟨e, rfl, hbuf⟩ | ⟨rfl, hnone⟩⟩ := hw.flushLocked hb h
      · refine ⟨hw', hgeo, fun _ b' hb' => ?_, fun hr => by cases hr⟩
        obtain rfl := Option.some.inj (hbuf.symm.trans hb')
        exact hfill
      · refine ⟨hw', hgeo, fun _ b' hb' => ?_, fun _ _ => hnone⟩
        rw [hnone] at hb'
        cases hb'
    · obtain ⟨rfl, rfl⟩ := Prod.mk.inj h
      exact ⟨hw, rfl, id, fun _ hset => absurd (hset b hb) hfill⟩

theorem isBuffered_iff {offset : ℕ} :
    m.isBuffered offset = true ↔ m.Buffered (m.geo.segmentOf offset) := by
  unfold isBuffered Buffered
  cases m.buf with
  | none => simp
  | some b => simp [eq_comm]

/-- The books of a unit that is in use no more. -/
theorem WF.erase (hw : m.WF live) (u : LiveUnit) {free : List ℕ} {refcount : List ℤ}
    (hnodup : free.Nodup) (hfree : ∀ seg ∈ free, seg < m.geo.nSeg)
    (hlen : refcount.length = m.geo.nSeg)
    (hcount : ∀ seg < m.geo.nSeg, refcount[seg]? = some (held m.geo (live.erase u) seg : ℤ))
    (hiff : ∀ seg < m.geo.nSeg,
      seg ∈ free ↔ held m.geo (live.erase u) seg = 0 ∧ ¬ m.Buffered seg) :
    WF { m with free, refcount } (live.erase u) := by
  have hsub : ∀ v ∈ live.erase u, v ∈ live := fun v hv => List.mem_of_mem_erase hv
  exact
    { length_extent := hw.length_extent
      free_nodup := hnodup
      free_lt := hfree
      length_refcount := hlen
      refcount_eq := hcount
      free_iff := hiff
      buf_lt := hw.buf_lt
      buf_fill := hw.buf_fill
      buf_length := hw.buf_length
      nodup := hw.nodup.sublist (List.erase_sublist.map _)
      aligned := fun v hv => hw.aligned v (hsub v hv)
      inside := fun v hv => hw.inside v (hsub v hv)
      filled := fun v hv => hw.filled v (hsub v hv)
      bytes := fun v hv => hw.bytes v (hsub v hv) }

/-- Every unit in use can be released. -/
theorem WF.release (hw : m.WF live) {u : LiveUnit} (hu : u ∈ live) {r : Except MediaError Unit}
    (h : release u.offset m = (r, m')) :
    r = .ok () ∧ m'.WF (live.erase u) ∧ m'.geo = m.geo ∧ m'.buf = m.buf := by
  have hlt := hw.inside u hu
  have hn := hw.refcount_eq _ hlt
  have hpos : 0 < held m.geo live (m.geo.segmentOf u.offset) :=
    List.countP_pos_iff.mpr ⟨u, hu, by simp⟩
  have hheld : ∀ seg, held m.geo (live.erase u) seg =
      held m.geo live seg - if m.geo.segmentOf u.offset = seg then 1 else 0 := by
    intro seg
    unfold held
    rw [List.countP_erase]
    simp [hu]
  have hset : ∀ seg < m.geo.nSeg,
      (m.refcount.set (m.geo.segmentOf u.offset)
        ((held m.geo live (m.geo.segmentOf u.offset) : ℤ) - 1))[seg]? =
        some (held m.geo (live.erase u) seg : ℤ) := by
    intro seg hs
    rw [List.getElem?_set, hheld]
    split_ifs with he hr
    · subst he
      rw [Nat.cast_sub hpos]
      rfl
    · rw [hw.length_refcount] at hr
      exact absurd hlt hr
    · rw [hw.refcount_eq seg hs, Nat.sub_zero]
  have hlen : (m.refcount.set (m.geo.segmentOf u.offset)
      ((held m.geo live (m.geo.segmentOf u.offset) : ℤ) - 1)).length = m.geo.nSeg := by
    rw [List.length_set]
    exact hw.length_refcount
  unfold DeviceSegmentManager.release at h
  rw [Fallible.get_bind, hn] at h
  dsimp only at h
  by_cases hbuf : m.isBuffered u.offset = true
  · rw [if_pos hbuf] at h
    obtain ⟨rfl, rfl⟩ := Prod.mk.inj h
    refine ⟨rfl, hw.erase u hw.free_nodup hw.free_lt hlen hset fun seg hs => ?_, rfl, rfl⟩
    refine (hw.free_iff seg hs).trans ?_
    rw [hheld]
    split_ifs with he
    · subst he
      simp [isBuffered_iff.mp hbuf]
    · rw [Nat.sub_zero]
  · have hnot : ¬ m.Buffered (m.geo.segmentOf u.offset) := fun hb => hbuf (isBuffered_iff.mpr hb)
    have hused : m.geo.segmentOf u.offset ∉ m.free := fun hmem => by
      have := ((hw.free_iff _ hlt).mp hmem).1
      omega
    rw [if_neg hbuf, if_neg (by omega)] at h
    obtain ⟨rfl, rfl⟩ := Prod.mk.inj h
    refine ⟨rfl, hw.erase u ?_ ?_ hlen hset fun seg hs => ?_, rfl, rfl⟩
    · split_ifs
      · exact List.nodup_cons.mpr ⟨hused, hw.free_nodup⟩
      · exact hw.free_nodup
    · intro seg hseg
      split_ifs at hseg
      · rcases List.mem_cons.mp hseg with rfl | hseg
        · exact hlt
        · exact hw.free_lt seg hseg
      · exact hw.free_lt seg hseg
    · have hiff := hw.free_iff seg hs
      rw [hheld]
      by_cases he : m.geo.segmentOf u.offset = seg
      · subst he
        rw [if_pos rfl]
        split_ifs with hz
        · simp only [List.mem_cons, true_or, true_iff]
          exact ⟨by omega, hnot⟩
        · simp only [hused, false_iff, not_and]
          intro hz'
          omega
      · rw [if_neg he, Nat.sub_zero]
        split_ifs
        · rw [List.mem_cons, or_iff_right (Ne.symm he)]
          exact hiff
        · exact hiff

/-- A release that raises changes nothing. -/
theorem release_error {offset : ℕ} {e : MediaError} (h : release offset m = (.error e, m')) :
    m' = m := by
  unfold DeviceSegmentManager.release at h
  rw [Fallible.get_bind] at h
  cases hn : m.refcount[m.geo.segmentOf offset]? with
  | none =>
    rw [hn] at h
    exact (Prod.mk.inj h).2.symm
  | some n =>
    rw [hn] at h
    dsimp only at h
    split_ifs at h
    · cases (Prod.mk.inj h).1
    · exact (Prod.mk.inj h).2.symm
    all_goals cases (Prod.mk.inj h).1

theorem init_wf {extent : List UInt8} {deviceIdx : ℕ} {spBytes unitSize : ℤ}
    (h : init extent deviceIdx spBytes unitSize = .ok m) : m.WF [] ∧ m.buf = none := by
  unfold init at h
  split at h
  · cases h
  · rename_i hgeo
    split_ifs at h with hdvd
    obtain rfl := Except.ok.inj h
    have hpos : 0 < spBytes := by
      unfold checkSegmentGeometry at hgeo
      split_ifs at hgeo
      omega
    have hlen : extent.length % spBytes.toNat = 0 := by
      have hcast : ((extent.length % spBytes.toNat : ℕ) : ℤ) = 0 := by
        rw [Int.natCast_emod, Int.toNat_of_nonneg hpos.le]
        exact not_not.mp hdvd
      exact_mod_cast hcast
    refine ⟨?_, rfl⟩
    exact
      { length_extent := (Nat.div_mul_cancel (Nat.dvd_of_mod_eq_zero hlen)).symm
        free_nodup := List.nodup_range
        free_lt := fun seg hseg => List.mem_range.mp hseg
        length_refcount := List.length_replicate
        refcount_eq := fun seg hseg => by simp [held, hseg]
        free_iff := fun seg hseg => by simp [held, Buffered, hseg]
        buf_lt := by simp
        buf_fill := by simp
        buf_length := by simp
        nodup := by simp
        aligned := by simp
        inside := by simp
        filled := by simp
        bytes := by simp }

/-- Every segment has one role, the reference counts are the units in use, these are apart and
have their bytes, also after calls that raise, and each of them can be released. -/
structure Sound (m : DeviceSegmentManager) (live : List LiveUnit) : Prop where
  free_lt : ∀ seg ∈ m.free, seg < m.geo.nSeg
  role : ∀ seg < m.geo.nSeg,
    (m.free.count seg = 1 ∧ ¬ m.Buffered seg ∧ m.refcount[seg]? = some 0) ∨
    (m.free.count seg = 0 ∧ m.Buffered seg) ∨
    (m.free.count seg = 0 ∧ ¬ m.Buffered seg ∧ ∃ n, 0 < n ∧ m.refcount[seg]? = some n)
  counted : ∀ seg < m.geo.nSeg,
    m.refcount[seg]? = some (live.countP (fun u => m.geo.segmentOf u.offset = seg) : ℤ)
  apart : (live.map LiveUnit.offset).Nodup
  bytes : ∀ u ∈ live, m.unitAt u.offset = u.data
  appendFails : ∀ data w e m', append data w m = (.error e, m') →
    ∀ u ∈ live, m'.unitAt u.offset = u.data
  flushFails : ∀ w e m', flush w m = (.error e, m') → ∀ u ∈ live, m'.unitAt u.offset = u.data
  releases : ∀ u ∈ live, (release u.offset m).1 = .ok ()

theorem WF.sound (hw : m.WF live) : m.Sound live where
  free_lt := hw.free_lt
  role seg hseg := by
    have hiff := hw.free_iff seg hseg
    have hn := hw.refcount_eq seg hseg
    by_cases hmem : seg ∈ m.free
    · obtain ⟨hzero, hnot⟩ := hiff.mp hmem
      rw [hzero] at hn
      exact .inl ⟨List.count_eq_one_of_mem hw.free_nodup hmem, hnot, hn⟩
    · have hcount := List.count_eq_zero.mpr hmem
      by_cases hbuf : m.Buffered seg
      · exact .inr (.inl ⟨hcount, hbuf⟩)
      · have hpos : held m.geo live seg ≠ 0 := fun hz => hmem (hiff.mpr ⟨hz, hbuf⟩)
        exact .inr (.inr ⟨hcount, hbuf, _, by omega, hn⟩)
  counted := hw.refcount_eq
  apart := hw.nodup
  bytes := hw.bytes
  appendFails data w e m' h := by
    obtain ⟨-, -, ⟨e', -, hw'⟩ | ⟨offset, hok, -⟩⟩ := hw.append h
    · exact hw'.bytes
    · cases hok
  flushFails w e m' h := (hw.flush h).1.bytes
  releases u hu := (hw.release hu rfl).1

end DeviceSegmentManager

/-- A manager with the units that were appended and not released. -/
structure SegWorld where
  mgr : DeviceSegmentManager
  live : List LiveUnit

inductive SegEvent where
  | append (data : List UInt8) (w : WriteFrom)
  | flush (w : WriteFrom)
  | release (u : LiveUnit)

namespace SegWorld
open DeviceSegmentManager

def next (s : SegWorld) : SegEvent → SegWorld
  | .append data w =>
    match append data w s.mgr with
    | (.ok offset, mgr) => ⟨mgr, ⟨offset, data⟩ :: s.live⟩
    | (.error _, mgr) => ⟨mgr, s.live⟩
  | .flush w => ⟨(flush w s.mgr).2, s.live⟩
  | .release u => ⟨(release u.offset s.mgr).2, s.live.erase u⟩

/-- Only units in use are released. -/
def Step (s : SegWorld) (ev : SegEvent) (t : SegWorld) : Prop :=
  (∀ u, ev = .release u → u ∈ s.live) ∧ t = s.next ev

theorem wf_next {s : SegWorld} {ev : SegEvent} (hw : s.mgr.WF s.live)
    (hrel : ∀ u, ev = .release u → u ∈ s.live) : (s.next ev).mgr.WF (s.next ev).live := by
  cases ev with
  | append data w =>
    cases h : append data w s.mgr with
    | mk r mgr =>
      obtain ⟨-, -, ⟨e, rfl, hw'⟩ | ⟨offset, rfl, -, hw'⟩⟩ := hw.append h
      · simpa only [next, h] using hw'
      · simpa only [next, h] using hw'
  | flush w => exact (hw.flush rfl).1
  | release u => exact (hw.release (hrel u rfl) rfl).2.1

end SegWorld

/-- No segment is lost or handed out while it is in use, whatever calls were made and whichever
of them raised. -/
theorem segments_sound {extent : List UInt8} {deviceIdx : ℕ} {spBytes unitSize : ℤ}
    {mgr : DeviceSegmentManager}
    (hinit : DeviceSegmentManager.init extent deviceIdx spBytes unitSize = .ok mgr) {s : SegWorld}
    (h : Reach (· = ⟨mgr, []⟩) SegWorld.Step s) : s.mgr.Sound s.live := by
  have hw : s.mgr.WF s.live := by
    refine h.invariant (P := fun s => s.mgr.WF s.live) ?_ ?_
    · rintro s rfl
      exact (DeviceSegmentManager.init_wf hinit).1
    · rintro s ev t hs ⟨hrel, rfl⟩
      exact SegWorld.wf_next hs hrel
  exact hw.sound

/-- Two segments of one unit: a second append writes the first segment, and that write raises. -/
theorem segments_sound_raised :
    ∃ mgr s, DeviceSegmentManager.init (List.replicate 8192 0) 0 4096 4096 = .ok mgr ∧
      Reach (· = ⟨mgr, []⟩) SegWorld.Step s ∧ s.live.map LiveUnit.offset = [0] ∧
      s.mgr.Sound s.live := by
  have hrun : ((DeviceSegmentManager.init (List.replicate 8192 0) 0 4096 4096).map fun mgr =>
      (((⟨mgr, []⟩ : SegWorld).next (.append (List.replicate 4096 1) .done)).next
        (.append (List.replicate 4096 2) (.raised fun _ => 3))).live.map LiveUnit.offset) =
      .ok [0] := by decide +kernel
  cases hinit : DeviceSegmentManager.init (List.replicate 8192 0) 0 4096 4096 with
  | error e =>
    rw [hinit] at hrun
    cases hrun
  | ok mgr =>
    have hstart : Reach (· = ⟨mgr, []⟩) SegWorld.Step ⟨mgr, []⟩ := .start rfl
    have hend := (hstart.next (.append (List.replicate 4096 1) .done)
      ⟨fun u hu => SegEvent.noConfusion hu, rfl⟩).next
      (.append (List.replicate 4096 2) (.raised fun _ => 3))
      ⟨fun u hu => SegEvent.noConfusion hu, rfl⟩
    rw [hinit] at hrun
    exact ⟨mgr, _, rfl, hend, Except.ok.inj hrun, segments_sound hinit hend⟩

end Umm
