import Umm.Media.ReadBatch
import Umm.Media.SegmentRuns

/-! Runs of the media layer: what was written is read back, from the buffers and from the
devices. -/
namespace Umm
open Umm.Lib

namespace VirtualMedia

variable {κ : Type} {vm vm' : VirtualMedia κ} {live : ℕ → List LiveUnit}

section Calls

theorem onDevice_cases {α : Type} {d : ℕ} {mgr : DeviceSegmentManager}
    (hmgr : vm.mgrs[d]? = some mgr) {call : DeviceSegmentManager.Call α} {r : Except MediaError α}
    (h : onDevice d call vm = (r, vm')) :
    call mgr = (r, (call mgr).2) ∧ vm' = { vm with mgrs := vm.mgrs.set d (call mgr).2 } := by
  unfold onDevice at h
  simp only [Fallible.get_bind, hmgr, Fallible.set_bind] at h
  cases hr : call mgr with
  | mk q mgr' =>
    rw [hr] at h
    cases q with
    | error e =>
      obtain ⟨rfl, rfl⟩ := Prod.mk.inj h
      exact ⟨rfl, rfl⟩
    | ok a =>
      obtain ⟨rfl, rfl⟩ := Prod.mk.inj h
      exact ⟨rfl, rfl⟩

theorem write_unitSize {key : κ} {data : List UInt8} {w : WriteFrom} {r : Except MediaError ℕ}
    (h : write key data w vm = (r, vm')) : vm'.unitSize = vm.unitSize := by
  unfold VirtualMedia.write at h
  rw [Fallible.get_bind] at h
  cases hmgr : vm.mgrs[vm.strategy.locate key]? with
  | none =>
    unfold onDevice at h
    simp only [Fallible.get_bind, hmgr] at h
    obtain ⟨-, rfl⟩ := Prod.mk.inj h
    rfl
  | some mgr =>
    obtain ⟨-, rfl⟩ := onDevice_cases hmgr h
    rfl

/-- One manager made a step. -/
theorem WF.set (hw : vm.WF live) {d : ℕ} {mgr mgr' : DeviceSegmentManager}
    (hmgr : vm.mgrs[d]? = some mgr) {units : List LiveUnit} (hm : mgr'.WF units)
    (hgeo : mgr'.geo = mgr.geo) (hset : mgr'.Settled) :
    WF { vm with mgrs := vm.mgrs.set d mgr' } (Function.update live d units) := by
  have hlt : d < vm.mgrs.length := (List.getElem?_eq_some_iff.mp hmgr).1
  refine
    { mgr := fun i m hi => ?_
      unit := fun i m hi => ?_
      settled := fun i m hi => ?_
      outside := fun i hi => ?_
      cap := hw.cap
      devices := by rw [List.length_set]; exact hw.devices }
  · rcases getElem?_set_cases hi with ⟨rfl, rfl⟩ | ⟨hne, hi⟩
    · rwa [Function.update_self]
    · rw [Function.update_of_ne hne]
      exact hw.mgr i m hi
  · rcases getElem?_set_cases hi with ⟨rfl, rfl⟩ | ⟨hne, hi⟩
    · rw [hgeo]
      exact hw.unit i mgr hmgr
    · exact hw.unit i m hi
  · rcases getElem?_set_cases hi with ⟨rfl, rfl⟩ | ⟨hne, hi⟩
    · exact hset
    · exact hw.settled i m hi
  · rw [List.getElem?_eq_none_iff, List.length_set] at hi
    rw [Function.update_of_ne (by omega)]
    exact hw.outside i (List.getElem?_eq_none_iff.mpr hi)

/-- The parts of the layer that no call changes. -/
def SameSetup (vm vm' : VirtualMedia κ) : Prop :=
  vm'.unitSize = vm.unitSize ∧ vm'.strategy = vm.strategy ∧
    vm'.mgrs.map DeviceSegmentManager.geo = vm.mgrs.map DeviceSegmentManager.geo

theorem SameSetup.length_mgrs (h : SameSetup vm vm') : vm'.mgrs.length = vm.mgrs.length := by
  have hlen := congrArg List.length h.2.2
  rwa [List.length_map, List.length_map] at hlen

theorem sameSetup_set {d : ℕ} {mgr mgr' : DeviceSegmentManager} (hmgr : vm.mgrs[d]? = some mgr)
    (hgeo : mgr'.geo = mgr.geo) : SameSetup vm { vm with mgrs := vm.mgrs.set d mgr' } := by
  refine ⟨rfl, rfl, List.ext_getElem? fun i => ?_⟩
  simp only [List.getElem?_map, List.getElem?_set]
  split_ifs with he hlt
  · subst he
    rw [hmgr, Option.map_some, Option.map_some, hgeo]
  · subst he
    exact absurd (List.getElem?_eq_some_iff.mp hmgr).1 hlt
  · rfl

theorem SameSetup.trans {vm₁ vm₂ vm₃ : VirtualMedia κ} (h : SameSetup vm₁ vm₂)
    (h' : SameSetup vm₂ vm₃) : SameSetup vm₁ vm₃ :=
  ⟨h'.1.trans h.1, h'.2.1.trans h.2.1, h'.2.2.trans h.2.2⟩

theorem WF.write (hw : vm.WF live) {key : κ} {data : List UInt8} {w : WriteFrom}
    {r : Except MediaError ℕ} (h : write key data w vm = (r, vm')) :
    SameSetup vm vm' ∧ ((∃ e, r = .error e ∧ vm'.WF live) ∨
      ∃ offset, r = .ok offset ∧ data.length = vm.unitSize ∧
        vm'.WF (Function.update live (vm.strategy.locate key)
          (⟨offset, data⟩ :: live (vm.strategy.locate key)))) := by
  unfold VirtualMedia.write at h
  rw [Fallible.get_bind] at h
  have hlt : vm.strategy.locate key < vm.mgrs.length := by
    rw [hw.devices]
    exact vm.strategy.locate_lt key
  have hmgr := List.getElem?_eq_getElem hlt
  obtain ⟨hcall, rfl⟩ := onDevice_cases hmgr h
  refine ⟨sameSetup_set hmgr ((hw.mgr _ _ hmgr).append hcall).1, ?_⟩
  obtain ⟨hgeo, hset, ⟨e, rfl, hm⟩ | ⟨offset, rfl, hlen, hm⟩⟩ := (hw.mgr _ _ hmgr).append hcall
  · have hset' := hw.set hmgr hm hgeo (hset (hw.settled _ _ hmgr))
    rw [Function.update_eq_self] at hset'
    exact .inl ⟨e, rfl, hset'⟩
  · refine .inr ⟨offset, rfl, ?_, hw.set hmgr hm hgeo (hset (hw.settled _ _ hmgr))⟩
    rw [hlen]
    exact hw.unit _ _ hmgr

/-- A device whose buffer is gone, by this flush or before. -/
def Drained (vm : VirtualMedia κ) (d : ℕ) : Prop :=
  ∀ mgr, vm.mgrs[d]? = some mgr → mgr.buf = none

theorem WF.flushDevice (hw : vm.WF live) {w : WriteFrom} {d : ℕ} (hd : d < vm.mgrs.length)
    {r : Except MediaError Unit} (h : onDevice d (DeviceSegmentManager.flush w) vm = (r, vm')) :
    SameSetup vm vm' ∧ vm'.WF live ∧ (r = .ok () → vm'.Drained d) ∧
      ∀ i, vm.Drained i → vm'.Drained i := by
  have hmgr := List.getElem?_eq_getElem hd
  obtain ⟨hcall, rfl⟩ := onDevice_cases hmgr h
  have hset := hw.settled _ _ hmgr
  obtain ⟨hm, hgeo, hset', hdone⟩ := (hw.mgr _ _ hmgr).flush hcall
  have hwf := hw.set hmgr hm hgeo (hset' hset)
  rw [Function.update_eq_self] at hwf
  refine ⟨sameSetup_set hmgr hgeo, hwf, fun hr mgr hi => ?_, fun i hnone mgr hi => ?_⟩
  · rw [List.getElem?_set_self hd] at hi
    obtain rfl := Option.some.inj hi
    exact hdone hr hset
  · rw [List.getElem?_set] at hi
    split_ifs at hi with he
    · subst he
      obtain rfl := Option.some.inj hi
      have hbuf := hnone _ hmgr
      have hkeep : DeviceSegmentManager.flush w vm.mgrs[d] = (.ok (), vm.mgrs[d]) := by
        unfold DeviceSegmentManager.flush
        rw [Fallible.get_bind, hbuf]
        rfl
      rw [hkeep]
      exact hbuf
    · exact hnone mgr hi

theorem WF.flushDevices (hw : vm.WF live) {ws : ℕ → WriteFrom} {ds : List ℕ}
    (hds : ∀ d ∈ ds, d < vm.mgrs.length) {r : Except MediaError Unit}
    (h : flushDevices ws ds vm = (r, vm')) :
    SameSetup vm vm' ∧ vm'.WF live ∧ (r = .ok () → ∀ d ∈ ds, vm'.Drained d) ∧
      ∀ i, vm.Drained i → vm'.Drained i := by
  induction ds generalizing vm with
  | nil =>
    obtain ⟨rfl, rfl⟩ := Prod.mk.inj h
    exact ⟨⟨rfl, rfl, rfl⟩, hw, by simp, fun i hi => hi⟩
  | cons d ds ih =>
    have hlt := hds d List.mem_cons_self
    unfold VirtualMedia.flushDevices at h
    rcases Fallible.bind_cases h with ⟨e, hone, rfl⟩ | ⟨u, vm₁, hone, h⟩
    · obtain ⟨hsame, hw', -, hkeep⟩ := hw.flushDevice hlt hone
      exact ⟨hsame, hw', by simp, hkeep⟩
    · obtain ⟨hsame, hw₁, hfirst, hkeep⟩ := hw.flushDevice hlt hone
      have hds₁ : ∀ d' ∈ ds, d' < vm₁.mgrs.length := by
        intro d' hd'
        rw [hsame.length_mgrs]
        exact hds d' (List.mem_cons_of_mem _ hd')
      obtain ⟨hsame', hw', hrest, hkeep'⟩ := ih hw₁ hds₁ h
      refine ⟨hsame.trans hsame', hw', fun hr d' hd' => ?_, fun i hi => hkeep' i (hkeep i hi)⟩
      rcases List.mem_cons.mp hd' with rfl | hd'
      · exact hkeep' _ (hfirst rfl)
      · exact hrest hr d' hd'

theorem WF.flush (hw : vm.WF live) {ws : ℕ → WriteFrom} {r : Except MediaError Unit}
    (h : flush ws vm = (r, vm')) :
    SameSetup vm vm' ∧ vm'.WF live ∧ (r = .ok () → ∀ d, vm'.Drained d) := by
  unfold VirtualMedia.flush at h
  rw [Fallible.get_bind] at h
  obtain ⟨hsame, hw', hall, -⟩ := hw.flushDevices (fun d hd => List.mem_range.mp hd) h
  refine ⟨hsame, hw', fun hr d mgr hmgr => hall hr d ?_ mgr hmgr⟩
  rw [List.mem_range, ← hsame.length_mgrs]
  exact (List.getElem?_eq_some_iff.mp hmgr).1

/-- Every unit in use can be released. -/
theorem WF.release (hw : vm.WF live) {d : ℕ} {u : LiveUnit} (hu : u ∈ live d)
    {r : Except MediaError Unit} (h : release d u.offset vm = (r, vm')) :
    SameSetup vm vm' ∧ r = .ok () ∧ vm'.WF (Function.update live d ((live d).erase u)) := by
  obtain ⟨mgr, hmgr⟩ := hw.mgr_of_live hu
  have hlt := (List.getElem?_eq_some_iff.mp hmgr).1
  unfold VirtualMedia.release at h
  rw [Fallible.get_bind, if_pos hlt] at h
  obtain ⟨hcall, rfl⟩ := onDevice_cases hmgr h
  obtain ⟨hr, hm, hgeo, hbuf⟩ := (hw.mgr d mgr hmgr).release hu hcall
  refine ⟨sameSetup_set hmgr hgeo, hr, hw.set hmgr hm hgeo fun b hb => ?_⟩
  rw [hbuf] at hb
  exact hw.settled d mgr hmgr b hb

/-- A release that raises changes nothing. -/
theorem release_error {d offset : ℕ} {e : MediaError} (h : release d offset vm = (.error e, vm')) :
    vm' = vm := by
  unfold VirtualMedia.release at h
  rw [Fallible.get_bind] at h
  split_ifs at h with hlt
  · have hmgr := List.getElem?_eq_getElem hlt
    obtain ⟨hcall, rfl⟩ := onDevice_cases hmgr h
    have hsame := DeviceSegmentManager.release_error hcall
    rw [hsame, List.set_getElem_self]
  · exact (Prod.mk.inj h).2.symm

theorem init_geo {extent : List UInt8} {deviceIdx : ℕ} {spBytes unitSize : ℤ}
    {mgr : DeviceSegmentManager}
    (h : DeviceSegmentManager.init extent deviceIdx spBytes unitSize = .ok mgr) :
    mgr.geo.unitSize = unitSize.toNat ∧ mgr.extent = extent := by
  unfold DeviceSegmentManager.init at h
  split at h
  · cases h
  · split_ifs at h
    obtain rfl := Except.ok.inj h
    exact ⟨rfl, rfl⟩

theorem initMgrs_wf {unitSize : ℤ} {extents : List Extent} {k : ℕ}
    {mgrs : List DeviceSegmentManager} (h : initMgrs unitSize k extents = .ok mgrs) :
    mgrs.map DeviceSegmentManager.extent = extents.map Extent.bytes ∧
      ∀ mgr ∈ mgrs, mgr.WF [] ∧ mgr.buf = none ∧ mgr.geo.unitSize = unitSize.toNat := by
  induction extents generalizing k mgrs with
  | nil =>
    obtain rfl := Except.ok.inj h
    exact ⟨rfl, by simp⟩
  | cons e es ih =>
    unfold initMgrs at h
    cases hmgr : DeviceSegmentManager.init e.bytes k e.spBytes unitSize with
    | error err =>
      rw [hmgr] at h
      cases h
    | ok mgr =>
      cases hrest : initMgrs unitSize (k + 1) es with
      | error err =>
        rw [hmgr, hrest] at h
        cases h
      | ok rest =>
        rw [hmgr, hrest] at h
        obtain rfl := Except.ok.inj h
        obtain ⟨hwf, hbuf⟩ := DeviceSegmentManager.init_wf hmgr
        obtain ⟨hunit, hext⟩ := init_geo hmgr
        obtain ⟨hmap, hall⟩ := ih hrest
        refine ⟨by rw [List.map_cons, List.map_cons, hext, hmap], ?_⟩
        intro m hm
        rcases List.mem_cons.mp hm with rfl | hm
        · exact ⟨hwf, hbuf, hunit⟩
        · exact hall m hm

/-- The constructor leaves no unit in use, and caps only what a unit needs. -/
theorem init_wf {unitSize : ℤ} {extents : List Extent} {strategy : PlacementStrategy κ}
    {readMerge : Bool} {maxReadBytes : Option ℤ}
    (h : init unitSize extents strategy readMerge maxReadBytes = .ok vm) :
    vm.WF (fun _ => []) ∧ vm.mgrs.map DeviceSegmentManager.extent = extents.map Extent.bytes ∧
      (∀ d, vm.Drained d) ∧ vm.unitSize = unitSize.toNat ∧ vm.strategy = strategy := by
  unfold init at h
  split_ifs at h with hcap hempty hdev
  cases hmgrs : initMgrs unitSize 0 extents with
  | error e =>
    rw [hmgrs] at h
    cases h
  | ok mgrs =>
    rw [hmgrs] at h
    obtain rfl := Except.ok.inj h
    obtain ⟨hmap, hall⟩ := initMgrs_wf hmgrs
    have hget : ∀ (d : ℕ) mgr, mgrs[d]? = some mgr →
        mgr.WF [] ∧ mgr.buf = none ∧ mgr.geo.unitSize = unitSize.toNat :=
      fun d mgr hd => hall mgr (List.mem_of_getElem? hd)
    refine ⟨?_, hmap, fun d mgr hd => (hget d mgr hd).2.1, rfl, rfl⟩
    refine
      { mgr := fun d mgr hd => (hget d mgr hd).1
        unit := fun d mgr hd => (hget d mgr hd).2.2
        settled := fun d mgr hd b hb => ?_
        outside := fun _ _ => rfl
        cap := fun cap hmem => ?_
        devices := ?_ }
    · rw [(hget d mgr hd).2.1] at hb
      cases hb
    · obtain ⟨n, rfl, rfl⟩ := Option.map_eq_some_iff.mp hmem
      simp only [Option.any_some, decide_eq_true_eq, not_or, not_le, not_lt] at hcap
      dsimp only
      omega
    · have hlen := congrArg List.length hmap
      rw [List.length_map, List.length_map] at hlen
      dsimp only
      rw [hlen, not_not.mp hdev]

end Calls

end VirtualMedia

/-- The layer with the units that were written to each device and not released. -/
structure MediaWorld (κ : Type) where
  vm : VirtualMedia κ
  live : ℕ → List LiveUnit

inductive MediaEvent (κ : Type) where
  | write (key : κ) (data : List UInt8) (w : WriteFrom)
  | flush (ws : ℕ → WriteFrom)
  | release (device offset : ℕ)
  | readBatch (items : List (ℕ × ℕ)) (outs : List (List UInt8))

namespace MediaWorld

variable {κ : Type}

def next (s : MediaWorld κ) : MediaEvent κ → MediaWorld κ
  | .write key data w =>
    match VirtualMedia.write key data w s.vm with
    | (.ok offset, vm) =>
      let d := s.vm.strategy.locate key
      ⟨vm, Function.update s.live d (⟨offset, data⟩ :: s.live d)⟩
    | (.error _, vm) => ⟨vm, s.live⟩
  | .flush ws => ⟨(VirtualMedia.flush ws s.vm).2, s.live⟩
  | .release d offset =>
    match VirtualMedia.release d offset s.vm with
    | (.ok _, vm) => ⟨vm, Function.update s.live d ((s.live d).filter (·.offset ≠ offset))⟩
    | (.error _, vm) => ⟨vm, s.live⟩
  | .readBatch _ _ => s

def Step (s : MediaWorld κ) (ev : MediaEvent κ) (t : MediaWorld κ) : Prop := t = s.next ev

/-- A release is of a unit in use, or refused. -/
def ReleasesLive (s : MediaWorld κ) (ev : MediaEvent κ) : Prop :=
  ∀ d offset, ev = .release d offset →
    (∃ u ∈ s.live d, u.offset = offset) ∨ ∃ e, (VirtualMedia.release d offset s.vm).1 = .error e

/-- Any batch of units in use, with views that have room for them, gets the bytes that were
written, by reads that the devices allow. -/
def ReadsBack (s : MediaWorld κ) : Prop :=
  ∀ (units : List (ℕ × LiveUnit)) (outs : List (List UInt8)) (reads : List DeviceRead),
    (∀ p ∈ units, p.2 ∈ s.live p.1) → units.length = outs.length →
    (∀ out ∈ outs, s.vm.unitSize ≤ out.length) →
    ∃ s', s.vm.readBatch (units.map fun p => (p.1, p.2.offset)) ⟨outs, reads⟩ = (.ok (), s') ∧
      (∀ (i : ℕ) p out, units[i]? = some p → outs[i]? = some out →
        s'.outs[i]? = some (p.2.data ++ out.drop s.vm.unitSize)) ∧
      ∃ new, s'.reads = reads ++ new ∧ ∀ r ∈ new,
        (∀ cap ∈ s.vm.maxReadBytes, r.len ≤ cap) ∧
        ∃ mgr, s.vm.mgrs[r.device]? = some mgr ∧ r.start + r.len ≤ mgr.extent.length

theorem filter_offset_eq_erase {live : List LiveUnit} (h : (live.map LiveUnit.offset).Nodup)
    {u : LiveUnit} (hu : u ∈ live) : live.filter (·.offset ≠ u.offset) = live.erase u := by
  rw [h.of_map.erase_eq_filter]
  refine List.filter_congr fun v hv => ?_
  have hinj : v.offset = u.offset ↔ v = u := by
    constructor
    · exact fun he => List.inj_on_of_nodup_map h hv hu he
    · rintro rfl
      rfl
  simp only [hinj, ne_eq, decide_not, bne, beq_eq_decide]

theorem wf_next {s : MediaWorld κ} {ev : MediaEvent κ} (hw : s.vm.WF s.live)
    (hev : s.ReleasesLive ev) : (s.next ev).vm.WF (s.next ev).live := by
  cases ev with
  | write key data w =>
    cases h : VirtualMedia.write key data w s.vm with
    | mk r vm =>
      obtain ⟨-, ⟨e, rfl, hw'⟩ | ⟨offset, rfl, -, hw'⟩⟩ := hw.write h
      · simpa only [next, h] using hw'
      · simpa only [next, h] using hw'
  | flush ws => exact (hw.flush rfl).2.1
  | release d offset =>
    rcases hev d offset rfl with ⟨u, hu, rfl⟩ | ⟨e, he⟩
    · cases h : VirtualMedia.release d u.offset s.vm with
      | mk r vm =>
        obtain ⟨-, rfl, hw'⟩ := hw.release hu h
        obtain ⟨mgr, hmgr⟩ := hw.mgr_of_live hu
        rw [← filter_offset_eq_erase (hw.mgr d mgr hmgr).nodup hu] at hw'
        simpa only [next, h] using hw'
    · cases h : VirtualMedia.release d offset s.vm with
      | mk r vm =>
        rw [h] at he
        obtain rfl : r = .error e := he
        obtain rfl := VirtualMedia.release_error h
        simpa only [next, h] using hw
  | readBatch items outs => exact hw

end MediaWorld

/-- What was written is read back as long as it is not released, when only units in use are
released. -/
theorem media_readsBack {κ : Type} {unitSize : ℤ} {extents : List VirtualMedia.Extent}
    {strategy : PlacementStrategy κ} {readMerge : Bool} {maxReadBytes : Option ℤ}
    {vm : VirtualMedia κ}
    (hinit : VirtualMedia.init unitSize extents strategy readMerge maxReadBytes = .ok vm)
    {s : MediaWorld κ}
    (h : Reach (· = ⟨vm, fun _ => []⟩) (Guarded MediaWorld.ReleasesLive MediaWorld.Step) s) :
    s.ReadsBack := by
  have hw : s.vm.WF s.live := by
    refine h.invariant (P := fun s => s.vm.WF s.live) ?_ ?_
    · rintro s rfl
      exact (VirtualMedia.init_wf hinit).1
    · rintro s ev t hs ⟨hev, rfl⟩
      exact MediaWorld.wf_next hs hev
  intro units outs reads hlive hlen hroom
  exact hw.readBatch ⟨hlive, hlen, hroom⟩ reads

/-- One device with one segment of two units. -/
def oneSegment : Except MediaError (VirtualMedia Unit) :=
  VirtualMedia.init 4096 [⟨List.replicate 8192 0, 8192⟩] ⟨1, fun _ => 0, fun _ => Nat.one_pos⟩
    true none

def putUnit (b : UInt8) : MediaEvent Unit := .write () (List.replicate 4096 b) .done

theorem putUnit_releasesLive (s : MediaWorld Unit) (b : UInt8) : s.ReleasesLive (putUnit b) := by
  intro d offset h
  cases h

theorem flush_releasesLive (s : MediaWorld Unit) (ws : ℕ → WriteFrom) :
    s.ReleasesLive (.flush ws) := by
  intro d offset h
  cases h

/-- Two units go to the device, one of them is released, and there is no room for a third. -/
theorem media_readsBack_flushed :
    ∃ vm s, oneSegment = .ok vm ∧
      Reach (· = ⟨vm, fun _ => []⟩) (Guarded MediaWorld.ReleasesLive MediaWorld.Step) s ∧
      (s.live 0).map (fun u => (u.offset, u.data.head?)) = [(4096, some 2)] ∧ s.ReadsBack := by
  have hrun : (oneSegment.map fun vm =>
      let s := (((⟨vm, fun _ => []⟩ : MediaWorld Unit).next (putUnit 1)).next (putUnit 2)).next
        (.flush fun _ => .done)
      ((s.live 0).map LiveUnit.offset, (((s.next (.release 0 0)).next (putUnit 3)).live 0).map
        fun u => (u.offset, u.data.head?))) =
      .ok ([4096, 0], [(4096, some 2)]) := by decide +kernel
  cases hinit : oneSegment with
  | error e =>
    rw [hinit] at hrun
    cases hrun
  | ok vm =>
    rw [hinit] at hrun
    obtain ⟨hfirst, hlast⟩ := Prod.mk.inj (Except.ok.inj hrun)
    have hstart : Reach (· = ⟨vm, fun _ => []⟩) (Guarded MediaWorld.ReleasesLive MediaWorld.Step)
        ⟨vm, fun _ => []⟩ := .start rfl
    have hwritten := ((hstart.next _ ⟨putUnit_releasesLive _ 1, rfl⟩).next _
      ⟨putUnit_releasesLive _ 2, rfl⟩).next _ ⟨flush_releasesLive _ fun _ => .done, rfl⟩
    generalize (((⟨vm, fun _ => []⟩ : MediaWorld Unit).next (putUnit 1)).next (putUnit 2)).next
      (.flush fun _ => .done) = s at hfirst hlast hwritten
    have hlive : s.ReleasesLive (.release 0 0) := by
      rintro d offset h
      obtain ⟨rfl, rfl⟩ := MediaEvent.release.inj h
      have hmem : 0 ∈ (s.live 0).map LiveUnit.offset := by
        rw [hfirst]
        decide
      obtain ⟨u, hu, he⟩ := List.mem_map.mp hmem
      exact .inl ⟨u, hu, he⟩
    have hend := (hwritten.next _ ⟨hlive, rfl⟩).next _ ⟨putUnit_releasesLive _ 3, rfl⟩
    exact ⟨vm, _, rfl, hend, hlast, media_readsBack hinit hend⟩

/-- The same unit is released twice, so that the segment of the other one is used again. -/
theorem media_staleRelease :
    ∃ vm s, oneSegment = .ok vm ∧ Reach (· = ⟨vm, fun _ => []⟩) MediaWorld.Step s ∧
      ¬ s.ReadsBack := by
  have hrun : (oneSegment.map fun vm =>
      let s := [putUnit 1, putUnit 2, .release 0 0, .release 0 0, .flush fun _ => .done,
        putUnit 3].foldl MediaWorld.next ⟨vm, fun _ => []⟩
      ((s.live 0).map fun u => (u.offset, u.data.head?), s.vm.unitSize,
        ((s.vm.readBatch [(0, 4096)] ⟨[List.replicate 4096 0], []⟩).2.outs[0]?.map List.head?))) =
      .ok ([(0, some 3), (4096, some 2)], 4096, some (some 0)) := by decide +kernel
  cases hinit : oneSegment with
  | error e =>
    rw [hinit] at hrun
    cases hrun
  | ok vm =>
    rw [hinit] at hrun
    obtain ⟨hlive, hrest⟩ := Prod.mk.inj (Except.ok.inj hrun)
    obtain ⟨hunit, hread⟩ := Prod.mk.inj hrest
    have hend : Reach (· = ⟨vm, fun _ => []⟩) MediaWorld.Step
        ([putUnit 1, putUnit 2, .release 0 0, .release 0 0, .flush fun _ => .done,
          putUnit 3].foldl MediaWorld.next ⟨vm, fun _ => []⟩) := by
      refine Reach.foldl ?_ ?_
      · exact .start rfl
      · exact fun ev _ s => Eq.refl (s.next ev)
    refine ⟨vm, _, rfl, hend, ?_⟩
    generalize [putUnit 1, putUnit 2, .release 0 0, .release 0 0, .flush fun _ => .done,
      putUnit 3].foldl MediaWorld.next ⟨vm, fun _ => []⟩ = s at hlive hunit hread
    intro hback
    have hmem : (4096, some 2) ∈ (s.live 0).map fun u => (u.offset, u.data.head?) := by
      rw [hlive]
      decide
    obtain ⟨u, hu, he⟩ := List.mem_map.mp hmem
    obtain ⟨hoff, hhead⟩ := Prod.mk.inj he
    obtain ⟨s', hbatch, houts, -⟩ := hback [(0, u)] [List.replicate 4096 0] []
      (fun p hp => by rwa [List.mem_singleton.mp hp]) rfl (fun out hout => by
        rw [List.mem_singleton.mp hout, List.length_replicate, hunit])
    rw [List.map_singleton, hoff] at hbatch
    rw [hbatch, houts 0 (0, u) _ rfl rfl, Option.map_some, List.head?_append, hhead] at hread
    cases hread

end Umm
