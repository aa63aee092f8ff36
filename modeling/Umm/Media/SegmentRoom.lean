import Umm.Media.VirtualMediaRuns
import Umm.Lib.Fallible

/-! The room of a segment manager whose units are never released: an append takes one unit of it, a
flush the rest of its segment, and only an append without room raises that the segments are full. -/
namespace Umm
open Umm.Lib

/-- The errors about the sizes of an extent and its segments, and about segments that ran out. -/
def MediaError.OfSegments : MediaError → Prop
  | .spBytesNotPositive _ | .spBytesUnaligned _ | .unitSizeUnaligned _ | .spBytesNotUnits _ _
  | .extentNotSegments _ _ | .segmentFull _ _ => True
  | _ => False

namespace DeviceSegmentManager

variable {m m' : DeviceSegmentManager} {live : List LiveUnit} {b : SegBuf} {w : WriteFrom}
  {calm : Prop}

/-- The units that can be appended. -/
def room (m : DeviceSegmentManager) : ℕ :=
  m.free.length * m.geo.slotsPerSeg + m.buf.elim 0 fun b => m.geo.slotsPerSeg - b.fill

/-- The units of the buffer are in use. -/
def Unreleased (m : DeviceSegmentManager) (live : List LiveUnit) : Prop :=
  ∀ b, m.buf = some b → b.fill ≤ held m.geo live b.seg

theorem room_none (hnone : m.buf = none) : m.room = m.free.length * m.geo.slotsPerSeg := by
  unfold room
  rw [hnone]
  rfl

theorem room_some (hb : m.buf = some b) :
    m.room = m.free.length * m.geo.slotsPerSeg + (m.geo.slotsPerSeg - b.fill) := by
  unfold room
  rw [hb]
  rfl

/-- A segment is there, as long as there is room for a unit. -/
theorem startSegment_room (hnone : m.buf = none) :
    CallResult MediaError.OfSegments calm (0 < m.room) (fun b m' => m'.room = m.room ∧
      m'.geo = m.geo ∧ m'.buf = some b ∧ b.fill = 0) (startSegment m) := by
  have hpos := m.geo.slots_pos
  have hroom := room_none hnone
  generalize h : startSegment m = q
  obtain ⟨r, m'⟩ := q
  rcases startSegment_cases h with ⟨hfree, rfl, rfl⟩ | ⟨seg, free, hfree, rfl, rfl⟩
  · refine .missing trivial ?_
    rw [hroom, hfree, List.length_nil]
    omega
  · rw [hfree, List.length_cons, add_mul, one_mul] at hroom
    refine .fine (by omega) ⟨?_, rfl, rfl, rfl⟩
    rw [hroom, room_some rfl]
    rfl

/-- A write that does not raise leaves the rest of the segment unused. -/
theorem WF.flushLocked_room (hw : m.WF live) (hu : m.Unreleased live) (hb : m.buf = some b)
    (hfill : 0 < b.fill) (hcalm : calm → w = .done) :
    CallResult MediaError.OfSegments calm True (fun _ m' =>
      m'.room = m.free.length * m.geo.slotsPerSeg ∧ m'.geo = m.geo ∧ m'.buf = none)
      (DeviceSegmentManager.flushLocked b w m) := by
  have hn := hw.refcount_eq b.seg (hw.buf_lt b hb)
  have hheld : (held m.geo live b.seg : ℤ) ≠ 0 := by
    have := hu b hb
    omega
  unfold DeviceSegmentManager.flushLocked
  rw [Fallible.get_bind, Fallible.set_bind]
  cases w with
  | raised left => exact .failed id fun hc => WriteFrom.noConfusion (hcalm hc)
  | done =>
    simp only [Fallible.get_bind, hn]
    refine .fine trivial ⟨?_, rfl, rfl⟩
    rw [room_none rfl, if_neg hheld]

theorem WF.nextBuf_room (hw : m.WF live) (hu : m.Unreleased live) (hcalm : calm → w = .done) :
    CallResult MediaError.OfSegments calm (0 < m.room) (fun b m' => m'.room = m.room ∧
      m'.geo = m.geo ∧ m'.buf = some b ∧ b.fill < m.geo.slotsPerSeg ∧
        b.fill ≤ held m.geo live b.seg) (DeviceSegmentManager.nextBuf w m) := by
  have hpos := m.geo.slots_pos
  unfold DeviceSegmentManager.nextBuf DeviceSegmentManager.openBuf
  cases hb : m.buf with
  | none =>
    rw [Fallible.bind_eq]
    simp only [Fallible.get_bind, hb]
    rw [← Fallible.bind_eq]
    refine ((startSegment_room hb).bind fun b m₁ _ h₁ => ?_).imp (and_true _).to_iff
      fun _ _ _ h => h
    obtain ⟨hroom, hgeo, hbuf, hzero⟩ := h₁
    rw [if_neg (by rw [hgeo]; omega)]
    exact .fine trivial ⟨hroom, hgeo, hbuf, by omega, by omega⟩
  | some b =>
    rw [Fallible.bind_eq]
    simp only [Fallible.get_bind, hb, Fallible.pure_eq]
    split_ifs with hfull
    · have hroom := room_some hb
      rw [hfull, Nat.sub_self, Nat.add_zero] at hroom
      refine ((hw.flushLocked_room hu hb (by omega) hcalm).bind fun _ m₂ _ h₂ => ?_).imp
        (true_and _).to_iff fun _ _ _ h => h
      obtain ⟨hroom₂, hgeo₂, hbuf₂⟩ := h₂
      refine (startSegment_room hbuf₂).imp (by rw [hroom₂, hroom]) fun b' m' _ h' => ?_
      obtain ⟨hroom', hgeo', hbuf', hzero⟩ := h'
      exact ⟨hroom'.trans (hroom₂.trans hroom.symm), hgeo'.trans hgeo₂, hbuf', by omega, by omega⟩
    · have hfill := lt_of_le_of_ne (hw.buf_fill b hb) hfull
      have hroom := room_some hb
      exact .fine (by omega) ⟨rfl, rfl, hb, hfill, hu b hb⟩

theorem WF.append_room (hw : m.WF live) (hu : m.Unreleased live) (hcalm : calm → w = .done)
    {data : List UInt8} (hlen : data.length = m.geo.unitSize) :
    CallResult MediaError.OfSegments calm (0 < m.room) (fun offset m' => m'.room + 1 = m.room ∧
      m'.Unreleased (⟨offset, data⟩ :: live)) (DeviceSegmentManager.append data w m) := by
  unfold DeviceSegmentManager.append
  rw [Fallible.get_bind, if_neg (not_not.mpr hlen)]
  refine ((hw.nextBuf_room hu hcalm).bind fun b m₁ _ h₁ => ?_).imp (and_true _).to_iff
    fun _ _ _ h => h
  obtain ⟨hroom, hgeo, hbuf, hfill, hheld⟩ := h₁
  rw [Fallible.get_bind, Fallible.set_bind]
  refine .fine trivial ⟨?_, ?_⟩
  · rw [room_some hbuf, hgeo] at hroom
    rw [room_some rfl]
    dsimp only
    rw [hgeo]
    omega
  · intro b' hb'
    obtain rfl := Option.some.inj hb'
    dsimp only
    rw [hgeo]
    have hseg : m.geo.segmentOf (b.seg * m.geo.spBytes + b.fill * m.geo.unitSize) = b.seg :=
      m.geo.segmentOf_slot hfill
    unfold held
    rw [List.countP_cons_of_pos (by simpa using hseg)]
    exact Nat.succ_le_succ hheld

/-- A flush keeps the room of the whole segments. -/
theorem WF.flush_room (hw : m.WF live) (hu : m.Unreleased live) (hcalm : calm → w = .done) :
    CallResult MediaError.OfSegments calm True (fun _ m' =>
      m'.room = m.room / m.geo.slotsPerSeg * m.geo.slotsPerSeg ∧ m'.Unreleased live)
      (DeviceSegmentManager.flush w m) := by
  have hpos := m.geo.slots_pos
  unfold DeviceSegmentManager.flush
  rw [Fallible.get_bind]
  cases hb : m.buf with
  | none =>
    refine .fine trivial ⟨?_, hu⟩
    rw [room_none hb, Nat.mul_div_cancel _ hpos]
  | some b =>
    have hroom := room_some hb
    have hmax := hw.buf_fill b hb
    dsimp only
    split_ifs with hfill
    · refine (hw.flushLocked_room hu hb hfill hcalm).imp Iff.rfl fun _ m' _ h' => ?_
      obtain ⟨hroom', hgeo', hbuf'⟩ := h'
      constructor
      · rw [hroom', hroom, Nat.add_comm, Nat.add_mul_div_right _ _ hpos,
          Nat.div_eq_of_lt (by omega), Nat.zero_add]
      · intro b' hb'
        rw [hbuf'] at hb'
        cases hb'
    · refine .fine trivial ⟨?_, hu⟩
      have hzero : b.fill = 0 := by omega
      rw [hroom, hzero, Nat.sub_zero, ← Nat.succ_mul, Nat.mul_div_cancel _ hpos]

theorem checkSegmentGeometry_ok {s : ℕ} (hs : 0 < s) (hpage : 4096 ∣ s) :
    checkSegmentGeometry s 4096 = .ok () := by
  unfold checkSegmentGeometry
  rw [if_neg (by omega), if_neg (by omega), if_neg (by omega), if_neg (by omega)]

/-- An extent of whole segments has the room of all its pages. -/
theorem init_room (deviceIdx : ℕ) {s : ℕ} (hs : 0 < s) (hpage : 4096 ∣ s) {extent : List UInt8}
    (hwhole : s ∣ extent.length) :
    ∃ m, init extent deviceIdx s 4096 = .ok m ∧ m.geo.slotsPerSeg = s / 4096 ∧
      m.geo.nSeg * m.geo.spBytes = extent.length ∧ m.room = extent.length / 4096 := by
  have hcheck := checkSegmentGeometry_ok hs hpage
  have hmod : ¬ (extent.length : ℤ) % (s : ℤ) ≠ 0 := by
    rw [not_not]
    exact_mod_cast Nat.mod_eq_zero_of_dvd hwhole
  unfold init
  split
  next e he =>
    rw [hcheck] at he
    cases he
  next hok =>
    rw [if_neg hmod]
    refine ⟨_, rfl, rfl, Nat.div_mul_cancel hwhole, ?_⟩
    rw [room_none rfl]
    unfold Geometry.slotsPerSeg
    have hunit : Int.toNat 4096 = 4096 := rfl
    dsimp only
    rw [List.length_range, Int.toNat_natCast, hunit, ← Nat.mul_div_assoc _ hpage,
      Nat.div_mul_cancel hwhole]

theorem init_ragged {s deviceIdx : ℕ} (hs : 0 < s) (hpage : 4096 ∣ s) {extent : List UInt8}
    (hragged : ¬ s ∣ extent.length) :
    init extent deviceIdx s 4096 = .error (.extentNotSegments extent.length s) := by
  have hcheck := checkSegmentGeometry_ok hs hpage
  unfold init
  split
  next e he =>
    rw [hcheck] at he
    cases he
  next hok =>
    rw [if_pos]
    intro hmod
    exact hragged (Nat.dvd_of_mod_eq_zero (by exact_mod_cast hmod))

end DeviceSegmentManager

namespace VirtualMedia

variable {κ : Type} {vm : VirtualMedia κ} {k : ℕ} {rooms : ℕ → ℕ} {calm : Prop}

/-- The devices have this room, in segments of `k` units, and no unit was released. -/
structure Filling (vm : VirtualMedia κ) (live : ℕ → List LiveUnit) (k : ℕ) (rooms : ℕ → ℕ) :
    Prop where
  wf : vm.WF live
  unreleased : ∀ (d : ℕ) mgr, vm.mgrs[d]? = some mgr → mgr.Unreleased (live d)
  slots : ∀ mgr ∈ vm.mgrs, mgr.geo.slotsPerSeg = k
  room : ∀ (d : ℕ) mgr, vm.mgrs[d]? = some mgr → mgr.room = rooms d

theorem onDevice_outcome {α : Type} {missing : MediaError → Prop} {needs : Prop}
    {post : α → DeviceSegmentManager → Prop} {d : ℕ} {mgr : DeviceSegmentManager}
    (hmgr : vm.mgrs[d]? = some mgr) {call : DeviceSegmentManager.Call α}
    (h : CallResult missing calm needs post (call mgr)) :
    CallResult missing calm needs (fun a vm' => ∃ mgr', post a mgr' ∧
      vm' = { vm with mgrs := vm.mgrs.set d mgr' }) (onDevice d call vm) := by
  unfold onDevice
  simp only [Fallible.get_bind, hmgr, Fallible.set_bind]
  generalize call mgr = q at h
  cases h with
  | fine hn hp => exact .fine hn ⟨_, hp, rfl⟩
  | missing he hn => exact .missing he hn
  | failed he hc => exact .failed he hc

variable {live : ℕ → List LiveUnit}

theorem Filling.set (hf : vm.Filling live k rooms) {d n : ℕ} {mgr' : DeviceSegmentManager}
    {units : List LiveUnit}
    (hwf : WF { vm with mgrs := vm.mgrs.set d mgr' } (Function.update live d units))
    (hsame : SameSetup vm { vm with mgrs := vm.mgrs.set d mgr' })
    (hu : mgr'.Unreleased units) (hroom : mgr'.room = n) :
    Filling { vm with mgrs := vm.mgrs.set d mgr' } (Function.update live d units) k
      (Function.update rooms d n) := by
  constructor
  · exact hwf
  · intro i m hm
    rcases getElem?_set_cases hm with ⟨rfl, rfl⟩ | ⟨hne, hm⟩
    · rwa [Function.update_self]
    · rw [Function.update_of_ne hne]
      exact hf.unreleased i m hm
  · intro m hm
    have hgeo : m.geo ∈ vm.mgrs.map DeviceSegmentManager.geo := by
      rw [← hsame.2.2]
      exact List.mem_map_of_mem hm
    obtain ⟨mgr, hmgr, he⟩ := List.mem_map.mp hgeo
    rw [← he]
    exact hf.slots mgr hmgr
  · intro i m hm
    rcases getElem?_set_cases hm with ⟨rfl, rfl⟩ | ⟨hne, hm⟩
    · rwa [Function.update_self]
    · rw [Function.update_of_ne hne]
      exact hf.room i m hm

theorem Filling.write (hf : vm.Filling live k rooms) {key : κ} {data : List UInt8} {w : WriteFrom}
    (hcalm : calm → w = .done) (hlen : data.length = vm.unitSize) :
    CallResult MediaError.OfSegments calm (0 < rooms (vm.strategy.locate key))
      (fun offset vm' => SameSetup vm vm' ∧
        vm'.Filling (Function.update live (vm.strategy.locate key)
          (⟨offset, data⟩ :: live (vm.strategy.locate key))) k
          (Function.update rooms (vm.strategy.locate key) (rooms (vm.strategy.locate key) - 1)))
      (VirtualMedia.write key data w vm) := by
  have hlt : vm.strategy.locate key < vm.mgrs.length := by
    rw [hf.wf.devices]
    exact vm.strategy.locate_lt key
  have hmgr := List.getElem?_eq_getElem hlt
  have hwf := hf.wf.mgr _ _ hmgr
  have happend := hwf.append_room (hf.unreleased _ _ hmgr) hcalm
    (hlen.trans (hf.wf.unit _ _ hmgr).symm)
  rw [hf.room _ _ hmgr] at happend
  have hdevice : VirtualMedia.write key data w vm =
      onDevice (vm.strategy.locate key) (DeviceSegmentManager.append data w) vm := rfl
  rw [hdevice]
  refine (onDevice_outcome hmgr happend).with_eq.imp Iff.rfl fun offset vm' hroom h => ?_
  obtain ⟨⟨mgr', ⟨hone, hunreleased⟩, rfl⟩, hcall⟩ := h
  rw [← hdevice] at hcall
  obtain ⟨hsame, ⟨e, he, -⟩ | ⟨offset', hok, -, hw'⟩⟩ := hf.wf.write hcall
  · cases he
  obtain rfl := Except.ok.inj hok
  exact ⟨hsame, hf.set hw' hsame hunreleased (by omega)⟩

theorem Filling.flushDevices (hf : vm.Filling live k rooms) {ws : ℕ → WriteFrom} {ds : List ℕ}
    (hds : ∀ d ∈ ds, d < vm.mgrs.length) (hnodup : ds.Nodup) (hcalm : calm → ∀ d, ws d = .done) :
    CallResult MediaError.OfSegments calm True (fun _ vm' => SameSetup vm vm' ∧
      vm'.Filling live k fun d => if d ∈ ds then rooms d / k * k else rooms d)
      (VirtualMedia.flushDevices ws ds vm) := by
  induction ds generalizing vm rooms with
  | nil =>
    refine .fine trivial ⟨⟨rfl, rfl, rfl⟩, ?_⟩
    simpa using hf
  | cons d ds ih =>
    have hmgr := List.getElem?_eq_getElem (hds d List.mem_cons_self)
    have hmem := List.mem_of_getElem? hmgr
    have hflush := (hf.wf.mgr _ _ hmgr).flush_room (hf.unreleased _ _ hmgr) fun hc => hcalm hc d
    rw [hf.room _ _ hmgr, hf.slots _ hmem] at hflush
    obtain ⟨hnotin, hnodup'⟩ := List.nodup_cons.mp hnodup
    unfold VirtualMedia.flushDevices
    refine ((onDevice_outcome hmgr hflush).with_eq.bind fun _ vm₁ _ h₁ => ?_).imp
      (and_true _).to_iff fun _ _ _ h => h
    obtain ⟨⟨mgr', ⟨hroom, hu⟩, rfl⟩, hcall⟩ := h₁
    obtain ⟨hsame, hw', -, -⟩ := hf.wf.flushDevice (hds d List.mem_cons_self) hcall
    have hsplit : Function.update live d (live d) = live := Function.update_eq_self _ _
    have hone := hf.set (by rw [hsplit]; exact hw') hsame hu hroom
    rw [hsplit] at hone
    refine (ih hone ?_ hnodup').imp Iff.rfl fun _ vm' _ h' => ?_
    · intro d' hd'
      rw [hsame.length_mgrs]
      exact hds d' (List.mem_cons_of_mem d hd')
    · refine ⟨hsame.trans h'.1, ?_⟩
      have hrooms : (fun d' => if d' ∈ d :: ds then rooms d' / k * k else rooms d') =
          fun d' => if d' ∈ ds then Function.update rooms d (rooms d / k * k) d' / k * k
            else Function.update rooms d (rooms d / k * k) d' := by
        funext d'
        by_cases he : d' = d
        · subst he
          rw [if_pos List.mem_cons_self, if_neg hnotin, Function.update_self]
        · rw [Function.update_of_ne he]
          simp only [List.mem_cons, he, false_or]
      rw [hrooms]
      exact h'.2

theorem Filling.flush (hf : vm.Filling live k rooms) {ws : ℕ → WriteFrom}
    (hcalm : calm → ∀ d, ws d = .done) :
    CallResult MediaError.OfSegments calm True (fun _ vm' => SameSetup vm vm' ∧
      vm'.Filling live k fun d => rooms d / k * k) (VirtualMedia.flush ws vm) := by
  unfold VirtualMedia.flush
  rw [Fallible.get_bind]
  refine (hf.flushDevices (fun d hd => List.mem_range.mp hd) List.nodup_range hcalm).imp Iff.rfl
    fun _ vm' _ h => ⟨h.1, ?_⟩
  obtain ⟨hsame, hf'⟩ := h
  refine { hf' with room := fun d mgr hmgr => ?_ }
  rw [hf'.room d mgr hmgr, if_pos]
  rw [List.mem_range, ← hsame.length_mgrs]
  exact (List.getElem?_eq_some_iff.mp hmgr).1

theorem initMgrs_room {s : ℕ} (hs : 0 < s) (hpage : 4096 ∣ s) {extents : List Extent} {d : ℕ}
    (hsp : ∀ e ∈ extents, e.spBytes = s) (hwhole : ∀ e ∈ extents, s ∣ e.bytes.length) :
    ∃ mgrs, initMgrs 4096 d extents = .ok mgrs ∧ List.Forall₂ (fun (e : Extent) mgr =>
      mgr.geo.slotsPerSeg = s / 4096 ∧ mgr.geo.nSeg * mgr.geo.spBytes = e.bytes.length ∧
        mgr.room = e.bytes.length / 4096) extents mgrs := by
  induction extents generalizing d with
  | nil => exact ⟨[], rfl, .nil⟩
  | cons e es ih =>
    obtain ⟨mgr, hmgr, hfacts⟩ :=
      DeviceSegmentManager.init_room d hs hpage (hwhole e List.mem_cons_self)
    obtain ⟨mgrs, hmgrs, hall⟩ := @ih (d + 1) (fun e' he => hsp e' (List.mem_cons_of_mem e he))
      fun e' he => hwhole e' (List.mem_cons_of_mem e he)
    refine ⟨mgr :: mgrs, ?_, .cons hfacts hall⟩
    unfold initMgrs
    rw [hsp e List.mem_cons_self, hmgr, hmgrs]
    rfl

theorem initMgrs_ragged {s : ℕ} (hs : 0 < s) (hpage : 4096 ∣ s) {extents : List Extent} {d : ℕ}
    (hsp : ∀ e ∈ extents, e.spBytes = s) (hragged : ∃ e ∈ extents, ¬ s ∣ e.bytes.length) :
    ∃ n, initMgrs 4096 d extents = .error (.extentNotSegments n s) := by
  induction extents generalizing d with
  | nil =>
    obtain ⟨e, he, -⟩ := hragged
    cases he
  | cons e es ih =>
    unfold initMgrs
    rw [hsp e List.mem_cons_self]
    by_cases hwhole : s ∣ e.bytes.length
    · obtain ⟨mgr, hmgr, -⟩ := DeviceSegmentManager.init_room d hs hpage hwhole
      have hlater : ∃ e ∈ es, ¬ s ∣ e.bytes.length := by
        obtain ⟨e', he', hnot⟩ := hragged
        rcases List.mem_cons.mp he' with rfl | he'
        · exact absurd hwhole hnot
        · exact ⟨e', he', hnot⟩
      obtain ⟨n, hn⟩ := @ih (d + 1) (fun e' he => hsp e' (List.mem_cons_of_mem e he)) hlater
      rw [hmgr, hn]
      exact ⟨n, rfl⟩
    · rw [DeviceSegmentManager.init_ragged hs hpage hwhole]
      exact ⟨_, rfl⟩

section Init

variable {s : ℕ} {extents : List Extent} {strategy : PlacementStrategy κ} (readMerge : Bool)
  {maxReadBytes : ℤ}

theorem init_checked (hne : extents ≠ []) (hdev : strategy.numDevices = extents.length)
    (hle : 4096 ≤ maxReadBytes) (hdvd : maxReadBytes % 4096 = 0) :
    init 4096 extents strategy readMerge (some maxReadBytes) = (initMgrs 4096 0 extents).map
      fun mgrs => ⟨4096, readMerge, some maxReadBytes.toNat, strategy, mgrs⟩ := by
  have hcap : ¬ (some maxReadBytes).any
      (fun n => decide ((4096 : ℤ) ≤ 0 ∨ n < 4096 ∨ n % 4096 ≠ 0)) = true := by
    rw [Option.any_some, decide_eq_true_eq]
    omega
  unfold init
  rw [if_neg hcap, if_neg hne, if_neg (not_not.mpr hdev)]
  cases initMgrs 4096 0 extents <;> rfl

theorem init_filling (hs : 0 < s) (hpage : 4096 ∣ s) (hne : extents ≠ [])
    (hdev : strategy.numDevices = extents.length) (hle : 4096 ≤ maxReadBytes)
    (hdvd : maxReadBytes % 4096 = 0) (hsp : ∀ e ∈ extents, e.spBytes = s)
    (hwhole : ∀ e ∈ extents, s ∣ e.bytes.length) {rooms : ℕ → ℕ}
    (hrooms : ∀ (d : ℕ) e, extents[d]? = some e → e.bytes.length / 4096 = rooms d) :
    ∃ vm, init 4096 extents strategy readMerge (some maxReadBytes) = .ok vm ∧
      vm.Filling (fun _ => []) (s / 4096) rooms ∧ ∀ geo ∈ vm.mgrs.map DeviceSegmentManager.geo,
        ∃ e ∈ extents, geo.nSeg * geo.spBytes = e.bytes.length := by
  obtain ⟨mgrs, hmgrs, hall⟩ := initMgrs_room (d := 0) hs hpage hsp hwhole
  have hinit := init_checked readMerge hne hdev hle hdvd
  rw [hmgrs] at hinit
  obtain ⟨hwf, -, hdrained, -, -⟩ := init_wf hinit
  have hof : ∀ (d : ℕ) mgr, mgrs[d]? = some mgr → ∃ e, extents[d]? = some e ∧
      mgr.geo.slotsPerSeg = s / 4096 ∧ mgr.geo.nSeg * mgr.geo.spBytes = e.bytes.length ∧
      mgr.room = e.bytes.length / 4096 := by
    intro d mgr hd
    obtain ⟨hlt, rfl⟩ := List.getElem?_eq_some_iff.mp hd
    have hlt' : d < extents.length := hall.length_eq ▸ hlt
    exact ⟨extents[d], List.getElem?_eq_getElem hlt',
      (List.forall₂_iff_get.mp hall).2 d hlt' hlt⟩
  refine ⟨_, hinit, ⟨hwf, ?_, ?_, ?_⟩, ?_⟩
  · intro d mgr hd b hb
    rw [hdrained d mgr hd] at hb
    cases hb
  · intro mgr hmem
    obtain ⟨d, hd⟩ := List.mem_iff_getElem?.mp hmem
    obtain ⟨_, -, hslots, -, -⟩ := hof d mgr hd
    exact hslots
  · intro d mgr hd
    obtain ⟨e, he, -, -, hroom⟩ := hof d mgr hd
    exact hroom.trans (hrooms d e he)
  · intro geo hgeo
    obtain ⟨mgr, hmem, rfl⟩ := List.mem_map.mp hgeo
    obtain ⟨d, hd⟩ := List.mem_iff_getElem?.mp hmem
    obtain ⟨e, he, -, hlen, -⟩ := hof d mgr hd
    exact ⟨e, List.mem_of_getElem? he, hlen⟩

end Init

end VirtualMedia

end Umm
