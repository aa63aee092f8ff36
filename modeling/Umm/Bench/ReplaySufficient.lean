import Umm.Bench.ReplayCapacity
import Umm.Bench.SingleSsd

/-! When the capacities that a replay plans suffice for all its trials. -/
namespace Umm
open Umm.Lib

namespace ReplayArgs

variable (args : ReplayArgs)

def devices : ℕ :=
  match args.target with
  | .devices _ _ => 8
  | _ => 1

/-- The largest segment of the trials. -/
def largest : ℕ := (args.trialSegments.map Int.toNat).foldr max 0

variable {args}

theorem devices_of_isDevices (h : args.isDevices = true) : args.devices = 8 := by
  unfold isDevices at h
  unfold devices
  generalize args.target = target at h ⊢
  cases target with
  | devices windows eight => rfl
  | file => cases h
  | device => cases h

theorem check_ok (h : args.check = .ok ()) :
    (args.placement = .layer → args.mode = .snapshot ∧ args.devices = 8) ∧ 1 ≤ args.maxTopk ∧
      args.checkExperiment = .ok () ∧ (∀ s ∈ args.trialSegments, 4096 ≤ s ∧ s % 4096 = 0) ∧
      4096 ≤ args.maxReadBytes ∧ args.maxReadBytes % 4096 = 0 := by
  unfold check at h
  split at h
  · cases h
  split at h
  · cases h
  next hlayer =>
  split at h
  · cases h
  next hmin =>
  obtain ⟨_, hexperiment, h⟩ := except_bind_ok h
  split at h
  · cases h
  next hsegments =>
  split at h
  · cases h
  next hmax =>
  refine ⟨fun hplacement => ?_, by omega, hexperiment, fun s hs => ?_, by omega, by omega⟩
  · by_contra hnot
    refine hlayer ⟨hplacement, ?_⟩
    by_contra hboth
    push Not at hboth
    exact hnot ⟨hboth.1, devices_of_isDevices hboth.2⟩
  · by_contra hnot
    exact hsegments ⟨s, hs, by omega⟩

theorem mem_foldr_max {l : List ℕ} (hne : l ≠ []) : l.foldr max 0 ∈ l := by
  induction l with
  | nil => exact absurd rfl hne
  | cons a l ih =>
    rw [List.foldr_cons]
    by_cases hl : l = []
    · rw [hl, List.foldr_nil, max_eq_left (Nat.zero_le a)]
      exact List.mem_cons_self
    · rcases max_choice a (l.foldr max 0) with h | h
      · rw [h]
        exact List.mem_cons_self
      · rw [h]
        exact List.mem_cons_of_mem a (ih hl)

/-- The segments of a trial, after the checks. -/
theorem trialSegments_ok (h : args.check = .ok ()) {segment : ℕ}
    (hs : segment ∈ args.trialSegments.map Int.toNat) :
    replayPage ≤ segment ∧ replayPage ∣ segment := by
  obtain ⟨s, hmem, rfl⟩ := List.mem_map.mp hs
  obtain ⟨-, -, -, hall, -⟩ := check_ok h
  obtain ⟨hle, hmod⟩ := hall s hmem
  unfold replayPage
  exact ⟨by omega, by omega⟩

theorem largest_mem (h : args.check = .ok ()) :
    args.largest ∈ args.trialSegments.map Int.toNat := by
  apply mem_foldr_max
  obtain ⟨-, -, hexperiment, -⟩ := check_ok h
  have hne : ∃ s, s ∈ args.trialSegments := by
    unfold trialSegments
    simp only [mem_sorted]
    split_ifs with hlayout
    · unfold checkExperiment at hexperiment
      rw [if_pos hlayout] at hexperiment
      split at hexperiment
      · cases hexperiment
      next hnot =>
        push Not at hnot
        exact List.exists_mem_of_length_pos (by omega)
    · exact ⟨4096, List.mem_cons_self⟩
  obtain ⟨s, hs⟩ := hne
  exact List.ne_nil_of_mem (List.mem_map_of_mem hs)

variable (args)

/-- The segments of a size that the rows of a request take on a device. -/
def segmentsTaken (trace : List TraceRecord) (segment : ℕ) (request : String) (d : ℕ) : ℕ :=
  blocksTaken (segment / replayPage) (stepFills (placementDevice args.placement args.devices)
    request d (fun _ => 0) (trialSteps trace args.mode (contextLengths trace)))

/-- The bytes of the largest segments that a request takes on a device, at least one. -/
def largestBytes (trace : List TraceRecord) (request : String) (d : ℕ) : ℕ :=
  max 1 (args.segmentsTaken trace args.largest request d) * args.largest

variable {args} {trace : List TraceRecord} {plan : ReplayPlan} {request : String} {d : ℕ}

theorem segmentsTaken_eq {segment : ℕ} (hrequest : request ∈ traceRequests trace) :
    args.segmentsTaken trace segment request d = segmentsOf args.mode (segment / replayPage)
      (newRows (placementDevice args.placement args.devices) request d (fun _ => 0)
        (hashEvents trace args.mode (contextLengths trace))) :=
  blocksTaken_trialSteps hrequest

/-- A single device has the bytes that `geometry` finds. -/
theorem geometry_largestBytes (hcheck : args.check = .ok ()) (hdevices : args.devices = 1)
    {slots : String → ℕ}
    (hgeometry : geometry trace args.largest args.mode = .ok (contextLengths trace, slots))
    (hrequest : request ∈ traceRequests trace) (hd : d < args.devices) :
    slots request = args.largestBytes trace request d := by
  obtain ⟨hpage, hdvd⟩ := trialSegments_ok hcheck (largest_mem hcheck)
  have hpos : 0 < args.largest := (by decide : 0 < replayPage).trans_le hpage
  have hzero : d = 0 := by omega
  unfold largestBytes
  rw [segmentsTaken_eq hrequest, hdevices, hzero]
  exact geometry_slots hpos hdvd hgeometry hrequest

/-- What `run` plans. -/
theorem planReplay_ok (h : planReplay args trace = .ok plan) :
    args.check = .ok () ∧ plan.segments = args.trialSegments.map Int.toNat ∧
      plan.devices = args.devices ∧
      (∃ slots, geometry trace args.largest args.mode = .ok (contextLengths trace, slots)) ∧
      ∀ request ∈ traceRequests trace, ∀ d < args.devices,
        plan.capacities request d = args.largestBytes trace request d := by
  unfold planReplay at h
  obtain ⟨_, hcheck, h⟩ := except_bind_ok h
  split at h
  · cases h
  obtain ⟨⟨lengths, slots⟩, hgeometry, h⟩ := except_bind_ok h
  have hpage := trialSegments_ok hcheck (largest_mem hcheck)
  have hpos : 0 < args.largest := (by decide : 0 < replayPage).trans_le hpage.1
  obtain ⟨rfl, -⟩ := geometry_lengths hgeometry
  refine ⟨hcheck, ?_⟩
  dsimp only at h
  split at h
  next windows eight htarget =>
    have hdevices : args.devices = 8 := by
      unfold devices
      rw [htarget]
    split at h
    · cases h
    obtain ⟨_, -, h⟩ := except_bind_ok h
    obtain rfl := Except.ok.inj h
    refine ⟨rfl, hdevices.symm, ⟨slots, hgeometry⟩, fun request hrequest d _ => ?_⟩
    unfold largestBytes
    rw [segmentsTaken_eq hrequest, hdevices]
    cases hplacement : args.placement with
    | layer =>
      obtain ⟨hmode, -⟩ := (check_ok hcheck).1 hplacement
      rw [hmode]
      exact layerCapacities_eq hpos hpage.2
    | hash => exact hashCapacities_eq hpos hpage.2
  next htarget =>
    have hdevices : args.devices = 1 := by
      unfold devices
      rw [htarget]
    split at h
    · cases h
    obtain ⟨_, -, h⟩ := except_bind_ok h
    obtain rfl := Except.ok.inj h
    exact ⟨rfl, hdevices.symm, ⟨slots, hgeometry⟩, fun request hrequest d hd =>
      geometry_largestBytes hcheck hdevices hgeometry hrequest hd⟩
  next htarget =>
    have hdevices : args.devices = 1 := by
      unfold devices
      rw [htarget]
    split at h
    next offset bytes =>
      obtain ⟨_, -, h⟩ := except_bind_ok h
      obtain rfl := Except.ok.inj h
      exact ⟨rfl, hdevices.symm, ⟨slots, hgeometry⟩, fun request hrequest d hd =>
        geometry_largestBytes hcheck hdevices hgeometry hrequest hd⟩
    next => cases h

end ReplayArgs

namespace TrialSetup

variable {t : TrialSetup} {loaded : String × ℕ → ℕ} {steps : List TrialStep}

theorem ready_online {lines : List TraceRecord} (hlines : ∀ r ∈ lines, r ∈ t.trace)
    (hlengths : ∀ r ∈ t.trace, r.contextLength ≤ t.lengths r.key) : t.Ready loaded
      (lines.flatMap fun r => [.append r.key r.contextLength, .flush r.requestId, .read]) := by
  induction lines generalizing loaded with
  | nil => trivial
  | cons r lines ih =>
    have hr := hlines r List.mem_cons_self
    refine ⟨⟨List.mem_map_of_mem hr, r.context_pos, hlengths r hr⟩, ⟨r.key, rfl, ?_⟩, ?_⟩
    · rw [Function.update_self]
      exact r.context_pos
    · exact ih fun r' hr' => hlines r' (List.mem_cons_of_mem r hr')

theorem ready_appends {events : List ((String × ℕ) × ℕ)}
    (hevents : ∀ event ∈ events, event.1 ∈ t.trace.map TraceRecord.key ∧ 0 < event.2 ∧
      event.2 ≤ t.lengths event.1)
    (hrest : t.Ready (events.foldl (fun l event => Function.update l event.1 event.2) loaded)
      steps) : t.Ready loaded (events.map (fun event => .append event.1 event.2) ++ steps) := by
  induction events generalizing loaded with
  | nil => exact hrest
  | cons event events ih =>
    exact ⟨hevents event List.mem_cons_self,
      ih (fun e he => hevents e (List.mem_cons_of_mem event he)) hrest⟩

theorem ready_flushes {requests : List String}
    (hrequests : ∀ request ∈ requests, ∃ key, key.1 = request ∧ 0 < loaded key)
    (hrest : t.Ready loaded steps) : t.Ready loaded (requests.map .flush ++ steps) := by
  induction requests with
  | nil => exact hrest
  | cons request requests ih =>
    exact ⟨hrequests request List.mem_cons_self,
      ih fun r hr => hrequests r (List.mem_cons_of_mem request hr)⟩

theorem ready_reads (lines : List TraceRecord) :
    t.Ready loaded (lines.map fun _ => .read) := by
  induction lines with
  | nil => trivial
  | cons r lines ih => exact ih

/-- A layer that was appended to has rows. -/
theorem loaded_pos {events : List ((String × ℕ) × ℕ)} {key : String × ℕ}
    (hpos : ∀ event ∈ events, 0 < event.2) (hkey : key ∈ events.map Prod.fst ∨ 0 < loaded key) :
    0 < events.foldl (fun l event => Function.update l event.1 event.2) loaded key := by
  induction events generalizing loaded with
  | nil => exact hkey.resolve_left List.not_mem_nil
  | cons event events ih =>
    refine ih (fun e he => hpos e (List.mem_cons_of_mem event he)) ?_
    dsimp only
    by_cases heq : key = event.1
    · rw [heq, Function.update_self]
      exact .inr (hpos event List.mem_cons_self)
    · rw [Function.update_of_ne heq]
      rw [List.map_cons, List.mem_cons, or_iff_right heq] at hkey
      exact hkey

/-- The steps of a trial append the rows of the trace, and flush what has rows. -/
theorem ready_trialSteps (hlengths : t.lengths = contextLengths t.trace) (mode : ReplayMode) :
    t.Ready (fun _ => 0) (trialSteps t.trace mode t.lengths) := by
  cases mode with
  | online =>
    exact ready_online (fun _ hr => hr) fun r hr => hlengths ▸ le_contextLengths hr
  | snapshot =>
    rw [hlengths, trialSteps_snapshot]
    refine ready_appends (fun event he => ?_) (ready_flushes (fun request hrequest => ?_)
      (ready_reads _))
    · rw [hlengths]
      exact mem_hashEvents he
    · have hmem : request ∈ traceRequests t.trace :=
        (List.perm_insertionSort _ _).mem_iff.mp hrequest
      obtain ⟨r, hr, rfl⟩ := List.mem_map.mp (mem_traceRequests.mp hmem)
      exact ⟨r.key, rfl, loaded_pos (fun event he => (mem_hashEvents he).2.1)
        (.inl (key_mem_hashEvents hr))⟩

end TrialSetup

/-- A segment size fits the capacities of the devices: they are whole segments, and hold what the
request takes. -/
def SegmentFits (args : ReplayArgs) (trace : List TraceRecord) (segment : ℕ) : Prop :=
  ∀ request ∈ traceRequests trace, ∀ d < args.devices,
    segment ∣ args.largestBytes trace request d ∧
      args.segmentsTaken trace segment request d * segment ≤ args.largestBytes trace request d

/-- The capacities are whole segments of every trial, and no trial raises an error of the
segments. -/
def ReplayPlan.Sufficient (plan : ReplayPlan) (args : ReplayArgs) (trace : List TraceRecord) :
    Prop :=
  ∀ segment ∈ plan.segments,
    (∀ request ∈ traceRequests trace, ∀ d < plan.devices, segment ∣ plan.capacities request d) ∧
      ∀ env e, trial args trace plan segment env = .error e → ¬ e.OfSegments

section Trial

variable {args : ReplayArgs} {trace : List TraceRecord} {plan : ReplayPlan} {segment : ℕ}
  {env : TrialEnv} {calm : Prop}

theorem appends_trialSteps {mode : ReplayMode} {lengths : String × ℕ → ℕ} {request : String} :
    Appends (trialSteps trace mode lengths) request ↔ request ∈ traceRequests trace := by
  rw [mem_traceRequests, List.mem_map]
  unfold Appends
  cases mode with
  | online =>
    unfold trialSteps
    constructor
    · rintro ⟨key, stop, hmem, rfl⟩
      obtain ⟨r, hr, hstep⟩ := List.mem_flatMap.mp hmem
      simp only [List.mem_cons, TrialStep.append.injEq, reduceCtorEq, List.not_mem_nil,
        or_false] at hstep
      exact ⟨r, hr, hstep.1 ▸ rfl⟩
    · rintro ⟨r, hr, rfl⟩
      exact ⟨r.key, r.contextLength, List.mem_flatMap.mpr ⟨r, hr, List.mem_cons_self⟩, rfl⟩
  | snapshot =>
    unfold trialSteps
    simp only [List.mem_append, List.mem_map, TrialStep.append.injEq, reduceCtorEq, and_false,
      exists_false, or_false]
    constructor
    · rintro ⟨key, stop, ⟨k, hk, rfl, -⟩, rfl⟩
      obtain ⟨r, hr, rfl⟩ := List.mem_map.mp (mem_sortedKeys.mp hk)
      exact ⟨r, hr, rfl⟩
    · rintro ⟨r, hr, rfl⟩
      exact ⟨r.key, _, ⟨r.key, mem_sortedKeys.mpr (List.mem_map_of_mem hr), rfl, rfl⟩, rfl⟩

/-- Rows fit an extent of whole segments exactly if the segments that they take do. -/
theorem fitsFills_segments {capacity : ℕ} {fills : List Fill} (hslots : 0 < segment / replayPage)
    (hpage : replayPage ∣ segment) (hdvd : segment ∣ capacity) :
    FitsFills (segment / replayPage) (capacity / replayPage) fills ↔
      blocksTaken (segment / replayPage) fills * segment ≤ capacity := by
  obtain ⟨q, rfl⟩ := hdvd
  have hpos : 0 < segment := Nat.pos_of_div_pos hslots
  rw [mul_comm segment q, Nat.mul_div_assoc q hpage, fitsFills_iff hslots,
    Nat.mul_le_mul_right_iff hpos]

/-- What a trial needs is that its segments fit. -/
theorem fits_trialSteps (h : planReplay args trace = .ok plan) (hs : segment ∈ plan.segments) :
    TrialSetup.Fits ⟨args, trace, plan, segment, contextLengths trace⟩
        (fun request d => plan.capacities request d / replayPage) (fun _ => 0)
        (trialSteps trace args.mode (contextLengths trace)) ↔
      SegmentFits args trace segment := by
  obtain ⟨hcheck, hsegments, hdevices, -, hcapacities⟩ := ReplayArgs.planReplay_ok h
  rw [hsegments] at hs
  obtain ⟨hle, hdvd⟩ := ReplayArgs.trialSegments_ok hcheck hs
  have hslots : 0 < segment / replayPage := Nat.div_pos hle (by decide)
  unfold TrialSetup.Fits SegmentFits TrialSetup.Whole TrialSetup.locate TrialSetup.perSegment
  simp only [appends_trialSteps, hdevices]
  constructor
  · rintro ⟨hwhole, hfits⟩ request hrequest d hd
    have hcapacity := hcapacities request hrequest d hd
    have hone := hwhole request hrequest d hd
    have hroom := (fitsFills_segments hslots hdvd hone).mp (hfits request d hd)
    rw [← hcapacity]
    exact ⟨hone, hroom⟩
  · intro hall
    constructor
    · intro request hrequest d hd
      rw [hcapacities request hrequest d hd]
      exact (hall request hrequest d hd).1
    · intro request d hd
      by_cases hrequest : request ∈ traceRequests trace
      · obtain ⟨hone, hroom⟩ := hall request hrequest d hd
        rw [hcapacities request hrequest d hd]
        exact (fitsFills_segments hslots hdvd hone).mpr hroom
      · rw [stepFills_trialSteps hrequest]
        trivial

theorem valid_setup (h : planReplay args trace = .ok plan) (hs : segment ∈ plan.segments) :
    TrialSetup.Valid ⟨args, trace, plan, segment, contextLengths trace⟩ := by
  obtain ⟨hcheck, hsegments, -, -, -⟩ := ReplayArgs.planReplay_ok h
  rw [hsegments] at hs
  obtain ⟨hle, hdvd⟩ := ReplayArgs.trialSegments_ok hcheck hs
  obtain ⟨-, htopk, -, -, hmax, hmod⟩ := ReplayArgs.check_ok hcheck
  exact ⟨hle, hdvd, htopk, hmax, hmod, fun r hr => r.context_pos.trans_le (le_contextLengths hr)⟩

theorem trial_eq (h : planReplay args trace = .ok plan) : trial args trace plan segment env =
    (TrialSetup.runSteps ⟨args, trace, plan, segment, contextLengths trace⟩ env 0
      (trialSteps trace args.mode (contextLengths trace)) ⟨fun _ => none, fun _ => 0⟩).1 := by
  obtain ⟨-, -, -, ⟨slots, hgeometry⟩, -⟩ := ReplayArgs.planReplay_ok h
  obtain ⟨slots', hsame⟩ := (geometry_lengths hgeometry).2 segment
  unfold trial
  rw [hsame]

/-- A trial raises an error of the segments exactly if its segments do not fit, unless it raises
another error, which it does not in a calm environment. -/
theorem trial_outcome (env : TrialEnv) (calm : Prop) (h : planReplay args trace = .ok plan)
    (hs : segment ∈ plan.segments)
    (hcalm : calm →
      TrialSetup.Calm ⟨args, trace, plan, segment, contextLengths trace⟩ env) :
    CallResult TrialError.OfSegments calm (SegmentFits args trace segment) (fun _ _ => True)
      (TrialSetup.runSteps ⟨args, trace, plan, segment, contextLengths trace⟩ env 0
        (trialSteps trace args.mode (contextLengths trace)) ⟨fun _ => none, fun _ => 0⟩) := by
  have hinv : TrialSetup.Inv ⟨args, trace, plan, segment, contextLengths trace⟩ calm
      (fun request d => plan.capacities request d / replayPage) ⟨fun _ => none, fun _ => 0⟩ := by
    constructor
    · exact fun _ _ => rfl
    · exact fun _ hlt => absurd hlt (lt_irrefl 0)
    · intro _ _ hstore
      cases hstore
  have hready := TrialSetup.ready_trialSteps
    (t := ⟨args, trace, plan, segment, contextLengths trace⟩) rfl args.mode
  exact (TrialSetup.runSteps_outcome (valid_setup h hs) hcalm hinv hready).imp
    (fits_trialSteps h hs) fun _ _ _ h => h

/-- An environment in which nothing is raised outside of the stores. -/
def calmEnv : TrialEnv where
  order := fun _ start stop => List.range' start (stop - start)
  order_perm := fun _ _ _ => List.Perm.refl _
  pattern := fun _ _ => List.replicate replayPage 0
  length_pattern := fun _ _ => List.length_replicate
  allocates := fun _ _ => true
  content := fun _ _ _ => 0
  writes := fun _ _ => .done
  flushes := fun _ _ => .done
  completes := fun _ => true

/-- A trial whose segments do not fit raises so in a calm environment. -/
theorem trial_raises (h : planReplay args trace = .ok plan) (hs : segment ∈ plan.segments)
    (haddr : ∀ request ∈ traceRequests trace, ∀ d < plan.devices,
      plan.capacities request d ≤ 2 ^ 48) (hfits : ¬ SegmentFits args trace segment) :
    ∃ e, trial args trace plan segment calmEnv = .error e ∧ e.OfSegments := by
  have hcalm : TrialSetup.Calm ⟨args, trace, plan, segment, contextLengths trace⟩ calmEnv :=
    ⟨fun _ _ => rfl, fun _ _ => rfl, fun _ _ => rfl, fun _ => rfl, haddr⟩
  have houtcome := trial_outcome calmEnv True h hs fun _ => hcalm
  obtain ⟨e, st, hrun, hof⟩ := houtcome.raises hfits trivial
  refine ⟨e, ?_, hof⟩
  rw [trial_eq h, hrun]

/-- Sizes that divide the largest one fit. -/
theorem segmentFits_of_dvd (hcheck : args.check = .ok ())
    (hs : segment ∈ args.trialSegments.map Int.toNat) (hdvd : segment ∣ args.largest) :
    SegmentFits args trace segment := by
  obtain ⟨hle, hpage⟩ := ReplayArgs.trialSegments_ok hcheck hs
  obtain ⟨hlarge, -⟩ := ReplayArgs.trialSegments_ok hcheck (ReplayArgs.largest_mem hcheck)
  obtain ⟨c, hc⟩ := hdvd
  have hslots : 0 < segment / replayPage := Nat.div_pos hle (by decide)
  have hcpos : 0 < c := by
    rcases Nat.eq_zero_or_pos c with rfl | hpos
    · unfold replayPage at hlarge
      omega
    · exact hpos
  intro request hrequest d hd
  unfold ReplayArgs.largestBytes
  constructor
  · exact Dvd.dvd.mul_left ⟨c, hc⟩ _
  · have hdiv : args.largest / replayPage = segment / replayPage * c := by
      rw [hc, Nat.mul_div_right_comm hpage]
    have hblocks := blocksTaken_le hslots hcpos (stepFills (placementDevice args.placement
      args.devices) request d (fun _ => 0) (trialSteps trace args.mode (contextLengths trace)))
    rw [← hdiv] at hblocks
    calc args.segmentsTaken trace segment request d * segment
        ≤ args.segmentsTaken trace args.largest request d * c * segment :=
          Nat.mul_le_mul_right segment hblocks
      _ = args.segmentsTaken trace args.largest request d * args.largest := by rw [hc]; ring
      _ ≤ max 1 (args.segmentsTaken trace args.largest request d) * args.largest :=
          Nat.mul_le_mul_right _ (le_max_right _ _)

/-- A snapshot is flushed once, so that whole segments are enough. -/
theorem segmentFits_of_snapshot (hcheck : args.check = .ok ())
    (hs : segment ∈ args.trialSegments.map Int.toNat) (hmode : args.mode = .snapshot)
    (hwhole : ∀ request ∈ traceRequests trace, ∀ d < args.devices,
      segment ∣ args.largestBytes trace request d) : SegmentFits args trace segment := by
  obtain ⟨hle, hpage⟩ := ReplayArgs.trialSegments_ok hcheck hs
  obtain ⟨hlargeLe, hlargePage⟩ :=
    ReplayArgs.trialSegments_ok hcheck (ReplayArgs.largest_mem hcheck)
  have hslots : 0 < segment / replayPage := Nat.div_pos hle (by decide)
  have hlarge : 0 < args.largest / replayPage := Nat.div_pos hlargeLe (by decide)
  intro request hrequest d hd
  obtain ⟨q, hq⟩ := hwhole request hrequest d hd
  refine ⟨⟨q, hq⟩, ?_⟩
  have hbytes : args.segmentsTaken trace args.largest request d * args.largest ≤ segment * q :=
    hq ▸ Nat.mul_le_mul_right _ (le_max_right _ _)
  rw [ReplayArgs.segmentsTaken_eq hrequest, hmode] at hbytes ⊢
  unfold segmentsOf at hbytes ⊢
  dsimp only at hbytes ⊢
  generalize (newRows _ request d _ _).sum = rows at hbytes ⊢
  have hcover := (ceilDiv_le_iff_le_mul (b := rows) hlarge).mp le_rfl
  have hrows : rows ≤ segment / replayPage * q := by
    have hpages : replayPage * rows ≤ replayPage * (segment / replayPage * q) := by
      calc replayPage * rows
          ≤ replayPage * (args.largest / replayPage * (rows ⌈/⌉ (args.largest / replayPage))) :=
            Nat.mul_le_mul_left _ hcover
        _ = rows ⌈/⌉ (args.largest / replayPage) * args.largest := by
            rw [← mul_assoc, Nat.mul_div_cancel' hlargePage, mul_comm]
        _ ≤ segment * q := hbytes
        _ = replayPage * (segment / replayPage * q) := by
            rw [← mul_assoc, Nat.mul_div_cancel' hpage]
    exact Nat.le_of_mul_le_mul_left hpages (by decide)
  rw [hq, mul_comm segment q]
  exact Nat.mul_le_mul_right segment ((ceilDiv_le_iff_le_mul hslots).mpr hrows)

/-- The capacities suffice for all trials if the segments of each fit the bytes of the largest
segments that a request takes. They suffice only then, where the offsets of the rows that an online
trial writes fit the table. -/
theorem planReplay_sufficient (h : planReplay args trace = .ok plan) :
    ((∀ segment ∈ args.trialSegments.map Int.toNat, SegmentFits args trace segment) →
      plan.Sufficient args trace) ∧
    ((args.mode = .online → ∀ request ∈ traceRequests trace, ∀ d < args.devices,
        args.largestBytes trace request d ≤ 2 ^ 48) → plan.Sufficient args trace →
      ∀ segment ∈ args.trialSegments.map Int.toNat, SegmentFits args trace segment) := by
  obtain ⟨hcheck, hsegments, hdevices, -, hcapacities⟩ := ReplayArgs.planReplay_ok h
  constructor
  · intro hall segment hs
    have hfits := hall segment (hsegments ▸ hs)
    constructor
    · intro request hrequest d hd
      rw [hdevices] at hd
      rw [hcapacities request hrequest d hd]
      exact (hfits request hrequest d hd).1
    · intro env e htrial
      have houtcome := trial_outcome env False h hs False.elim
      rw [trial_eq h] at htrial
      generalize TrialSetup.runSteps _ env 0 _ _ = q at houtcome htrial
      obtain ⟨r, st⟩ := q
      obtain rfl : r = .error e := htrial
      exact houtcome.not_missing hfits
  · intro haddr hsufficient segment hs
    rw [← hsegments] at hs
    cases hmode : args.mode with
    | snapshot =>
      refine segmentFits_of_snapshot hcheck (hsegments ▸ hs) hmode fun request hrequest d hd => ?_
      rw [← hcapacities request hrequest d hd]
      exact (hsufficient segment hs).1 request hrequest d (hdevices ▸ hd)
    | online =>
      by_contra hnot
      have hoffsets : ∀ request ∈ traceRequests trace, ∀ d < plan.devices,
          plan.capacities request d ≤ 2 ^ 48 := by
        intro request hrequest d hd
        rw [hdevices] at hd
        rw [hcapacities request hrequest d hd]
        exact haddr hmode request hrequest d hd
      obtain ⟨e, htrial, hof⟩ := trial_raises h hs hoffsets hnot
      exact (hsufficient segment hs).2 calmEnv e htrial hof

end Trial

section Files

/-- The arguments of a replay to a new file. -/
def fileArgs (mode : ReplayMode) (segments : List ℤ) : ReplayArgs where
  mode := mode
  placement := .hash
  target := .file
  windowOffset := none
  windowBytes := none
  vllmBlockSize := none
  layoutConcurrency := false
  workerSweep := none
  segments := segments
  workers := 4
  maxTopk := 2048
  missTrace := false
  maxReadBytes := 1048576
  repeats := 3
  seed := 2026
  noMerge := false

def oneLine : List TraceRecord := [⟨"r", 0, 7, 1, Nat.one_pos⟩]

/-- A layer that grows by three rows. -/
def growingLayer : List TraceRecord := [⟨"r", 0, 7, 3, by decide⟩, ⟨"r", 1, 7, 6, by decide⟩]

/-- With 8192 and 12288 bytes, the extent of one row is a single segment of 12288, and not whole
segments of 8192. The extent of a layer that grows by three rows twice is, but its rows take four
of these, for which there is no room. -/
theorem planReplay_insufficient :
    (∃ plan, planReplay (fileArgs .snapshot [8192, 12288]) oneLine = .ok plan ∧
      plan.capacities "r" 0 = 12288 ∧
      ¬ plan.Sufficient (fileArgs .snapshot [8192, 12288]) oneLine) ∧
    ∃ plan, planReplay (fileArgs .online [8192, 12288]) growingLayer = .ok plan ∧
      plan.capacities "r" 0 = 24576 ∧
      ∃ e, trial (fileArgs .online [8192, 12288]) growingLayer plan 8192 calmEnv = .error e ∧
        e.OfSegments := by
  constructor
  · obtain ⟨plan, hplan, hsegments, hcapacity⟩ : ∃ plan,
        planReplay (fileArgs .snapshot [8192, 12288]) oneLine = .ok plan ∧
          8192 ∈ plan.segments ∧ plan.capacities "r" 0 = 12288 :=
      ⟨_, rfl, by decide, by decide⟩
    refine ⟨plan, hplan, hcapacity, fun hsufficient => ?_⟩
    have hdvd := (hsufficient 8192 hsegments).1 "r" (by decide) 0 plan.devices_pos
    rw [hcapacity] at hdvd
    revert hdvd
    decide
  · obtain ⟨plan, hplan, hsegments, hcapacity, hdevices⟩ : ∃ plan,
        planReplay (fileArgs .online [8192, 12288]) growingLayer = .ok plan ∧
          8192 ∈ plan.segments ∧ plan.capacities "r" 0 = 24576 ∧ plan.devices = 1 :=
      ⟨_, rfl, by decide, by decide, rfl⟩
    refine ⟨plan, hplan, hcapacity, trial_raises hplan hsegments ?_ ?_⟩
    · intro request hrequest d hd
      have hr : request = "r" := by
        revert request
        decide
      obtain rfl : d = 0 := by omega
      rw [hr, hcapacity]
      decide
    · intro hfits
      have hroom := (hfits "r" (by decide) 0 (by decide)).2
      revert hroom
      decide

/-- Sizes of which each divides the largest suffice. -/
theorem planReplay_sufficient_online :
    ∃ plan, planReplay (fileArgs .online [8192, 16384]) growingLayer = .ok plan ∧
      plan.capacities "r" 0 = 32768 ∧
      plan.Sufficient (fileArgs .online [8192, 16384]) growingLayer := by
  obtain ⟨plan, hplan, hcapacity⟩ : ∃ plan,
      planReplay (fileArgs .online [8192, 16384]) growingLayer = .ok plan ∧
        plan.capacities "r" 0 = 32768 :=
    ⟨_, rfl, by decide⟩
  refine ⟨plan, hplan, hcapacity, (planReplay_sufficient hplan).1 fun segment hs => ?_⟩
  have hcheck := (ReplayArgs.planReplay_ok hplan).1
  apply segmentFits_of_dvd hcheck hs
  have hsizes : ∀ s ∈ (fileArgs .online [8192, 16384]).trialSegments.map Int.toNat,
      s ∣ (fileArgs .online [8192, 16384]).largest := by decide
  exact hsizes segment hs

end Files

end Umm
