import Umm.Bench.ReplayTrial
import Umm.SparseKv.StoreRoom
import Umm.Lib.Blocks

/-! The room of the stores of a trial: which steps find room for their rows, and that a trial raises
an error of the segments exactly when one of them does not. -/
namespace Umm
open Umm.Lib

def TrialError.OfSegments : TrialError → Prop
  | .store e => e.OfSegments
  | _ => False

theorem ReplayTrial.onStore_outcome {α : Type} {calm needs : Prop} {st : ReplayTrial}
    {request : String} {store : SparseKVStore} (hst : st.stores request = some store)
    {post : α → SparseKVStore → Prop} {call : SparseKVStore.Call α}
    (h : CallResult StoreError.OfSegments calm needs post (call store)) :
    CallResult TrialError.OfSegments calm needs (fun a st' => ∃ store', post a store' ∧
      st' = { st with stores := Function.update st.stores request (some store') })
      (ReplayTrial.onStore request call st) := by
  unfold ReplayTrial.onStore
  simp only [Fallible.get_bind, hst, Fallible.set_bind]
  generalize call store = q at h
  cases h with
  | fine hn hp => exact .fine hn ⟨_, hp, rfl⟩
  | missing he hn => exact .missing he hn
  | failed he hc => exact .failed he hc

/-- What the steps put in the segments of a request on a device. -/
def stepFills (locate : ℕ → ℕ → ℕ) (request : String) (d : ℕ) :
    (String × ℕ → ℕ) → List TrialStep → List Fill
  | _, [] => []
  | loaded, .append key stop :: steps =>
    if key.1 = request then
      .units (rowsOn locate key.2 (loaded key) stop d) ::
        stepFills locate request d (Function.update loaded key stop) steps
    else stepFills locate request d (Function.update loaded key stop) steps
  | loaded, .flush r :: steps =>
    if r = request then .flush :: stepFills locate request d loaded steps
    else stepFills locate request d loaded steps
  | loaded, .read :: steps => stepFills locate request d loaded steps

/-- The requests that the steps append rows to. -/
def Appends (steps : List TrialStep) (request : String) : Prop :=
  ∃ key stop, TrialStep.append key stop ∈ steps ∧ key.1 = request

namespace TrialSetup

/-- The trial is one of an accepted replay. -/
structure Valid (t : TrialSetup) : Prop where
  page_le : replayPage ≤ t.segment
  page_dvd : replayPage ∣ t.segment
  topk : 1 ≤ t.args.maxTopk
  maxRead_le : (replayPage : ℤ) ≤ t.args.maxReadBytes
  maxRead_dvd : t.args.maxReadBytes % replayPage = 0
  lengths_pos : ∀ r ∈ t.trace, 0 < t.lengths r.key

/-- The rows that fit a segment. -/
def perSegment (t : TrialSetup) : ℕ := t.segment / replayPage

def locate (t : TrialSetup) : ℕ → ℕ → ℕ := placementDevice t.args.placement t.plan.devices

/-- The extents of a request are whole segments. -/
def Whole (t : TrialSetup) (request : String) : Prop :=
  ∀ d < t.plan.devices, t.segment ∣ t.plan.capacities request d

def maxTokens (t : TrialSetup) (request : String) : ℕ :=
  ((requestLayers t.trace request).map fun layer => t.lengths (request, layer)).foldr max 0

/-- Nothing outside of the stores raises, and the addresses of the extents fit the table. -/
structure Calm (t : TrialSetup) (env : TrialEnv) : Prop where
  allocates : ∀ request d, env.allocates request d = true
  writes : ∀ i token, env.writes i token = .done
  flushes : ∀ i d, env.flushes i d = .done
  completes : ∀ i, env.completes i = true
  addressed : ∀ request ∈ traceRequests t.trace, ∀ d < t.plan.devices,
    t.plan.capacities request d ≤ 2 ^ 48

/-- The store of a request has this room. -/
structure Holds (t : TrialSetup) (calm : Prop) (request : String) (store : SparseKVStore)
    (rooms : ℕ → ℕ) : Prop where
  filling : store.Filling calm t.perSegment rooms
  unit : store.vm.unitSize = replayPage
  strategy : store.vm.strategy = t.strategy request
  layers : store.table.numLayers = (requestLayers t.trace request).length
  tokens : store.table.maxTokens = t.maxTokens request

variable {t : TrialSetup} {env : TrialEnv} {calm : Prop} {request : String}
  {store store' : SparseKVStore} {rooms : ℕ → ℕ}

theorem Holds.of_sameShape (h : t.Holds calm request store rooms)
    (hsame : SparseKVStore.SameShape store store') {rooms' : ℕ → ℕ}
    (hf : store'.Filling calm t.perSegment rooms') : t.Holds calm request store' rooms' where
  filling := hf
  unit := hsame.1.trans h.unit
  strategy := hsame.2.1.trans h.strategy
  layers := hsame.2.2.1.trans h.layers
  tokens := hsame.2.2.2.trans h.tokens

theorem locate_lt (layer token : ℕ) : t.locate layer token < t.plan.devices :=
  placementDevice_lt _ t.plan.devices_pos _ _

/-- A row of a layer is on the device of its original layer. -/
theorem Holds.deviceOf (h : t.Holds calm request store rooms) {layer : ℕ}
    (hlayer : layer ∈ requestLayers t.trace request) (token : ℕ) :
    store.deviceOf ((requestLayers t.trace request).idxOf layer) token =
      t.locate layer token := by
  have hget : (requestLayers t.trace request).getD
      ((requestLayers t.trace request).idxOf layer) 0 = layer := by
    rw [List.getD_eq_getElem?_getD, List.getElem?_idxOf hlayer, Option.getD_some]
  unfold SparseKVStore.deviceOf
  rw [h.strategy]
  unfold TrialSetup.strategy replayStrategy TrialSetup.locate
  simp only [Int.toNat_natCast, hget]

theorem le_maxTokens {layer : ℕ} (hlayer : layer ∈ requestLayers t.trace request) :
    t.lengths (request, layer) ≤ t.maxTokens request :=
  List.le_max_of_le' 0 (List.mem_map_of_mem hlayer) le_rfl

section Open

variable {d : ℕ} {capacities : List ℕ}

theorem mem_allocExtents {e : VirtualMedia.Extent}
    (he : e ∈ t.allocExtents env request d capacities) :
    e.spBytes = t.segment ∧ e.bytes.length ∈ capacities := by
  induction capacities generalizing d with
  | nil => cases he
  | cons capacity rest ih =>
    unfold allocExtents at he
    split_ifs at he
    · rcases List.mem_cons.mp he with rfl | he
      · refine ⟨rfl, ?_⟩
        rw [List.length_map, List.length_range]
        exact List.mem_cons_self
      · obtain ⟨hsp, hlen⟩ := ih he
        exact ⟨hsp, List.mem_cons_of_mem _ hlen⟩
    · cases he

/-- Where every extent was allocated, each has its capacity. -/
theorem length_allocExtents (h : capacities.length ≤ (t.allocExtents env request d
    capacities).length) : (t.allocExtents env request d capacities).map
      (fun e => e.bytes.length) = capacities := by
  induction capacities generalizing d with
  | nil => rfl
  | cons capacity rest ih =>
    unfold allocExtents at h ⊢
    split_ifs at h ⊢
    · rw [List.length_cons, List.length_cons] at h
      rw [List.map_cons, ih (by omega), List.length_map, List.length_range]
    · rw [List.length_cons, List.length_nil] at h
      omega

theorem allocExtents_calm (h : ∀ request d, env.allocates request d = true) :
    (t.allocExtents env request d capacities).length = capacities.length := by
  induction capacities generalizing d with
  | nil => rfl
  | cons capacity rest ih =>
    unfold allocExtents
    rw [if_pos (h request d), List.length_cons, List.length_cons, ih]

theorem length_capacities : (t.capacities request).length = t.plan.devices := by
  unfold TrialSetup.capacities
  rw [List.length_map, List.length_range]

theorem mem_capacities {n : ℕ} :
    n ∈ t.capacities request ↔ ∃ d < t.plan.devices, t.plan.capacities request d = n := by
  unfold TrialSetup.capacities
  simp only [List.mem_map, List.mem_range]

theorem replayPage_cast : ((replayPage : ℕ) : ℤ) = 4096 := rfl

theorem Valid.segment_pos (hv : t.Valid) : 0 < t.segment :=
  (by decide : 0 < replayPage).trans_le hv.page_le

theorem length_allocated (h : (t.capacities request).length ≤
    (t.allocExtents env request 0 (t.capacities request)).length) :
    (t.allocExtents env request 0 (t.capacities request)).length = t.plan.devices := by
  have hlen := congrArg List.length (length_allocExtents h)
  rwa [List.length_map, length_capacities] at hlen

/-- Where every extent was allocated, extent `d` is that of device `d`. -/
theorem getElem?_allocExtents (h : (t.capacities request).length ≤
    (t.allocExtents env request 0 (t.capacities request)).length) {e : VirtualMedia.Extent}
    (he : (t.allocExtents env request 0 (t.capacities request))[d]? = some e) :
    d < t.plan.devices ∧ e.bytes.length = t.plan.capacities request d := by
  have hlt : d < t.plan.devices := by
    rw [← length_allocated h]
    exact (List.getElem?_eq_some_iff.mp he).1
  have hmap : (t.capacities request)[d]? = some e.bytes.length := by
    rw [← length_allocExtents h, List.getElem?_map, he, Option.map_some]
  have hcap : (t.capacities request)[d]? = some (t.plan.capacities request d) := by
    unfold TrialSetup.capacities
    rw [List.getElem?_map, List.getElem?_range hlt, Option.map_some]
  exact ⟨hlt, Option.some.inj (hmap.symm.trans hcap)⟩

theorem allocExtents_spBytes : ∀ e ∈ t.allocExtents env request d capacities,
    e.spBytes = t.segment := fun _ he => (mem_allocExtents he).1

/-- An extent that is not whole segments is one that was planned. -/
theorem not_whole (h : ∃ e ∈ t.allocExtents env request 0 (t.capacities request),
    ¬ t.segment ∣ e.bytes.length) : ¬ t.Whole request := by
  obtain ⟨e, he, hnot⟩ := h
  intro hwhole
  obtain ⟨d, hd, hlen⟩ := mem_capacities.mp (mem_allocExtents he).2
  rw [← hlen] at hnot
  exact hnot (hwhole d hd)

/-- Where not every extent could be allocated, an error is raised, of the segments or another
one. -/
theorem openMedia_short (hv : t.Valid) (hshort : (t.allocExtents env request 0
    (t.capacities request)).length < (t.capacities request).length) :
    ∃ e, t.openMedia env request = .error e ∧ (e.OfSegments → ¬ t.Whole request) := by
  unfold openMedia
  dsimp only
  rw [if_pos hshort, replayPage_cast]
  by_cases hall : ∀ e ∈ t.allocExtents env request 0 (t.capacities request),
      t.segment ∣ e.bytes.length
  · obtain ⟨mgrs, hmgrs, -⟩ := VirtualMedia.initMgrs_room (d := 0) hv.segment_pos hv.page_dvd
      allocExtents_spBytes hall
    rw [hmgrs]
    exact ⟨_, rfl, False.elim⟩
  · push Not at hall
    obtain ⟨n, hn⟩ := VirtualMedia.initMgrs_ragged (d := 0) hv.segment_pos hv.page_dvd
      allocExtents_spBytes hall
    rw [hn]
    exact ⟨_, rfl, fun _ => not_whole hall⟩

/-- The media layer of a request, where every extent was allocated. -/
theorem openMedia_full (hv : t.Valid) (hfull : (t.capacities request).length ≤
    (t.allocExtents env request 0 (t.capacities request)).length) :
    (t.Whole request ∧ ∃ vm, t.openMedia env request = .ok vm ∧
      vm.Filling (fun _ => []) t.perSegment (fun d => t.plan.capacities request d / replayPage) ∧
      vm.unitSize = replayPage ∧ vm.strategy = t.strategy request ∧
      ∀ geo ∈ vm.mgrs.map DeviceSegmentManager.geo,
        geo.nSeg * geo.spBytes ∈ t.capacities request) ∨
    (¬ t.Whole request ∧ ∃ e, t.openMedia env request = .error e ∧ e.OfSegments) := by
  have hget := fun d e he => getElem?_allocExtents hfull (d := d) (e := e) he
  have hlength := length_allocated hfull
  have hdev : (t.strategy request).numDevices =
      (t.allocExtents env request 0 (t.capacities request)).length := hlength.symm
  have hne : t.allocExtents env request 0 (t.capacities request) ≠ [] := by
    rw [← List.length_pos_iff, hlength]
    exact t.plan.devices_pos
  unfold openMedia
  dsimp only
  rw [if_neg (not_lt.mpr hfull), replayPage_cast]
  by_cases hall : ∀ e ∈ t.allocExtents env request 0 (t.capacities request),
      t.segment ∣ e.bytes.length
  · have hwhole : t.Whole request := by
      intro d hd
      rw [← hlength] at hd
      rw [← (hget d _ (List.getElem?_eq_getElem hd)).2]
      exact hall _ (List.getElem_mem hd)
    obtain ⟨vm, hvm, hfill, hgeo⟩ := VirtualMedia.init_filling
      (decide (¬ (t.args.noMerge ∨ t.args.layoutConcurrency))) hv.segment_pos hv.page_dvd hne hdev
      hv.maxRead_le hv.maxRead_dvd allocExtents_spBytes hall fun d e he => by rw [(hget d e he).2]
    obtain ⟨-, -, -, hunit, hstrategy⟩ := VirtualMedia.init_wf hvm
    rw [hvm]
    refine .inl ⟨hwhole, vm, rfl, hfill, hunit, hstrategy, fun geo hmem => ?_⟩
    obtain ⟨e, he, hlen⟩ := hgeo geo hmem
    rw [hlen]
    exact (mem_allocExtents he).2
  · push Not at hall
    obtain ⟨n, hn⟩ := VirtualMedia.initMgrs_ragged (d := 0) hv.segment_pos hv.page_dvd
      allocExtents_spBytes hall
    rw [VirtualMedia.init_checked _ hne hdev hv.maxRead_le hv.maxRead_dvd, hn]
    exact .inr ⟨not_whole hall, _, rfl, trivial⟩

/-- How the extents of a request come out: as whole segments with their room, as an error of the
segments, or as another error, which does not happen in a calm environment. -/
theorem openMedia_outcome (hv : t.Valid) (hcalm : calm → t.Calm env)
    (hrequest : request ∈ traceRequests t.trace) :
    (t.Whole request ∧ ∃ vm, t.openMedia env request = .ok vm ∧
      vm.Filling (fun _ => []) t.perSegment (fun d => t.plan.capacities request d / replayPage) ∧
      vm.unitSize = replayPage ∧ vm.strategy = t.strategy request ∧
      (calm → ∀ geo ∈ vm.mgrs.map DeviceSegmentManager.geo, geo.nSeg * geo.spBytes ≤ 2 ^ 48)) ∨
    (¬ t.Whole request ∧ ∃ e, t.openMedia env request = .error e ∧ e.OfSegments) ∨
    (¬ calm ∧ ∃ e, t.openMedia env request = .error e ∧ ¬ e.OfSegments) := by
  by_cases hshort : (t.allocExtents env request 0 (t.capacities request)).length <
      (t.capacities request).length
  · have hnotcalm : ¬ calm := by
      intro hc
      rw [allocExtents_calm (hcalm hc).allocates] at hshort
      exact lt_irrefl _ hshort
    obtain ⟨e, he, hwhole⟩ := openMedia_short hv hshort
    by_cases hof : e.OfSegments
    · exact .inr (.inl ⟨hwhole hof, e, he, hof⟩)
    · exact .inr (.inr ⟨hnotcalm, e, he, hof⟩)
  · rcases openMedia_full hv (not_lt.mp hshort) with
      ⟨hwhole, vm, hvm, hfill, hunit, hstrategy, hgeo⟩ | ⟨hnot, e, he, hof⟩
    · refine .inl ⟨hwhole, vm, hvm, hfill, hunit, hstrategy, fun hc geo hmem => ?_⟩
      obtain ⟨d, hd, hcapacity⟩ := mem_capacities.mp (hgeo geo hmem)
      rw [← hcapacity]
      exact (hcalm hc).addressed request hrequest d hd
    · exact .inr (.inl ⟨hnot, e, he, hof⟩)

/-- The store of a request that is in the trace. -/
theorem openStore_outcome (hv : t.Valid) (hcalm : calm → t.Calm env) {r : TraceRecord}
    (hr : r ∈ t.trace) :
    (t.Whole r.requestId ∧ ∃ store, t.openStore env r.requestId = .ok store ∧
      t.Holds calm r.requestId store fun d => t.plan.capacities r.requestId d / replayPage) ∨
    (¬ t.Whole r.requestId ∧ ∃ e, t.openStore env r.requestId = .error e ∧ e.OfSegments) ∨
    (¬ calm ∧ ∃ e, t.openStore env r.requestId = .error e ∧ ¬ e.OfSegments) := by
  have hlayer : r.layerId ∈ requestLayers t.trace r.requestId :=
    mem_requestLayers.mpr (List.mem_map_of_mem hr)
  have hlayers := List.length_pos_of_mem hlayer
  have htokens : 0 < t.maxTokens r.requestId :=
    (hv.lengths_pos r hr).trans_le (le_maxTokens hlayer)
  have htopk := hv.topk
  unfold openStore
  rcases openMedia_outcome hv hcalm (mem_traceRequests.mpr (List.mem_map_of_mem hr)) with
    ⟨hwhole, vm, hvm, hfill, hunit, hstrategy, haddr⟩ | ⟨hnot, e, he, hof⟩ | ⟨hnot, e, he, hof⟩
  · rw [hvm]
    refine .inl ⟨hwhole, ?_⟩
    dsimp only
    unfold SparseKVStore.init SlotTable.init
    rw [if_neg (by omega), if_neg]
    · exact ⟨_, rfl, ⟨⟨_, hfill⟩, haddr⟩, hunit, hstrategy, Int.toNat_natCast _,
        Int.toNat_natCast _⟩
    · unfold maxTokens at htokens
      omega
  · rw [he]
    exact .inr (.inl ⟨hnot, e, rfl, hof⟩)
  · rw [he]
    exact .inr (.inr ⟨hnot, e, rfl, hof⟩)

end Open

section Steps

variable {st : ReplayTrial} {i : ℕ} {key : String × ℕ}

/-- The rows of a list that a device gets. -/
def rowsAt (t : TrialSetup) (layer : ℕ) (tokens : List ℕ) (d : ℕ) : ℕ :=
  tokens.countP fun token => t.locate layer token = d

theorem rowsAt_cons (layer token : ℕ) (tokens : List ℕ) (d : ℕ) :
    t.rowsAt layer (token :: tokens) d =
      t.rowsAt layer tokens d + if t.locate layer token = d then 1 else 0 := by
  unfold rowsAt
  rw [List.countP_cons]
  simp only [decide_eq_true_eq]

theorem rowsAt_fits {layer token : ℕ} {tokens : List ℕ} :
    (0 < rooms (t.locate layer token) ∧ ∀ d < t.plan.devices, t.rowsAt layer tokens d ≤
      Function.update rooms (t.locate layer token) (rooms (t.locate layer token) - 1) d) ↔
      ∀ d < t.plan.devices, t.rowsAt layer (token :: tokens) d ≤ rooms d := by
  constructor
  · rintro ⟨hpos, hrest⟩ d hd
    have := hrest d hd
    rw [rowsAt_cons]
    by_cases heq : t.locate layer token = d
    · subst heq
      rw [Function.update_self] at this
      rw [if_pos rfl]
      omega
    · rw [Function.update_of_ne (Ne.symm heq)] at this
      rw [if_neg heq]
      exact this
  · intro hall
    have hfirst := hall _ (locate_lt layer token)
    rw [rowsAt_cons, if_pos rfl] at hfirst
    refine ⟨by omega, fun d hd => ?_⟩
    have := hall d hd
    rw [rowsAt_cons] at this
    by_cases heq : t.locate layer token = d
    · subst heq
      rw [Function.update_self]
      omega
    · rw [Function.update_of_ne (Ne.symm heq)]
      rw [if_neg heq] at this
      exact this

theorem rowsAt_left (layer token : ℕ) (tokens : List ℕ) :
    (fun d => Function.update rooms (t.locate layer token) (rooms (t.locate layer token) - 1) d -
      t.rowsAt layer tokens d) = fun d => rooms d - t.rowsAt layer (token :: tokens) d := by
  funext d
  rw [rowsAt_cons]
  by_cases heq : t.locate layer token = d
  · subst heq
    rw [Function.update_self, if_pos rfl]
    omega
  · rw [Function.update_of_ne (Ne.symm heq), if_neg heq, Nat.add_zero]

/-- The rows of an append take the room of a unit each. -/
theorem offloadRows_outcome (hcalm : calm → t.Calm env) (hst : st.stores key.1 = some store)
    (hh : t.Holds calm key.1 store rooms) (hkey : key.2 ∈ requestLayers t.trace key.1)
    {tokens : List ℕ} (htokens : ∀ token ∈ tokens, token < t.lengths key) :
    CallResult TrialError.OfSegments calm
      (∀ d < t.plan.devices, t.rowsAt key.2 tokens d ≤ rooms d)
      (fun _ st' => ∃ store', t.Holds calm key.1 store'
          (fun d => rooms d - t.rowsAt key.2 tokens d) ∧
        st' = { st with stores := Function.update st.stores key.1 (some store') })
      (t.offloadRows env i key tokens st) := by
  induction tokens generalizing st store rooms with
  | nil =>
    refine .fine (fun d _ => Nat.zero_le _) ⟨store, hh, ?_⟩
    rw [← hst, Function.update_eq_self]
  | cons token tokens ih =>
    have hlt : (requestLayers t.trace key.1).idxOf key.2 < store.table.numLayers := by
      rw [hh.layers]
      exact List.idxOf_lt_length_of_mem hkey
    have htoken : token < store.table.maxTokens := by
      rw [hh.tokens]
      exact (htokens token List.mem_cons_self).trans_le (le_maxTokens hkey)
    have hlen := (env.length_pattern key token).trans hh.unit.symm
    have hone := hh.filling.offload (fun _ _ => env.writes i token)
      (fun hc => (hcalm hc).writes i token) hlt htoken hlen
    rw [hh.deviceOf hkey] at hone
    unfold offloadRows
    refine ((ReplayTrial.onStore_outcome hst hone).bind fun _ st₁ _ h₁ => ?_).imp rowsAt_fits
      fun _ _ _ h => h
    obtain ⟨store₁, ⟨hsame, hfilling⟩, rfl⟩ := h₁
    have hst₁ : ReplayTrial.stores
        { st with stores := Function.update st.stores key.1 (some store₁) } key.1 = some store₁ :=
      Function.update_self _ _ _
    have hrest := ih hst₁ (hh.of_sameShape hsame hfilling) fun token' ht =>
      htokens token' (List.mem_cons_of_mem token ht)
    refine hrest.imp Iff.rfl fun _ st' _ h' => ?_
    obtain ⟨store', hholds, rfl⟩ := h'
    rw [rowsAt_left] at hholds
    exact ⟨store', hholds, by rw [Function.update_idem]⟩

/-- What holds between the steps, where `rooms` is the room of each request. -/
structure Inv (t : TrialSetup) (calm : Prop) (rooms : String → ℕ → ℕ) (st : ReplayTrial) :
    Prop where
  unopened : ∀ request, st.stores request = none →
    rooms request = fun d => t.plan.capacities request d / replayPage
  loaded : ∀ key, 0 < st.loaded key → (st.stores key.1).isSome = true
  opened : ∀ request store, st.stores request = some store →
    t.Whole request ∧ t.Holds calm request store (rooms request)

variable {rooms : String → ℕ → ℕ} {left : ℕ → ℕ}

/-- The store of one request made a step. -/
theorem Inv.set (hi : t.Inv calm rooms st) (hwhole : t.Whole request)
    (hh : t.Holds calm request store left) : t.Inv calm (Function.update rooms request left)
      { st with stores := Function.update st.stores request (some store) } := by
  constructor
  · intro r hr
    dsimp only at hr
    have hne : r ≠ request := by
      rintro rfl
      rw [Function.update_self] at hr
      cases hr
    rw [Function.update_of_ne hne] at hr ⊢
    exact hi.unopened r hr
  · intro key hkey
    dsimp only
    by_cases heq : key.1 = request
    · rw [heq, Function.update_self]
      rfl
    · rw [Function.update_of_ne heq]
      exact hi.loaded key hkey
  · intro r s hs
    dsimp only at hs
    by_cases heq : r = request
    · subst heq
      rw [Function.update_self] at hs ⊢
      obtain rfl := Option.some.inj hs
      exact ⟨hwhole, hh⟩
    · rw [Function.update_of_ne heq] at hs ⊢
      exact hi.opened r s hs

/-- The store is opened, if its extents are whole segments. -/
theorem storeFor_outcome (hv : t.Valid) (hcalm : calm → t.Calm env) (hi : t.Inv calm rooms st)
    {r : TraceRecord} (hr : r ∈ t.trace) :
    CallResult TrialError.OfSegments calm (t.Whole r.requestId) (fun _ st' =>
      t.Inv calm rooms st' ∧ (st'.stores r.requestId).isSome = true ∧ st'.loaded = st.loaded)
      (t.storeFor env r.requestId st) := by
  unfold storeFor
  rw [Fallible.get_bind]
  cases hst : st.stores r.requestId with
  | some store =>
    exact .fine (hi.opened _ _ hst).1 ⟨hi, by rw [hst]; rfl, rfl⟩
  | none =>
    dsimp only
    rcases openStore_outcome hv hcalm hr with
      ⟨hwhole, store, hok, hh⟩ | ⟨hnot, e, he, hof⟩ | ⟨hnot, e, he, hof⟩
    · rw [hok]
      have hset := hi.set hwhole hh
      rw [← hi.unopened _ hst, Function.update_eq_self] at hset
      refine .fine hwhole ⟨hset, ?_, rfl⟩
      dsimp only
      rw [Function.update_self]
      rfl
    · rw [he]
      exact .missing hof hnot
    · rw [he]
      exact .failed hof hnot

/-- The rows of an append, in any order. -/
theorem rowsAt_order (layer start stop d : ℕ) :
    t.rowsAt layer (env.order i start stop) d = rowsOn t.locate layer start stop d :=
  (env.order_perm i start stop).countP_eq _

/-- An append takes the room of its rows. -/
theorem append_outcome (hv : t.Valid) (hcalm : calm → t.Calm env) (hi : t.Inv calm rooms st)
    (hkey : key ∈ t.trace.map TraceRecord.key) {stop : ℕ} (hpos : 0 < stop)
    (hstop : stop ≤ t.lengths key) :
    CallResult TrialError.OfSegments calm (t.Whole key.1 ∧ ∀ d < t.plan.devices,
        rowsOn t.locate key.2 (st.loaded key) stop d ≤ rooms key.1 d)
      (fun _ st' => t.Inv calm (Function.update rooms key.1 fun d =>
          rooms key.1 d - rowsOn t.locate key.2 (st.loaded key) stop d) st' ∧
        st'.loaded = Function.update st.loaded key stop)
      (t.append env i key stop st) := by
  obtain ⟨r, hr, rfl⟩ := List.mem_map.mp hkey
  unfold append
  rw [Fallible.get_bind]
  by_cases hsame : st.loaded r.key = stop
  · have hsome := hi.loaded r.key (hsame ▸ hpos)
    obtain ⟨store, hstore⟩ := Option.isSome_iff_exists.mp hsome
    have hnone : ∀ d, rowsOn t.locate r.key.2 (st.loaded r.key) stop d = 0 := by
      intro d
      unfold rowsOn
      rw [hsame, Nat.sub_self]
      rfl
    rw [if_pos hsame]
    refine .fine ⟨(hi.opened _ _ hstore).1, fun d _ => by rw [hnone]; exact Nat.zero_le _⟩
      ⟨?_, ?_⟩
    · simp only [hnone, Nat.sub_zero]
      rwa [Function.update_eq_self]
    · rw [← hsame, Function.update_eq_self]
  · rw [if_neg hsame]
    refine ((storeFor_outcome hv hcalm hi hr).bind fun _ st₁ _ h₁ => ?_)
    obtain ⟨hi₁, hsome, hloaded⟩ := h₁
    obtain ⟨store, hstore⟩ := Option.isSome_iff_exists.mp hsome
    obtain ⟨hwhole, hh⟩ := hi₁.opened _ _ hstore
    have htokens : ∀ token ∈ env.order i (st.loaded r.key) stop, token < t.lengths r.key := by
      intro token htoken
      have hrange := (env.order_perm i (st.loaded r.key) stop).mem_iff.mp htoken
      rw [List.mem_range'_1] at hrange
      omega
    have hrows := offloadRows_outcome hcalm (i := i) hstore hh (mem_requestLayers.mpr hkey) htokens
    simp only [rowsAt_order] at hrows
    refine (hrows.bind fun _ st₂ _ h₂ => ?_).imp (and_true _).to_iff fun _ _ _ h => h
    obtain ⟨store₂, hh₂, rfl⟩ := h₂
    rw [Fallible.get_bind]
    have hset := hi₁.set hwhole hh₂
    refine .fine trivial ⟨⟨hset.unopened, ?_, hset.opened⟩, ?_⟩
    · intro key hloaded'
      by_cases heq : key = r.key
      · subst heq
        dsimp only
        rw [Function.update_self]
        rfl
      · dsimp only at hloaded'
        rw [Function.update_of_ne heq] at hloaded'
        exact hset.loaded key hloaded'
    · dsimp only
      rw [hloaded]

/-- A flush keeps the room of the whole segments. -/
theorem flush_outcome (hcalm : calm → t.Calm env) (hi : t.Inv calm rooms st)
    (hsome : (st.stores request).isSome = true) :
    CallResult TrialError.OfSegments calm True
      (fun _ st' => t.Inv calm (Function.update rooms request fun d =>
        rooms request d / t.perSegment * t.perSegment) st' ∧ st'.loaded = st.loaded)
      (ReplayTrial.onStore request (SparseKVStore.flush (env.flushes i)) st) := by
  obtain ⟨store, hstore⟩ := Option.isSome_iff_exists.mp hsome
  obtain ⟨hwhole, hh⟩ := hi.opened _ _ hstore
  have hflush := hh.filling.flush (env.flushes i) fun hc d => (hcalm hc).flushes i d
  refine (ReplayTrial.onStore_outcome hstore hflush).imp Iff.rfl fun _ st' _ h' => ?_
  obtain ⟨store', ⟨hsame, hfilling⟩, rfl⟩ := h'
  exact ⟨hi.set hwhole (hh.of_sameShape hsame hfilling), rfl⟩

theorem outside_outcome (hcalm : calm → t.Calm env) :
    CallResult TrialError.OfSegments calm True (fun _ st' => st' = st) (env.outside i st) := by
  unfold TrialEnv.outside
  split_ifs with hdone
  · exact .fine trivial rfl
  · exact .failed id fun hc => hdone ((hcalm hc).completes i)

end Steps

section Run

variable {st : ReplayTrial} {rooms : String → ℕ → ℕ} {steps : List TrialStep}
  {loaded : String × ℕ → ℕ}

/-- The steps append rows of the trace only, and flush what has rows. -/
def Ready (t : TrialSetup) : (String × ℕ → ℕ) → List TrialStep → Prop
  | _, [] => True
  | loaded, .append key stop :: steps =>
    (key ∈ t.trace.map TraceRecord.key ∧ 0 < stop ∧ stop ≤ t.lengths key) ∧
      Ready t (Function.update loaded key stop) steps
  | loaded, .flush request :: steps =>
    (∃ key, key.1 = request ∧ 0 < loaded key) ∧ Ready t loaded steps
  | loaded, .read :: steps => Ready t loaded steps

/-- The extents that are opened are whole segments, and the rows find room in them. -/
def Fits (t : TrialSetup) (rooms : String → ℕ → ℕ) (loaded : String × ℕ → ℕ)
    (steps : List TrialStep) : Prop :=
  (∀ request, Appends steps request → t.Whole request) ∧
    ∀ request, ∀ d < t.plan.devices,
      FitsFills t.perSegment (rooms request d) (stepFills t.locate request d loaded steps)

theorem fits_append {key : String × ℕ} {stop : ℕ} :
    ((t.Whole key.1 ∧ ∀ d < t.plan.devices,
        rowsOn t.locate key.2 (loaded key) stop d ≤ rooms key.1 d) ∧
      t.Fits (Function.update rooms key.1 fun d =>
        rooms key.1 d - rowsOn t.locate key.2 (loaded key) stop d)
        (Function.update loaded key stop) steps) ↔
      t.Fits rooms loaded (.append key stop :: steps) := by
  constructor
  · rintro ⟨⟨hwhole, hroom⟩, hopened, hfits⟩
    constructor
    · rintro request ⟨key', stop', hmem, rfl⟩
      rcases List.mem_cons.mp hmem with heq | hmem
      · cases heq
        exact hwhole
      · exact hopened _ ⟨key', stop', hmem, rfl⟩
    · intro request d hd
      have hrest := hfits request d hd
      unfold stepFills
      split_ifs with heq
      · subst heq
        rw [Function.update_self] at hrest
        exact ⟨hroom d hd, hrest⟩
      · rwa [Function.update_of_ne (Ne.symm heq)] at hrest
  · rintro ⟨hopened, hfits⟩
    refine ⟨⟨hopened _ ⟨key, stop, List.mem_cons_self, rfl⟩, ?_⟩, ?_, ?_⟩
    · intro d hd
      have hfirst := hfits key.1 d hd
      unfold stepFills at hfirst
      rw [if_pos rfl] at hfirst
      exact hfirst.1
    · rintro request ⟨key', stop', hmem, heq⟩
      exact hopened request ⟨key', stop', List.mem_cons_of_mem _ hmem, heq⟩
    · intro request d hd
      have hfirst := hfits request d hd
      unfold stepFills at hfirst
      split_ifs at hfirst with heq
      · subst heq
        rw [Function.update_self]
        exact hfirst.2
      · rwa [Function.update_of_ne (Ne.symm heq)]

theorem appends_cons {step : TrialStep} (hstep : ∀ key stop, step ≠ .append key stop) :
    Appends (step :: steps) request ↔ Appends steps request := by
  constructor
  · rintro ⟨key, stop, hmem, heq⟩
    rcases List.mem_cons.mp hmem with h | h
    · exact absurd h.symm (hstep key stop)
    · exact ⟨key, stop, h, heq⟩
  · rintro ⟨key, stop, hmem, heq⟩
    exact ⟨key, stop, List.mem_cons_of_mem _ hmem, heq⟩

theorem fits_flush : t.Fits (Function.update rooms request fun d =>
      rooms request d / t.perSegment * t.perSegment) loaded steps ↔
    t.Fits rooms loaded (.flush request :: steps) := by
  unfold Fits
  apply and_congr
  · apply forall_congr'
    intro r
    rw [appends_cons (by intro _ _ h; cases h)]
  · apply forall_congr'
    intro r
    apply forall₂_congr
    intro d _
    conv_rhs => unfold stepFills
    split_ifs with heq
    · subst heq
      rw [Function.update_self]
      rfl
    · rw [Function.update_of_ne (Ne.symm heq)]

theorem fits_read : t.Fits rooms loaded steps ↔ t.Fits rooms loaded (.read :: steps) := by
  unfold Fits
  apply and_congr
  · apply forall_congr'
    intro r
    rw [appends_cons (by intro _ _ h; cases h)]
  · exact Iff.rfl

/-- The steps raise an error of the segments exactly if they do not find the room. -/
theorem runSteps_outcome (hv : t.Valid) (hcalm : calm → t.Calm env) {i : ℕ}
    (hi : t.Inv calm rooms st) (hready : t.Ready st.loaded steps) :
    CallResult TrialError.OfSegments calm (t.Fits rooms st.loaded steps) (fun _ _ => True)
      (t.runSteps env i steps st) := by
  induction steps generalizing i st rooms with
  | nil =>
    refine .fine ⟨?_, fun _ _ _ => trivial⟩ trivial
    rintro request ⟨key, stop, hmem, -⟩
    cases hmem
  | cons step steps ih =>
    unfold runSteps
    cases step with
    | append key stop =>
      obtain ⟨⟨hkey, hpos, hstop⟩, hrest⟩ := hready
      refine ((append_outcome hv hcalm hi hkey hpos hstop).bind fun _ st₁ _ h₁ => ?_).imp
        fits_append fun _ _ _ h => h
      obtain ⟨hi₁, hloaded⟩ := h₁
      rw [← hloaded] at hrest ⊢
      exact ih hi₁ hrest
    | flush request =>
      obtain ⟨⟨key, rfl, hpos⟩, hrest⟩ := hready
      have hflush := flush_outcome (i := i) hcalm hi (hi.loaded key hpos)
      have hstep := hflush.bind fun _ st₁ _ h₁ =>
        (outside_outcome (i := i) hcalm).imp Iff.rfl fun _ st₂ _ (h₂ : st₂ = st₁) => h₂ ▸ h₁
      refine (hstep.bind fun _ st₁ _ h₁ => ?_).imp
        ((and_iff_right ⟨trivial, trivial⟩).trans fits_flush) fun _ _ _ h => h
      obtain ⟨hi₁, hloaded⟩ := h₁
      rw [← hloaded] at hrest ⊢
      exact ih hi₁ hrest
    | read =>
      refine ((outside_outcome (i := i) hcalm).bind fun _ st₁ _ h₁ => ?_).imp
        ((and_iff_right trivial).trans fits_read) fun _ _ _ h => h
      subst h₁
      exact ih hi hready

end Run

end TrialSetup

end Umm
