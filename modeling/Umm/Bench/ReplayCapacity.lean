import Umm.Bench.ReplayRows

/-! The capacities that a replay plans, against the segments that its trials take. -/
namespace Umm
open Umm.Lib

/-- The longest context of a layer. -/
def contextLengths (trace : List TraceRecord) (key : String × ℕ) : ℕ :=
  ((trace.filter fun r => r.key = key).map TraceRecord.contextLength).foldr max 0

section Geometry

variable {trace : List TraceRecord} {segment : ℕ} {mode : ReplayMode} {g g' h : GeometryState}
  {r : TraceRecord}

theorem contextLengths_cons (key : String × ℕ) : contextLengths (r :: trace) key =
    if r.key = key then max r.contextLength (contextLengths trace key)
    else contextLengths trace key := by
  unfold contextLengths
  rw [List.filter_cons]
  simp only [decide_eq_true_eq]
  split_ifs <;> rfl

theorem le_contextLengths (hr : r ∈ trace) : r.contextLength ≤ contextLengths trace r.key := by
  apply List.le_max_of_le' 0 _ le_rfl
  exact List.mem_map_of_mem (List.mem_filter.mpr ⟨hr, decide_eq_true rfl⟩)

theorem geometryStep_ok (hstep : geometryStep segment mode g r = .ok g') :
    (mode = .online → g.lengths r.key ≤ r.contextLength) ∧
      g' =
        { steps := Function.update g.steps r.requestId r.stepId
          lengths := Function.update g.lengths r.key (max (g.lengths r.key) r.contextLength)
          slots :=
            if g.lengths r.key < r.contextLength then
              Function.update g.slots r.requestId (g.slots r.requestId +
                wholeSegments segment ((r.contextLength - g.lengths r.key) * replayPage))
            else g.slots } := by
  unfold geometryStep at hstep
  dsimp only at hstep
  split at hstep
  · cases hstep
  split at hstep
  · cases hstep
  next hshrink =>
    obtain rfl := Except.ok.inj hstep
    exact ⟨fun hmode => not_lt.mp fun hlt => hshrink ⟨hmode, hlt⟩, rfl⟩

theorem geometryStep_same {other : ℕ} (hsteps : h.steps = g.steps)
    (hlengths : h.lengths = g.lengths) (hstep : geometryStep segment mode g r = .ok g') :
    ∃ h', geometryStep other mode h r = .ok h' ∧ h'.steps = g'.steps ∧ h'.lengths = g'.lengths := by
  unfold geometryStep at hstep ⊢
  dsimp only at hstep ⊢
  rw [hsteps, hlengths]
  split_ifs at hstep with h₁ h₂
  all_goals
    rw [if_neg h₁, if_neg h₂]
    obtain rfl := Except.ok.inj hstep
    exact ⟨_, rfl, rfl, rfl⟩

/-- The steps and the lengths do not depend on the segments. -/
theorem foldlM_geometryStep_same (other : ℕ) (hsteps : h.steps = g.steps)
    (hlengths : h.lengths = g.lengths)
    (hfold : trace.foldlM (geometryStep segment mode) g = .ok g') :
    ∃ h', trace.foldlM (geometryStep other mode) h = .ok h' ∧ h'.lengths = g'.lengths := by
  induction trace generalizing g h with
  | nil =>
    obtain rfl := Except.ok.inj hfold
    exact ⟨h, rfl, hlengths⟩
  | cons r trace ih =>
    rw [List.foldlM_cons] at hfold ⊢
    obtain ⟨g₁, hg₁, hfold⟩ := except_bind_ok hfold
    obtain ⟨h₁, hh₁, hsteps₁, hlengths₁⟩ := geometryStep_same hsteps hlengths hg₁
    rw [hh₁]
    exact ih hsteps₁ hlengths₁ hfold

theorem foldlM_geometryStep_lengths (hfold : trace.foldlM (geometryStep segment mode) g = .ok g')
    (key : String × ℕ) : g'.lengths key = max (g.lengths key) (contextLengths trace key) := by
  induction trace generalizing g with
  | nil =>
    obtain rfl := Except.ok.inj hfold
    exact (max_eq_left (Nat.zero_le _)).symm
  | cons r trace ih =>
    rw [List.foldlM_cons] at hfold
    obtain ⟨g₁, hg₁, hfold⟩ := except_bind_ok hfold
    obtain ⟨-, rfl⟩ := geometryStep_ok hg₁
    rw [ih hfold, contextLengths_cons]
    dsimp only
    split_ifs with heq
    · rw [heq, Function.update_self, max_assoc]
    · rw [Function.update_of_ne (Ne.symm heq)]

/-- The lengths that `geometry` finds, and the same for other segments. -/
theorem geometry_lengths {lengths : String × ℕ → ℕ} {slots : String → ℕ}
    (hok : geometry trace segment mode = .ok (lengths, slots)) :
    lengths = contextLengths trace ∧
      ∀ other, ∃ slots', geometry trace other mode = .ok (lengths, slots') := by
  unfold geometry at hok
  obtain ⟨g, hfold, hok⟩ := except_bind_ok hok
  have hg : g.lengths = lengths := by
    cases mode with
    | online => exact (Prod.mk.inj (Except.ok.inj hok)).1
    | snapshot => exact (Prod.mk.inj (Except.ok.inj hok)).1
  refine ⟨?_, fun other => ?_⟩
  · funext key
    rw [← hg, foldlM_geometryStep_lengths hfold]
    exact max_eq_right (Nat.zero_le _)
  · obtain ⟨h', hfold', hlengths⟩ := foldlM_geometryStep_same other rfl rfl hfold
    unfold geometry
    rw [hfold', ← hg, ← hlengths]
    cases mode with
    | online => exact ⟨_, rfl⟩
    | snapshot => exact ⟨_, rfl⟩

end Geometry

section Rounding

variable {segment : ℕ}

theorem wholeSegments_eq (bytes : ℕ) :
    wholeSegments segment bytes = bytes ⌈/⌉ segment * segment := by
  unfold wholeSegments
  rw [Nat.ceilDiv_eq_add_pred_div]

theorem wholeSegments_rows (hpos : 0 < segment) (hpage : replayPage ∣ segment) (n : ℕ) :
    wholeSegments segment (n * replayPage) = n ⌈/⌉ (segment / replayPage) * segment := by
  obtain ⟨k, rfl⟩ := hpage
  have hk : 0 < k := Nat.pos_of_mul_pos_left hpos
  rw [wholeSegments_eq, Nat.mul_div_cancel_left k (by decide)]
  congr 1
  apply eq_of_forall_ge_iff
  intro c
  rw [ceilDiv_le_iff_le_mul hpos, ceilDiv_le_iff_le_mul hk, mul_comm n, mul_assoc]
  exact Nat.mul_le_mul_left_iff (by decide)

theorem wholeSegments_whole (hpos : 0 < segment) (m : ℕ) :
    wholeSegments segment (m * segment) = m * segment := by
  rw [wholeSegments_eq]
  congr 1
  apply eq_of_forall_ge_iff
  intro c
  rw [ceilDiv_le_iff_le_mul hpos, mul_comm m]
  exact Nat.mul_le_mul_left_iff hpos

theorem max_whole (m : ℕ) : max segment (m * segment) = max 1 m * segment := by
  rw [max_mul_of_nonneg 1 m (Nat.zero_le segment), one_mul]

end Rounding

section Rows

variable {locate : ℕ → ℕ → ℕ} {request : String} {d : ℕ} {loaded : String × ℕ → ℕ}

/-- The rows of layers that come once each. -/
theorem newRows_once {keys : List (String × ℕ)} (hnodup : keys.Nodup)
    (hzero : ∀ key ∈ keys, loaded key = 0) (lengths : String × ℕ → ℕ) :
    newRows locate request d loaded (keys.map fun key => (key, lengths key)) =
      (keys.filter fun key => key.1 = request).map fun key =>
        rowsOn locate key.2 0 (lengths key) d := by
  induction keys generalizing loaded with
  | nil => rfl
  | cons key keys ih =>
    obtain ⟨hnotin, hnodup⟩ := List.nodup_cons.mp hnodup
    have hzero' : ∀ key' ∈ keys, Function.update loaded key (lengths key) key' = 0 := by
      intro key' hkey'
      rw [Function.update_of_ne (ne_of_mem_of_not_mem hkey' hnotin)]
      exact hzero key' (List.mem_cons_of_mem key hkey')
    rw [List.map_cons, newRows, ih hnodup hzero', hzero key List.mem_cons_self, List.filter_cons]
    simp only [decide_eq_true_eq]
    split_ifs <;> rfl

theorem rowsOn_layer (count layer stop : ℕ) :
    rowsOn (placementDevice .layer count) layer 0 stop d =
      if layer % count = d then stop else 0 := by
  unfold rowsOn placementDevice
  dsimp only
  split_ifs with h
  · rw [List.countP_eq_length.mpr, List.length_range', Nat.sub_zero]
    exact fun _ _ => decide_eq_true h
  · exact List.countP_eq_zero.mpr fun _ _ => by simpa using h

/-- One device gets all rows. -/
theorem rowsOn_one (placement : ReplayPlacement) (layer start stop : ℕ) :
    rowsOn (placementDevice placement 1) layer start stop 0 = stop - start := by
  have hall : ∀ token, placementDevice placement 1 layer token = 0 := fun token =>
    Nat.lt_one_iff.mp (placementDevice_lt placement one_pos layer token)
  unfold rowsOn
  rw [List.countP_eq_length.mpr, List.length_range']
  exact fun token _ => decide_eq_true (hall token)

end Rows

section Planned

variable {trace : List TraceRecord} {segment count : ℕ} {mode : ReplayMode} {request : String}
  {d : ℕ} {lengths : String × ℕ → ℕ}

/-- The bytes that the rows of an append count for. -/
def rowBytes (segment : ℕ) (mode : ReplayMode) (rows : ℕ) : ℕ :=
  match mode with
  | .online => wholeSegments segment (rows * replayPage)
  | .snapshot => rows * replayPage

theorem foldl_hashStep (st : HashState) (events : List ((String × ℕ) × ℕ)) :
    (events.foldl (hashStep segment mode count) st).sizes request d = st.sizes request d +
      ((newRows (positionHash count) request d st.loaded events).map
        (rowBytes segment mode)).sum := by
  induction events generalizing st with
  | nil => rfl
  | cons event events ih =>
    rw [List.foldl_cons, ih, newRows]
    unfold hashStep
    dsimp only
    split_ifs with heq
    · rw [heq, Function.update_self, List.map_cons, List.sum_cons, ← Nat.add_assoc]
      rfl
    · rw [Function.update_of_ne (Ne.symm heq)]

/-- The bytes of the rows, rounded up once more, are the segments that they take. -/
theorem wholeSegments_rowBytes (hpos : 0 < segment) (hpage : replayPage ∣ segment) (rows : List ℕ) :
    wholeSegments segment (rows.map (rowBytes segment mode)).sum =
      segmentsOf mode (segment / replayPage) rows * segment := by
  cases mode with
  | online =>
    have hsum : (rows.map (rowBytes segment .online)).sum =
        (rows.map (· ⌈/⌉ (segment / replayPage))).sum * segment := by
      induction rows with
      | nil => exact (Nat.zero_mul _).symm
      | cons n rows ih =>
        rw [List.map_cons, List.sum_cons, ih, List.map_cons, List.sum_cons, add_mul]
        unfold rowBytes
        dsimp only
        rw [wholeSegments_rows hpos hpage]
    rw [hsum, wholeSegments_whole hpos]
    rfl
  | snapshot =>
    have hsum : (rows.map (rowBytes segment .snapshot)).sum = rows.sum * replayPage :=
      List.sum_map_mul_right rows id replayPage |>.trans (by rw [List.map_id])
    rw [hsum, wholeSegments_rows hpos hpage]
    rfl

theorem hashCapacities_eq (hpos : 0 < segment) (hpage : replayPage ∣ segment) :
    hashCapacities trace segment mode count lengths request d =
      max 1 (segmentsOf mode (segment / replayPage) (newRows (placementDevice .hash count) request d
        (fun _ => 0) (hashEvents trace mode lengths))) * segment := by
  unfold hashCapacities
  rw [foldl_hashStep, Nat.zero_add, wholeSegments_rowBytes hpos hpage, max_whole]
  rfl

theorem layerCapacities_eq (hpos : 0 < segment) (hpage : replayPage ∣ segment) :
    layerCapacities trace segment lengths count request d =
      max 1 (segmentsOf .snapshot (segment / replayPage) (newRows (placementDevice .layer count)
        request d (fun _ => 0) (hashEvents trace .snapshot lengths))) * segment := by
  unfold layerCapacities hashEvents
  dsimp only
  rw [wholeSegments_rows hpos hpage, max_whole, newRows_once nodup_sortedKeys fun _ _ => rfl]
  simp only [rowsOn_layer]
  rfl

variable {placement : ReplayPlacement} {g g' : GeometryState}

theorem foldlM_geometryStep_slots (hpos : 0 < segment) (hpage : replayPage ∣ segment)
    (hfold : trace.foldlM (geometryStep segment .online) g = .ok g') :
    g'.slots request = g.slots request + segmentsOf .online (segment / replayPage)
      (newRows (placementDevice placement 1) request 0 g.lengths
        (trace.map fun r => (r.key, r.contextLength))) * segment := by
  unfold segmentsOf
  dsimp only
  induction trace generalizing g with
  | nil =>
    obtain rfl := Except.ok.inj hfold
    exact (Nat.zero_mul segment).symm ▸ rfl
  | cons r trace ih =>
    rw [List.foldlM_cons] at hfold
    obtain ⟨g₁, hg₁, hfold⟩ := except_bind_ok hfold
    obtain ⟨hgrows, rfl⟩ := geometryStep_ok hg₁
    have hmax : max (g.lengths r.key) r.contextLength = r.contextLength :=
      max_eq_right (hgrows rfl)
    have hkey : r.key.1 = r.requestId := rfl
    rw [ih hfold, List.map_cons, newRows, rowsOn_one, hkey]
    dsimp only
    rw [hmax, wholeSegments_rows hpos hpage]
    split_ifs with hlt heq heq
    · subst heq
      rw [Function.update_self, List.map_cons, List.sum_cons, add_mul, Nat.add_assoc]
    · rw [Function.update_of_ne (Ne.symm heq)]
    · rw [List.map_cons, List.sum_cons, Nat.sub_eq_zero_of_le (not_lt.mp hlt), zero_ceilDiv,
        Nat.zero_add]
    · rfl

/-- Where the first context of a layer is not empty, its request has rows. -/
theorem exists_newRows {loaded : String × ℕ → ℕ} {events : List ((String × ℕ) × ℕ)}
    {key : String × ℕ} (hkey : key ∈ events.map Prod.fst) (hzero : loaded key = 0)
    (hpos : ∀ event ∈ events, 0 < event.2) :
    ∃ n ∈ newRows (placementDevice placement 1) key.1 0 loaded events, 0 < n := by
  induction events generalizing loaded with
  | nil => cases hkey
  | cons event events ih =>
    rw [newRows, rowsOn_one]
    by_cases heq : event.1 = key
    · rw [if_pos (congrArg Prod.fst heq), heq, hzero, Nat.sub_zero]
      exact ⟨event.2, List.mem_cons_self, hpos event List.mem_cons_self⟩
    · rw [List.map_cons, List.mem_cons, or_iff_right (Ne.symm heq)] at hkey
      have hzero' : Function.update loaded event.1 event.2 key = 0 := by
        rwa [Function.update_of_ne (Ne.symm heq)]
      obtain ⟨n, hn, hlt⟩ := ih hkey hzero' fun e he => hpos e (List.mem_cons_of_mem event he)
      split_ifs
      · exact ⟨n, List.mem_cons_of_mem _ hn, hlt⟩
      · exact ⟨n, hn, hlt⟩

theorem one_le_segmentsOf {k n : ℕ} {rows : List ℕ} (hk : 0 < k) (hn : n ∈ rows) (hpos : 0 < n) :
    1 ≤ segmentsOf mode k rows := by
  have hceil : ∀ m, 0 < m → 1 ≤ m ⌈/⌉ k := by
    intro m hm
    by_contra hlt
    have := (ceilDiv_le_iff_le_mul (c := 0) (b := m) hk).mp (by omega)
    omega
  cases mode with
  | online => exact (hceil n hpos).trans (List.single_le_sum (by simp) _
      (List.mem_map_of_mem hn))
  | snapshot => exact hceil _ (hpos.trans_le (List.single_le_sum (by simp) n hn))

/-- The appends are of the layers of the trace, each up to a length that is not 0. -/
theorem mem_hashEvents {event : (String × ℕ) × ℕ}
    (h : event ∈ hashEvents trace mode (contextLengths trace)) :
    event.1 ∈ trace.map TraceRecord.key ∧ 0 < event.2 ∧
      event.2 ≤ contextLengths trace event.1 := by
  cases mode with
  | online =>
    obtain ⟨r, hr, rfl⟩ := List.mem_map.mp h
    exact ⟨List.mem_map_of_mem hr, r.context_pos, le_contextLengths hr⟩
  | snapshot =>
    obtain ⟨key, hkey, rfl⟩ := List.mem_map.mp h
    have hmem := mem_sortedKeys.mp hkey
    obtain ⟨r, hr, rfl⟩ := List.mem_map.mp hmem
    exact ⟨hmem, r.context_pos.trans_le (le_contextLengths hr), le_rfl⟩

theorem key_mem_hashEvents {r : TraceRecord} (hr : r ∈ trace) :
    r.key ∈ (hashEvents trace mode lengths).map Prod.fst := by
  cases mode with
  | online =>
    exact List.mem_map.mpr ⟨_, List.mem_map_of_mem hr, rfl⟩
  | snapshot =>
    have hmem : r.key ∈ sortedKeys trace := mem_sortedKeys.mpr (List.mem_map_of_mem hr)
    exact List.mem_map.mpr ⟨_, List.mem_map_of_mem hmem, rfl⟩

/-- The bytes of a request on the one device are the segments that it takes. -/
theorem geometry_slots (hpos : 0 < segment) (hpage : replayPage ∣ segment) {slots : String → ℕ}
    (hok : geometry trace segment mode = .ok (lengths, slots))
    (hrequest : request ∈ traceRequests trace) :
    slots request = max 1 (segmentsOf mode (segment / replayPage)
      (newRows (placementDevice placement 1) request 0 (fun _ => 0)
        (hashEvents trace mode lengths))) * segment := by
  obtain ⟨rfl, -⟩ := geometry_lengths hok
  obtain ⟨r, hr, rfl⟩ := List.mem_map.mp (mem_traceRequests.mp hrequest)
  have hkey : r.key ∈ (hashEvents trace mode (contextLengths trace)).map Prod.fst :=
    key_mem_hashEvents hr
  obtain ⟨n, hn, hlt⟩ : ∃ n ∈ newRows (placementDevice placement 1) r.requestId 0 (fun _ => 0)
      (hashEvents trace mode (contextLengths trace)), 0 < n :=
    exists_newRows hkey rfl fun event he => (mem_hashEvents he).2.1
  have hperSegment : 0 < segment / replayPage := Nat.div_pos (Nat.le_of_dvd hpos hpage) (by decide)
  rw [max_eq_right (one_le_segmentsOf hperSegment hn hlt)]
  unfold geometry at hok
  obtain ⟨g, hfold, hok⟩ := except_bind_ok hok
  cases mode with
  | online =>
    obtain ⟨-, rfl⟩ := Prod.mk.inj (Except.ok.inj hok)
    rw [foldlM_geometryStep_slots hpos hpage hfold, Nat.zero_add]
    rfl
  | snapshot =>
    obtain ⟨hlengths, rfl⟩ := Prod.mk.inj (Except.ok.inj hok)
    have hrows : newRows (placementDevice placement 1) r.requestId 0 (fun _ => 0)
        (hashEvents trace .snapshot (contextLengths trace)) =
        ((sortedKeys trace).filter fun key => key.1 = r.requestId).map (contextLengths trace) := by
      unfold hashEvents
      dsimp only
      rw [newRows_once nodup_sortedKeys fun _ _ => rfl]
      simp only [rowsOn_one, Nat.sub_zero]
    rw [hrows, ← wholeSegments_rowBytes hpos hpage, hlengths]
    rw [List.map_map]
    rfl

end Planned

end Umm
