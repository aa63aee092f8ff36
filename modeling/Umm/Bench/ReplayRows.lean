import Umm.Bench.ReplayRoom

/-! The rows that each append of a trial brings to a device, and the segments that they take. -/
namespace Umm
open Umm.Lib

/-- The rows that a device gets of a request, append by append. -/
def newRows (locate : ℕ → ℕ → ℕ) (request : String) (d : ℕ) :
    (String × ℕ → ℕ) → List ((String × ℕ) × ℕ) → List ℕ
  | _, [] => []
  | loaded, event :: events =>
    if event.1.1 = request then
      rowsOn locate event.1.2 (loaded event.1) event.2 d ::
        newRows locate request d (Function.update loaded event.1 event.2) events
    else newRows locate request d (Function.update loaded event.1 event.2) events

/-- The segments of `k` rows that these rows take. -/
def segmentsOf (mode : ReplayMode) (k : ℕ) (rows : List ℕ) : ℕ :=
  match mode with
  | .snapshot => rows.sum ⌈/⌉ k
  | .online => (rows.map (· ⌈/⌉ k)).sum

section Fills

variable {locate : ℕ → ℕ → ℕ} {request : String} {d : ℕ} {loaded : String × ℕ → ℕ}
  {trace : List TraceRecord} {events : List ((String × ℕ) × ℕ)} {steps : List TrialStep}

theorem newRows_eq_nil (h : request ∉ events.map fun event => event.1.1) :
    newRows locate request d loaded events = [] := by
  induction events generalizing loaded with
  | nil => rfl
  | cons event events ih =>
    rw [List.map_cons, List.mem_cons, not_or] at h
    unfold newRows
    rw [if_neg (Ne.symm h.1)]
    exact ih h.2

theorem stepFills_online : stepFills locate request d loaded
    (trace.flatMap fun r => [.append r.key r.contextLength, .flush r.requestId, .read]) =
    (newRows locate request d loaded (trace.map fun r => (r.key, r.contextLength))).flatMap
      fun n => [.units n, .flush] := by
  induction trace generalizing loaded with
  | nil => rfl
  | cons r trace ih =>
    rw [List.flatMap_cons, List.map_cons]
    simp only [List.cons_append, List.nil_append]
    unfold newRows
    rw [stepFills, stepFills, stepFills, ih]
    have hkey : r.key.1 = r.requestId := rfl
    rw [hkey]
    split_ifs
    · rw [List.flatMap_cons]
      rfl
    · rfl

theorem stepFills_appends : stepFills locate request d loaded
    (events.map (fun event => .append event.1 event.2) ++ steps) =
    (newRows locate request d loaded events).map .units ++ stepFills locate request d
      (events.foldl (fun l event => Function.update l event.1 event.2) loaded) steps := by
  induction events generalizing loaded with
  | nil => rfl
  | cons event events ih =>
    rw [List.map_cons, List.cons_append, stepFills, ih, newRows, List.foldl_cons]
    split_ifs <;> rfl

theorem stepFills_flushes (requests : List String) : stepFills locate request d loaded
    (requests.map .flush ++ steps) =
    List.replicate (requests.count request) .flush ++ stepFills locate request d loaded steps := by
  induction requests with
  | nil => rfl
  | cons r requests ih =>
    rw [List.map_cons, List.cons_append, stepFills, ih]
    split_ifs with h
    · rw [h, List.count_cons_self, List.replicate_succ, List.cons_append]
    · rw [List.count_cons_of_ne h]

theorem stepFills_reads : stepFills locate request d loaded
    (trace.map fun _ => .read) = [] := by
  induction trace with
  | nil => rfl
  | cons r trace ih =>
    rw [List.map_cons, stepFills]
    exact ih

/-- A snapshot is written as a whole before it is flushed. -/
theorem trialSteps_snapshot (lengths : String × ℕ → ℕ) : trialSteps trace .snapshot lengths =
    (hashEvents trace .snapshot lengths).map (fun event => .append event.1 event.2) ++
      ((sortedRequests trace).map .flush ++ trace.map fun _ => .read) := by
  unfold trialSteps hashEvents
  rw [List.map_map, List.append_assoc]
  rfl

theorem stepFills_snapshot {lengths : String × ℕ → ℕ} :
    stepFills locate request d loaded (trialSteps trace .snapshot lengths) =
      (newRows locate request d loaded (hashEvents trace .snapshot lengths)).map .units ++
        List.replicate ((sortedRequests trace).count request) .flush := by
  rw [trialSteps_snapshot, stepFills_appends, stepFills_flushes, stepFills_reads, List.append_nil]

theorem count_sortedRequests :
    (sortedRequests trace).count request = if request ∈ traceRequests trace then 1 else 0 := by
  unfold sortedRequests
  rw [(List.perm_insertionSort _ _).count_eq]
  split_ifs with h
  · exact List.count_eq_one_of_mem (List.nodup_dedup _) h
  · exact List.count_eq_zero.mpr h

/-- The requests of the events are those of the trace. -/
theorem mem_events {mode : ReplayMode} {lengths : String × ℕ → ℕ} :
    (request ∈ (hashEvents trace mode lengths).map fun event => event.1.1) ↔
      request ∈ traceRequests trace := by
  rw [mem_traceRequests]
  cases mode with
  | online =>
    unfold hashEvents
    rw [List.map_map]
    rfl
  | snapshot =>
    unfold hashEvents
    rw [List.map_map]
    simp only [List.mem_map, mem_sortedKeys, Function.comp_apply]
    constructor
    · rintro ⟨_, ⟨r, hr, rfl⟩, rfl⟩
      exact ⟨r, hr, rfl⟩
    · rintro ⟨r, hr, rfl⟩
      exact ⟨r.key, ⟨r, hr, rfl⟩, rfl⟩

/-- The segments that a request takes in a trial are those of its rows. -/
theorem blocksTaken_trialSteps {mode : ReplayMode} {lengths : String × ℕ → ℕ} {k : ℕ}
    (h : request ∈ traceRequests trace) :
    blocksTaken k (stepFills locate request d loaded (trialSteps trace mode lengths)) =
      segmentsOf mode k (newRows locate request d loaded (hashEvents trace mode lengths)) := by
  cases mode with
  | online =>
    unfold trialSteps hashEvents segmentsOf
    dsimp only
    rw [stepFills_online, blocksTaken_each]
  | snapshot =>
    rw [stepFills_snapshot, count_sortedRequests, if_pos h]
    exact blocksTaken_once _

/-- A request that is not in the trace takes nothing. -/
theorem stepFills_trialSteps {mode : ReplayMode} {lengths : String × ℕ → ℕ}
    (h : request ∉ traceRequests trace) :
    stepFills locate request d loaded (trialSteps trace mode lengths) = [] := by
  have hnone : newRows locate request d loaded (hashEvents trace mode lengths) = [] :=
    newRows_eq_nil (mt mem_events.mp h)
  cases mode with
  | online =>
    unfold hashEvents at hnone
    unfold trialSteps
    dsimp only at hnone ⊢
    rw [stepFills_online, hnone]
    rfl
  | snapshot =>
    rw [stepFills_snapshot, count_sortedRequests, if_neg h, hnone]
    rfl

end Fills

end Umm
