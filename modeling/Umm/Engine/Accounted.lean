import Umm.Engine.Accounting

/-! What the books say of every run: statistics, results, permits. -/
namespace Umm
open Umm.Lib

namespace EngineState

variable {cfg : EngineConfig} {s : EngineState} {h : ℕ}

/-- The call has returned and every group of it an executor took has run. -/
def Over (h : ℕ) (sub : Submission) (s : EngineState) : Prop :=
  s.subs[h]? = some sub ∧ sub.phase = .returned ∧
    ∀ job ∈ s.jobs, job.handle = h → job.stage matches .finished

structure Accounted (cfg : EngineConfig) (s : EngineState) : Prop where
  stats : s.submitted = s.completed + s.failed + s.inflight
  once : (s.stored.map Prod.fst).Nodup
  shown : ∀ (h : ℕ) sub, s.subs[h]? = some sub →
    ∀ (i : ℕ) v, sub.handle.results[i]? = some (some v) ↔ ((h, i), v) ∈ s.stored
  own : ∀ h i v, ((h, i), v) ∈ s.stored → ∃ sub item, s.subs[h]? = some sub ∧
    sub.items[i]? = some item ∧
      ((((h, i), v) ∈ s.executed ∧ ∃ lib, v = executeOne item.1 item.2 lib) ∨
        v = .error .shutdown ∧ s.closed = true)
  all : ∀ h sub, s.Over h sub → ∀ i < sub.items.length, ∃ v, ((h, i), v) ∈ s.stored
  done : ∀ (h : ℕ) sub, s.subs[h]? = some sub → (sub.handle.done = true ↔
    ∀ i < sub.items.length, ∃ v, sub.handle.results[i]? = some (some v))
  acquired : s.acquired.Nodup
  released : s.released.Nodup ∧ ∀ x ∈ s.released, x ∈ s.acquired
  returned : ∀ h sub, s.Over h sub →
    ∀ i < sub.items.length, (h, i) ∈ s.acquired ∧ (h, i) ∈ s.released
  permits : ∀ m, cfg.maxInflight = some m → ∃ p, s.permits = some p ∧
    p + s.acquired.length = m + s.released.length
  bound : ∀ m, cfg.maxInflight = some m → s.closed = false → s.inflight ≤ m

theorem count_over {sub : Submission} (ho : s.Over h sub) (v : View)
    (hsub : v.sub sub = []) (hjob : ∀ job, job.stage = .finished → v.job job = []) (i : ℕ) :
    (v.held s.subs s.jobs).count (h, i) = 0 := by
  obtain ⟨hfound, hphase, hjobs⟩ := ho
  have hnone : tally (fun _ job => if h = job.handle then (v.job job).count i else 0) s.jobs =
      tally (fun _ _ => 0) s.jobs := by
    refine tally_congr fun j job hj => ?_
    split_ifs with hh
    · have hover := hjobs job (List.mem_of_getElem? hj) hh.symm
      have hstage : job.stage = .finished := by
        cases hs : job.stage <;> simp [hs] at hover ⊢
      rw [hjob job hstage, List.count_nil]
    · rfl
  have hzero : tally (fun (_ : ℕ) (_ : Job) => 0) s.jobs = 0 := by
    simp [tally, List.sum_eq_zero]
  rw [View.count_held, hfound, hnone, hzero, add_zero]
  change (v.sub sub).count i = 0
  rw [hsub, List.count_nil]

/-- Without a close every request in flight holds a permit. -/
theorem Books.inflight_le (hb : s.Books cfg) (hclosed : s.closed = false) :
    (View.inflight.held s.subs s.jobs).card ≤ (View.unreleased.held s.subs s.jobs).card := by
  rw [View.card_held, View.card_held]
  refine Nat.add_le_add (tally_le fun h sub hsub => ?_) (tally_le fun j job hj => ?_)
  · have hcalm := hb.calm (hb.shut hclosed) h sub hsub
    have hleft : sub.left (· = .store) = sub.left (· ≠ .release) := by
      unfold Submission.left
      cases hphase : sub.phase with
      | failing undo group rest =>
        rw [hphase] at hcalm
        cases hcalm
      | _ => rfl
    simp only [View.inflight, View.unreleased, hleft, List.length_append]
    omega
  · simp only [View.inflight, View.unreleased, Job.inflight, Job.unreleased]
    cases job.stage with
    | counted results held => exact Nat.zero_le _
    | _ => exact le_rfl

theorem Books.counted_of_stored (hb : s.Books cfg) {i : ℕ} {v : IOResult}
    (hv : ((h, i), v) ∈ s.stored) : ∃ sub, s.subs[h]? = some sub ∧ i < sub.items.length := by
  have hpos : 0 < Multiset.count (h, i) (s.stored.map Prod.fst) :=
    Multiset.count_pos.mpr (Multiset.mem_coe.mpr (List.mem_map_of_mem hv))
  have hcount := congrArg (Multiset.count (h, i)) hb.unstored
  rw [Multiset.count_add, View.count_entered] at hcount
  cases hsub : s.subs[h]? with
  | none =>
    simp only [hsub, Option.elim_none] at hcount
    omega
  | some sub =>
    simp only [hsub, Option.elim_some] at hcount
    have hle := (hb.sub h sub hsub).counted_le
    refine ⟨sub, rfl, ?_⟩
    by_contra hnot
    rw [if_neg (by omega)] at hcount
    omega

theorem Books.counted_of_over (hb : s.Books cfg) {sub : Submission} (ho : s.Over h sub) :
    sub.counted = sub.items.length := by
  refine (hb.sub h sub ho.1).full fun permit => ?_
  rw [ho.2.1]
  exact SubmitPhase.noConfusion

theorem Books.all_over (hb : s.Books cfg) {sub : Submission} (ho : s.Over h sub) {i : ℕ}
    (hi : i < sub.items.length) : ∃ v, ((h, i), v) ∈ s.stored := by
  have hnone : (View.unstored.held s.subs s.jobs).count (h, i) = 0 := by
    refine count_over ho _ ?_ (fun job hstage => ?_) i
    · simp only [View.unstored, Submission.left, ho.2.1]
      rfl
    · simp only [View.unstored, Job.unstored, hstage]
      rfl
  have hcount := congrArg (Multiset.count (h, i)) hb.unstored
  rw [Multiset.count_add, View.count_entered, hnone, ho.1, Option.elim_some,
    hb.counted_of_over ho, if_pos hi] at hcount
  have hpos : 0 < Multiset.count (h, i) (s.stored.map Prod.fst) := by omega
  obtain ⟨y, hy, he⟩ := List.mem_map.mp (Multiset.mem_coe.mp (Multiset.count_pos.mp hpos))
  exact ⟨y.2, he ▸ hy⟩

theorem Books.returned_over (hb : s.Books cfg) {sub : Submission} (ho : s.Over h sub) {i : ℕ}
    (hi : i < sub.items.length) : (h, i) ∈ s.acquired ∧ (h, i) ∈ s.released := by
  have hphase : sub.phase ≠ .collecting true := by
    rw [ho.2.1]
    exact SubmitPhase.noConfusion
  have hnone : (View.unreleased.held s.subs s.jobs).count (h, i) = 0 := by
    refine count_over ho _ ?_ (fun job hstage => ?_) i
    · simp only [View.unreleased, Submission.left, ho.2.1, Submission.ahead_eq_nil hphase]
      rfl
    · simp only [View.unreleased, Job.unreleased, hstage]
      rfl
  have htaken : Multiset.count (h, i) (s.acquired : Multiset (ℕ × ℕ)) = 1 := by
    rw [hb.taken, View.count_taken, ho.1, Option.elim_some, Submission.taken_eq_counted hphase,
      hb.counted_of_over ho, if_pos hi]
  have hreleased := congrArg (Multiset.count (h, i)) hb.unreleased
  rw [Multiset.count_add, hnone, htaken] at hreleased
  exact ⟨Multiset.mem_coe.mp (Multiset.count_pos.mp (by omega)),
    Multiset.mem_coe.mp (Multiset.count_pos.mp (by omega))⟩

theorem Books.own (hb : s.Books cfg) {i : ℕ} {v : IOResult} (hv : ((h, i), v) ∈ s.stored) :
    ∃ sub item, s.subs[h]? = some sub ∧ sub.items[i]? = some item ∧
      ((((h, i), v) ∈ s.executed ∧ ∃ lib, v = executeOne item.1 item.2 lib) ∨
        v = .error .shutdown ∧ s.closed = true) := by
  rcases hb.values _ hv with hex | ⟨hshut, hpos⟩
  · obtain ⟨sub, item, lib, hsub, hitem, he⟩ := hb.executed _ hex
    exact ⟨sub, item, hsub, hitem, .inl ⟨hex, lib, he⟩⟩
  · obtain ⟨sub, hsub, hi⟩ := hb.counted_of_stored hv
    refine ⟨sub, _, hsub, List.getElem?_eq_getElem hi, .inr ⟨hshut, ?_⟩⟩
    by_contra hopen
    have := hb.shut (Bool.not_eq_true _ ▸ hopen)
    omega

theorem Books.accounted (hb : s.Books cfg) : s.Accounted cfg := by
  have htaken : ∀ x : ℕ × ℕ, Multiset.count x (s.acquired : Multiset (ℕ × ℕ)) ≤ 1 := by
    intro x
    rw [hb.taken, View.count_taken]
    exact View.count_le_one x _ _
  have hreleased : ∀ x : ℕ × ℕ, Multiset.count x (s.acquired : Multiset (ℕ × ℕ)) =
      Multiset.count x (s.released : Multiset (ℕ × ℕ)) + (View.unreleased.held s.subs s.jobs).count x := by
    intro x
    rw [hb.unreleased, Multiset.count_add]
  refine ⟨hb.stats, ?_, fun h sub hsub => (hb.handles h sub hsub).results, ?_, ?_,
    fun h sub hsub => (hb.handles h sub hsub).done_iff, ?_, ⟨?_, ?_⟩, ?_, ?_, ?_⟩
  · rw [← Multiset.coe_nodup, Multiset.nodup_iff_count_le_one]
    intro x
    have := hb.stored_le x
    omega
  · exact fun h i v hv => hb.own hv
  · exact fun h sub ho i hi => hb.all_over ho hi
  · rw [← Multiset.coe_nodup, Multiset.nodup_iff_count_le_one]
    exact htaken
  · rw [← Multiset.coe_nodup, Multiset.nodup_iff_count_le_one]
    intro x
    have := hreleased x
    have := htaken x
    omega
  · intro x hx
    have hpos : 0 < Multiset.count x (s.released : Multiset (ℕ × ℕ)) :=
      Multiset.count_pos.mpr (Multiset.mem_coe.mpr hx)
    have := hreleased x
    exact Multiset.mem_coe.mp (Multiset.count_pos.mp (by omega))
  · exact fun h sub ho i hi => hb.returned_over ho hi
  · intro m hm
    obtain ⟨p, hp, hsum⟩ := hb.permits m hm
    have hcard := congrArg Multiset.card hb.unreleased
    rw [Multiset.card_add, Multiset.coe_card, Multiset.coe_card] at hcard
    exact ⟨p, hp, by omega⟩
  · intro m hm hclosed
    obtain ⟨p, hp, hsum⟩ := hb.permits m hm
    have := hb.inflight_le hclosed
    have := hb.inflight
    omega

end EngineState

theorem engine_accounted (cfg : EngineConfig) (s : EngineState)
    (hrun : Reach (· = EngineState.init cfg) (EngineStep cfg) s) : s.Accounted cfg := by
  have hb : s.Books cfg := by
    refine hrun.invariant (P := fun s => s.Books cfg) ?_ fun s e t hb ht => hb.step ht
    rintro s rfl
    exact EngineState.books_init cfg
  exact hb.accounted

def EngineConfig.pair : EngineConfig where
  numWorkers := 1
  numQueues := 2
  maxInflight := some 2
  numWorkers_pos := le_rfl
  numQueues_pos := by decide
  maxInflight_pos := by
    rintro n ⟨⟩
    decide

/-- The engine is closed before the second queue gets its group: one result comes from a worker,
one from the failure path. -/
def closingRun : List EngineEvent :=
  EngineEvent.submit (submitMixed [⟨0, 0, 8, 8⟩] [⟨1, 0, 8, 8⟩]) ::
    List.replicate 6 (EngineEvent.advance 0) ++ [.close, .shutdown, .shutdown] ++
    List.replicate 5 (EngineEvent.advance 0) ++ List.replicate 5 (EngineEvent.work 0 fun _ => .ok 8)

theorem engine_accounted_closing : ∃ s : EngineState, s.Accounted .pair ∧ s.permits = some 2 ∧
    s.submitted = 1 ∧ s.completed = 1 ∧ s.inflight = 0 ∧
    s.stored.map Prod.fst = [(0, 1), (0, 0)] := by
  cases hrun : EngineState.run .pair closingRun (.init .pair) with
  | none => cases hrun
  | some s =>
    have hfields : (EngineState.run .pair closingRun (.init .pair)).map (fun s =>
        (s.permits, s.submitted, s.completed, s.inflight, s.stored.map Prod.fst)) =
        some (some 2, 1, 1, 0, [(0, 1), (0, 0)]) := by
      rfl
    rw [hrun, Option.map_some, Option.some.injEq] at hfields
    simp only [Prod.mk.injEq] at hfields
    exact ⟨s, engine_accounted _ s (EngineState.reach_run hrun), hfields⟩

end Umm
