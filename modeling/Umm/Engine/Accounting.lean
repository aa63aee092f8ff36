import Umm.Engine.Shape
import Umm.Lib.Reach

/-! The books of the engine: its statistics, its permits, and one result for each request. -/
namespace Umm
open Umm.Lib

namespace View

variable {v : View} {subs : List Submission} {jobs : List Job} {h j i : ℕ}

theorem count_held (v : View) (subs : List Submission) (jobs : List Job) (x : ℕ × ℕ) :
    (v.held subs jobs).count x = (subs[x.1]?.elim 0 fun sub => (v.sub sub).count x.2) +
      tally (fun _ job => if x.1 = job.handle then (v.job job).count x.2 else 0) jobs := by
  have hsubs := map_tally (Multiset.countAddMonoidHom x) (fun h sub => tag h (v.sub sub)) subs
  have hjobs := map_tally (Multiset.countAddMonoidHom x)
    (fun _ job => tag job.handle (v.job job)) jobs
  simp only [Multiset.coe_countAddMonoidHom, count_tag] at hsubs hjobs
  rw [held, Multiset.count_add, hsubs, hjobs, tally_at]

theorem card_held (v : View) (subs : List Submission) (jobs : List Job) :
    (v.held subs jobs).card = tally (fun _ sub => (v.sub sub).length) subs +
      tally (fun _ job => (v.job job).length) jobs := by
  have hsubs := map_tally (Multiset.cardHom : Multiset (ℕ × ℕ) →+ ℕ) (fun h sub => tag h (v.sub sub)) subs
  have hjobs := map_tally (Multiset.cardHom : Multiset (ℕ × ℕ) →+ ℕ)
    (fun _ job => tag job.handle (v.job job)) jobs
  simp only [Multiset.cardHom_apply, card_tag] at hsubs hjobs
  rw [held, Multiset.card_add, hsubs, hjobs]

theorem count_sub_le {sub : Submission} (hsub : subs[h]? = some sub) (i : ℕ) :
    (v.sub sub).count i ≤ (v.held subs jobs).count (h, i) := by
  rw [count_held, hsub]
  exact Nat.le_add_right _ _

theorem count_job_le {job : Job} (hjob : jobs[j]? = some job) (i : ℕ) :
    (v.job job).count i ≤ (v.held subs jobs).count (job.handle, i) := by
  have hle := le_tally
    (fun _ job' => if job.handle = job'.handle then (v.job job').count i else 0) hjob
  rw [if_pos rfl] at hle
  rw [count_held]
  exact hle.trans (Nat.le_add_left _ _)

theorem count_held_range (f : Submission → ℕ) (hv : v.sub = fun sub => List.range (f sub))
    (hnone : ∀ job, v.job job = []) (x : ℕ × ℕ) :
    (v.held subs jobs).count x = subs[x.1]?.elim 0 fun sub => if x.2 < f sub then 1 else 0 := by
  have hjobs : tally (fun _ job => if x.1 = job.handle then (v.job job).count x.2 else 0) jobs = 0 := by
    rw [tally_congr (g := fun _ _ => 0) fun _ job _ => by rw [hnone, List.count_nil, ite_self]]
    simp [tally, List.sum_eq_zero]
  rw [count_held, hjobs, add_zero, hv]
  cases subs[x.1]? with
  | none => rfl
  | some sub =>
    change (List.range (f sub)).count x.2 = if x.2 < f sub then 1 else 0
    split_ifs with hlt
    · exact List.count_eq_one_of_mem List.nodup_range (List.mem_range.mpr hlt)
    · exact List.count_eq_zero.mpr fun hin => hlt (List.mem_range.mp hin)

theorem count_entered (subs : List Submission) (jobs : List Job) (x : ℕ × ℕ) :
    (entered.held subs jobs).count x =
      subs[x.1]?.elim 0 fun sub => if x.2 < sub.counted then 1 else 0 :=
  count_held_range _ rfl (fun _ => rfl) x

theorem count_taken (subs : List Submission) (jobs : List Job) (x : ℕ × ℕ) :
    (taken.held subs jobs).count x =
      subs[x.1]?.elim 0 fun sub => if x.2 < sub.taken then 1 else 0 :=
  count_held_range _ rfl (fun _ => rfl) x

theorem count_le_one (x : ℕ × ℕ) (f : Submission → ℕ) (subs : List Submission) :
    (subs[x.1]?.elim 0 fun sub => if x.2 < f sub then 1 else 0) ≤ 1 := by
  cases subs[x.1]? with
  | none => exact Nat.zero_le _
  | some sub =>
    change (if x.2 < f sub then 1 else 0) ≤ 1
    split_ifs <;> omega

end View

/-- The handle has the results that were written, and counts those it lacks. -/
structure IOHandle.Shows (handle : IOHandle) (n : ℕ) (written : ℕ → IOResult → Prop) : Prop where
  length : handle.results.length = n
  remaining : handle.remaining = handle.results.countP Option.isNone
  results : ∀ (i : ℕ) v, handle.results[i]? = some (some v) ↔ written i v

namespace IOHandle

variable {handle : IOHandle} {n : ℕ} {written : ℕ → IOResult → Prop}

theorem shows_init (n : ℕ) : (init n).Shows n fun _ _ => False := by
  refine ⟨List.length_replicate, ?_, fun i v => ?_⟩
  · change (n : ℤ) = (List.replicate n none).countP _
    rw [List.countP_replicate]
    rfl
  · change (List.replicate n none)[i]? = _ ↔ _
    rw [List.getElem?_replicate]
    split_ifs <;> simp

theorem Shows.setResult (hs : handle.Shows n written) {i : ℕ} (hi : i < n)
    (hnew : ∀ v, ¬ written i v) (value : IOResult) :
    (handle.setResult i value).Shows n fun k v => written k v ∨ (k, v) = (i, value) := by
  have hlt : i < handle.results.length := by rwa [hs.length]
  have hnone : handle.results[i] = none := by
    cases hr : handle.results[i] with
    | none => rfl
    | some v =>
      refine absurd ((hs.results i v).mp ?_) (hnew v)
      rw [List.getElem?_eq_getElem hlt, hr]
  refine ⟨?_, ?_, fun k v => ?_⟩
  · change (handle.results.set i (some value)).length = n
    rw [List.length_set, hs.length]
  · change handle.remaining - 1 = (handle.results.set i (some value)).countP Option.isNone
    have hpos : 0 < handle.results.countP Option.isNone :=
      List.countP_pos_iff.mpr ⟨none, hnone ▸ List.getElem_mem hlt, rfl⟩
    rw [hs.remaining, List.countP_set hlt, hnone]
    simp only [Option.isNone_none, Option.isNone_some, if_true, Bool.false_eq_true, if_false,
      add_zero]
    omega
  · change (handle.results.set i (some value))[k]? = some (some v) ↔ _
    rw [List.getElem?_set, Prod.mk.injEq]
    split_ifs with hk
    · subst hk
      simp [hnew v, eq_comm]
    · rw [hs.results, or_iff_left]
      exact fun he => hk he.1.symm

theorem setMany_cons (pair : ℕ × IOResult) (pairs : List (ℕ × IOResult)) (handle : IOHandle) :
    handle.setMany (pair :: pairs) = (handle.setResult pair.1 pair.2).setMany pairs := by
  simp only [setResult, setMany, List.foldl_cons, List.foldl_nil, List.length_cons,
    List.length_nil, mk.injEq, true_and]
  push_cast
  omega

theorem Shows.setMany (hs : handle.Shows n written) {pairs : List (ℕ × IOResult)}
    (hnodup : (pairs.map Prod.fst).Nodup)
    (hfresh : ∀ pair ∈ pairs, pair.1 < n ∧ ∀ v, ¬ written pair.1 v) :
    (handle.setMany pairs).Shows n fun k v => written k v ∨ (k, v) ∈ pairs := by
  induction pairs generalizing handle written with
  | nil =>
    have hsame : handle.setMany [] = handle := by
      simp [IOHandle.setMany]
    rw [hsame]
    simpa using hs
  | cons pair pairs ih =>
    rw [List.map_cons, List.nodup_cons] at hnodup
    obtain ⟨hlt, hnew⟩ := hfresh pair List.mem_cons_self
    have hone := hs.setResult hlt hnew pair.2
    have hrest := ih hone hnodup.2 fun q hq => by
      obtain ⟨hqlt, hqnew⟩ := hfresh q (List.mem_cons_of_mem _ hq)
      refine ⟨hqlt, fun v hv => ?_⟩
      rcases hv with hv | hv
      · exact hqnew v hv
      · have hfst := (Prod.mk.inj hv).1
        exact hnodup.1 (hfst ▸ List.mem_map_of_mem hq)
    rw [setMany_cons]
    simpa only [Prod.mk.eta, List.mem_cons, or_assoc] using hrest

/-- It is done when no result is missing. -/
theorem Shows.done_iff (hs : handle.Shows n written) :
    handle.done = true ↔ ∀ i < n, ∃ v, handle.results[i]? = some (some v) := by
  unfold done
  rw [decide_eq_true_eq, hs.remaining, Nat.cast_eq_zero, List.countP_eq_zero]
  constructor
  · intro hall i hi
    rw [← hs.length] at hi
    cases hr : handle.results[i] with
    | none => exact absurd rfl (hall none (hr ▸ List.getElem_mem hi))
    | some v => exact ⟨v, by rw [List.getElem?_eq_getElem hi, hr]⟩
  · intro hall r hr hnone
    obtain ⟨i, hi, rfl⟩ := List.getElem_of_mem hr
    obtain ⟨v, hv⟩ := hall i (hs.length ▸ hi)
    rw [List.getElem?_eq_getElem hi] at hv
    rw [Option.some.inj hv] at hnone
    cases hnone

end IOHandle

namespace EngineState
open Submission

variable {cfg : EngineConfig} {s t : EngineState} {h j : ℕ}

structure Books (cfg : EngineConfig) (s : EngineState) : Prop extends s.Shape where
  stats : s.submitted = s.completed + s.failed + s.inflight
  taken : (s.acquired : Multiset (ℕ × ℕ)) = View.taken.held s.subs s.jobs
  unreleased : (s.acquired : Multiset (ℕ × ℕ)) =
    s.released + View.unreleased.held s.subs s.jobs
  unstored : (s.stored.map Prod.fst : Multiset (ℕ × ℕ)) + View.unstored.held s.subs s.jobs =
    View.entered.held s.subs s.jobs
  inflight : s.inflight = (View.inflight.held s.subs s.jobs).card
  unlimited : cfg.maxInflight = none → s.permits = none
  permits : ∀ m, cfg.maxInflight = some m → ∃ p, s.permits = some p ∧
    p + (View.unreleased.held s.subs s.jobs).card = m
  handles : ∀ (h : ℕ) sub, s.subs[h]? = some sub →
    sub.handle.Shows sub.items.length fun i v => ((h, i), v) ∈ s.stored
  values : ∀ y ∈ s.stored, y ∈ s.executed ∨ y.2 = .error .shutdown ∧ 0 < s.shut

/-- What a step writes to the handle of the call `h`. -/
structure Stores (h : ℕ) (s t : EngineState) (sub : Submission)
    (pairs : List (ℕ × IOResult)) : Prop where
  found : s.subs[h]? = some sub
  subs : ∃ sub', t.subs = s.subs.set h sub' ∧ sub'.items = sub.items ∧
    sub'.handle = sub.handle.setMany pairs
  stored : t.stored = s.stored ++ pairs.map fun pair => ((h, pair.1), pair.2)
  fresh : ∀ i, (pairs.map Prod.fst).count i ≤ (View.unstored.held s.subs s.jobs).count (h, i)
  own : ∀ pair ∈ pairs, pair.1 < sub.items.length
  values : ∀ pair ∈ pairs,
    ((h, pair.1), pair.2) ∈ s.executed ∨ pair.2 = .error .shutdown ∧ 0 < s.shut

@[simp] theorem setMany_nil (handle : IOHandle) : handle.setMany [] = handle := by
  simp [IOHandle.setMany]

theorem Stores.nothing {sub sub' : Submission} (hsub : s.subs[h]? = some sub)
    (hsubs : t.subs = s.subs.set h sub') (hitems : sub'.items = sub.items)
    (hhandle : sub'.handle = sub.handle) (hstored : t.stored = s.stored) : Stores h s t sub [] where
  found := hsub
  subs := ⟨sub', hsubs, hitems, by rw [hhandle, setMany_nil]⟩
  stored := by rw [hstored, List.map_nil, List.append_nil]
  fresh i := Nat.zero_le _
  own pair hp := by cases hp
  values pair hp := by cases hp

theorem Advance.stores (hs : s.Shape) (ha : Advance cfg h s t) :
    ∃ sub pairs, Stores h s t sub pairs := by
  cases ha with
  | dispatch hsub hphase hitem => exact ⟨_, _, .nothing hsub rfl rfl rfl rfl⟩
  | acquire hsub hphase hitem ht =>
    obtain ⟨-, rfl⟩ := acquire_eq ht
    exact ⟨_, _, .nothing hsub rfl rfl rfl rfl⟩
  | count hsub hphase hitem => exact ⟨_, _, .nothing hsub rfl rfl rfl rfl⟩
  | hand hsub hphase hopen => exact ⟨_, _, .nothing hsub rfl rfl rfl rfl⟩
  | refuse hsub hphase hshut =>
    exact ⟨_, _, .nothing hsub rfl (items_resume _ _) (handle_resume _ _) rfl⟩
  | giveBack hsub hphase => exact ⟨_, _, .nothing hsub rfl rfl rfl rfl⟩
  | uncount hsub hphase => exact ⟨_, _, .nothing hsub rfl rfl rfl rfl⟩
  | @fail sub x group rest hsub hphase =>
    have hleft : sub.left (fun _ => false) = x :: group ++ grouped rest := by
      rw [left_failing hphase]
      rfl
    refine ⟨sub, [(x.idx, .error .shutdown)], hsub, ⟨_, rfl, items_resume _ _, ?_⟩, rfl, ?_, ?_, ?_⟩
    · change (sub.resume group rest).handle.setMany _ = _
      rw [handle_resume]
    · intro i
      refine le_trans ?_ (View.count_sub_le hsub i)
      simp only [View.unstored, hleft]
      exact List.Sublist.count_le i (List.singleton_sublist.mpr List.mem_cons_self)
    · intro pair hp
      rw [List.mem_singleton.mp hp]
      have hown := (hs.sub h sub hsub).own x (hleft ▸ List.mem_cons_self)
      exact (List.getElem?_eq_some_iff.mp hown).1
    · intro pair hp
      rw [List.mem_singleton.mp hp]
      refine .inr ⟨rfl, Nat.pos_of_ne_zero fun hzero => ?_⟩
      have hcalm := hs.calm hzero h sub hsub
      rw [hphase] at hcalm
      cases hcalm
  | failed hsub hphase => exact ⟨_, _, .nothing hsub rfl rfl rfl rfl⟩
  | finish hsub hphase => exact ⟨_, _, .nothing hsub rfl rfl rfl rfl⟩

theorem Work.stores (hs : s.Shape) (hw : Work cfg j s t) :
    (t.subs = s.subs ∧ t.stored = s.stored) ∨ ∃ h sub pairs, Stores h s t sub pairs := by
  cases hw with
  | start hjob hstage hready => exact .inl ⟨rfl, rfl⟩
  | execute hjob hstage lib => exact .inl ⟨rfl, rfl⟩
  | count hjob hstage => exact .inl ⟨rfl, rfl⟩
  | giveBack hjob hstage => exact .inl ⟨rfl, rfl⟩
  | @deliver job results sub hjob hstage hsub =>
    have hidx := (hs.job j job hjob).counted results [] hstage
    have hresults : job.results = results := by
      unfold Job.results
      rw [hstage]
    refine .inr ⟨job.handle, sub, results, hsub, ⟨_, rfl, rfl, rfl⟩, rfl, ?_, ?_, ?_⟩
    · intro i
      refine le_trans ?_ (View.count_job_le hjob i)
      simp only [View.unstored, Job.unstored, hstage, hidx]
      exact le_rfl
    · intro pair hp
      obtain ⟨sub', hsub', hown⟩ := hs.owner j job hjob
      obtain rfl := Option.some.inj (hsub.symm.trans hsub')
      have hin : pair.1 ∈ indices job.group := hidx ▸ List.mem_map_of_mem hp
      obtain ⟨x, hx, he⟩ := List.mem_map.mp hin
      rw [← he]
      exact (List.getElem?_eq_some_iff.mp (hown x hx)).1
    · intro pair hp
      exact .inl (hs.results j job hjob pair (hresults.symm ▸ hp))

theorem Books.stored_le (hb : s.Books cfg) (x : ℕ × ℕ) :
    Multiset.count x (s.stored.map Prod.fst) + (View.unstored.held s.subs s.jobs).count x ≤ 1 := by
  have hcount := congrArg (Multiset.count x) hb.unstored
  rw [Multiset.count_add, View.count_entered] at hcount
  rw [hcount]
  exact View.count_le_one x _ _

theorem Books.handles_stores (hb : s.Books cfg) {sub : Submission} {pairs : List (ℕ × IOResult)}
    (hst : Stores h s t sub pairs) : ∀ (k : ℕ) sub, t.subs[k]? = some sub →
      sub.handle.Shows sub.items.length fun i v => ((k, i), v) ∈ t.stored := by
  obtain ⟨sub', hsubs, hitems, hhandle⟩ := hst.subs
  have hnodup : (pairs.map Prod.fst).Nodup := by
    rw [List.nodup_iff_count_le_one]
    intro i
    have := hst.fresh i
    have := hb.stored_le (h, i)
    omega
  have hmem : ∀ k i v, ((k, i), v) ∈ t.stored ↔
      ((k, i), v) ∈ s.stored ∨ k = h ∧ (i, v) ∈ pairs := by
    intro k i v
    rw [hst.stored, List.mem_append, List.mem_map]
    refine or_congr_right ⟨?_, ?_⟩
    · rintro ⟨pair, hp, he⟩
      obtain ⟨hki, rfl⟩ := Prod.mk.inj he
      obtain ⟨rfl, rfl⟩ := Prod.mk.inj hki
      exact ⟨rfl, hp⟩
    · rintro ⟨rfl, hp⟩
      exact ⟨(i, v), hp, rfl⟩
  have hfresh : ∀ pair ∈ pairs, pair.1 < sub.items.length ∧ ∀ v, ((h, pair.1), v) ∉ s.stored := by
    intro pair hp
    refine ⟨hst.own pair hp, fun v hv => ?_⟩
    have hone : 0 < (pairs.map Prod.fst).count pair.1 :=
      List.count_pos_iff.mpr (List.mem_map_of_mem hp)
    have htwo : 0 < Multiset.count (h, pair.1) (s.stored.map Prod.fst) :=
      Multiset.count_pos.mpr (Multiset.mem_coe.mpr (List.mem_map_of_mem hv))
    have := hst.fresh pair.1
    have := hb.stored_le (h, pair.1)
    omega
  intro k sub₁ hk
  simp only [hmem]
  rw [hsubs] at hk
  by_cases hkh : h = k
  · subst hkh
    rw [List.getElem?_set_self (List.getElem?_eq_some_iff.mp hst.found).1] at hk
    obtain rfl := Option.some.inj hk
    rw [hitems, hhandle]
    simpa using (hb.handles _ _ hst.found).setMany hnodup hfresh
  · rw [List.getElem?_set_ne hkh] at hk
    simpa [Ne.symm hkh] using hb.handles _ _ hk

theorem values_stores (hv : ∀ y ∈ s.stored, y ∈ s.executed ∨ y.2 = .error .shutdown ∧ 0 < s.shut)
    {sub : Submission} {pairs : List (ℕ × IOResult)} (hst : Stores h s t sub pairs) :
    ∀ y ∈ t.stored, y ∈ s.executed ∨ y.2 = .error .shutdown ∧ 0 < s.shut := by
  intro y hy
  rw [hst.stored] at hy
  rcases List.mem_append.mp hy with hy | hy
  · exact hv y hy
  · obtain ⟨pair, hp, rfl⟩ := List.mem_map.mp hy
    exact hst.values pair hp

theorem Advance.stats (ha : Advance cfg h s t) :
    t.submitted - t.completed - t.failed - t.inflight =
      s.submitted - s.completed - s.failed - s.inflight := by
  cases ha with
  | acquire hsub hphase hitem ht =>
    obtain ⟨-, rfl⟩ := acquire_eq ht
    rfl
  | count =>
    change s.submitted + 1 - s.completed - s.failed - (s.inflight + 1) = _
    omega
  | uncount =>
    change s.submitted - 1 - s.completed - s.failed - (s.inflight - 1) = _
    omega
  | _ => rfl

theorem Work.stats (hs : ∀ job, s.jobs[j]? = some job → job.WF) (hw : Work cfg j s t) :
    t.submitted - t.completed - t.failed - t.inflight =
      s.submitted - s.completed - s.failed - s.inflight := by
  cases hw with
  | @count job results hjob hstage =>
    obtain ⟨before, hgroup, hidx⟩ := (hs job hjob).running _ _ hstage
    have hlen : results.length = job.group.length := by
      rw [← hgroup, List.append_nil, ← List.length_map (f := Prod.fst), hidx, indices,
        List.length_map]
    have hsplit := List.length_eq_countP_add_countP
      (fun pair : ℕ × IOResult => pair.2.isOk) (l := results)
    change s.submitted - (s.completed + _) - (s.failed + _) - (s.inflight - _) = _
    simp only [Bool.not_eq_true, Bool.decide_eq_false] at hsplit
    omega
  | _ => rfl

theorem step_stats (hs : s.Shape) {e : EngineEvent} (ht : EngineStep cfg s e t) :
    t.submitted - t.completed - t.failed - t.inflight =
      s.submitted - s.completed - s.failed - s.inflight := by
  cases e with
  | submit items =>
    obtain ⟨-, rfl⟩ := submit_eq ht
    rfl
  | advance h => exact (advance_cases ht).stats
  | work j lib => exact (work_cases ht).stats (hs.job j)
  | close =>
    obtain rfl := Option.some.inj ht
    rfl
  | shutdown =>
    obtain ⟨-, rfl⟩ := shutdown_eq ht
    rfl

theorem Books.handles_step (hb : s.Books cfg) {e : EngineEvent} (ht : EngineStep cfg s e t) :
    ∀ (k : ℕ) sub, t.subs[k]? = some sub →
      sub.handle.Shows sub.items.length fun i v => ((k, i), v) ∈ t.stored := by
  cases e with
  | submit items =>
    obtain ⟨-, rfl⟩ := submit_eq ht
    refine forall_concat hb.handles ?_
    have hnone : ∀ i v, ((s.subs.length, i), v) ∉ s.stored := by
      intro i v hv
      have hpos : 0 < Multiset.count (s.subs.length, i) (s.stored.map Prod.fst) :=
        Multiset.count_pos.mpr (Multiset.mem_coe.mpr (List.mem_map_of_mem hv))
      have hcount := congrArg (Multiset.count (s.subs.length, i)) hb.unstored
      rw [Multiset.count_add, View.count_entered,
        List.getElem?_eq_none le_rfl, Option.elim_none] at hcount
      omega
    simpa [hnone] using IOHandle.shows_init items.length
  | advance h =>
    obtain ⟨sub, pairs, hst⟩ := (advance_cases ht).stores hb.toShape
    exact hb.handles_stores hst
  | work j lib =>
    rcases (work_cases ht).stores hb.toShape with ⟨hsubs, hstored⟩ | ⟨h, sub, pairs, hst⟩
    · rw [hsubs, hstored]
      exact hb.handles
    · exact hb.handles_stores hst
  | close =>
    obtain rfl := Option.some.inj ht
    exact hb.handles
  | shutdown =>
    obtain ⟨-, rfl⟩ := shutdown_eq ht
    exact hb.handles

theorem Books.values_step (hb : s.Books cfg) {e : EngineEvent} (ht : EngineStep cfg s e t) :
    ∀ y ∈ t.stored, y ∈ t.executed ∨ y.2 = .error .shutdown ∧ 0 < t.shut := by
  cases e with
  | submit items =>
    obtain ⟨-, rfl⟩ := submit_eq ht
    exact hb.values
  | advance h =>
    obtain ⟨sub, pairs, hst⟩ := (advance_cases ht).stores hb.toShape
    obtain ⟨_, _, had⟩ := (advance_cases ht).advanced
    rw [had.executed, had.shut]
    exact values_stores hb.values hst
  | work j lib =>
    obtain ⟨job, job', hwd⟩ := (work_cases ht).worked
    have hgrow : ∀ y, y ∈ s.executed ∨ y.2 = .error .shutdown ∧ 0 < s.shut →
        y ∈ t.executed ∨ y.2 = .error .shutdown ∧ 0 < t.shut := by
      intro y hy
      rw [hwd.shut]
      refine hy.imp_left fun hy => ?_
      rcases hwd.executed with he | ⟨x, lib, -, he⟩
      · rwa [he]
      · rw [he]
        exact List.mem_append_left _ hy
    rcases (work_cases ht).stores hb.toShape with ⟨-, hstored⟩ | ⟨h, sub, pairs, hst⟩
    · rw [hstored]
      exact fun y hy => hgrow y (hb.values y hy)
    · exact fun y hy => hgrow y (values_stores hb.values hst y hy)
  | close =>
    obtain rfl := Option.some.inj ht
    exact hb.values
  | shutdown =>
    obtain ⟨-, rfl⟩ := shutdown_eq ht
    exact fun y hy => (hb.values y hy).imp_right fun hv => ⟨hv.1, Nat.succ_pos _⟩

theorem Books.step (hb : s.Books cfg) {e : EngineEvent} (ht : EngineStep cfg s e t) :
    t.Books cfg := by
  obtain ⟨acq, ent, rel, out, sto, hm⟩ := step_moves hb.sub hb.job ht
  refine ⟨hb.toShape.step ht, ?_, ?_, ?_, ?_, ?_, ?_, ?_, hb.handles_step ht, hb.values_step ht⟩
  · have := step_stats hb.toShape ht
    have := hb.stats
    omega
  · rw [hm.acquired, hm.taken, hb.taken]
  · rw [hm.acquired, hm.released, hb.unreleased, add_assoc, add_assoc, ← hm.unreleased,
      add_comm rel]
  · rw [hm.stored, hm.entered, ← hb.unstored, add_assoc, add_assoc, ← hm.unstored, add_comm sto]
  · have hcard := congrArg Multiset.card hm.inflight
    rw [Multiset.card_add, Multiset.card_add] at hcard
    have := hm.count
    have := hb.inflight
    omega
  · exact fun hnone => hm.unlimited (hb.unlimited hnone)
  · intro m hmax
    obtain ⟨p, hp, hsum⟩ := hb.permits m hmax
    obtain ⟨p', hp', hmove⟩ := hm.permits p hp
    have hcard := congrArg Multiset.card hm.unreleased
    rw [Multiset.card_add, Multiset.card_add] at hcard
    exact ⟨p', hp', by omega⟩

theorem books_init (cfg : EngineConfig) : (EngineState.init cfg).Books cfg where
  toShape := shape_init cfg
  stats := rfl
  taken := rfl
  unreleased := rfl
  unstored := rfl
  inflight := rfl
  unlimited := id
  permits m hm := ⟨m, hm, rfl⟩
  handles _ _ h := by cases h
  values _ h := by cases h

end EngineState

end Umm
