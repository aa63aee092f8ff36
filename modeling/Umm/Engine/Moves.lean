import Umm.Engine.Ledger

/-! What every step of the engine does with permits, with the requests in flight and with
results. -/
namespace Umm
open Umm.Lib

/-- What a step does with permits (`acq`, `rel`), with the requests in flight (`ent`, `out`) and
with results (`sto`), as the counters and the history show it. -/
structure Logs (s t : EngineState) (acq ent rel out sto : Multiset (ℕ × ℕ)) : Prop where
  acquired : (t.acquired : Multiset (ℕ × ℕ)) = s.acquired + acq
  released : (t.released : Multiset (ℕ × ℕ)) = s.released + rel
  stored : (t.stored.map Prod.fst : Multiset (ℕ × ℕ)) = s.stored.map Prod.fst + sto
  unlimited : s.permits = none → t.permits = none
  permits : ∀ p, s.permits = some p → ∃ p', t.permits = some p' ∧ p' + acq.card = p + rel.card
  count : t.inflight + out.card = s.inflight + ent.card

/-- The same as the threads show it. -/
structure Moves (s t : EngineState) (acq ent rel out sto : Multiset (ℕ × ℕ)) : Prop extends
    Logs s t acq ent rel out sto where
  taken : View.taken.held t.subs t.jobs = View.taken.held s.subs s.jobs + acq
  entered : View.entered.held t.subs t.jobs = View.entered.held s.subs s.jobs + ent
  unreleased : View.unreleased.held t.subs t.jobs + rel = View.unreleased.held s.subs s.jobs + acq
  inflight : View.inflight.held t.subs t.jobs + out = View.inflight.held s.subs s.jobs + ent
  unstored : View.unstored.held t.subs t.jobs + sto = View.unstored.held s.subs s.jobs + ent

namespace Logs
open View

variable {s t : EngineState} {h : ℕ}

theorem keep (hacq : t.acquired = s.acquired) (hrel : t.released = s.released)
    (hsto : t.stored = s.stored) (hper : t.permits = s.permits) (hin : t.inflight = s.inflight) :
    Logs s t 0 0 0 0 0 := by
  refine ⟨?_, ?_, ?_, fun hnone => hper.trans hnone, fun p hp => ⟨p, hper.trans hp, rfl⟩, ?_⟩
  · rw [hacq, add_zero]
  · rw [hrel, add_zero]
  · rw [hsto, add_zero]
  · rw [hin]

theorem acquire {i : ℕ} (ht : s.acquire (h, i) = some t) (subs : List Submission) :
    Logs s { t with subs } (tag h [i]) 0 0 0 0 := by
  obtain ⟨hne, rfl⟩ := EngineState.acquire_eq ht
  refine ⟨rfl, (add_zero _).symm, (add_zero _).symm, fun hnone => ?_, fun p hp => ?_, rfl⟩
  · change s.permits.map _ = none
    rw [hnone]
    rfl
  · have hpos : p ≠ 0 := fun hzero => hne (by rw [hp, hzero])
    refine ⟨p - 1, ?_, ?_⟩
    · change s.permits.map _ = some (p - 1)
      rw [hp]
      rfl
    · rw [card_tag, List.length_singleton, Multiset.card_zero]
      omega

theorem release (i : ℕ) (subs : List Submission) (jobs : List Job) :
    Logs s { s.release (h, i) with subs, jobs } 0 0 (tag h [i]) 0 0 := by
  refine ⟨(add_zero _).symm, rfl, (add_zero _).symm, fun hnone => ?_, fun p hp => ?_, rfl⟩
  · change s.permits.map _ = none
    rw [hnone]
    rfl
  · refine ⟨p + 1, ?_, ?_⟩
    · change s.permits.map _ = some (p + 1)
      rw [hp]
      rfl
    · rw [card_tag, List.length_singleton, Multiset.card_zero]

theorem countIn (i : ℕ) (subs : List Submission) :
    Logs s { s.countIn with subs } 0 (tag h [i]) 0 0 0 := by
  refine ⟨(add_zero _).symm, (add_zero _).symm, (add_zero _).symm, id, fun p hp => ⟨p, hp, rfl⟩, ?_⟩
  change s.inflight + 1 + _ = _
  rw [card_tag, List.length_singleton, Multiset.card_zero, Nat.cast_zero, add_zero, Nat.cast_one]

theorem countOut (i : ℕ) (subs : List Submission) :
    Logs s { s.countOut with subs } 0 0 0 (tag h [i]) 0 := by
  refine ⟨(add_zero _).symm, (add_zero _).symm, (add_zero _).symm, id, fun p hp => ⟨p, hp, rfl⟩, ?_⟩
  change s.inflight - 1 + _ = _
  rw [card_tag, List.length_singleton, Multiset.card_zero, Nat.cast_zero, add_zero, Nat.cast_one,
    sub_add_cancel]

theorem countGroup (group : List GroupItem) (completed failed : ℤ) (jobs : List Job) :
    Logs s { s with completed, failed, inflight := s.inflight - group.length, jobs } 0 0 0
      (tag h (Submission.indices group)) 0 := by
  refine ⟨(add_zero _).symm, (add_zero _).symm, (add_zero _).symm, id, fun p hp => ⟨p, hp, rfl⟩, ?_⟩
  change s.inflight - group.length + _ = _
  rw [card_tag, Submission.indices, List.length_map, Multiset.card_zero, Nat.cast_zero, add_zero,
    sub_add_cancel]

theorem store (sub : Submission) (pairs : List (ℕ × IOResult)) (jobs : List Job) :
    Logs s { s.store h sub pairs with jobs } 0 0 0 0 (tag h (pairs.map Prod.fst)) := by
  refine ⟨(add_zero _).symm, (add_zero _).symm, ?_, id, fun p hp => ⟨p, hp, rfl⟩, rfl⟩
  change ((s.stored ++ _).map Prod.fst : Multiset (ℕ × ℕ)) = _
  rw [List.map_append, ← Multiset.coe_add, List.map_map, tag, Multiset.map_coe, List.map_map]
  rfl

end Logs

/-- What a step does to the call it is a step of. -/
structure SubMove (sub sub' : Submission) (acq ent rel out sto : List ℕ) : Prop where
  taken : sub'.taken = sub.taken + acq.length ∧ acq = List.range' sub.taken acq.length
  entered : sub'.counted = sub.counted + ent.length ∧ ent = List.range' sub.counted ent.length
  unreleased : (View.unreleased.sub sub' ++ rel).Perm (View.unreleased.sub sub ++ acq)
  inflight : (View.inflight.sub sub' ++ out).Perm (View.inflight.sub sub ++ ent)
  unstored : (View.unstored.sub sub' ++ sto).Perm (View.unstored.sub sub ++ ent)

/-- What a step does to the job it is a step of. -/
structure JobMove (job job' : Job) (rel out sto : List ℕ) : Prop where
  handle : job'.handle = job.handle
  unreleased : (View.unreleased.job job' ++ rel).Perm (View.unreleased.job job)
  inflight : (View.inflight.job job' ++ out).Perm (View.inflight.job job)
  unstored : (View.unstored.job job' ++ sto).Perm (View.unstored.job job)

namespace Moves
open Submission View

variable {s t : EngineState} {h j : ℕ} {sub sub' : Submission} {job job' : Job}
  {acq ent rel out sto : List ℕ}

theorem range_add {m n : ℕ} {l : List ℕ} (hn : n = m + l.length)
    (hl : l = List.range' m l.length) : (List.range n).Perm (List.range m ++ l) := by
  rw [hn, List.range_add]
  refine List.Perm.append_left _ ?_
  conv_rhs => rw [hl]
  rw [List.range'_eq_map_range]

theorem ofSub (hsub : s.subs[h]? = some sub) (hm : SubMove sub sub' acq ent rel out sto)
    (hlog : Logs s t (tag h acq) (tag h ent) (tag h rel) (tag h out) (tag h sto))
    (hsubs : t.subs = s.subs.set h sub') (hjobs : t.jobs = s.jobs) :
    Moves s t (tag h acq) (tag h ent) (tag h rel) (tag h out) (tag h sto) := by
  refine ⟨hlog, ?_, ?_, ?_, ?_, ?_⟩
  all_goals rw [hsubs, hjobs]
  · exact held_growSub hsub (range_add hm.taken.1 hm.taken.2)
  · exact held_growSub hsub (range_add hm.entered.1 hm.entered.2)
  · exact held_setSub hsub hm.unreleased
  · exact held_setSub hsub hm.inflight
  · exact held_setSub hsub hm.unstored

theorem ofJob (hjob : s.jobs[j]? = some job) (hm : JobMove job job' rel out sto)
    (hlog : Logs s t 0 0 (tag job.handle rel) (tag job.handle out) (tag job.handle sto))
    (hsubs : t.subs = s.subs) (hjobs : t.jobs = s.jobs.set j job') :
    Moves s t 0 0 (tag job.handle rel) (tag job.handle out) (tag job.handle sto) := by
  refine ⟨hlog, ?_, ?_, ?_, ?_, ?_⟩
  all_goals rw [hsubs, hjobs, add_zero]
  · exact (add_zero _).symm.trans (held_shrinkJob (v := View.taken) hjob hm.handle .rfl)
  · exact (add_zero _).symm.trans (held_shrinkJob (v := View.entered) hjob hm.handle .rfl)
  · exact held_shrinkJob hjob hm.handle hm.unreleased
  · exact held_shrinkJob hjob hm.handle hm.inflight
  · exact held_shrinkJob hjob hm.handle hm.unstored

end Moves

namespace SubMove
open Submission

variable {sub sub' : Submission}

theorem keep (hleft : ∀ passed : Undo → Bool, passed .release = false →
      sub'.left passed = sub.left passed)
    (hnew : sub'.phase ≠ .collecting true) (hold : sub.phase ≠ .collecting true)
    (hcounted : sub'.counted = sub.counted) : SubMove sub sub' [] [] [] [] [] := by
  refine ⟨⟨?_, rfl⟩, ⟨hcounted, rfl⟩, ?_, ?_, ?_⟩
  · rw [taken_eq_counted hnew, taken_eq_counted hold, hcounted]
    rfl
  · simp only [View.unreleased, ahead_eq_nil hnew, ahead_eq_nil hold, hleft (· ≠ .release) rfl]
    exact .rfl
  · simp only [View.inflight, hleft (· = .store) rfl]
    exact .rfl
  · simp only [View.unstored, hleft (fun _ => false) rfl]
    exact .rfl

theorem acquire (hphase : sub.phase = .collecting false) :
    SubMove sub { sub with phase := .collecting true } [sub.counted] [] [] [] [] := by
  have hne : sub.phase ≠ .collecting true := by
    rw [hphase]
    exact fun h => by cases h
  have hleft : ∀ passed : Undo → Bool,
      left passed { sub with phase := .collecting true } = sub.left passed :=
    fun passed => (left_collecting hphase passed).symm
  refine ⟨⟨?_, ?_⟩, ⟨rfl, rfl⟩, ?_, ?_, ?_⟩
  · rw [taken_eq_counted hne]
    rfl
  · rw [taken_eq_counted hne]
    rfl
  · simp only [View.unreleased, ahead_eq_nil hne, hleft, List.append_nil]
    exact .rfl
  · simp only [View.inflight, hleft]
    exact .rfl
  · simp only [View.unstored, hleft]
    exact .rfl

theorem count {cfg : EngineConfig} {item : IOItem} (hphase : sub.phase = .collecting true) :
    SubMove sub (sub.collect cfg item) [] [sub.counted] [] [] [] := by
  have hperm : (indices (grouped (sub.collect cfg item).groups)).Perm
      (indices (grouped sub.groups) ++ [sub.counted]) :=
    ((grouped_addTo_perm _ _ _).map _).trans (List.perm_append_singleton _ _).symm
  have hleft : ∀ passed : Undo → Bool,
      (sub.collect cfg item).left passed = grouped (sub.collect cfg item).groups := fun _ => rfl
  have htaken : sub.taken = sub.counted + 1 := by
    unfold Submission.taken
    rw [hphase]
  have hahead : sub.ahead = [sub.counted] := by
    unfold ahead
    rw [hphase]
  refine ⟨⟨htaken.symm, rfl⟩, ⟨rfl, rfl⟩, ?_, ?_, ?_⟩
  · simp only [View.unreleased, hleft, left_collecting hphase, hahead, List.append_nil]
    exact (List.append_nil _).symm ▸ hperm
  · simp only [View.inflight, hleft, left_collecting hphase, List.append_nil]
    exact hperm
  · simp only [View.unstored, hleft, left_collecting hphase, List.append_nil]
    exact hperm

variable {x : GroupItem} {group : List GroupItem} {rest : Groups}

theorem giveBack (hphase : sub.phase = .failing .release (x :: group) rest) :
    SubMove sub { sub with phase := .failing .uncount (x :: group) rest } [] [] [x.idx] [] [] := by
  have hne : sub.phase ≠ .collecting true := by
    rw [hphase]
    exact fun h => by cases h
  refine ⟨⟨(taken_eq_counted hne).symm, rfl⟩, ⟨rfl, rfl⟩, ?_, ?_, ?_⟩
  · simp only [View.unreleased, left_failing hphase, ahead_eq_nil hne, List.append_nil]
    change (indices (group ++ grouped rest) ++ [] ++ [x.idx]).Perm
      (indices (x :: group ++ grouped rest))
    rw [List.append_nil]
    exact List.perm_append_singleton _ _
  · simp only [View.inflight, left_failing hphase]
    exact .rfl
  · simp only [View.unstored, left_failing hphase]
    exact .rfl

theorem uncount (hphase : sub.phase = .failing .uncount (x :: group) rest) :
    SubMove sub { sub with phase := .failing .store (x :: group) rest } [] [] [] [x.idx] [] := by
  have hne : sub.phase ≠ .collecting true := by
    rw [hphase]
    exact fun h => by cases h
  refine ⟨⟨(taken_eq_counted hne).symm, rfl⟩, ⟨rfl, rfl⟩, ?_, ?_, ?_⟩
  · simp only [View.unreleased, left_failing hphase, ahead_eq_nil hne, List.append_nil]
    change (indices (group ++ grouped rest) ++ []).Perm (indices (group ++ grouped rest))
    rw [List.append_nil]
  · simp only [View.inflight, left_failing hphase, List.append_nil]
    exact List.perm_append_singleton _ _
  · simp only [View.unstored, left_failing hphase]
    exact .rfl

theorem fail (hphase : sub.phase = .failing .store (x :: group) rest) (handle : IOHandle) :
    SubMove sub { sub.resume group rest with handle } [] [] [] [] [x.idx] := by
  have hne : sub.phase ≠ .collecting true := by
    rw [hphase]
    exact fun h => by cases h
  have hne' : ({ sub.resume group rest with handle } : Submission).phase ≠ .collecting true :=
    @resume_ne_collecting sub group rest true
  have hleft : ∀ passed : Undo → Bool, passed .release = false →
      left passed { sub.resume group rest with handle } = group ++ grouped rest :=
    fun passed hp => left_resume group rest sub hp
  refine ⟨⟨?_, rfl⟩, ⟨counted_resume group rest, rfl⟩, ?_, ?_, ?_⟩
  · rw [taken_eq_counted hne, taken_eq_counted hne']
    exact counted_resume group rest
  · simp only [View.unreleased, left_failing hphase, ahead_eq_nil hne, ahead_eq_nil hne',
      hleft (· ≠ .release) rfl, List.append_nil]
    exact .rfl
  · simp only [View.inflight, left_failing hphase, hleft (· = .store) rfl, List.append_nil]
    exact .rfl
  · simp only [View.unstored, left_failing hphase, hleft (fun _ => false) rfl, List.append_nil]
    exact List.perm_append_singleton _ _

end SubMove

namespace EngineState
open View Submission

variable {cfg : EngineConfig} {s t : EngineState} {h j : ℕ}

theorem moves_hand {sub : Submission} {key : ℕ} {group : List GroupItem} {rest : Groups}
    (hsub : s.subs[h]? = some sub) (hphase : sub.phase = .dispatching ((key, group) :: rest))
    (executor : ℕ) :
    Moves s { s.setSub h { sub with phase := .dispatching rest } with
      jobs := s.jobs ++ [⟨h, executor, group, .queued⟩] } 0 0 0 0 0 := by
  have hne : sub.phase ≠ .collecting true := by
    rw [hphase]
    exact fun h => by cases h
  -- a view that has the whole group of a queued job moves the group with it
  have hgroup : ∀ v : View, v.job ⟨h, executor, group, .queued⟩ = indices group →
      (v.sub { sub with phase := .dispatching rest } ++ indices group).Perm (v.sub sub) →
      v.held (s.subs.set h { sub with phase := .dispatching rest })
        (s.jobs ++ [⟨h, executor, group, .queued⟩]) = v.held s.subs s.jobs := by
    intro v hjob hperm
    rw [held_addJob, hjob]
    exact held_shrinkSub hsub hperm
  have hnothing : ∀ v : View, v.job ⟨h, executor, group, .queued⟩ = [] →
      v.sub { sub with phase := .dispatching rest } = v.sub sub →
      v.held (s.subs.set h { sub with phase := .dispatching rest })
        (s.jobs ++ [⟨h, executor, group, .queued⟩]) = v.held s.subs s.jobs := by
    intro v hjob hv
    rw [held_addJob, hjob, tag_nil, add_zero]
    exact held_growSub hsub (by rw [hv, List.append_nil]) |>.trans (add_zero _)
  have hperm : (indices (grouped rest) ++ indices group).Perm
      (indices (grouped ((key, group) :: rest))) := by
    rw [grouped_cons, indices_append]
    exact List.perm_append_comm
  refine ⟨.keep rfl rfl rfl rfl rfl, ?_, ?_, ?_, ?_, ?_⟩
  all_goals rw [add_zero]
  · refine hnothing _ rfl ?_
    simp only [View.taken, taken_eq_counted hne]
    rfl
  · exact hnothing _ rfl rfl
  all_goals rw [add_zero]
  · refine hgroup _ rfl ?_
    simp only [View.unreleased, left_dispatching hphase, ahead_eq_nil hne, List.append_nil]
    change (indices (grouped rest) ++ [] ++ indices group).Perm _
    rw [List.append_nil]
    exact hperm
  · refine hgroup _ rfl ?_
    simp only [View.inflight, left_dispatching hphase]
    exact hperm
  · refine hgroup _ rfl ?_
    simp only [View.unstored, left_dispatching hphase]
    exact hperm

theorem moves_phase {sub : Submission} {phase : SubmitPhase} (hsub : s.subs[h]? = some sub)
    (hleft : ∀ passed : Undo → Bool, left passed { sub with phase } = sub.left passed)
    (hnew : phase ≠ .collecting true) (hold : sub.phase ≠ .collecting true) :
    Moves s (s.setSub h { sub with phase }) (tag h []) (tag h []) (tag h []) (tag h []) (tag h []) :=
  .ofSub hsub (.keep (fun passed _ => hleft passed) hnew hold rfl) (.keep rfl rfl rfl rfl rfl)
    rfl rfl

theorem Advance.moves (hwf : ∀ sub, s.subs[h]? = some sub → sub.WF) (ha : Advance cfg h s t) :
    ∃ acq ent rel out sto, Moves s t acq ent rel out sto := by
  cases ha with
  | @dispatch sub permit hsub hphase hitem =>
    have hfalse : permit = false := by
      cases permit with
      | false => rfl
      | true =>
        have := (hwf sub hsub).permit hphase
        rw [List.getElem?_eq_none_iff] at hitem
        omega
    subst hfalse
    refine ⟨_, _, _, _, _, moves_phase hsub (fun passed => (left_collecting hphase passed).symm)
      SubmitPhase.noConfusion ?_⟩
    rw [hphase]
    exact fun h => by cases h
  | acquire hsub hphase hitem ht =>
    refine ⟨_, _, _, _, _, .ofSub hsub (.acquire hphase) (.acquire ht _) ?_ ?_⟩
    · rw [(acquire_eq ht).2]
      rfl
    · rw [(acquire_eq ht).2]
      rfl
  | @count sub item hsub hphase hitem =>
    exact ⟨_, _, _, _, _, .ofSub hsub (.count hphase) (.countIn sub.counted _) rfl rfl⟩
  | hand hsub hphase hopen => exact ⟨_, _, _, _, _, moves_hand hsub hphase _⟩
  | refuse hsub hphase hshut =>
    refine ⟨_, _, _, _, _, .ofSub hsub (.keep (fun passed hp => ?_)
      (resume_ne_collecting _ _ true) (by rw [hphase]; exact fun h => by cases h)
      (counted_resume _ _)) (.keep rfl rfl rfl rfl rfl) rfl rfl⟩
    rw [left_resume _ _ _ hp, left_dispatching hphase, grouped_cons]
  | @giveBack sub x group rest hsub hphase =>
    exact ⟨_, _, _, _, _, .ofSub hsub (.giveBack hphase) (.release x.idx _ _) rfl rfl⟩
  | @uncount sub x group rest hsub hphase =>
    exact ⟨_, _, _, _, _, .ofSub hsub (.uncount hphase) (.countOut x.idx _) rfl rfl⟩
  | @fail sub x group rest hsub hphase =>
    exact ⟨_, _, _, _, _, .ofSub hsub (.fail hphase _) (.store _ [(x.idx, .error .shutdown)] _)
      rfl rfl⟩
  | @failed sub undo rest hsub hphase =>
    refine ⟨_, _, _, _, _, moves_phase hsub (fun passed => ?_) SubmitPhase.noConfusion ?_⟩
    · rw [left_failing hphase, List.tail_nil, ite_self]
      rfl
    · rw [hphase]
      exact SubmitPhase.noConfusion
  | finish hsub hphase =>
    refine ⟨_, _, _, _, _, moves_phase hsub (fun passed => (left_dispatching hphase passed).symm)
      SubmitPhase.noConfusion ?_⟩
    rw [hphase]
    exact SubmitPhase.noConfusion

theorem moves_handle {acq ent rel out sto : Multiset (ℕ × ℕ)} {sub : Submission}
    (hm : Moves s t acq ent rel out sto) (hsub : t.subs[h]? = some sub) (handle : IOHandle) :
    Moves s { t with subs := t.subs.set h { sub with handle } } acq ent rel out sto := by
  have hkeep : ∀ v : View, v.sub { sub with handle } = v.sub sub →
      v.held (t.subs.set h { sub with handle }) t.jobs = v.held t.subs t.jobs := by
    intro v hv
    exact (held_growSub hsub (by rw [hv, List.append_nil])).trans (add_zero _)
  refine ⟨⟨hm.acquired, hm.released, hm.stored, hm.unlimited, hm.permits, hm.count⟩,
    ?_, ?_, ?_, ?_, ?_⟩
  · exact (hkeep .taken rfl).trans hm.taken
  · exact (hkeep .entered rfl).trans hm.entered
  · exact (congrArg (· + rel) (hkeep .unreleased rfl)).trans hm.unreleased
  · exact (congrArg (· + out) (hkeep .inflight rfl)).trans hm.inflight
  · exact (congrArg (· + sto) (hkeep .unstored rfl)).trans hm.unstored

theorem Work.moves (hwf : ∀ job, s.jobs[j]? = some job → job.WF) (hw : Work cfg j s t) :
    ∃ acq ent rel out sto, Moves s t acq ent rel out sto := by
  cases hw with
  | @start job hjob hstage hready =>
    have hm : JobMove job { job with stage := .running [] job.group } [] [] [] := by
      refine ⟨rfl, ?_, ?_, ?_⟩
      · simp only [View.unreleased, Job.unreleased, hstage]
        exact (List.append_nil _).symm ▸ .rfl
      · simp only [View.inflight, Job.inflight, hstage]
        exact (List.append_nil _).symm ▸ .rfl
      · simp only [View.unstored, Job.unstored, hstage]
        exact (List.append_nil _).symm ▸ .rfl
    exact ⟨_, _, _, _, _, .ofJob hjob hm (.keep rfl rfl rfl rfl rfl) rfl rfl⟩
  | @execute job results x todo hjob hstage lib =>
    have hm : JobMove job { job with
        stage := .running (results ++ [(x.idx, executeOne x.req x.isRead lib)]) todo } [] [] [] := by
      refine ⟨rfl, ?_, ?_, ?_⟩
      · simp only [View.unreleased, Job.unreleased, hstage]
        exact (List.append_nil _).symm ▸ .rfl
      · simp only [View.inflight, Job.inflight, hstage]
        exact (List.append_nil _).symm ▸ .rfl
      · simp only [View.unstored, Job.unstored, hstage]
        exact (List.append_nil _).symm ▸ .rfl
    exact ⟨_, _, _, _, _, .ofJob hjob hm (.keep rfl rfl rfl rfl rfl) rfl rfl⟩
  | @count job results hjob hstage =>
    have hm : JobMove job { job with stage := .counted results job.group } []
        (indices job.group) [] := by
      refine ⟨rfl, ?_, ?_, ?_⟩
      · simp only [View.unreleased, Job.unreleased, hstage]
        exact (List.append_nil _).symm ▸ .rfl
      · simp only [View.inflight, Job.inflight, hstage]
        exact .rfl
      · simp only [View.unstored, Job.unstored, hstage]
        exact (List.append_nil _).symm ▸ .rfl
    exact ⟨_, _, _, _, _, .ofJob hjob hm (.countGroup job.group _ _ _) rfl rfl⟩
  | @giveBack job results x held hjob hstage =>
    have hm : JobMove job { job with stage := .counted results held } [x.idx] [] [] := by
      refine ⟨rfl, ?_, ?_, ?_⟩
      · simp only [View.unreleased, Job.unreleased, hstage]
        exact List.perm_append_singleton _ _
      · simp only [View.inflight, Job.inflight, hstage]
        exact .rfl
      · simp only [View.unstored, Job.unstored, hstage]
        exact (List.append_nil _).symm ▸ .rfl
    exact ⟨_, _, _, _, _, .ofJob hjob hm (.release x.idx _ _) rfl rfl⟩
  | @deliver job results sub hjob hstage hsub =>
    have hm : JobMove job { job with stage := .finished } [] [] (results.map Prod.fst) := by
      refine ⟨rfl, ?_, ?_, ?_⟩
      · simp only [View.unreleased, Job.unreleased, hstage]
        exact .rfl
      · simp only [View.inflight, Job.inflight, hstage]
        exact .rfl
      · simp only [View.unstored, Job.unstored, hstage]
        exact (hwf job hjob).counted results [] hstage ▸ .rfl
    have hlog : Logs s { s.setJob j { job with stage := .finished } with
        stored := s.stored ++ results.map fun pair => ((job.handle, pair.1), pair.2) } 0 0 0 0
        (tag job.handle (results.map Prod.fst)) := by
      have hstore := Logs.store (s := s) (h := job.handle) sub results s.jobs
      exact ⟨hstore.acquired, hstore.released, hstore.stored, hstore.unlimited, hstore.permits,
        hstore.count⟩
    exact ⟨_, _, _, _, _, moves_handle (.ofJob hjob hm hlog rfl rfl) hsub _⟩

theorem step_moves (hsub : ∀ (h : ℕ) sub, s.subs[h]? = some sub → sub.WF)
    (hjob : ∀ (j : ℕ) job, s.jobs[j]? = some job → job.WF) {e : EngineEvent}
    (ht : EngineStep cfg s e t) : ∃ acq ent rel out sto, Moves s t acq ent rel out sto := by
  cases e with
  | submit items =>
    obtain ⟨-, rfl⟩ := submit_eq ht
    refine ⟨0, 0, 0, 0, 0, .keep rfl rfl rfl rfl rfl, ?_, ?_, ?_, ?_, ?_⟩
    all_goals rw [add_zero]
    · exact held_addSub rfl
    · exact held_addSub rfl
    all_goals rw [add_zero]
    · exact held_addSub rfl
    · exact held_addSub rfl
    · exact held_addSub rfl
  | advance h => exact (advance_cases ht).moves (hsub h)
  | work j lib => exact (work_cases ht).moves (hjob j)
  | close =>
    obtain rfl := Option.some.inj ht
    exact ⟨0, 0, 0, 0, 0, .keep rfl rfl rfl rfl rfl, (add_zero _).symm, (add_zero _).symm, rfl, rfl,
      rfl⟩
  | shutdown =>
    obtain ⟨-, rfl⟩ := shutdown_eq ht
    exact ⟨0, 0, 0, 0, 0, .keep rfl rfl rfl rfl rfl, (add_zero _).symm, (add_zero _).symm, rfl, rfl,
      rfl⟩

end EngineState

end Umm
