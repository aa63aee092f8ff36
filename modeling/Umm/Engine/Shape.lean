import Umm.Engine.Moves

/-! The calls of `_submit` and the jobs keep to their own requests, whatever runs between their
steps. -/
namespace Umm
open Umm.Lib

def SubmitPhase.isFailing : SubmitPhase → Bool
  | failing _ _ _ => true
  | _ => false

def Job.results (job : Job) : List (ℕ × IOResult) :=
  match job.stage with
  | .running results _ => results
  | .counted results _ => results
  | _ => []

/-- The group's requests are those of the call. -/
def Submission.Owns (sub : Submission) (group : List GroupItem) : Prop :=
  ∀ x ∈ group, sub.items[x.idx]? = some (x.req, x.isRead)

namespace EngineState
open Submission

variable {cfg : EngineConfig} {s t : EngineState} {h j : ℕ}

structure Shape (s : EngineState) : Prop where
  sub : ∀ (h : ℕ) sub, s.subs[h]? = some sub → sub.WF
  job : ∀ (j : ℕ) job, s.jobs[j]? = some job → job.WF
  owner : ∀ (j : ℕ) job, s.jobs[j]? = some job →
    ∃ sub, s.subs[job.handle]? = some sub ∧ sub.Owns job.group
  results : ∀ (j : ℕ) job, s.jobs[j]? = some job →
    ∀ pair ∈ job.results, ((job.handle, pair.1), pair.2) ∈ s.executed
  executed : ∀ y ∈ s.executed, ∃ sub item lib, s.subs[y.1.1]? = some sub ∧
    sub.items[y.1.2]? = some item ∧ y.2 = executeOne item.1 item.2 lib
  shut : s.closed = false → s.shut = 0
  calm : s.shut = 0 → ∀ (h : ℕ) sub, s.subs[h]? = some sub → sub.phase.isFailing = false

/-- What a step of a call can change: that call, and one more job. -/
structure Advanced (h : ℕ) (s t : EngineState) (sub sub' : Submission) : Prop where
  found : s.subs[h]? = some sub
  subs : t.subs = s.subs.set h sub'
  items : sub'.items = sub.items
  wf : sub.WF → sub'.WF
  calm : sub'.phase.isFailing = true → sub.phase.isFailing = true ∨ 0 < s.shut
  executed : t.executed = s.executed
  closed : t.closed = s.closed
  shut : t.shut = s.shut
  jobs : t.jobs = s.jobs ∨ ∃ executor group, t.jobs = s.jobs ++ [⟨h, executor, group, .queued⟩] ∧
    ∀ x ∈ group, x ∈ sub.left fun _ => false

theorem wf_phase {sub : Submission} {phase : SubmitPhase} (hw : sub.WF)
    (hold : ∀ permit, sub.phase ≠ .collecting permit)
    (hnew : ∀ permit, phase ≠ .collecting permit)
    (hleft : ∀ x ∈ left (fun _ => false) { sub with phase }, x ∈ sub.left fun _ => false) :
    WF { sub with phase } where
  counted_le := hw.counted_le
  permit h := absurd h (hnew true)
  full _ := hw.full hold
  own x hx := hw.own x (hleft x hx)

theorem wf_resume {sub : Submission} {group : List GroupItem} {rest : Groups} (hw : sub.WF)
    (hold : ∀ permit, sub.phase ≠ .collecting permit)
    (hleft : ∀ x ∈ group ++ grouped rest, x ∈ sub.left fun _ => false) :
    (sub.resume group rest).WF := by
  refine ⟨?_, fun h => absurd h (resume_ne_collecting _ _ true), fun _ => ?_, fun x hx => ?_⟩
  · rw [counted_resume, items_resume]
    exact hw.counted_le
  · rw [counted_resume, items_resume]
    exact hw.full hold
  · rw [left_resume _ _ _ rfl] at hx
    rw [items_resume]
    exact hw.own x (hleft x hx)

theorem wf_handle {sub : Submission} (hw : sub.WF) (handle : IOHandle) :
    WF { sub with handle } :=
  ⟨hw.counted_le, hw.permit, hw.full, hw.own⟩

theorem wf_collect {sub : Submission} {item : IOItem} (hw : sub.WF)
    (hphase : sub.phase = .collecting true) (hitem : sub.items[sub.counted]? = some item) :
    (sub.collect cfg item).WF := by
  refine ⟨?_, fun h => (by cases h), fun h => absurd rfl (h false), fun x hx => ?_⟩
  · exact hw.permit hphase
  · rcases List.mem_cons.mp ((grouped_addTo_perm _ _ _).mem_iff.mp hx) with rfl | hx
    · exact hitem
    · exact hw.own x (by rwa [left_collecting hphase])

theorem Advance.advanced (ha : Advance cfg h s t) : ∃ sub sub', Advanced h s t sub sub' := by
  cases ha with
  | @dispatch sub permit hsub hphase hitem =>
    refine ⟨sub, _, hsub, rfl, rfl, fun hw => ?_, fun h => (by cases h), rfl, rfl, rfl, .inl rfl⟩
    rw [List.getElem?_eq_none_iff] at hitem
    refine ⟨hw.counted_le, fun h => (by cases h), fun _ => ?_, fun x hx => ?_⟩
    · exact le_antisymm hw.counted_le hitem
    · exact hw.own x (by rwa [left_collecting hphase])
  | @acquire sub item t hsub hphase hitem ht =>
    obtain ⟨-, rfl⟩ := acquire_eq ht
    refine ⟨sub, _, hsub, rfl, rfl, fun hw => ?_, fun h => (by cases h), rfl, rfl, rfl, .inl rfl⟩
    refine ⟨hw.counted_le, fun _ => ?_, fun h => absurd rfl (h true), fun x hx => ?_⟩
    · exact (List.getElem?_eq_some_iff.mp hitem).1
    · exact hw.own x (by rwa [left_collecting hphase])
  | @count sub item hsub hphase hitem =>
    exact ⟨sub, _, hsub, rfl, rfl, fun hw => wf_collect hw hphase hitem, fun h => (by cases h), rfl,
      rfl, rfl, .inl rfl⟩
  | @hand sub key group rest hsub hphase hopen =>
    refine ⟨sub, _, hsub, rfl, rfl, fun hw => ?_, fun h => (by cases h), rfl, rfl, rfl,
      .inr ⟨_, group, rfl, fun x hx => ?_⟩⟩
    · refine wf_phase hw (by rw [hphase]; exact fun _ => SubmitPhase.noConfusion)
        (fun _ => SubmitPhase.noConfusion) fun x hx => ?_
      rw [left_dispatching hphase]
      exact List.mem_append_right _ hx
    · rw [left_dispatching hphase]
      exact List.mem_append_left _ hx
  | @refuse sub key group rest hsub hphase hshut =>
    refine ⟨sub, _, hsub, rfl, items_resume _ _, fun hw => ?_, fun _ => .inr ?_, rfl, rfl, rfl,
      .inl rfl⟩
    · refine wf_resume hw (by rw [hphase]; exact fun _ => SubmitPhase.noConfusion) fun x hx => ?_
      rwa [left_dispatching hphase]
    · have := of_decide_eq_true hshut
      omega
  | @giveBack sub x group rest hsub hphase =>
    refine ⟨sub, _, hsub, rfl, rfl, fun hw => ?_, fun _ => .inl (by rw [hphase]; rfl), rfl, rfl,
      rfl, .inl rfl⟩
    refine wf_phase hw (by rw [hphase]; exact fun _ => SubmitPhase.noConfusion)
      (fun _ => SubmitPhase.noConfusion) fun y hy => ?_
    rwa [left_failing hphase]
  | @uncount sub x group rest hsub hphase =>
    refine ⟨sub, _, hsub, rfl, rfl, fun hw => ?_, fun _ => .inl (by rw [hphase]; rfl), rfl, rfl,
      rfl, .inl rfl⟩
    refine wf_phase hw (by rw [hphase]; exact fun _ => SubmitPhase.noConfusion)
      (fun _ => SubmitPhase.noConfusion) fun y hy => ?_
    rwa [left_failing hphase]
  | @fail sub x group rest hsub hphase =>
    refine ⟨sub, _, hsub, rfl, items_resume group rest, fun hw => ?_,
      fun _ => .inl (by rw [hphase]; rfl), rfl, rfl, rfl, .inl rfl⟩
    refine wf_handle (wf_resume hw (by rw [hphase]; exact fun _ => SubmitPhase.noConfusion)
      fun y hy => ?_) _
    rw [left_failing hphase]
    exact List.mem_cons_of_mem _ hy
  | @failed sub undo rest hsub hphase =>
    refine ⟨sub, _, hsub, rfl, rfl, fun hw => ?_, fun h => (by cases h), rfl, rfl, rfl, .inl rfl⟩
    refine wf_phase hw (by rw [hphase]; exact fun _ => SubmitPhase.noConfusion)
      (fun _ => SubmitPhase.noConfusion) fun y hy => ?_
    rwa [left_failing hphase]
  | @finish sub hsub hphase =>
    refine ⟨sub, _, hsub, rfl, rfl, fun hw => ?_, fun h => (by cases h), rfl, rfl, rfl, .inl rfl⟩
    exact wf_phase hw (by rw [hphase]; exact fun _ => SubmitPhase.noConfusion)
      (fun _ => SubmitPhase.noConfusion) fun y hy => by cases hy

/-- What a step of a job can change: that job, the handle it writes to and what was executed. -/
structure Worked (j : ℕ) (s t : EngineState) (job job' : Job) : Prop where
  found : s.jobs[j]? = some job
  jobs : t.jobs = s.jobs.set j job'
  handle : job'.handle = job.handle
  executor : job'.executor = job.executor
  group : job'.group = job.group
  wf : job.WF → job'.WF
  results : ∀ pair ∈ job'.results,
    pair ∈ job.results ∨ ((job.handle, pair.1), pair.2) ∈ t.executed
  executed : t.executed = s.executed ∨ ∃ x lib, (job.WF → x ∈ job.group) ∧
    t.executed = s.executed ++ [((job.handle, x.idx), executeOne x.req x.isRead lib)]
  closed : t.closed = s.closed
  shut : t.shut = s.shut
  subs : t.subs = s.subs ∨ ∃ sub handle, s.subs[job.handle]? = some sub ∧
    t.subs = s.subs.set job.handle { sub with handle }

theorem Work.worked (hw : Work cfg j s t) : ∃ job job', Worked j s t job job' := by
  cases hw with
  | @start job hjob hstage hready =>
    refine ⟨job, _, hjob, rfl, rfl, rfl, rfl, fun _ => ⟨?_, ?_⟩, fun _ hp => (by cases hp), .inl rfl,
      rfl, rfl, .inl rfl⟩
    · intro results todo he
      obtain ⟨rfl, rfl⟩ := JobStage.running.inj he
      exact ⟨[], rfl, rfl⟩
    · intro results held he
      cases he
  | @execute job results x todo hjob hstage lib =>
    refine ⟨job, _, hjob, rfl, rfl, rfl, rfl, fun hw => ⟨?_, ?_⟩, fun pair hp => ?_,
      .inr ⟨x, lib, fun hw => ?_, rfl⟩, rfl, rfl, .inl rfl⟩
    · intro results' todo' he
      obtain ⟨rfl, rfl⟩ := JobStage.running.inj he
      obtain ⟨before, hgroup, hidx⟩ := hw.running _ _ hstage
      refine ⟨before ++ [x], ?_, ?_⟩
      · rw [List.append_assoc]
        exact hgroup
      · rw [List.map_append, hidx, indices_append]
        rfl
    · intro results held he
      cases he
    · rcases List.mem_append.mp hp with hp | hp
      · left
        unfold Job.results
        rw [hstage]
        exact hp
      · right
        rw [List.mem_singleton.mp hp]
        exact List.mem_append_right _ (List.mem_singleton.mpr rfl)
    · obtain ⟨before, hgroup, -⟩ := hw.running _ _ hstage
      rw [← hgroup]
      exact List.mem_append_right _ List.mem_cons_self
  | @count job results hjob hstage =>
    refine ⟨job, _, hjob, rfl, rfl, rfl, rfl, fun hw => ⟨?_, ?_⟩, fun pair hp => .inl ?_, .inl rfl,
      rfl, rfl, .inl rfl⟩
    · intro results' todo' he
      cases he
    · intro results' held he
      obtain ⟨rfl, rfl⟩ := JobStage.counted.inj he
      obtain ⟨before, hgroup, hidx⟩ := hw.running _ _ hstage
      rw [hidx, ← hgroup, List.append_nil]
    · unfold Job.results
      rw [hstage]
      exact hp
  | @giveBack job results x held hjob hstage =>
    refine ⟨job, _, hjob, rfl, rfl, rfl, rfl, fun hw => ⟨?_, ?_⟩, fun pair hp => .inl ?_, .inl rfl,
      rfl, rfl, .inl rfl⟩
    · intro results' todo' he
      cases he
    · intro results' held' he
      obtain ⟨rfl, rfl⟩ := JobStage.counted.inj he
      exact hw.counted _ _ hstage
    · unfold Job.results
      rw [hstage]
      exact hp
  | @deliver job results sub hjob hstage hsub =>
    refine ⟨job, _, hjob, rfl, rfl, rfl, rfl, fun hw => ⟨?_, ?_⟩, fun _ hp => (by cases hp), .inl rfl,
      rfl, rfl, .inr ⟨sub, _, hsub, rfl⟩⟩
    · intro results' todo' he
      cases he
    · intro results' held he
      cases he

/-- The calls of one state are those of the other, with the same requests. -/
def SameItems (s t : EngineState) : Prop :=
  ∀ (h : ℕ) sub, s.subs[h]? = some sub → ∃ sub', t.subs[h]? = some sub' ∧ sub'.items = sub.items

theorem sameItems_set {sub sub' : Submission} (hsub : s.subs[h]? = some sub)
    (ht : t.subs = s.subs.set h sub') (hitems : sub'.items = sub.items) : SameItems s t := by
  intro k sub₁ hk
  by_cases hkh : h = k
  · subst hkh
    obtain rfl := Option.some.inj (hsub.symm.trans hk)
    refine ⟨sub', ?_, hitems⟩
    rw [ht, List.getElem?_set_self (List.getElem?_eq_some_iff.mp hk).1]
  · refine ⟨sub₁, ?_, rfl⟩
    rw [ht, List.getElem?_set_ne hkh]
    exact hk

theorem Shape.keep_executed (hs : s.Shape) (hsame : SameItems s t) :
    ∀ y ∈ s.executed, ∃ sub item lib, t.subs[y.1.1]? = some sub ∧
      sub.items[y.1.2]? = some item ∧ y.2 = executeOne item.1 item.2 lib := by
  intro y hy
  obtain ⟨sub, item, lib, hsub, hitem, hv⟩ := hs.executed y hy
  obtain ⟨sub', hsub', hitems⟩ := hsame _ _ hsub
  exact ⟨sub', item, lib, hsub', by rwa [hitems], hv⟩

theorem owns_keep (hsame : SameItems s t) {group : List GroupItem}
    (ho : ∃ sub, s.subs[h]? = some sub ∧ sub.Owns group) :
    ∃ sub, t.subs[h]? = some sub ∧ sub.Owns group := by
  obtain ⟨sub, hsub, hown⟩ := ho
  obtain ⟨sub', hsub', hitems⟩ := hsame _ _ hsub
  exact ⟨sub', hsub', fun x hx => by rw [hitems]; exact hown x hx⟩

theorem Shape.advance (hs : s.Shape) (ha : Advance cfg h s t) : t.Shape := by
  obtain ⟨sub, sub', had⟩ := ha.advanced
  have hsame : SameItems s t := sameItems_set had.found had.subs had.items
  have howner : ∀ (j : ℕ) job, s.jobs[j]? = some job →
      ∃ sub, t.subs[job.handle]? = some sub ∧ sub.Owns job.group :=
    fun j job hj => owns_keep hsame (hs.owner j job hj)
  have hresults : ∀ (j : ℕ) job, s.jobs[j]? = some job →
      ∀ pair ∈ job.results, ((job.handle, pair.1), pair.2) ∈ t.executed := by
    rw [had.executed]
    exact hs.results
  have hjobs : (∀ (j : ℕ) job, t.jobs[j]? = some job → job.WF) ∧
      (∀ (j : ℕ) job, t.jobs[j]? = some job →
        ∃ sub, t.subs[job.handle]? = some sub ∧ sub.Owns job.group) ∧
      (∀ (j : ℕ) job, t.jobs[j]? = some job →
        ∀ pair ∈ job.results, ((job.handle, pair.1), pair.2) ∈ t.executed) := by
    rcases had.jobs with he | ⟨executor, group, he, hgroup⟩
    · rw [he]
      exact ⟨hs.job, howner, hresults⟩
    · rw [he]
      refine ⟨forall_concat hs.job ⟨fun _ _ h => (by cases h), fun _ _ h => (by cases h)⟩,
        forall_concat howner (owns_keep hsame ⟨sub, had.found, fun x hx => ?_⟩),
        forall_concat hresults fun _ hp => by cases hp⟩
      exact (hs.sub _ _ had.found).own x (hgroup x hx)
  refine ⟨?_, hjobs.1, hjobs.2.1, hjobs.2.2, ?_, ?_, ?_⟩
  · rw [had.subs]
    exact forall_set hs.sub (had.wf (hs.sub _ _ had.found))
  · rw [had.executed]
    exact hs.keep_executed hsame
  · rw [had.closed, had.shut]
    exact hs.shut
  · rw [had.shut, had.subs]
    intro hzero
    refine forall_set (hs.calm hzero) ?_
    rw [Bool.eq_false_iff]
    intro hfail
    rcases had.calm hfail with hold | hpos
    · rw [hs.calm hzero _ _ had.found] at hold
      cases hold
    · omega

theorem Shape.work (hs : s.Shape) (hw : Work cfg j s t) : t.Shape := by
  obtain ⟨job, job', hwd⟩ := hw.worked
  have hsame : SameItems s t := by
    rcases hwd.subs with he | ⟨sub, handle, hsub, he⟩
    · exact fun k sub hk => ⟨sub, by rwa [he], rfl⟩
    · exact sameItems_set hsub he rfl
  have hgrow : ∀ y ∈ s.executed, y ∈ t.executed := by
    intro y hy
    rcases hwd.executed with he | ⟨x, lib, -, he⟩
    · rwa [he]
    · rw [he]
      exact List.mem_append_left _ hy
  have howner : ∀ (k : ℕ) job, s.jobs[k]? = some job →
      ∃ sub, t.subs[job.handle]? = some sub ∧ sub.Owns job.group :=
    fun k job hk => owns_keep hsame (hs.owner k job hk)
  have hresults : ∀ (k : ℕ) job, s.jobs[k]? = some job →
      ∀ pair ∈ job.results, ((job.handle, pair.1), pair.2) ∈ t.executed :=
    fun k job hk pair hp => hgrow _ (hs.results k job hk pair hp)
  refine ⟨?_, ?_, ?_, ?_, ?_, ?_, ?_⟩
  · rcases hwd.subs with he | ⟨sub, handle, hsub, he⟩
    · rw [he]
      exact hs.sub
    · rw [he]
      exact forall_set hs.sub (wf_handle (hs.sub _ _ hsub) handle)
  · rw [hwd.jobs]
    exact forall_set hs.job (hwd.wf (hs.job _ _ hwd.found))
  · rw [hwd.jobs]
    refine forall_set howner ?_
    rw [hwd.handle, hwd.group]
    exact howner _ _ hwd.found
  · rw [hwd.jobs]
    refine forall_set hresults fun pair hp => ?_
    rw [hwd.handle]
    rcases hwd.results pair hp with hold | hnew
    · exact hresults _ _ hwd.found pair hold
    · exact hnew
  · rcases hwd.executed with he | ⟨x, lib, hx, he⟩
    · rw [he]
      exact hs.keep_executed hsame
    · rw [he]
      intro y hy
      rcases List.mem_append.mp hy with hy | hy
      · exact hs.keep_executed hsame y hy
      · obtain ⟨sub, hsub, hown⟩ := howner _ _ hwd.found
        rw [List.mem_singleton.mp hy]
        exact ⟨sub, _, lib, hsub, hown x (hx (hs.job _ _ hwd.found)), rfl⟩
  · rw [hwd.closed, hwd.shut]
    exact hs.shut
  · rw [hwd.shut]
    intro hzero
    rcases hwd.subs with he | ⟨sub, handle, hsub, he⟩
    · rw [he]
      exact hs.calm hzero
    · rw [he]
      have hcalm : sub.phase.isFailing = false := hs.calm hzero _ _ hsub
      exact forall_set (hs.calm hzero) hcalm

theorem Shape.submit (hs : s.Shape) {items : List IOItem} (ht : s.submit items = some t) :
    t.Shape := by
  obtain ⟨-, rfl⟩ := submit_eq ht
  have hsame : SameItems s { s with
      subs := s.subs ++ [⟨items, 0, [], .collecting false, .init items.length⟩] } := by
    intro k sub hk
    refine ⟨sub, ?_, rfl⟩
    rw [List.getElem?_append_left (List.getElem?_eq_some_iff.mp hk).1]
    exact hk
  refine ⟨forall_concat hs.sub ?_, hs.job, fun j job hj => owns_keep hsame (hs.owner j job hj),
    hs.results, hs.keep_executed hsame, hs.shut, fun hzero => forall_concat (hs.calm hzero) rfl⟩
  exact ⟨Nat.zero_le _, fun h => (by cases h), fun h => absurd rfl (h false),
    fun x hx => by cases hx⟩

theorem shape_init (cfg : EngineConfig) : (EngineState.init cfg).Shape :=
  ⟨fun _ _ h => (by cases h), fun _ _ h => (by cases h), fun _ _ h => (by cases h),
    fun _ _ h => (by cases h), fun _ h => (by cases h), fun _ => rfl, fun _ _ _ h => (by cases h)⟩

theorem Shape.step (hs : s.Shape) {e : EngineEvent} (ht : EngineStep cfg s e t) : t.Shape := by
  cases e with
  | submit items => exact hs.submit ht
  | advance h => exact hs.advance (advance_cases ht)
  | work j lib => exact hs.work (work_cases ht)
  | close =>
    obtain rfl := Option.some.inj ht
    exact ⟨hs.sub, hs.job, hs.owner, hs.results, hs.executed, fun h => (by cases h), hs.calm⟩
  | shutdown =>
    obtain ⟨hclosed, rfl⟩ := shutdown_eq ht
    refine ⟨hs.sub, hs.job, hs.owner, hs.results, hs.executed, fun h => ?_, fun h => by cases h⟩
    rw [hclosed] at h
    cases h

end EngineState

end Umm
