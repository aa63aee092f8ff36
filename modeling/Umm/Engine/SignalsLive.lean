import Umm.Engine.SignalsRuns

/-! What comes about where every thread goes on: callbacks are called, and nobody waits for a handle
that has its results. -/
namespace Umm
open Umm.Lib

/-- A run in which every thread that is not blocked goes on, also in the callbacks it calls. -/
abbrev HandleRun (sizes : ℕ → ℕ) : Type :=
  FairRun (· = HandleWorld.init sizes) (fun w e w' => w.step e = some w') HandleEvent.actor
    HandleWorld.Enabled

section Turn

variable {t h : ℕ} {s s' : Shared} {phase phase' : CallPhase} {cb : Callback}

/-- What is left of the loop over the callbacks, in turns. -/
def CallPhase.turns : CallPhase → ℕ
  | notify _ callbacks => 2 * callbacks.length
  | inCallback _ _ callbacks => 2 * callbacks.length + 1
  | _ => 0

theorem mem_of_mem_ite {p : Prop} [Decidable p] {l : List Callback} (hcb : cb ∈ if p then l else []) :
    p ∧ cb ∈ l := by
  split at hcb
  next hp => exact ⟨hp, hcb⟩
  next => cases hcb

theorem mem_ran_runCallback (s : Shared) (h : ℕ) (cb : Callback) :
    cb ∈ ((s.runCallback h cb).handle h).ran := by
  rw [Shared.runCallback_handle, Shared.set_self]
  exact List.mem_append_right _ (List.mem_singleton_self cb)

/-- A call that has a callback to run comes nearer to it. -/
theorem Turn.runs (ht : Turn t s phase phase' s') (hcb : cb ∈ phase.pending h) :
    (cb ∈ (s'.handle h).ran ∨ cb ∈ (s'.handle h).skipped) ∨
      cb ∈ phase'.pending h ∧ phase'.turns < phase.turns := by
  cases ht with
  | @start h' c rest =>
    obtain ⟨rfl, hmem⟩ := mem_of_mem_ite hcb
    rcases List.mem_cons.mp hmem with rfl | hrest
    · exact .inl (.inl (mem_ran_runCallback s h' cb))
    · refine .inr ⟨?_, ?_⟩
      · rw [CallPhase.pending, if_pos rfl]
        exact hrest
      · simp only [CallPhase.turns, List.length_cons]
        omega
  | @back h' c rest =>
    refine .inr ⟨hcb, ?_⟩
    simp only [CallPhase.turns]
    omega
  | @abort h' c rest =>
    obtain ⟨rfl, hmem⟩ := mem_of_mem_ite hcb
    rw [Shared.set_self]
    exact .inl (.inr (List.mem_append_right _ hmem))
  | @run h' c =>
    obtain ⟨rfl, hmem⟩ := mem_of_mem_ite hcb
    rw [List.mem_singleton.mp hmem]
    exact .inl (.inl (mem_ran_runCallback s h' c))
  | @any handles timed stage next hnext =>
    cases stage with
    | calling i h' c =>
      obtain ⟨rfl, hmem⟩ := mem_of_mem_ite hcb
      obtain rfl := Option.some.inj hnext
      rw [List.mem_singleton.mp hmem]
      exact .inl (.inl (mem_ran_runCallback s h' c))
    | register i => cases hcb
    | check i => cases hcb
    | waiting => cases hcb
    | clear => cases hcb
    | returned h' => cases hcb
    | timedOut => cases hcb
  | @notified h' =>
    simp only [CallPhase.pending, ite_self] at hcb
    cases hcb
  | store hopen => cases hcb
  | complete hdone => cases hcb
  | add hnext => cases hcb
  | block hopen => cases hcb
  | pass hdone => cases hcb
  | wake hfree => cases hcb
  | unblock => cases hcb
  | giveUp hopen => cases hcb
  | anyGiveUp hi => cases hcb
  | anyExpire => cases hcb

theorem CallPhase.move_of_pending (hcb : cb ∈ phase.pending h) (t : ℕ) (s : Shared) :
    ∃ next, phase.move t s = some next := by
  cases phase with
  | notify h' callbacks =>
    cases callbacks with
    | nil => exact ⟨_, rfl⟩
    | cons c rest => exact ⟨_, rfl⟩
  | inCallback h' c rest => exact ⟨_, rfl⟩
  | calling h' c => exact ⟨_, rfl⟩
  | waitAny handles timed stage =>
    cases stage with
    | calling i h' c => exact ⟨_, rfl⟩
    | register i => cases hcb
    | check i => cases hcb
    | waiting => cases hcb
    | clear => cases hcb
    | returned h' => cases hcb
    | timedOut => cases hcb
  | setMany h' pairs => cases hcb
  | addDone h' => cases hcb
  | wait h' timed => cases hcb
  | waiting h' timed => cases hcb
  | waited h' result => cases hcb
  | finished => cases hcb

end Turn

namespace HandleRun

variable {sizes : ℕ → ℕ} (r : HandleRun sizes) {n t h : ℕ} {cb : Callback}

theorem inv (n : ℕ) : (r.state n).Inv sizes :=
  HandleWorld.inv_reach (r.reach n)

/-- A callback that some call is to run is run, or left out. -/
theorem pending_runs {phase : CallPhase} (hphase : (r.state n).calls[t]? = some phase)
    (hcb : cb ∈ phase.pending h) : ∃ m, n ≤ m ∧
      (cb ∈ ((r.state m).shared.handle h).ran ∨ cb ∈ ((r.state m).shared.handle h).skipped) := by
  refine r.eventually_of_enabled
    (P := fun w => ∃ phase, w.calls[t]? = some phase ∧ cb ∈ phase.pending h)
    (Q := fun w => cb ∈ (w.shared.handle h).ran ∨ cb ∈ (w.shared.handle h).skipped) (a := t)
    (fun w => (w.calls[t]?).elim 0 CallPhase.turns) ?_ ?_ ?_ ⟨phase, hphase, hcb⟩
  · rintro w e w' ⟨phase, hphase, hcb⟩ hs hother
    have hsame := HandleWorld.step_other hs hother hphase
    refine .inr ⟨⟨phase, hsame, hcb⟩, ?_⟩
    rw [hsame, hphase]
  · rintro w e w' ⟨phase, hphase, hcb⟩ hs hown
    obtain ⟨phase', s', ht, hshared, hphase'⟩ := HandleWorld.step_own hs hown hphase
    rcases ht.runs hcb with hdone | ⟨hcb', hlt⟩
    · rw [hshared]
      exact .inl hdone
    · refine .inr ⟨⟨phase', hphase', hcb'⟩, ?_⟩
      rw [hphase, hphase']
      exact hlt
  · rintro w ⟨phase, hphase, hcb⟩
    obtain ⟨next, hnext⟩ := phase.move_of_pending hcb t w.shared
    exact ⟨phase, next, hphase, hnext⟩

/-- So is every callback of a handle that is done. -/
theorem registered_runs (hdone : ((r.state n).shared.handle h).done = true)
    (hcb : cb ∈ ((r.state n).shared.handle h).registered) : ∃ m, n ≤ m ∧
      (cb ∈ ((r.state m).shared.handle h).ran ∨ cb ∈ ((r.state m).shared.handle h).skipped) := by
  have hk := (inv r n).handles h
  have hmem := hk.account.mem_iff.mp hcb
  rw [if_neg (hk.done_iff.mp hdone), List.append_nil, List.mem_append, List.mem_append] at hmem
  rcases hmem with hmem | hmem
  · exact ⟨n, le_rfl, hmem⟩
  · obtain ⟨phase, hphase, hpending⟩ := List.mem_flatMap.mp hmem
    obtain ⟨t, ht⟩ := List.getElem?_of_mem hphase
    exact pending_runs r ht hpending

/-- Whoever waits for a handle that is done comes back. -/
theorem wait_returns {timed : Bool} (hdone : ((r.state n).shared.handle h).done = true)
    (hphase : (r.state n).calls[t]? = some (.wait h timed) ∨
      (r.state n).calls[t]? = some (.waiting h timed)) :
    ∃ m, n ≤ m ∧ (r.state m).calls[t]? = some (.waited h true) := by
  let Waits (w : HandleWorld) : Prop := w.Inv sizes ∧ ¬ 0 < (w.shared.handle h).remaining ∧
    (w.calls[t]? = some (.wait h timed) ∨ w.calls[t]? = some (.waiting h timed))
  let rank (w : HandleWorld) : ℕ :=
    (w.calls[t]?).elim 0 fun phase => match phase with
      | .waiting _ _ => 1
      | _ => 0
  refine r.eventually_of_enabled (P := Waits) (a := t)
    (Q := fun w => w.calls[t]? = some (.waited h true)) rank ?_ ?_ ?_
    ⟨inv r n, ((inv r n).handles h).done_iff.mp hdone, hphase⟩
  · rintro w e w' ⟨hi, hclosed, hphase⟩ hs hother
    obtain ⟨u, hlater⟩ := hi.step_later hs
    have hsame : w'.calls[t]? = w.calls[t]? := by
      rcases hphase with hphase | hphase
      · rw [hphase, HandleWorld.step_other hs hother hphase]
      · rw [hphase, HandleWorld.step_other hs hother hphase]
    refine .inr ⟨⟨hi.step hs, hlater.not_pos hclosed, ?_⟩, ?_⟩
    · rw [hsame]
      exact hphase
    · dsimp only [rank]
      rw [hsame]
  · rintro w e w' ⟨hi, hclosed, hphase⟩ hs hown
    obtain ⟨u, hlater⟩ := hi.step_later hs
    have hclosed' := hlater.not_pos hclosed
    rcases hphase with hphase | hphase
    · obtain ⟨phase', s', ht, _, hphase'⟩ := HandleWorld.step_own hs hown hphase
      cases ht with
      | block hopen => exact absurd hopen hclosed
      | pass _ => exact .inl hphase'
      | giveUp hopen => exact absurd hopen hclosed
    · obtain ⟨phase', s', ht, _, hphase'⟩ := HandleWorld.step_own hs hown hphase
      have hlt : ∀ timed, w'.calls[t]? = some (.wait h timed) → rank w' < rank w := by
        intro timed' hphase'
        dsimp only [rank]
        rw [hphase, hphase']
        exact Nat.one_pos
      cases ht with
      | wake _ => exact .inr ⟨⟨hi.step hs, hclosed', .inl hphase'⟩, hlt _ hphase'⟩
      | unblock => exact .inr ⟨⟨hi.step hs, hclosed', .inl hphase'⟩, hlt _ hphase'⟩
  · rintro w ⟨hi, hclosed, hphase | hphase⟩
    · exact ⟨_, (.waited h true, w.shared), hphase, if_neg hclosed⟩
    · refine ⟨_, (.wait h timed, w.shared), hphase, if_neg ?_⟩
      rw [(hi.handles h).waiters hclosed]
      exact List.not_mem_nil

end HandleRun

namespace AnyStage

/-- A call of `wait_any` that is over. -/
def Over : AnyStage → Prop
  | returned _ => True
  | timedOut => True
  | _ => False

/-- How far a call is from coming back with the handle at `j`, or with one before it. -/
def turns (size j : ℕ) : AnyStage → ℕ
  | register i => size + 2 + 2 * (size + 1 - i)
  | calling i _ _ => size + 3 + 2 * (size - i)
  | check i => if i ≤ j then size - i else size + 3 + (size - i)
  | waiting => size + 2
  | clear => size + 1
  | returned _ => 0
  | timedOut => 0

variable {t j h : ℕ} {handles : List ℕ} {s : Shared} {stage : AnyStage}

/-- With the handle at `j` done every turn brings the call nearer to its end. -/
theorem move_turns {next : AnyStage × Shared} (hj : handles[j]? = some h)
    (hdone : (s.handle h).done = true) (hnext : stage.move t handles s = some next) :
    next.1.Over ∨ next.1.turns handles.length j < stage.turns handles.length j := by
  have hjlt := (List.getElem?_eq_some_iff.mp hj).1
  cases AnyStage.move_turn hnext with
  | @add i h' _ hi hnext =>
    have hilt := (List.getElem?_eq_some_iff.mp hi).1
    rcases Shared.addDoneCallback_cases hnext with ⟨_, hfst, _⟩ | ⟨_, hfst, _⟩
    · rw [hfst]
      simp only [turns]
      omega
    · rw [hfst]
      simp only [turns]
      omega
  | added hi =>
    simp only [turns, Nat.zero_le, if_true]
    omega
  | run =>
    simp only [turns]
    omega
  | found hi hd => exact .inl trivial
  | @pass i h' hi hopen =>
    have hilt := (List.getElem?_eq_some_iff.mp hi).1
    have hne : i ≠ j := by
      rintro rfl
      rw [Option.some.inj (hi.symm.trans hj)] at hopen
      exact hopen hdone
    right
    simp only [turns]
    split_ifs <;> omega
  | block hi =>
    have hle := List.getElem?_eq_none_iff.mp hi
    right
    simp only [turns]
    rw [if_neg (by omega)]
    omega
  | wake hset =>
    right
    simp only [turns]
    omega
  | clear =>
    right
    simp only [turns, Nat.zero_le, if_true]
    omega

/-- A call that is not over and not blocked goes on. -/
theorem move_of_free (handles : List ℕ) (hover : ¬ stage.Over) (hfree : stage = .waiting → s.event t = true) :
    ∃ next, stage.move t handles s = some next := by
  cases stage with
  | register i =>
    unfold AnyStage.move
    dsimp only
    split <;> exact ⟨_, rfl⟩
  | calling i h cb => exact ⟨_, rfl⟩
  | check i =>
    unfold AnyStage.move
    dsimp only
    split <;> exact ⟨_, rfl⟩
  | waiting => exact ⟨_, if_pos (hfree rfl)⟩
  | clear => exact ⟨_, rfl⟩
  | returned h => exact absurd trivial hover
  | timedOut => exact absurd trivial hover

end AnyStage

namespace HandleRun

variable {sizes : ℕ → ℕ} (r : HandleRun sizes) {n t h : ℕ} {cb : Callback} {handles : List ℕ}
  {timed : Bool} {stage : AnyStage}

theorem any_acts_of_free (hphase : (r.state n).calls[t]? = some (.waitAny handles timed stage))
    (hover : ¬ stage.Over) (hfree : stage = .waiting → (r.state n).shared.event t = true) :
    ∃ m, n ≤ m ∧ r.Acts t m := by
  refine r.eventually_acts (P := fun w => w.Inv sizes ∧
    w.calls[t]? = some (.waitAny handles timed stage) ∧ (stage = .waiting → w.shared.event t = true))
    ?_ ?_ ⟨inv r n, hphase, hfree⟩
  · rintro w e w' ⟨hi, hphase, hfree⟩ hs hother
    refine ⟨hi.step hs, HandleWorld.step_other hs hother hphase, fun hwaiting => ?_⟩
    rcases HandleWorld.step_cases hs with ⟨_, _, _, rfl⟩ | ⟨u, _, _, hactor, hu, ht, _⟩
    · exact hfree hwaiting
    · have htu : t ≠ u := fun he => hother (he ▸ hactor)
      rw [← Bool.not_eq_false]
      intro hunset
      rw [((hi.turn_later hu ht).event t htu hunset).1] at hfree
      cases hfree hwaiting
  · rintro w ⟨_, hphase, hfree⟩
    obtain ⟨next, hnext⟩ := AnyStage.move_of_free handles hover hfree
    exact ⟨_, (.waitAny handles timed next.1, next.2), hphase,
      Option.map_eq_some_iff.mpr ⟨next, hnext, rfl⟩⟩

/-- A call that is not over goes on once some handle of its list is done: what blocks it is that
nobody has set its event, but its callback with that handle is on its way. -/
theorem any_acts (hphase : (r.state n).calls[t]? = some (.waitAny handles timed stage))
    (hover : ¬ stage.Over) (hmem : h ∈ handles)
    (hdone : ((r.state n).shared.handle h).done = true) :
    ∃ m, n ≤ m ∧ ((∃ cb ∈ ((r.state m).shared.handle h).skipped, cb.event = some t) ∨ r.Acts t m) := by
  by_cases hfree : stage = .waiting → (r.state n).shared.event t = true
  · obtain ⟨m, hnm, hacts⟩ := any_acts_of_free r hphase hover hfree
    exact ⟨m, hnm, .inr hacts⟩
  obtain ⟨rfl, -⟩ := Classical.not_imp.mp hfree
  have hsound := ((inv r n).sound t _ hphase).2
  obtain ⟨cb, hcb, hevent⟩ := hsound.1 h hmem
  obtain ⟨m, hnm, hran | hskipped⟩ := registered_runs r hdone hcb
  · obtain ⟨k, hk, hacts⟩ | hphase' := r.acts_or
      (P := fun w => w.calls[t]? = some (.waitAny handles timed .waiting)) (a := t)
      (fun w e w' hphase hs hother => HandleWorld.step_other hs hother hphase) hphase hnm
    · exact ⟨k, hk, .inr hacts⟩
    have hset : (r.state m).shared.event t = true := by
      rw [← Bool.not_eq_false]
      intro hunset
      exact ((inv r m).sound t _ hphase').2.2 hunset h hmem cb hran hevent
    obtain ⟨k, hmk, hacts⟩ := any_acts_of_free r hphase' hover fun _ => hset
    exact ⟨k, hnm.trans hmk, .inr hacts⟩
  · exact ⟨m, hnm, .inl ⟨cb, hskipped, hevent⟩⟩

/-- `wait_any` ends once some handle of its list is done, unless its callback was left out. -/
theorem any_ends (hphase : (r.state n).calls[t]? = some (.waitAny handles timed stage))
    (hmem : h ∈ handles) (hdone : ((r.state n).shared.handle h).done = true) :
    ∃ m, n ≤ m ∧
      ((∃ stage, stage.Over ∧ (r.state m).calls[t]? = some (.waitAny handles timed stage)) ∨
        ∃ cb ∈ ((r.state m).shared.handle h).skipped, cb.event = some t) := by
  by_cases hover : stage.Over
  · exact ⟨n, le_rfl, .inl ⟨stage, hover, hphase⟩⟩
  obtain ⟨j, hj⟩ := List.getElem?_of_mem hmem
  let Waits (w : HandleWorld) : Prop := w.Inv sizes ∧ (w.shared.handle h).done = true ∧
    ∃ stage, ¬ stage.Over ∧ w.calls[t]? = some (.waitAny handles timed stage)
  let rank (w : HandleWorld) : ℕ :=
    (w.calls[t]?).elim 0 fun phase => match phase with
      | .waitAny _ _ stage => stage.turns handles.length j
      | _ => 0
  have hrank : ∀ {w : HandleWorld} {stage : AnyStage},
      w.calls[t]? = some (.waitAny handles timed stage) → rank w = stage.turns handles.length j := by
    intro w stage hw
    dsimp only [rank]
    rw [hw]
    rfl
  have hkeep : ∀ {w w' : HandleWorld} {e : HandleEvent}, w.Inv sizes →
      (w.shared.handle h).done = true → w.step e = some w' → (w'.shared.handle h).done = true := by
    intro w w' e hi hd hs
    obtain ⟨u, hlater⟩ := hi.step_later hs
    have hclosed := hlater.not_pos (((hi.handles h).done_iff).mp hd)
    exact (((hi.step hs).handles h).done_iff).mpr hclosed
  refine r.eventually_of_turns (P := Waits) (a := t) (Q := fun w =>
      (∃ stage, stage.Over ∧ w.calls[t]? = some (.waitAny handles timed stage)) ∨
        ∃ cb ∈ (w.shared.handle h).skipped, cb.event = some t) rank ?_ ?_ ?_
    ⟨inv r n, hdone, stage, hover, hphase⟩
  · rintro w e w' ⟨hi, hd, stage, hover, hphase⟩ hs hother
    have hsame := HandleWorld.step_other hs hother hphase
    exact .inr ⟨⟨hi.step hs, hkeep hi hd hs, stage, hover, hsame⟩, by rw [hrank hphase, hrank hsame]⟩
  · rintro w e w' ⟨hi, hd, stage, hover, hphase⟩ hs hown
    obtain ⟨phase', s', ht, _, hphase'⟩ := HandleWorld.step_own hs hown hphase
    cases ht with
    | @any _ _ _ next hnext =>
      by_cases hend : next.1.Over
      · exact .inl (.inl ⟨next.1, hend, hphase'⟩)
      · refine .inr ⟨⟨hi.step hs, hkeep hi hd hs, next.1, hend, hphase'⟩, ?_⟩
        rw [hrank hphase, hrank hphase']
        exact (AnyStage.move_turns hj hd hnext).resolve_left hend
    | anyGiveUp _ => exact .inl (.inl ⟨.timedOut, trivial, hphase'⟩)
    | anyExpire =>
      refine .inr ⟨⟨hi.step hs, hkeep hi hd hs, .clear, id, hphase'⟩, ?_⟩
      rw [hrank hphase, hrank hphase']
      simp only [AnyStage.turns]
      omega
  · rintro n ⟨_, hd, stage, hover, hphase⟩
    obtain ⟨m, hnm, hskipped | hacts⟩ := any_acts r hphase hover hmem hd
    · exact ⟨m, hnm, .inl (.inr hskipped)⟩
    · exact ⟨m, hnm, .inr hacts⟩

end HandleRun

/-! Runs in which no callback raises what is no `Exception`. -/

namespace Shared

variable {s : Shared} {h k : ℕ} {x : HandleState}

theorem raised_set (hx : x.raised = (s.handle h).raised) :
    ((s.set h x).handle k).raised = (s.handle k).raised := by
  by_cases hk : k = h
  · subst hk
    rw [set_self, hx]
  · rw [set_ne hk]

theorem raised_runCallback {cb : Callback} :
    ((s.runCallback h cb).handle k).raised = (s.handle k).raised := by
  rw [runCallback_handle]
  exact raised_set rfl

theorem raised_addDoneCallback {β : Type} {event : Option ℕ} {kept : β} {now : Callback → β}
    {next : β × Shared} (hnext : s.addDoneCallback h event kept now = next) :
    (next.2.handle k).raised = (s.handle k).raised := by
  rcases addDoneCallback_cases hnext with ⟨_, _, hs⟩ | ⟨_, _, hs⟩
  · rw [hs]
    exact raised_set (s := { s with nextId := s.nextId + 1 }) rfl
  · rw [hs]
    exact raised_set (s := { s with nextId := s.nextId + 1 }) rfl

end Shared

section Raised

variable {t k : ℕ} {s s' : Shared} {phase phase' : CallPhase}

theorem AnyStage.move_raised {handles : List ℕ} {stage : AnyStage} {next : AnyStage × Shared}
    (hnext : stage.move t handles s = some next) :
    (next.2.handle k).raised = (s.handle k).raised := by
  cases AnyStage.move_turn hnext with
  | add hi hnext => exact Shared.raised_addDoneCallback hnext
  | run => exact Shared.raised_runCallback
  | added hi => rfl
  | found hi hdone => rfl
  | pass hi hopen => rfl
  | block hi => rfl
  | wake hset => rfl
  | clear => rfl

/-- A callback is recorded as raising only where a call leaves it for its end. -/
theorem Turn.raised (ht : Turn t s phase phase' s')
    (hback : ∀ h cb rest, phase = .inCallback h cb rest → phase' = .notify h rest) :
    (s'.handle k).raised = (s.handle k).raised := by
  cases ht with
  | store hopen => exact Shared.raised_set rfl
  | complete hdone => exact Shared.raised_set rfl
  | start => exact Shared.raised_runCallback
  | abort => cases hback _ _ _ rfl
  | add hnext => exact Shared.raised_addDoneCallback hnext
  | run => exact Shared.raised_runCallback
  | block hopen => exact Shared.raised_set rfl
  | unblock => exact Shared.raised_set rfl
  | any hnext => exact AnyStage.move_raised hnext
  | notified => rfl
  | back => rfl
  | pass hdone => rfl
  | wake hfree => rfl
  | giveUp hopen => rfl
  | anyGiveUp hi => rfl
  | anyExpire => rfl

theorem HandleWorld.step_raised {w w' : HandleWorld} {e : HandleEvent} (he : ∀ t, e ≠ .abort t)
    (hs : w.step e = some w') : (w'.shared.handle k).raised = (w.shared.handle k).raised := by
  cases e with
  | move t =>
    obtain ⟨phase, phase', _, hm, _⟩ := turn_eq hs
    refine (move_turn hm).raised fun h cb rest hphase => ?_
    subst hphase
    exact (congrArg Prod.fst (Option.some.inj hm)).symm
  | expire t =>
    obtain ⟨phase, phase', _, hm, _⟩ := turn_eq hs
    refine (expire_turn hm).raised fun h cb rest hphase => ?_
    subst hphase
    cases hm
  | abort t => exact absurd rfl (he t)
  | setMany h pairs =>
    obtain ⟨_, hw⟩ := Option.ite_none_right_eq_some.mp hs
    rw [← Option.some.inj hw]
    rfl
  | waitAny handles timed =>
    obtain ⟨_, hw⟩ := Option.ite_none_left_eq_some.mp hs
    rw [← Option.some.inj hw]
    rfl
  | addDoneCallback h =>
    rw [← Option.some.inj hs]
    rfl
  | wait h timed =>
    rw [← Option.some.inj hs]
    rfl

end Raised

namespace HandleRun

variable {sizes : ℕ → ℕ} (r : HandleRun sizes) {n h : ℕ}

/-- No callback ends with what is no `Exception`. -/
def OnlyExceptions : Prop :=
  ∀ n t, r.label n ≠ some (.abort t)

theorem raised_nil (hr : r.OnlyExceptions) (n h : ℕ) :
    ((r.state n).shared.handle h).raised = [] := by
  refine r.invariant_of_labels (P := fun w => (w.shared.handle h).raised = [])
    (A := fun e => ∀ t, e ≠ .abort t) ?_ ?_ ?_ n
  · rintro w rfl
    rfl
  · intro w e w' he hw hs
    exact (HandleWorld.step_raised he hs).trans hw
  · rintro n e hl t rfl
    exact hr n t hl

theorem skipped_nil (hr : r.OnlyExceptions) (n h : ℕ) :
    ((r.state n).shared.handle h).skipped = [] := by
  refine List.eq_nil_iff_forall_not_mem.mpr fun cb hcb => ?_
  obtain ⟨bad, hbad, _⟩ := ((inv r n).handles h).behind cb hcb
  rw [raised_nil r hr n h] at hbad
  cases hbad

end HandleRun

/-- What can be seen of the handles and of the calls at any moment. -/
structure HandleWorld.Safe (sizes : ℕ → ℕ) (w : HandleWorld) : Prop where
  done_iff : ∀ h, (w.shared.handle h).done = true ↔
    ∀ i < sizes h, ∃ v, (w.shared.handle h).results[i]? = some (some v)
  once : ∀ h, ((w.shared.handle h).ran.map Callback.id).Nodup
  registered : ∀ h, (w.shared.handle h).ran ⊆ (w.shared.handle h).registered
  complete : ∀ h, (w.shared.handle h).ran ≠ [] → (w.shared.handle h).done = true
  skipped : ∀ h, ∀ cb ∈ (w.shared.handle h).skipped, cb ∉ (w.shared.handle h).ran ∧
    ∃ bad ∈ (w.shared.handle h).raised, bad ∈ (w.shared.handle h).ran ∧
      [bad, cb].Sublist (w.shared.handle h).callbacks
  awake : ∀ h, (w.shared.handle h).done = true → (w.shared.handle h).waiters = []
  waited : ∀ (t : ℕ) h, w.calls[t]? = some (.waited h true) → (w.shared.handle h).done = true
  returned : ∀ (t : ℕ) handles timed h, w.calls[t]? = some (.waitAny handles timed (.returned h)) →
    h ∈ handles ∧ (w.shared.handle h).done = true
  untimed : ∀ (t : ℕ) handles, w.calls[t]? ≠ some (.waitAny handles false .timedOut)

/-- What comes about in a run. A callback is left out only where one before it with the same handle
raised what is no `Exception`. -/
structure HandleRun.Live {sizes : ℕ → ℕ} (r : HandleRun sizes) : Prop where
  callbacks : ∀ n h cb, cb ∈ ((r.state n).shared.handle h).registered →
    ((r.state n).shared.handle h).done = true → ∃ m, n ≤ m ∧
      (cb ∈ ((r.state m).shared.handle h).ran ∨ cb ∈ ((r.state m).shared.handle h).skipped)
  waits : ∀ n (t : ℕ) h timed, ((r.state n).shared.handle h).done = true →
    (r.state n).calls[t]? = some (.wait h timed) ∨ (r.state n).calls[t]? = some (.waiting h timed) →
    ∃ m, n ≤ m ∧ (r.state m).calls[t]? = some (.waited h true)
  any : ∀ n (t : ℕ) handles timed stage h,
    (r.state n).calls[t]? = some (.waitAny handles timed stage) → h ∈ handles →
    ((r.state n).shared.handle h).done = true → ∃ m, n ≤ m ∧
      ((∃ h', (r.state m).calls[t]? = some (.waitAny handles timed (.returned h'))) ∨
        timed = true ∧ (r.state m).calls[t]? = some (.waitAny handles timed .timedOut) ∨
        ∃ cb ∈ ((r.state m).shared.handle h).skipped, cb.event = some t)

/-- What comes about where nothing is left out. -/
structure HandleRun.Signalled {sizes : ℕ → ℕ} (r : HandleRun sizes) : Prop where
  callbacks : ∀ n h cb, cb ∈ ((r.state n).shared.handle h).registered →
    ((r.state n).shared.handle h).done = true →
      ∃ m, n ≤ m ∧ cb ∈ ((r.state m).shared.handle h).ran
  waits : ∀ n (t : ℕ) h timed, ((r.state n).shared.handle h).done = true →
    (r.state n).calls[t]? = some (.wait h timed) ∨ (r.state n).calls[t]? = some (.waiting h timed) →
    ∃ m, n ≤ m ∧ (r.state m).calls[t]? = some (.waited h true)
  any : ∀ n (t : ℕ) handles timed stage h,
    (r.state n).calls[t]? = some (.waitAny handles timed stage) → h ∈ handles →
    ((r.state n).shared.handle h).done = true → ∃ m, n ≤ m ∧
      ((∃ h', (r.state m).calls[t]? = some (.waitAny handles timed (.returned h'))) ∨
        timed = true ∧ (r.state m).calls[t]? = some (.waitAny handles timed .timedOut))

theorem HandleRun.Live.signalled {sizes : ℕ → ℕ} {r : HandleRun sizes} (hl : r.Live)
    (hr : r.OnlyExceptions) : r.Signalled := by
  refine ⟨fun n h cb hcb hd => ?_, hl.waits, fun n t handles timed stage h hphase hmem hd => ?_⟩
  · obtain ⟨m, hnm, hran | hskipped⟩ := hl.callbacks n h cb hcb hd
    · exact ⟨m, hnm, hran⟩
    · rw [skipped_nil r hr m h] at hskipped
      cases hskipped
  · obtain ⟨m, hnm, hreturned | htimed | ⟨cb, hskipped, _⟩⟩ :=
      hl.any n t handles timed stage h hphase hmem hd
    · exact ⟨m, hnm, .inl hreturned⟩
    · exact ⟨m, hnm, .inr htimed⟩
    · rw [skipped_nil r hr m h] at hskipped
      cases hskipped

theorem HandleWorld.Inv.safe {sizes : ℕ → ℕ} {w : HandleWorld} (hi : w.Inv sizes) :
    w.Safe sizes := by
  have hids : ∀ h, (((w.shared.handle h).ran ++ (w.shared.handle h).skipped).map Callback.id).Nodup := by
    intro h
    have hk := hi.handles h
    have hnodup := (hk.account.map Callback.id).nodup_iff.mp hk.ids
    rw [List.map_append] at hnodup
    exact (List.nodup_append.mp hnodup).1
  refine ⟨fun h => (hi.handles h).shows.done_iff, fun h => ?_, fun h cb hcb => ?_, fun h hran => ?_,
    fun h cb hcb => ⟨fun hran => ?_, ?_⟩, fun h hd => ?_, fun t h ht => ?_,
    fun t handles timed h ht => ?_, fun t handles ht => ?_⟩
  · have hnodup := hids h
    rw [List.map_append] at hnodup
    exact (List.nodup_append.mp hnodup).1
  · refine (hi.handles h).account.mem_iff.mpr ?_
    exact List.mem_append_left _ (List.mem_append_left _ hcb)
  · refine (hi.handles h).done_iff.mpr fun hopen => ?_
    exact hran ((hi.handles h).early hopen).1
  · have hnodup := hids h
    rw [List.map_append] at hnodup
    exact (List.nodup_append.mp hnodup).2.2 _ (List.mem_map_of_mem hran) _ (List.mem_map_of_mem hcb) rfl
  · obtain ⟨bad, hbad, hsub⟩ := (hi.handles h).behind cb hcb
    exact ⟨bad, hbad, (hi.handles h).raised hbad, hsub⟩
  · exact (hi.handles h).waiters ((hi.handles h).done_iff.mp hd)
  · exact (hi.handles h).done_iff.mpr (hi.sound t _ ht)
  · obtain ⟨_, hmem, hclosed⟩ := hi.sound t _ ht
    exact ⟨hmem, (hi.handles h).done_iff.mpr hclosed⟩
  · cases (hi.sound t _ ht).1 rfl

theorem HandleRun.live {sizes : ℕ → ℕ} (r : HandleRun sizes) : r.Live := by
  refine ⟨fun n h cb hcb hd => ?_, fun n t h timed hd hphase => ?_,
    fun n t handles timed stage h hphase hmem hd => ?_⟩
  · exact HandleRun.registered_runs r hd hcb
  · exact HandleRun.wait_returns r hd hphase
  · obtain ⟨m, hnm, ⟨stage, hover, hstage⟩ | hskipped⟩ := HandleRun.any_ends r hphase hmem hd
    · refine ⟨m, hnm, ?_⟩
      cases stage with
      | returned h' => exact .inl ⟨h', hstage⟩
      | timedOut =>
        have htimed := ((HandleRun.inv r m).sound t _ hstage).1 rfl
        exact .inr (.inl ⟨htimed, hstage⟩)
      | register i => cases hover
      | calling i h' cb => cases hover
      | check i => cases hover
      | waiting => cases hover
      | clear => cases hover
    · exact ⟨m, hnm, .inr (.inr hskipped)⟩

/-- At every moment the handles and the calls are as they should be, and in every run all that waits
comes to its end, but for what a callback that raised left out: nothing, where none did. -/
theorem completion_signalled (sizes : ℕ → ℕ) :
    (∀ w, Reach (· = HandleWorld.init sizes) (fun w e w' => w.step e = some w') w → w.Safe sizes) ∧
      ∀ r : HandleRun sizes, r.Live ∧ (r.OnlyExceptions → r.Signalled) :=
  ⟨fun _ hr => (HandleWorld.inv_reach hr).safe, fun r => ⟨r.live, r.live.signalled⟩⟩

/-- A callback of the caller, then that of a `wait_any`; the first raises what is no `Exception`. -/
def abortedRun : List HandleEvent :=
  [.addDoneCallback 0, .move 0, .waitAny [0] false, .move 1, .move 1, .move 1, .move 1,
    .setMany 0 [(0, .ok 8)], .move 2, .move 2, .abort 2]

/-- The handle is done, and `wait_any` waits for it for ever. -/
theorem completion_missed : ∃ r : HandleRun fun _ => 1, ∀ m, 11 ≤ m →
    ((r.state m).shared.handle 0).done = true ∧
      (r.state m).calls[1]? = some (.waitAny [0] false .waiting) ∧
      ∃ cb ∈ ((r.state m).shared.handle 0).registered, cb ∉ ((r.state m).shared.handle 0).ran := by
  cases hrun : abortedRun.foldlM HandleWorld.step (HandleWorld.init fun _ => 1) with
  | none => cases hrun
  | some w =>
    have hfields : (abortedRun.foldlM HandleWorld.step (HandleWorld.init fun _ => 1)).map (fun w =>
        ((w.shared.handle 0).done, w.calls, w.shared.event 1, (w.shared.handle 0).registered,
          (w.shared.handle 0).ran)) =
        some (true, [.finished, .waitAny [0] false .waiting, .finished], false, [⟨0, none⟩, ⟨1, some 1⟩],
          [⟨0, none⟩]) := by
      rfl
    rw [hrun, Option.map_some, Option.some.injEq] at hfields
    simp only [Prod.mk.injEq] at hfields
    obtain ⟨hdone, hcalls, hevent, hregistered, hran⟩ := hfields
    have hstuck : ∀ t, ¬ HandleWorld.Enabled t w := by
      rintro t ⟨phase, next, hphase, hnext⟩
      rw [hcalls] at hphase
      match t with
      | 0 =>
        obtain rfl := Option.some.inj hphase
        cases hnext
      | 1 =>
        obtain rfl := Option.some.inj hphase
        obtain ⟨_, hmove, _⟩ := Option.map_eq_some_iff.mp hnext
        obtain ⟨hset, _⟩ := Option.ite_none_right_eq_some.mp hmove
        rw [hevent] at hset
        cases hset
      | 2 =>
        obtain rfl := Option.some.inj hphase
        cases hnext
      | t + 3 => cases hphase
    obtain ⟨r, hr⟩ : ∃ r : HandleRun fun _ => 1, ∀ m, abortedRun.length ≤ m → r.state m = w :=
      FairRun.exists_of_foldlM rfl hrun hstuck
    refine ⟨r, fun m hm => ?_⟩
    rw [hr m hm, hdone, hcalls, hregistered, hran]
    exact ⟨rfl, rfl, ⟨1, some 1⟩, by decide, by decide⟩

end Umm
