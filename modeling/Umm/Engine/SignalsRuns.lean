import Umm.Engine.Signals
import Umm.Lib.Fair

/-! The same over whole runs, with what comes about when every thread goes on. -/
namespace Umm
open Umm.Lib

section Turn

variable {t : ℕ} {s s' : Shared} {phase phase' : CallPhase} {stage : AnyStage} {handles : List ℕ}

theorem Shared.listens_addDoneCallback {β : Type} {h : ℕ} {kept : β} {now : Callback → β}
    {next : β × Shared} (hnext : s.addDoneCallback h (some t) kept now = next) :
    next.2.Listens t h := by
  rcases addDoneCallback_cases hnext with ⟨_, _, hs⟩ | ⟨_, _, hs⟩
  · refine ⟨⟨s.nextId, some t⟩, ?_, rfl⟩
    rw [hs, set_self]
    exact List.mem_append_right _ (List.mem_singleton_self _)
  · refine ⟨⟨s.nextId, some t⟩, ?_, rfl⟩
    rw [hs, set_self]
    exact List.mem_append_right _ (List.mem_singleton_self _)

/-- `wait_any` goes past a handle only where no callback with it has been called. -/
theorem AnyStage.Sound.move {next : AnyStage × Shared} (hs : stage.Sound t handles s)
    (hopen : ∀ h, 0 < (s.handle h).remaining → (s.handle h).ran = [])
    (hdone : ∀ h, (s.handle h).done = true ↔ ¬ 0 < (s.handle h).remaining)
    (hnext : stage.move t handles s = some next) : next.1.Sound t handles next.2 := by
  have hlater := AnyStage.move_later hnext
  have htake : ∀ i h, handles[i]? = some h → ∀ h' ∈ handles.take (i + 1), h' ∈ handles.take i ∨ h' = h := by
    intro i h hi h' hh'
    rw [List.take_add_one, hi] at hh'
    simpa using hh'
  have hall : ∀ i, handles[i]? = none → handles.take i = handles :=
    fun i hi => List.take_of_length_le (List.getElem?_eq_none_iff.mp hi)
  cases AnyStage.move_turn hnext with
  | @add i h _ hi hnext =>
    have hnew := Shared.listens_addDoneCallback hnext
    have hlisten : ∀ h' ∈ handles.take (i + 1), next.2.Listens t h' := by
      intro h' hh'
      rcases htake i h hi h' hh' with hold | rfl
      · exact hlater.listens (hs h' hold)
      · exact hnew
    rcases Shared.addDoneCallback_cases hnext with ⟨_, hfst, _⟩ | ⟨_, hfst, _⟩
    · rw [hfst]
      exact hlisten
    · rw [hfst]
      exact ⟨hi, rfl, hlisten⟩
  | @added i hi =>
    refine ⟨?_, fun _ h hh => ?_⟩
    · rw [← hall i hi]
      exact hs
    · rw [List.take_zero] at hh
      cases hh
  | run => exact fun h' hh' => hlater.listens (hs.2.2 h' hh')
  | @found i h hi hd => exact ⟨List.mem_of_getElem? hi, (hdone h).mp hd⟩
  | @pass i h hi hd =>
    refine ⟨hs.1, fun hevent h' hh' => ?_⟩
    rcases htake i h hi h' hh' with hold | rfl
    · exact hs.2 hevent h' hold
    · have hnone := hopen h' (not_not.mp fun hclosed => hd ((hdone h').mpr hclosed))
      unfold Shared.Silent
      rw [hnone]
      simp
  | @block i hi =>
    refine ⟨hs.1, ?_⟩
    rw [← hall i hi]
    rw [← hall i hi] at hs
    simpa only [List.take_take, min_self] using hs.2
  | wake hset => exact hs.1
  | clear =>
    refine ⟨fun h hh => hlater.listens (hs h hh), fun _ h hh => ?_⟩
    rw [List.take_zero] at hh
    cases hh

theorem AnyStage.move_ne_timedOut {next : AnyStage × Shared}
    (hnext : stage.move t handles s = some next) : next.1 ≠ .timedOut := by
  cases AnyStage.move_turn hnext with
  | add hi hnext =>
    rcases Shared.addDoneCallback_cases hnext with ⟨_, hfst, _⟩ | ⟨_, hfst, _⟩
    · rw [hfst]
      nofun
    · rw [hfst]
      nofun
  | added hi => nofun
  | run => nofun
  | found hi hdone => nofun
  | pass hi hopen => nofun
  | block hi => nofun
  | wake hset => nofun
  | clear => nofun

/-- Where a call comes to, the same holds of it. -/
theorem Turn.sound (ht : Turn t s phase phase' s') (hs : phase.Sound t s)
    (hinv : ∀ h, ∃ size U P, (s.handle h).Inv size s.nextId (phase.undelivered h ++ U) P) :
    phase'.Sound t s' := by
  have hlater := ht.later hs hinv
  cases ht with
  | store hopen => trivial
  | @complete h pairs hdone =>
    refine ⟨?_, ?_⟩
    · rw [Shared.set_self]
      exact hdone
    · rw [Shared.set_self]
      exact List.suffix_refl _
  | notified => trivial
  | @start h cb rest =>
    refine ⟨hlater.not_pos hs.1, ?_, ?_⟩
    · rw [(hlater.closed h hs.1).2]
      exact hs.2
    · rw [Shared.runCallback_handle, Shared.set_self]
      exact List.mem_append_right _ (List.mem_singleton_self cb)
  | back => exact ⟨hs.1, (List.suffix_cons _ _).trans hs.2.1⟩
  | abort => trivial
  | add hnext =>
    rcases Shared.addDoneCallback_cases hnext with ⟨_, hfst, _⟩ | ⟨_, hfst, _⟩
    · rw [hfst]
      trivial
    · rw [hfst]
      trivial
  | run => trivial
  | block hopen => trivial
  | pass hdone => exact hdone
  | wake hfree => trivial
  | unblock => trivial
  | giveUp hopen => trivial
  | any hnext =>
    refine ⟨fun he => absurd he (AnyStage.move_ne_timedOut hnext), hs.2.move ?_ ?_ hnext⟩
    · intro h hopen
      obtain ⟨size, U, P, hk⟩ := hinv h
      exact (hk.early hopen).1
    · intro h
      obtain ⟨size, U, P, hk⟩ := hinv h
      exact hk.done_iff
  | anyGiveUp hi => exact ⟨fun _ => rfl, trivial⟩
  | anyExpire => exact ⟨nofun, hs.2.1⟩

theorem Opening.pending {w : HandleWorld} (ho : Opening w phase) (h : ℕ) : phase.pending h = [] := by
  cases ho <;> rfl

theorem Opening.sound {w : HandleWorld} (ho : Opening w phase) (t : ℕ) (s : Shared) :
    phase.Sound t s := by
  cases ho with
  | setMany hd => exact List.isEmpty_eq_false_iff.mp hd.1
  | addDone => trivial
  | wait => trivial
  | waitAny hne =>
    refine ⟨nofun, fun h hh => ?_⟩
    rw [List.take_zero] at hh
    cases hh

end Turn

namespace HandleWorld

variable {sizes : ℕ → ℕ} {w w' : HandleWorld} {e : HandleEvent} {phase : CallPhase} {t u h : ℕ}

def pending (h : ℕ) (w : HandleWorld) : List Callback :=
  w.calls.flatMap (CallPhase.pending h)

structure Inv (sizes : ℕ → ℕ) (w : HandleWorld) : Prop where
  handles : ∀ h, (w.shared.handle h).Inv (sizes h) w.shared.nextId (w.undelivered h) (w.pending h)
  sound : ∀ (t : ℕ) phase, w.calls[t]? = some phase → phase.Sound t w.shared

theorem inv_init (sizes : ℕ → ℕ) : (init sizes).Inv sizes where
  handles h := HandleState.inv_init (sizes h)
  sound t phase hphase := by
    change ([] : List CallPhase)[t]? = some phase at hphase
    cases hphase

/-- The handle as the call `t` finds it, with what it has to do apart from the others. -/
theorem Inv.at (hi : w.Inv sizes) (hphase : w.calls[t]? = some phase) (h : ℕ) :
    (w.shared.handle h).Inv (sizes h) w.shared.nextId
      (phase.undelivered h ++ ((w.calls.take t).flatMap (CallPhase.undelivered h) ++
        (w.calls.drop (t + 1)).flatMap (CallPhase.undelivered h)))
      (phase.pending h ++ ((w.calls.take t).flatMap (CallPhase.pending h) ++
        (w.calls.drop (t + 1)).flatMap (CallPhase.pending h))) :=
  (hi.handles h).perm (flatMap_perm_at _ hphase) (flatMap_perm_at _ hphase)

theorem Inv.turn_later (hi : w.Inv sizes) {phase' : CallPhase} {s' : Shared}
    (hphase : w.calls[t]? = some phase) (ht : Turn t w.shared phase phase' s') :
    w.shared.Later t s' :=
  ht.later (hi.sound t phase hphase) fun k => ⟨_, _, _, hi.at hphase k⟩

theorem Inv.call (hi : w.Inv sizes) (hopening : Opening w phase) : (w.call phase).Inv sizes := by
  refine ⟨fun h => ?_, fun t phase' hphase' => ?_⟩
  · unfold HandleWorld.undelivered HandleWorld.pending HandleWorld.call
    rw [List.flatMap_append, List.flatMap_append, List.flatMap_singleton, List.flatMap_singleton,
      hopening.pending, List.append_nil]
    have hk := hi.handles h
    cases hopening with
    | @setMany h' pairs hd =>
      by_cases hh : h' = h
      · subst hh
        simp only [CallPhase.undelivered, if_true]
        exact hk.deliver hd.2.1 hd.2.2
      · simp only [CallPhase.undelivered, if_neg hh, List.append_nil]
        exact hk
    | addDone =>
      simp only [CallPhase.undelivered, List.append_nil]
      exact hk
    | wait =>
      simp only [CallPhase.undelivered, List.append_nil]
      exact hk
    | waitAny hne =>
      simp only [CallPhase.undelivered, List.append_nil]
      exact hk
  · change (w.calls ++ [phase])[t]? = some phase' at hphase'
    rcases Nat.lt_or_ge t w.calls.length with hlt | hge
    · rw [List.getElem?_append_left hlt] at hphase'
      exact hi.sound t phase' hphase'
    · rw [List.getElem?_append_right hge] at hphase'
      have hmem := List.mem_of_getElem? hphase'
      rw [List.mem_singleton.mp hmem]
      exact hopening.sound t w.shared

theorem Inv.turn (hi : w.Inv sizes) {phase' : CallPhase} (hphase : w.calls[t]? = some phase)
    (ht : Turn t w.shared phase phase' w'.shared) (hcalls : w'.calls = w.calls.set t phase') :
    w'.Inv sizes := by
  have hsound := hi.sound t phase hphase
  refine ⟨fun h => ?_, fun u phase'' hu => ?_⟩
  · refine (ht.inv hsound (hi.at hphase h)).perm ?_ ?_
    · unfold HandleWorld.undelivered
      rw [hcalls]
      exact (flatMap_perm_set _ hphase phase').symm
    · unfold HandleWorld.pending
      rw [hcalls]
      exact (flatMap_perm_set _ hphase phase').symm
  · rw [hcalls] at hu
    by_cases hut : t = u
    · subst hut
      rw [List.getElem?_set_self (List.getElem?_eq_some_iff.mp hphase).1] at hu
      obtain rfl := Option.some.inj hu
      exact ht.sound hsound fun k => ⟨_, _, _, hi.at hphase k⟩
    · rw [List.getElem?_set_ne hut] at hu
      exact (hi.sound u phase'' hu).later (Ne.symm hut) (hi.turn_later hphase ht)

theorem Inv.step (hi : w.Inv sizes) (hs : w.step e = some w') : w'.Inv sizes := by
  rcases step_cases hs with ⟨phase, _, hopening, rfl⟩ | ⟨t, phase, phase', _, hphase, ht, hcalls⟩
  · exact hi.call hopening
  · exact hi.turn hphase ht hcalls

theorem inv_reach (hr : Reach (· = init sizes) (fun w e w' => w.step e = some w') w) :
    w.Inv sizes := by
  refine hr.invariant (P := Inv sizes) ?_ fun w e w' hi hs => hi.step hs
  rintro w rfl
  exact inv_init sizes

/-- A handle with all its results stays as it is. -/
theorem Inv.step_later (hi : w.Inv sizes) (hs : w.step e = some w') :
    ∃ t, w.shared.Later t w'.shared := by
  rcases step_cases hs with ⟨phase, _, _, rfl⟩ | ⟨t, phase, phase', _, hphase, ht, _⟩
  · exact ⟨0, .refl _⟩
  · exact ⟨t, hi.turn_later hphase ht⟩

/-- A call is where it was while others take their turns. -/
theorem step_other (hs : w.step e = some w') (hu : e.actor ≠ some u)
    (hphase : w.calls[u]? = some phase) : w'.calls[u]? = some phase := by
  rcases step_cases hs with ⟨phase₁, _, _, rfl⟩ | ⟨t, phase₁, phase', hactor, _, _, hcalls⟩
  · change (w.calls ++ [phase₁])[u]? = some phase
    rw [List.getElem?_append_left (List.getElem?_eq_some_iff.mp hphase).1]
    exact hphase
  · have hut : t ≠ u := fun he => hu (he ▸ hactor)
    rw [hcalls, List.getElem?_set_ne hut]
    exact hphase

theorem step_own (hs : w.step e = some w') (hu : e.actor = some u)
    (hphase : w.calls[u]? = some phase) :
    ∃ phase' s', Turn u w.shared phase phase' s' ∧ w'.shared = s' ∧ w'.calls[u]? = some phase' := by
  rcases step_cases hs with ⟨phase₁, hactor, _, _⟩ | ⟨t, phase₁, phase', hactor, hphase₁, ht, hcalls⟩
  · rw [hactor] at hu
    cases hu
  · obtain rfl := Option.some.inj (hactor.symm.trans hu)
    obtain rfl := Option.some.inj (hphase₁.symm.trans hphase)
    refine ⟨phase', w'.shared, ht, rfl, ?_⟩
    rw [hcalls, List.getElem?_set_self (List.getElem?_eq_some_iff.mp hphase).1]

end HandleWorld

end Umm
