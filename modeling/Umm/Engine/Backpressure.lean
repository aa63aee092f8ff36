import Umm.Engine.Accounting

/-! Who can give a permit to a call that waits for one. Permits are taken request by request, but
groups go to the executors only when a whole batch has its permits. -/
namespace Umm
open Umm.Lib

namespace Submission

/-- The requests the call has not handed to an executor. -/
def unhanded (sub : Submission) : ℕ :=
  match sub.phase with
  | .collecting _ => sub.items.length
  | .dispatching rest => (grouped rest).length
  | .failing _ group rest => group.length + (grouped rest).length
  | .returned => 0

/-- Every request the first loop has passed is in a group. -/
def Gathered (sub : Submission) : Prop :=
  ∀ permit, sub.phase = .collecting permit → (grouped sub.groups).length = sub.counted

variable {sub : Submission}

theorem gathered_phase {phase : SubmitPhase} (hnew : ∀ permit, phase ≠ .collecting permit) :
    Gathered { sub with phase } :=
  fun permit h => absurd h (hnew permit)

theorem unhanded_resume (group : List GroupItem) (rest : Groups) (sub : Submission) :
    (sub.resume group rest).unhanded = group.length + (grouped rest).length := by
  cases group with
  | nil => exact (Nat.zero_add _).symm
  | cons x group => rfl

theorem unreleased_le (hw : sub.WF) (hg : sub.Gathered) :
    (View.unreleased.sub sub).length ≤ sub.unhanded := by
  simp only [View.unreleased, List.length_append, indices, List.length_map]
  unfold left ahead unhanded
  cases hphase : sub.phase with
  | collecting permit =>
    have hlen := hg permit hphase
    cases permit with
    | false =>
      have := hw.counted_le
      simp only [List.length_nil]
      omega
    | true =>
      have := hw.permit hphase
      simp only [List.length_singleton]
      omega
  | dispatching rest => exact le_rfl
  | failing undo group rest =>
    simp only [List.length_append, List.length_nil, add_zero]
    split_ifs
    · have := List.length_tail (l := group)
      omega
    · exact le_rfl
  | returned => exact le_rfl

end Submission

namespace EngineState
open Submission

variable {cfg : EngineConfig} {s t : EngineState} {h : ℕ}

/-- A call of `_submit` is made when its requests and those of the calls in progress that no
executor has yet are within the limit. -/
def Fits (cfg : EngineConfig) (s : EngineState) : EngineEvent → Prop
  | .submit items => ∀ m, cfg.maxInflight = some m →
      items.length + tally (fun _ sub => sub.unhanded) s.subs ≤ m
  | _ => True

structure Room (cfg : EngineConfig) (s : EngineState) : Prop where
  gathered : ∀ (h : ℕ) sub, s.subs[h]? = some sub → sub.Gathered
  within : ∀ m, cfg.maxInflight = some m → tally (fun _ sub => sub.unhanded) s.subs ≤ m

theorem Advance.room (hw : ∀ sub, s.subs[h]? = some sub → sub.WF)
    (hg : ∀ sub, s.subs[h]? = some sub → sub.Gathered) (ha : Advance cfg h s t) :
    ∃ sub sub', s.subs[h]? = some sub ∧ t.subs = s.subs.set h sub' ∧ sub'.Gathered ∧
      sub'.unhanded ≤ sub.unhanded := by
  cases ha with
  | @dispatch sub permit hsub hphase hitem =>
    refine ⟨sub, _, hsub, rfl, gathered_phase fun _ => SubmitPhase.noConfusion, ?_⟩
    have hlen := hg sub hsub permit hphase
    have hle := (hw sub hsub).counted_le
    simp only [unhanded, hphase]
    omega
  | @acquire sub item t hsub hphase hitem ht =>
    obtain ⟨-, rfl⟩ := acquire_eq ht
    refine ⟨sub, _, hsub, rfl, fun _ _ => hg sub hsub false hphase, ?_⟩
    simp only [unhanded, hphase]
    exact le_rfl
  | @count sub item hsub hphase hitem =>
    refine ⟨sub, _, hsub, rfl, fun _ _ => ?_, ?_⟩
    · have hlen := hg sub hsub true hphase
      have hadd := (grouped_addTo_perm (cfg.key sub.counted item.1)
        (⟨sub.counted, item.1, item.2⟩ : GroupItem) sub.groups).length_eq
      rw [List.length_cons, hlen] at hadd
      exact hadd
    · simp only [unhanded, hphase]
      exact le_rfl
  | @hand sub key group rest hsub hphase hopen =>
    refine ⟨sub, _, hsub, rfl, gathered_phase fun _ => SubmitPhase.noConfusion, ?_⟩
    simp only [unhanded, hphase, grouped_cons, List.length_append]
    omega
  | @refuse sub key group rest hsub hphase hshut =>
    refine ⟨sub, _, hsub, rfl, fun permit h => absurd h (resume_ne_collecting _ _ permit), ?_⟩
    rw [unhanded_resume]
    simp only [unhanded, hphase, grouped_cons, List.length_append]
    exact le_rfl
  | @giveBack sub x group rest hsub hphase =>
    refine ⟨sub, _, hsub, rfl, gathered_phase fun _ => SubmitPhase.noConfusion, ?_⟩
    simp only [unhanded, hphase]
    exact le_rfl
  | @uncount sub x group rest hsub hphase =>
    refine ⟨sub, _, hsub, rfl, gathered_phase fun _ => SubmitPhase.noConfusion, ?_⟩
    simp only [unhanded, hphase]
    exact le_rfl
  | @fail sub x group rest hsub hphase =>
    refine ⟨sub, _, hsub, rfl,
      fun permit h => absurd h (@resume_ne_collecting sub group rest permit), ?_⟩
    change (sub.resume group rest).unhanded ≤ _
    rw [unhanded_resume]
    simp only [unhanded, hphase, List.length_cons]
    omega
  | @failed sub undo rest hsub hphase =>
    refine ⟨sub, _, hsub, rfl, gathered_phase fun _ => SubmitPhase.noConfusion, ?_⟩
    simp only [unhanded, hphase, List.length_nil, zero_add]
    exact le_rfl
  | @finish sub hsub hphase =>
    refine ⟨sub, _, hsub, rfl, gathered_phase fun _ => SubmitPhase.noConfusion, ?_⟩
    exact Nat.zero_le _

theorem Room.set (hr : s.Room cfg) {sub sub' : Submission} (hsub : s.subs[h]? = some sub)
    (ht : t.subs = s.subs.set h sub') (hg : sub'.Gathered) (hle : sub'.unhanded ≤ sub.unhanded) :
    t.Room cfg := by
  refine ⟨?_, fun m hm => ?_⟩
  · rw [ht]
    exact forall_set hr.gathered hg
  · have hset := tally_set (fun _ sub => sub.unhanded) hsub sub'
    have := hr.within m hm
    rw [ht]
    omega

theorem Room.step (hs : s.Shape) (hr : s.Room cfg) {e : EngineEvent}
    (ht : Guarded (Fits cfg) (EngineStep cfg) s e t) : t.Room cfg := by
  obtain ⟨hfits, ht⟩ := ht
  cases e with
  | submit items =>
    obtain ⟨-, rfl⟩ := submit_eq ht
    refine ⟨forall_concat hr.gathered fun _ _ => rfl, fun m hm => ?_⟩
    rw [tally_concat]
    have hle : items.length + tally (fun _ sub => sub.unhanded) s.subs ≤ m := hfits m hm
    change _ + items.length ≤ m
    omega
  | advance h =>
    obtain ⟨sub, sub', hsub, hsubs, hg, hle⟩ := (advance_cases ht).room (hs.sub h) (hr.gathered h)
    exact hr.set hsub hsubs hg hle
  | work j lib =>
    obtain ⟨job, job', hwd⟩ := (work_cases ht).worked
    rcases hwd.subs with he | ⟨sub, handle, hsub, he⟩
    · exact ⟨by rw [he]; exact hr.gathered, by rw [he]; exact hr.within⟩
    · have hg : sub.Gathered := hr.gathered _ _ hsub
      exact hr.set hsub he hg le_rfl
  | close =>
    obtain rfl := Option.some.inj ht
    exact ⟨hr.gathered, hr.within⟩
  | shutdown =>
    obtain ⟨-, rfl⟩ := shutdown_eq ht
    exact ⟨hr.gathered, hr.within⟩

/-- Some group is queued or running that has permits to give back. -/
def Relieved (s : EngineState) : Prop :=
  ∃ job ∈ s.jobs, (job.stage.isQueued || job.stage.isActive) ∧ job.unreleased ≠ []

theorem Books.relieved (hb : s.Books cfg) (hr : s.Room cfg) (hblocked : s.Blocked h) :
    s.Relieved := by
  obtain ⟨sub, hsub, hphase, hlt, hzero⟩ := hblocked
  have hmax : ∃ m, cfg.maxInflight = some m := by
    cases hm : cfg.maxInflight with
    | none =>
      rw [hb.unlimited hm] at hzero
      cases hzero
    | some m => exact ⟨m, rfl⟩
  obtain ⟨m, hm⟩ := hmax
  obtain ⟨p, hp, hsum⟩ := hb.permits m hm
  obtain rfl := Option.some.inj (hzero.symm.trans hp)
  rw [View.card_held] at hsum
  have hstrict : (View.unreleased.sub sub).length < sub.unhanded := by
    have hlen := hr.gathered h sub hsub false hphase
    have hahead : sub.ahead = [] := ahead_eq_nil (by rw [hphase]; exact fun h => by cases h)
    simp only [View.unreleased, List.length_append, indices, List.length_map,
      left_collecting hphase, hahead, unhanded, hphase, List.length_nil]
    omega
  have hsubs : tally (fun _ sub => (View.unreleased.sub sub).length) s.subs <
      tally (fun _ sub => sub.unhanded) s.subs :=
    tally_lt (fun k sub hk => unreleased_le (hb.sub k sub hk) (hr.gathered k sub hk)) hsub hstrict
  have hwithin := hr.within m hm
  obtain ⟨j, job, hj, hpos⟩ := exists_of_tally_pos
    (f := fun _ job => (View.unreleased.job job).length) (l := s.jobs) (by omega)
  have hne : job.unreleased ≠ [] := by
    intro hnil
    simp only [View.unreleased, hnil, indices_nil, List.length_nil] at hpos
    omega
  refine ⟨job, List.mem_of_getElem? hj, ?_, hne⟩
  unfold Job.unreleased at hne
  cases hstage : job.stage with
  | finished => exact absurd (by rw [hstage]) hne
  | _ => rfl

end EngineState

theorem engine_relieved (cfg : EngineConfig) (s : EngineState)
    (hrun : Reach (· = EngineState.init cfg)
      (Guarded (EngineState.Fits cfg) (EngineStep cfg)) s) :
    ∀ h, s.Blocked h → s.Relieved := by
  have hinv : s.Books cfg ∧ s.Room cfg := by
    refine hrun.invariant (P := fun s => s.Books cfg ∧ s.Room cfg) ?_ ?_
    · rintro s rfl
      exact ⟨EngineState.books_init cfg, fun _ _ h => (by cases h), fun _ _ => Nat.zero_le _⟩
    · rintro s e t ⟨hb, hr⟩ ht
      exact ⟨hb.step ht.2, hr.step hb.toShape ht⟩
  exact fun h hblocked => hinv.1.relieved hinv.2 hblocked

def EngineConfig.single : EngineConfig where
  numWorkers := 1
  numQueues := 1
  maxInflight := some 1
  numWorkers_pos := Nat.one_pos
  numQueues_pos := Nat.one_pos
  maxInflight_pos := by
    rintro n ⟨⟩
    decide

/-- A second call of one request, while the first one's group is queued. -/
theorem engine_relieved_queued : ∃ s : EngineState, s.Blocked 1 ∧ s.Relieved := by
  have hstart : Reach (· = EngineState.init .single)
      (Guarded (EngineState.Fits .single) (EngineStep .single)) (EngineState.init .single) :=
    .start rfl
  have hone := hstart.next (EngineEvent.submit (submitRead [⟨0, 0, 8, 8⟩]))
    (And.intro (by rintro m ⟨⟩; decide) rfl)
  have htwo := (((hone.next (EngineEvent.advance 0) (And.intro trivial rfl)).next
    (EngineEvent.advance 0) (And.intro trivial rfl)).next
    (EngineEvent.advance 0) (And.intro trivial rfl)).next
    (EngineEvent.advance 0) (And.intro trivial rfl)
  have hthree := htwo.next (EngineEvent.submit (submitRead [⟨0, 0, 8, 8⟩]))
    (And.intro (by rintro m ⟨⟩; decide) rfl)
  refine ⟨_, ?_, engine_relieved .single _ hthree 1 ?_⟩
  · exact ⟨_, rfl, rfl, by decide, rfl⟩
  · exact ⟨_, rfl, rfl, by decide, rfl⟩

/-- One call with two requests under a limit of one: its first request has the permit its second
one waits for, and no executor has a group. -/
theorem engine_selfBlocked : ∃ s : EngineState,
    Reach (· = EngineState.init .single) (EngineStep .single) s ∧ s.Blocked 0 ∧ s.jobs = [] ∧
      s.subs.length = 1 ∧ s.advance .single 0 = none := by
  have hstart : Reach (· = EngineState.init .single) (EngineStep .single)
      (EngineState.init .single) := .start rfl
  have hrun := ((hstart.next
    (EngineEvent.submit (submitRead [⟨0, 0, 8, 8⟩, ⟨0, 8, 8, 8⟩])) rfl).next
    (EngineEvent.advance 0) rfl).next (EngineEvent.advance 0) rfl
  exact ⟨_, hrun, ⟨_, rfl, rfl, by decide, rfl⟩, rfl, rfl, rfl⟩

end Umm
