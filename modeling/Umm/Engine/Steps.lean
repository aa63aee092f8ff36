import Umm.Engine.Engine
import Umm.Lib.Reach

/-! What a step of a submitting thread and of a worker can be, case by case. -/
namespace Umm
open Umm.Lib

namespace EngineState

variable {cfg : EngineConfig} {s t : EngineState} {h j : ℕ}

/-- One step of the thread in the submission `h`. -/
inductive Advance (cfg : EngineConfig) (h : ℕ) (s : EngineState) : EngineState → Prop
  | dispatch {sub : Submission} {permit : Bool} (hsub : s.subs[h]? = some sub)
      (hphase : sub.phase = .collecting permit) (hitem : sub.items[sub.counted]? = none) :
      Advance cfg h s (s.setSub h { sub with phase := .dispatching sub.groups })
  | acquire {sub : Submission} {item : IOItem} {t : EngineState} (hsub : s.subs[h]? = some sub)
      (hphase : sub.phase = .collecting false) (hitem : sub.items[sub.counted]? = some item)
      (ht : s.acquire (h, sub.counted) = some t) :
      Advance cfg h s (t.setSub h { sub with phase := .collecting true })
  | count {sub : Submission} {item : IOItem} (hsub : s.subs[h]? = some sub)
      (hphase : sub.phase = .collecting true) (hitem : sub.items[sub.counted]? = some item) :
      Advance cfg h s (s.countIn.setSub h (sub.collect cfg item))
  | hand {sub : Submission} {key : ℕ} {group : List GroupItem} {rest : Groups}
      (hsub : s.subs[h]? = some sub) (hphase : sub.phase = .dispatching ((key, group) :: rest))
      (hopen : s.isShut (cfg.executorOf key) = false) :
      Advance cfg h s { s.setSub h { sub with phase := .dispatching rest } with
        jobs := s.jobs ++ [⟨h, cfg.executorOf key, group, .queued⟩] }
  | refuse {sub : Submission} {key : ℕ} {group : List GroupItem} {rest : Groups}
      (hsub : s.subs[h]? = some sub) (hphase : sub.phase = .dispatching ((key, group) :: rest))
      (hshut : s.isShut (cfg.executorOf key) = true) :
      Advance cfg h s (s.setSub h (sub.resume group rest))
  | giveBack {sub : Submission} {x : GroupItem} {group : List GroupItem} {rest : Groups}
      (hsub : s.subs[h]? = some sub) (hphase : sub.phase = .failing .release (x :: group) rest) :
      Advance cfg h s ((s.release (h, x.idx)).setSub h
        { sub with phase := .failing .uncount (x :: group) rest })
  | uncount {sub : Submission} {x : GroupItem} {group : List GroupItem} {rest : Groups}
      (hsub : s.subs[h]? = some sub) (hphase : sub.phase = .failing .uncount (x :: group) rest) :
      Advance cfg h s (s.countOut.setSub h { sub with phase := .failing .store (x :: group) rest })
  | fail {sub : Submission} {x : GroupItem} {group : List GroupItem} {rest : Groups}
      (hsub : s.subs[h]? = some sub) (hphase : sub.phase = .failing .store (x :: group) rest) :
      Advance cfg h s (s.store h (sub.resume group rest) [(x.idx, .error .shutdown)])
  | failed {sub : Submission} {undo : Undo} {rest : Groups} (hsub : s.subs[h]? = some sub)
      (hphase : sub.phase = .failing undo [] rest) :
      Advance cfg h s (s.setSub h { sub with phase := .dispatching rest })
  | finish {sub : Submission} (hsub : s.subs[h]? = some sub) (hphase : sub.phase = .dispatching []) :
      Advance cfg h s (s.setSub h { sub with phase := .returned })

theorem advance_cases (ht : s.advance cfg h = some t) : Advance cfg h s t := by
  unfold advance at ht
  obtain ⟨sub, hsub, ht⟩ := Option.bind_eq_some_iff.mp ht
  split at ht
  next permit hphase =>
    split at ht
    next hitem =>
      obtain rfl := Option.some.inj ht
      exact .dispatch hsub hphase hitem
    next item hitem =>
      split_ifs at ht with hp
      · obtain rfl := Option.some.inj ht
        rw [hp] at hphase
        exact .count hsub hphase hitem
      · obtain ⟨t', hacq, rfl⟩ := Option.map_eq_some_iff.mp ht
        rw [Bool.not_eq_true] at hp
        rw [hp] at hphase
        exact .acquire hsub hphase hitem hacq
  next hphase =>
    obtain rfl := Option.some.inj ht
    exact .finish hsub hphase
  next key group rest hphase =>
    split_ifs at ht with hshut
    · obtain rfl := Option.some.inj ht
      exact .refuse hsub hphase hshut
    · obtain rfl := Option.some.inj ht
      exact .hand hsub hphase (Bool.not_eq_true _ ▸ hshut)
  next undo rest hphase =>
    obtain rfl := Option.some.inj ht
    exact .failed hsub hphase
  next x group rest hphase =>
    obtain rfl := Option.some.inj ht
    exact .giveBack hsub hphase
  next x group rest hphase =>
    obtain rfl := Option.some.inj ht
    exact .uncount hsub hphase
  next x group rest hphase =>
    obtain rfl := Option.some.inj ht
    exact .fail hsub hphase
  next => cases ht

/-- One step of the worker with the job `j`. -/
inductive Work (cfg : EngineConfig) (j : ℕ) (s : EngineState) : EngineState → Prop
  | start {job : Job} (hjob : s.jobs[j]? = some job) (hstage : job.stage = .queued)
      (hready : s.ready cfg j job.executor = true) :
      Work cfg j s (s.setJob j { job with stage := .running [] job.group })
  | execute {job : Job} {results : List (ℕ × IOResult)} {x : GroupItem} {todo : List GroupItem}
      (hjob : s.jobs[j]? = some job) (hstage : job.stage = .running results (x :: todo))
      (lib : Bool → Except ℤ ℤ) :
      Work cfg j s { s.setJob j { job with
          stage := .running (results ++ [(x.idx, executeOne x.req x.isRead lib)]) todo } with
        executed := s.executed ++ [((job.handle, x.idx), executeOne x.req x.isRead lib)] }
  | count {job : Job} {results : List (ℕ × IOResult)} (hjob : s.jobs[j]? = some job)
      (hstage : job.stage = .running results []) :
      Work cfg j s { s.setJob j { job with stage := .counted results job.group } with
        completed := s.completed + results.countP fun pair => pair.2.isOk
        failed := s.failed + results.countP fun pair => !pair.2.isOk
        inflight := s.inflight - job.group.length }
  | giveBack {job : Job} {results : List (ℕ × IOResult)} {x : GroupItem} {held : List GroupItem}
      (hjob : s.jobs[j]? = some job) (hstage : job.stage = .counted results (x :: held)) :
      Work cfg j s ((s.release (job.handle, x.idx)).setJob j
        { job with stage := .counted results held })
  | deliver {job : Job} {results : List (ℕ × IOResult)} {sub : Submission}
      (hjob : s.jobs[j]? = some job) (hstage : job.stage = .counted results [])
      (hsub : s.subs[job.handle]? = some sub) :
      Work cfg j s ((s.setJob j { job with stage := .finished }).store job.handle sub results)

theorem work_cases {lib : Bool → Except ℤ ℤ} (ht : s.work cfg j lib = some t) :
    Work cfg j s t := by
  unfold work at ht
  obtain ⟨job, hjob, ht⟩ := Option.bind_eq_some_iff.mp ht
  split at ht
  next hstage =>
    split_ifs at ht with hready
    obtain rfl := Option.some.inj ht
    exact .start hjob hstage hready
  next results x todo hstage =>
    obtain rfl := Option.some.inj ht
    exact .execute hjob hstage lib
  next results hstage =>
    obtain rfl := Option.some.inj ht
    exact .count hjob hstage
  next results x held hstage =>
    obtain rfl := Option.some.inj ht
    exact .giveBack hjob hstage
  next results hstage =>
    obtain ⟨sub, hsub, rfl⟩ := Option.map_eq_some_iff.mp ht
    exact .deliver hjob hstage hsub
  next => cases ht

theorem acquire_eq {req : ℕ × ℕ} (ht : s.acquire req = some t) :
    s.permits ≠ some 0 ∧
      t = { s with permits := s.permits.map (· - 1), acquired := s.acquired ++ [req] } := by
  unfold acquire at ht
  split at ht
  next => cases ht
  next permits hne =>
    obtain rfl := Option.some.inj ht
    exact ⟨fun hzero => hne hzero, rfl⟩

theorem submit_eq {items : List IOItem} (ht : s.submit items = some t) :
    s.closed = false ∧ t = { s with
      subs := s.subs ++ [⟨items, 0, [], .collecting false, .init items.length⟩] } := by
  unfold submit at ht
  split_ifs at ht with hclosed
  exact ⟨Bool.not_eq_true _ ▸ hclosed, (Option.some.inj ht).symm⟩

theorem shutdown_eq (ht : s.shutdown cfg = some t) :
    s.closed = true ∧ t = { s with shut := s.shut + 1 } := by
  unfold shutdown at ht
  split_ifs at ht with hok
  rw [Bool.and_eq_true] at hok
  exact ⟨hok.1, (Option.some.inj ht).symm⟩

theorem reach_run {events : List EngineEvent} (ht : run cfg events (init cfg) = some t) :
    Reach (· = init cfg) (EngineStep cfg) t :=
  Reach.foldlM (.start rfl) ht

end EngineState

end Umm
