import Umm.Engine.ChunkFifoRuns

/-! A queue with one worker executes its groups in the order they were handed to it. -/
namespace Umm
open Umm.Lib

def JobStage.isFinished : JobStage → Bool
  | finished => true
  | _ => false

/-- The requests of the job that have been executed. -/
def Job.ran (job : Job) : List GroupItem :=
  match job.stage with
  | .queued => []
  | .running results _ => job.group.take results.length
  | _ => job.group

theorem Job.ran_prefix (job : Job) : job.ran <+: job.group := by
  unfold Job.ran
  cases job.stage with
  | queued => exact List.nil_prefix
  | running results todo => exact List.take_prefix _ _
  | counted results held => exact List.prefix_rfl
  | finished => exact List.prefix_rfl

theorem Job.ran_of_finished {job : Job} (h : job.stage.isFinished = true) : job.ran = job.group := by
  unfold Job.ran
  unfold JobStage.isFinished at h
  split at h
  next hstage => rw [hstage]
  next => cases h

namespace EngineState
open Submission

variable {cfg : EngineConfig} {s t : EngineState} {h j : ℕ} {c : ℤ}

structure Ran (c : ℤ) (s : EngineState) : Prop where
  order : ∀ (i k : ℕ) a b, i < k → s.jobs[i]? = some a → s.jobs[k]? = some b →
    a.executor = b.executor → b.stage.isQueued = false → a.stage.isFinished = true
  log : s.executedTo c = s.jobs.flatMap fun job => tags job.handle (onChunk c job.ran)

theorem executedTo_congr (hex : t.executed = s.executed)
    (hsub : t.submittedTo c = s.submittedTo c) : t.executedTo c = s.executedTo c := by
  unfold executedTo
  rw [hex, hsub]

theorem Ran.advance (hr : s.Ran c) (ha : Advance cfg h s t) : t.Ran c := by
  obtain ⟨sub, sub', had⟩ := ha.advanced
  have hsubmitted : t.submittedTo c = s.submittedTo c := by
    refine submittedTo_congr ?_
    rw [had.subs]
    exact map_items_set had.found had.items
  have hexecuted := executedTo_congr had.executed hsubmitted
  rcases had.jobs with he | ⟨executor, group, he, -⟩
  · refine ⟨?_, ?_⟩
    · rw [he]
      exact hr.order
    · rw [he, hexecuted]
      exact hr.log
  · refine ⟨?_, ?_⟩
    · intro i k a b hik hi hk hex hstarted
      have hkl : k < s.jobs.length := by
        by_contra hge
        rw [he, List.getElem?_append_right (by omega)] at hk
        have hzero : k - s.jobs.length = 0 := by
          by_contra hpos
          rw [List.getElem?_eq_none (by rw [List.length_singleton]; omega)] at hk
          cases hk
        rw [hzero] at hk
        rw [← Option.some.inj hk] at hstarted
        cases hstarted
      rw [he, List.getElem?_append_left (by omega)] at hi hk
      exact hr.order i k a b hik hi hk hex hstarted
    · rw [he, hexecuted, hr.log, List.flatMap_append, List.flatMap_singleton]
      exact (List.append_nil _).symm

theorem Ran.submit (hr : s.Ran c) (hs : s.Shape) {items : List IOItem}
    (ht : s.submit items = some t) : t.Ran c := by
  obtain ⟨-, rfl⟩ := submit_eq ht
  refine ⟨hr.order, Eq.trans ?_ hr.log⟩
  unfold executedTo
  refine List.filter_congr fun x hx => ?_
  obtain ⟨y, hy, rfl⟩ := List.mem_map.mp hx
  obtain ⟨sub, item, lib, hsub, hitem, -⟩ := hs.executed y hy
  rw [decide_eq_decide, mem_submittedTo, mem_submittedTo]
  rw [List.getElem?_append_left (List.getElem?_eq_some_iff.mp hsub).1]

/-- The order of the jobs, where the worker of one of them makes a step. -/
theorem Ran.order_set (hr : s.Ran c) {job job' : Job} (hjob : s.jobs[j]? = some job)
    (hbusy : job.stage.isFinished = false) (hex : job'.executor = job.executor)
    (hbefore : ∀ (i : ℕ) a, i < j → s.jobs[i]? = some a → a.executor = job.executor →
      a.stage.isFinished = true) :
    ∀ (i k : ℕ) a b, i < k → (s.jobs.set j job')[i]? = some a → (s.jobs.set j job')[k]? = some b →
      a.executor = b.executor → b.stage.isQueued = false → a.stage.isFinished = true := by
  intro i k a b hik hi hk hsame hstarted
  rw [List.getElem?_set] at hi hk
  split_ifs at hk with hjk hlt
  · subst hjk
    obtain rfl := Option.some.inj hk
    rw [if_neg (by omega)] at hi
    exact hbefore i a hik hi (hsame.trans hex)
  · split_ifs at hi with hji hlt
    · subst hji
      obtain rfl := Option.some.inj hi
      have hdone := hr.order j k job b hik hjob hk (hex.symm.trans hsame) hstarted
      rw [hbusy] at hdone
      cases hdone
    · exact hr.order i k a b hik hi hk hsame hstarted

theorem ready_before (hq : 1 < cfg.numQueues) {executor : ℕ} (hready : s.ready cfg j executor = true) :
    ∀ (i : ℕ) a, i < j → s.jobs[i]? = some a → a.executor = executor →
      a.stage.isFinished = true := by
  intro i a hij ha hex
  unfold ready EngineConfig.maxWorkers at hready
  rw [if_pos hq, Bool.and_eq_true, decide_eq_true_eq, Nat.lt_one_iff, List.countP_eq_zero] at hready
  have hmem : a ∈ s.jobs.take j := by
    refine List.mem_of_getElem? (i := i) ?_
    rw [List.getElem?_take_of_lt hij]
    exact ha
  have hqueued := List.all_eq_true.mp hready.1 a hmem
  have hactive := hready.2 a (List.mem_of_getElem? ha)
  simp only [hex, ne_eq, not_true_eq_false, decide_false, Bool.false_or, Bool.not_eq_true',
    decide_true, Bool.true_and] at hqueued hactive
  cases hstage : a.stage with
  | queued =>
    rw [hstage] at hqueued
    cases hqueued
  | running results todo =>
    rw [hstage] at hactive
    exact absurd rfl hactive
  | counted results held =>
    rw [hstage] at hactive
    exact absurd rfl hactive
  | finished => rfl

/-- A step of a worker that executes nothing. -/
theorem Ran.ofJob (hr : s.Ran c) {job : Job} {stage : JobStage} (hjob : s.jobs[j]? = some job)
    (hbusy : job.stage.isFinished = false)
    (hbefore : ∀ (i : ℕ) a, i < j → s.jobs[i]? = some a → a.executor = job.executor →
      a.stage.isFinished = true)
    (hjobs : t.jobs = s.jobs.set j { job with stage })
    (hran : Job.ran { job with stage } = job.ran) (hexecuted : t.executedTo c = s.executedTo c) : t.Ran c := by
  refine ⟨?_, ?_⟩
  · rw [hjobs]
    exact hr.order_set hjob hbusy rfl hbefore
  · rw [hjobs, hexecuted, hr.log]
    refine (flatMap_set_same _ hjob ?_).symm
    rw [hran]

/-- While a request to the chunk is executed, no later group with the chunk has begun. -/
theorem Ran.later (hq : 1 < cfg.numQueues) (hr : s.Ran c) (hs : s.Queued cfg c) {job : Job}
    (hjob : s.jobs[j]? = some job) (hbusy : job.stage.isFinished = false) {x : GroupItem}
    (hx : x ∈ job.group) (hc : x.req.chunkId = c) :
    (s.jobs.drop (j + 1)).flatMap (fun job => tags job.handle (onChunk c job.ran)) = [] := by
  rw [List.flatMap_eq_nil_iff]
  intro b hb
  obtain ⟨k, hk⟩ := List.mem_iff_getElem?.mp hb
  rw [List.getElem?_drop] at hk
  have hnil : onChunk c b.ran = [] := by
    refine List.eq_nil_iff_forall_not_mem.mpr fun y hy => ?_
    obtain ⟨hin, hyc⟩ := mem_onChunk.mp hy
    have hsame : job.executor = b.executor := by
      rw [hs.executor _ _ hjob x hx, hs.executor _ _ hk y (b.ran_prefix.subset hin),
        EngineConfig.queueOf_eq hq hc, EngineConfig.queueOf_eq hq hyc]
    cases hstage : b.stage.isQueued with
    | true =>
      unfold Job.ran at hin
      cases hb : b.stage with
      | queued =>
        rw [hb] at hin
        cases hin
      | _ =>
        rw [hb] at hstage
        cases hstage
    | false =>
      have := hr.order j (j + 1 + k) job b (by omega) hjob hk hsame hstage
      rw [hbusy] at this
      cases this
  rw [hnil, tags_nil]

theorem Ran.execute (hq : 1 < cfg.numQueues) (hr : s.Ran c) (hs : s.Queued cfg c)
    (hshape : s.Shape) {job : Job} {results : List (ℕ × IOResult)} {x : GroupItem}
    {todo : List GroupItem} (hjob : s.jobs[j]? = some job)
    (hstage : job.stage = .running results (x :: todo)) (result : IOResult) :
    Ran c { s.setJob j { job with stage := .running (results ++ [(x.idx, result)]) todo } with
      executed := s.executed ++ [((job.handle, x.idx), result)] } := by
  have hbusy : job.stage.isFinished = false := by
    rw [hstage]
    rfl
  obtain ⟨before, hgroup, hidx⟩ := (hshape.job j job hjob).running _ _ hstage
  have hlen : results.length = before.length := by
    rw [← List.length_map (f := Prod.fst), hidx, indices, List.length_map]
  have hx : x ∈ job.group := by
    rw [← hgroup]
    exact List.mem_append_right _ List.mem_cons_self
  have hran : job.ran = before := by
    unfold Job.ran
    rw [hstage]
    change job.group.take results.length = before
    rw [hlen, ← hgroup, List.take_left]
  have hran' : Job.ran { job with stage := .running (results ++ [(x.idx, result)]) todo } =
      before ++ [x] := by
    change job.group.take (results ++ [(x.idx, result)]).length = before ++ [x]
    have hsplit : job.group = (before ++ [x]) ++ todo := by
      rw [← hgroup, List.append_assoc]
      rfl
    rw [hsplit, List.length_append, hlen, List.length_singleton]
    exact List.take_left' (by rw [List.length_append, List.length_singleton])
  obtain ⟨sub, hsub, hown⟩ := hshape.owner j job hjob
  have hsubmitted : (job.handle, x.idx) ∈ s.submittedTo c ↔ x.req.chunkId = c := by
    rw [mem_submittedTo]
    constructor
    · rintro ⟨sub', item, hsub', hitem, hc⟩
      obtain rfl := Option.some.inj (hsub.symm.trans hsub')
      rw [hown x hx] at hitem
      rw [← hc, ← Option.some.inj hitem]
    · exact fun hc => ⟨sub, _, hsub, hown x hx, hc⟩
  refine ⟨hr.order_set hjob hbusy rfl fun i a hij ha hex =>
    hr.order i j a job hij ha hjob hex (by rw [hstage]; rfl), ?_⟩
  change ((s.executed ++ [((job.handle, x.idx), result)]).map Prod.fst).filter
    (fun y => y ∈ s.submittedTo c) = (s.jobs.set j _).flatMap _
  have hlog := hr.log
  unfold executedTo at hlog
  rw [List.map_append, List.filter_append, hlog, flatMap_at _ hjob, flatMap_set _ hjob, hran']
  by_cases hc : x.req.chunkId = c
  · have hlater := hr.later hq hs hjob hbusy hx hc
    rw [hlater, List.append_nil, List.append_nil, onChunk_append, tags_append, hran,
      List.append_assoc]
    simp [hsubmitted, hc, onChunk, tags]
  · rw [onChunk_append, hran]
    simp [hsubmitted, hc, onChunk]

theorem Ran.work (hq : 1 < cfg.numQueues) (hr : s.Ran c) (hs : s.Queued cfg c) (hshape : s.Shape)
    (hw : Work cfg j s t) : t.Ran c := by
  cases hw with
  | @start job hjob hstage hready =>
    refine hr.ofJob hjob (by rw [hstage]; rfl) (ready_before hq hready) rfl ?_ rfl
    unfold Job.ran
    rw [hstage]
    rfl
  | execute hjob hstage lib => exact hr.execute hq hs hshape hjob hstage _
  | @count job results hjob hstage =>
    refine hr.ofJob hjob (by rw [hstage]; rfl) (fun i a hij ha hex =>
      hr.order i j a job hij ha hjob hex (by rw [hstage]; rfl)) rfl ?_ rfl
    obtain ⟨before, hgroup, hidx⟩ := (hshape.job j job hjob).running _ _ hstage
    have hlen : results.length = job.group.length := by
      rw [← hgroup, List.append_nil, ← List.length_map (f := Prod.fst), hidx, indices,
        List.length_map]
    unfold Job.ran
    rw [hstage]
    change job.group = job.group.take results.length
    rw [hlen, List.take_length]
  | @giveBack job results x held hjob hstage =>
    refine hr.ofJob hjob (by rw [hstage]; rfl) (fun i a hij ha hex =>
      hr.order i j a job hij ha hjob hex (by rw [hstage]; rfl)) rfl ?_ rfl
    unfold Job.ran
    rw [hstage]
  | @deliver job results sub hjob hstage hsub =>
    refine hr.ofJob hjob (by rw [hstage]; rfl) (fun i a hij ha hex =>
      hr.order i j a job hij ha hjob hex (by rw [hstage]; rfl)) rfl ?_ ?_
    · unfold Job.ran
      rw [hstage]
    · exact executedTo_congr rfl (submittedTo_congr (map_items_set hsub rfl))

theorem Ran.step (hq : 1 < cfg.numQueues) (hr : s.Ran c) (hs : s.Queued cfg c) (hshape : s.Shape)
    {e : EngineEvent} (ht : EngineStep cfg s e t) : t.Ran c := by
  cases e with
  | submit items => exact hr.submit hshape ht
  | advance h => exact hr.advance (advance_cases ht)
  | work j lib => exact hr.work hq hs hshape (work_cases ht)
  | close =>
    obtain rfl := Option.some.inj ht
    exact ⟨hr.order, hr.log⟩
  | shutdown =>
    obtain ⟨-, rfl⟩ := shutdown_eq ht
    exact ⟨hr.order, hr.log⟩

/-- What was executed of a chunk's requests is the front of what executors have of them. -/
theorem Ran.front (hq : 1 < cfg.numQueues) (hr : s.Ran c) (hs : s.Queued cfg c) :
    s.executedTo c <+: s.jobsTo c := by
  rw [hr.log]
  refine flatMap_isPrefix (fun job _ => ((job.ran_prefix.filter _).map _)) ?_
  rw [List.pairwise_iff_getElem]
  intro i k hi hk hik hne
  have hia := List.getElem?_eq_getElem hi
  have hkb := List.getElem?_eq_getElem hk
  generalize s.jobs[i] = a at hia ⊢
  generalize s.jobs[k] = b at hkb hne
  have hsome : onChunk c b.ran ≠ [] := fun hnil => hne (by rw [hnil, tags_nil])
  obtain ⟨y, hy⟩ := List.exists_mem_of_ne_nil _ hsome
  obtain ⟨hin, hyc⟩ := mem_onChunk.mp hy
  by_cases hex : a.executor = b.executor
  · have hstarted : b.stage.isQueued = false := by
      unfold Job.ran at hin
      cases hb : b.stage with
      | queued =>
        rw [hb] at hin
        cases hin
      | _ => rfl
    have hdone := hr.order i k a b hik hia hkb hex hstarted
    rw [Job.ran_of_finished hdone]
  · have hnil : onChunk c a.group = [] := by
      refine List.eq_nil_iff_forall_not_mem.mpr fun z hz => hex ?_
      obtain ⟨hzin, hzc⟩ := mem_onChunk.mp hz
      rw [hs.executor i a hia z hzin, hs.executor k b hkb y (b.ran_prefix.subset hin),
        EngineConfig.queueOf_eq hq hzc, EngineConfig.queueOf_eq hq hyc]
    have hsub : onChunk c a.ran <+: onChunk c a.group := a.ran_prefix.filter _
    rw [hnil] at hsub ⊢
    rw [List.prefix_nil.mp hsub]

/-- Every call has returned and every job has run. -/
def Quiet (s : EngineState) : Prop :=
  (∀ sub ∈ s.subs, sub.phase = .returned) ∧ ∀ job ∈ s.jobs, job.stage.isFinished = true

theorem Ran.complete (hr : s.Ran c) (hs : s.Queued cfg c) (hshape : s.Shape)
    (hclosed : s.closed = false) (hquiet : s.Quiet) : s.executedTo c = s.submittedTo c := by
  have hjobs : s.executedTo c = s.jobsTo c := by
    rw [hr.log]
    refine List.flatMap_congr fun job hjob => ?_
    rw [Job.ran_of_finished (hquiet.2 job hjob)]
  have hopen : s.isShut (cfg.queueOf c) = false := by
    unfold isShut
    rw [hshape.shut hclosed]
    rfl
  have hrest := hshape.restTo_returned hquiet.1 c
  rw [hjobs, ← hs.unshut hopen, hrest, List.append_nil]

end EngineState

theorem engine_chunkFifo (cfg : EngineConfig) (hq : 1 < cfg.numQueues) (s : EngineState)
    (hrun : Reach (· = EngineState.init cfg)
      (Guarded EngineState.InTurn (EngineStep cfg)) s) (c : ℤ) :
    s.executedTo c <+: s.submittedTo c ∧
      (s.closed = false → s.Quiet → s.executedTo c = s.submittedTo c) := by
  have hinv : s.Shape ∧ s.Queued cfg c ∧ s.Ran c := by
    refine hrun.invariant (P := fun s => s.Shape ∧ s.Queued cfg c ∧ s.Ran c) ?_ ?_
    · rintro s rfl
      exact ⟨EngineState.shape_init cfg, EngineState.queued_init cfg c,
        fun _ _ _ _ _ h => (by cases h), rfl⟩
    · rintro s e t ⟨hshape, hs, hr⟩ ht
      exact ⟨hshape.step ht.2, hs.step hq hshape ht, hr.step hq hs hshape ht.2⟩
  obtain ⟨hshape, hs, hr⟩ := hinv
  exact ⟨(hr.front hq hs).trans hs.front, hr.complete hs hshape⟩

def EngineConfig.twoQueues : EngineConfig where
  numWorkers := 1
  numQueues := 2
  maxInflight := none
  numWorkers_pos := Nat.one_pos
  numQueues_pos := Nat.two_pos
  maxInflight_pos := fun _ h => by cases h

/-- Reads and writes of the chunks 0, 1 and 2, where 0 and 2 share a queue. -/
def sharedBatch : List IOItem :=
  submitMixed [⟨2, 0, 8, 8⟩, ⟨1, 0, 8, 8⟩] [⟨0, 0, 8, 8⟩, ⟨2, 8, 8, 8⟩]

def sharedRun : List EngineEvent :=
  List.replicate 12 (EngineEvent.advance 0) ++ List.replicate 3 (EngineEvent.work 1 fun _ => .ok 8) ++
    List.replicate 4 (EngineEvent.work 0 fun _ => .ok 8)

theorem engine_chunkFifo_shared : ∃ s : EngineState, s.executedTo 2 = [(0, 0), (0, 3)] ∧
    s.executedTo 2 <+: s.submittedTo 2 := by
  have hstart : Reach (· = EngineState.init .twoQueues)
      (Guarded EngineState.InTurn (EngineStep .twoQueues)) (EngineState.init .twoQueues) :=
    .start rfl
  have hsubmit := hstart.next (EngineEvent.submit sharedBatch)
    (And.intro (fun _ h => (by cases h)) rfl)
  have hok : ∀ e ∈ sharedRun, ∀ s : EngineState, s.InTurn e := by
    intro e he s
    simp only [sharedRun, List.mem_append, List.mem_replicate] at he
    obtain (⟨-, rfl⟩ | ⟨-, rfl⟩) | ⟨-, rfl⟩ := he
    · trivial
    · trivial
    · trivial
  have hrun := hsubmit.guarded_foldlM hok rfl
  refine ⟨_, ?_, (engine_chunkFifo .twoQueues (by decide) _ hrun 2).1⟩
  rfl

end Umm
