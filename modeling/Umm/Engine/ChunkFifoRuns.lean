import Umm.Engine.ChunkFifo

/-! Runs of an engine with several queues whose calls come one after another: for each chunk, what
was executed is the front of what was submitted. -/
namespace Umm
open Umm.Lib

namespace EngineState
open Submission

variable {cfg : EngineConfig} {s t : EngineState} {h j : ℕ} {c : ℤ}

/-- The requests to the chunk that executors have taken, in the order they took them. -/
def jobsTo (c : ℤ) (s : EngineState) : List (ℕ × ℕ) :=
  s.jobs.flatMap fun job => tags job.handle (onChunk c job.group)

/-- What the last call has yet to hand out of them. -/
def restTo (c : ℤ) (s : EngineState) : List (ℕ × ℕ) :=
  s.subs.getLast?.elim [] fun sub => tags (s.subs.length - 1) (onChunk c sub.remaining)

structure Queued (cfg : EngineConfig) (c : ℤ) (s : EngineState) : Prop where
  turn : ∀ (h : ℕ) sub, s.subs[h]? = some sub → h + 1 < s.subs.length → sub.phase = .returned
  sorted : ∀ (h : ℕ) sub, s.subs[h]? = some sub → sub.Sorted cfg
  broken : ∀ (h : ℕ) sub, s.subs[h]? = some sub →
    ∀ x ∈ sub.broken, s.isShut (cfg.executorOf (cfg.keyOf x)) = true
  executor : ∀ (j : ℕ) job, s.jobs[j]? = some job →
    ∀ x ∈ job.group, job.executor = cfg.executorOf (cfg.keyOf x)
  unshut : s.isShut (cfg.queueOf c) = false → s.jobsTo c ++ s.restTo c = s.submittedTo c
  front : s.jobsTo c <+: s.submittedTo c

theorem submittedTo_congr (hitems : t.subs.map (·.items) = s.subs.map (·.items)) :
    t.submittedTo c = s.submittedTo c := by
  have hmap : ∀ u : EngineState, u.submittedTo c =
      ((u.subs.map (·.items)).mapIdx fun h items => tags h (onChunk c (asGroup items))).flatten := by
    intro u
    unfold submittedTo
    congr 1
    refine List.ext_getElem? fun i => ?_
    rw [List.getElem?_mapIdx, List.getElem?_mapIdx, List.getElem?_map, Option.map_map]
    rfl
  rw [hmap, hmap, hitems]

theorem map_items_set {sub sub' : Submission} (hsub : s.subs[h]? = some sub)
    (hitems : sub'.items = sub.items) :
    (s.subs.set h sub').map (·.items) = s.subs.map (·.items) := by
  obtain ⟨hlt, rfl⟩ := List.getElem?_eq_some_iff.mp hsub
  refine List.ext_getElem? fun i => ?_
  rw [List.map_set, hitems, List.getElem?_set]
  split_ifs with hi hin
  · subst hi
    rw [List.getElem?_map, hsub, Option.map_some]
  · subst hi
    exact absurd (by rwa [List.length_map]) hin
  · rfl

theorem restTo_last {sub : Submission} (hsub : s.subs[h]? = some sub)
    (hlast : h + 1 = s.subs.length) : s.restTo c = tags h (onChunk c sub.remaining) := by
  have hget : s.subs.getLast? = some sub := by
    rw [List.getLast?_eq_getElem?, ← hlast]
    exact hsub
  unfold restTo
  rw [hget, ← hlast]
  rfl

theorem onChunk_eq_nil_of_open (hq : 1 < cfg.numQueues) {gone : List GroupItem}
    (hopen : s.isShut (cfg.queueOf c) = false)
    (hshut : ∀ x ∈ gone, s.isShut (cfg.executorOf (cfg.keyOf x)) = true) : onChunk c gone = [] := by
  refine List.eq_nil_iff_forall_not_mem.mpr fun x hx => ?_
  obtain ⟨hin, hc⟩ := mem_onChunk.mp hx
  have := hshut x hin
  rw [EngineConfig.queueOf_eq hq hc, hopen] at this
  cases this

theorem onChunk_eq_nil_of_shut (hq : 1 < cfg.numQueues) {gone : List GroupItem} {e : ℕ}
    (hshut : s.isShut (cfg.queueOf c) = true) (hopen : s.isShut e = false)
    (he : ∀ x ∈ gone, e = cfg.executorOf (cfg.keyOf x)) : onChunk c gone = [] := by
  refine List.eq_nil_iff_forall_not_mem.mpr fun x hx => ?_
  obtain ⟨hin, hc⟩ := mem_onChunk.mp hx
  rw [he x hin, EngineConfig.queueOf_eq hq hc, hshut] at hopen
  cases hopen

theorem Queued.advance (hq : 1 < cfg.numQueues) (hs : s.Queued cfg c) (ha : Advance cfg h s t) :
    t.Queued cfg c := by
  obtain ⟨sub, sub', htu⟩ := ha.turned hq c
  have hlt : h < s.subs.length := (List.getElem?_eq_some_iff.mp htu.found).1
  have hlast : h + 1 = s.subs.length := by
    by_contra hne
    exact htu.busy (hs.turn h sub htu.found (by omega))
  have hlen : t.subs.length = s.subs.length := by
    rw [htu.subs, List.length_set]
  have hshut : ∀ e, t.isShut e = s.isShut e := by
    intro e
    unfold isShut
    rw [htu.shut]
  have hsorted := hs.sorted h sub htu.found
  have hsubmitted : t.submittedTo c = s.submittedTo c := by
    refine submittedTo_congr ?_
    rw [htu.subs]
    exact map_items_set htu.found htu.items
  have hrest : s.restTo c = tags h (onChunk c sub.remaining) := restTo_last htu.found hlast
  have hrest' : t.restTo c = tags h (onChunk c sub'.remaining) := by
    refine restTo_last ?_ (by rw [hlen, hlast])
    rw [htu.subs, List.getElem?_set_self hlt]
  have hturn : ∀ (k : ℕ) sub, t.subs[k]? = some sub → k + 1 < t.subs.length →
      sub.phase = .returned := by
    rw [hlen, htu.subs]
    exact forall_set hs.turn fun hk => absurd hk (by omega)
  have hbroken : ∀ (k : ℕ) sub, t.subs[k]? = some sub →
      ∀ x ∈ sub.broken, t.isShut (cfg.executorOf (cfg.keyOf x)) = true := by
    rw [htu.subs]
    refine forall_set (fun k sub hk x hx => (hshut _).trans (hs.broken k sub hk x hx)) ?_
    intro x hx
    rw [hshut]
    rcases htu.broken hsorted x hx with hold | hnew
    · exact hs.broken h sub htu.found x hold
    · exact hnew
  obtain ⟨gone, hgone, ⟨hjobs, hfrom⟩ | ⟨e, hjobs, hopen, he⟩⟩ := htu.moved hsorted
  · have hto : t.jobsTo c = s.jobsTo c := by
      unfold jobsTo
      rw [hjobs]
    refine ⟨hturn, ?_, hbroken, ?_, fun hopen => ?_, ?_⟩
    · rw [htu.subs]
      exact forall_set hs.sorted (htu.sorted hsorted)
    · rw [hjobs]
      exact hs.executor
    · rw [hshut] at hopen
      have hnil := onChunk_eq_nil_of_open hq hopen
        fun x hx => hs.broken h sub htu.found x (hfrom x hx)
      rw [hnil, List.nil_append] at hgone
      rw [hto, hrest', ← hgone, ← hrest, hsubmitted]
      exact hs.unshut hopen
    · rw [hto, hsubmitted]
      exact hs.front
  · have hto : t.jobsTo c = s.jobsTo c ++ tags h (onChunk c gone) := by
      unfold jobsTo
      rw [hjobs, List.flatMap_append, List.flatMap_singleton]
    have hall : s.isShut (cfg.queueOf c) = false →
        t.jobsTo c ++ t.restTo c = t.submittedTo c := by
      intro hopen
      rw [hto, hrest', List.append_assoc, ← tags_append, ← hgone, ← hrest, hsubmitted]
      exact hs.unshut hopen
    refine ⟨hturn, ?_, hbroken, ?_, fun hopen => hall ((hshut _).symm.trans hopen), ?_⟩
    · rw [htu.subs]
      exact forall_set hs.sorted (htu.sorted hsorted)
    · rw [hjobs]
      exact forall_concat hs.executor he
    · cases hq' : s.isShut (cfg.queueOf c) with
      | false =>
        rw [← hall hq']
        exact List.prefix_append _ _
      | true =>
        rw [hto, onChunk_eq_nil_of_shut hq hq' hopen he, tags_nil, List.append_nil, hsubmitted]
        exact hs.front

theorem restTo_handle {sub : Submission} {handle : IOHandle} (hsub : s.subs[h]? = some sub)
    (ht : t.subs = s.subs.set h { sub with handle }) : t.restTo c = s.restTo c := by
  have hlen : t.subs.length = s.subs.length := by
    rw [ht, List.length_set]
  unfold restTo
  rw [List.getLast?_eq_getElem?, List.getLast?_eq_getElem?, hlen, ht, List.getElem?_set]
  split_ifs with hi hin
  · rw [← hi, hsub]
    rfl
  · exact absurd (List.getElem?_eq_some_iff.mp hsub).1 (hi ▸ hin)
  · rfl

theorem Queued.work (hs : s.Queued cfg c) (hw : Work cfg j s t) : t.Queued cfg c := by
  obtain ⟨job, job', hwd⟩ := hw.worked
  have hjobs : t.jobsTo c = s.jobsTo c := by
    unfold jobsTo
    rw [hwd.jobs]
    refine flatMap_set_same _ hwd.found ?_
    rw [hwd.handle, hwd.group]
  have hshut : ∀ e, t.isShut e = s.isShut e := by
    intro e
    unfold isShut
    rw [hwd.shut]
  have hexecutor : ∀ (k : ℕ) job, t.jobs[k]? = some job →
      ∀ x ∈ job.group, job.executor = cfg.executorOf (cfg.keyOf x) := by
    rw [hwd.jobs]
    refine forall_set hs.executor fun x hx => ?_
    rw [hwd.executor]
    exact hs.executor j job hwd.found x (hwd.group ▸ hx)
  have hopen : ∀ (hsub : t.submittedTo c = s.submittedTo c) (hrest : t.restTo c = s.restTo c),
      t.isShut (cfg.queueOf c) = false → t.jobsTo c ++ t.restTo c = t.submittedTo c := by
    intro hsub hrest hopen
    rw [hjobs, hsub, hrest]
    exact hs.unshut ((hshut _).symm.trans hopen)
  rcases hwd.subs with he | ⟨sub, handle, hsub, he⟩
  · have hsubmitted : t.submittedTo c = s.submittedTo c := submittedTo_congr (by rw [he])
    refine ⟨?_, ?_, ?_, hexecutor, hopen hsubmitted ?_, ?_⟩
    · rw [he]
      exact hs.turn
    · rw [he]
      exact hs.sorted
    · rw [he]
      exact fun k sub hk x hx => (hshut _).trans (hs.broken k sub hk x hx)
    · unfold restTo
      rw [he]
    · rw [hjobs, hsubmitted]
      exact hs.front
  · have hsubmitted : t.submittedTo c = s.submittedTo c := by
      refine submittedTo_congr ?_
      rw [he]
      exact map_items_set hsub rfl
    have hphase : job.handle + 1 < s.subs.length → sub.phase = .returned := hs.turn _ sub hsub
    have hsorted : sub.Sorted cfg := hs.sorted _ sub hsub
    refine ⟨?_, ?_, ?_, hexecutor, hopen hsubmitted (restTo_handle hsub he), ?_⟩
    · rw [he, List.length_set]
      exact forall_set hs.turn hphase
    · rw [he]
      exact forall_set hs.sorted ⟨hsorted.keyed, hsorted.nodup, hsorted.rest⟩
    · rw [he]
      exact forall_set (fun k sub hk x hx => (hshut _).trans (hs.broken k sub hk x hx))
        fun x hx => (hshut _).trans (hs.broken _ sub hsub x hx)
    · rw [hjobs, hsubmitted]
      exact hs.front

theorem Shape.restTo_returned (hshape : s.Shape) (hturn : ∀ sub ∈ s.subs, sub.phase = .returned)
    (c : ℤ) : s.restTo c = [] := by
  unfold restTo
  cases hlast : s.subs.getLast? with
  | none => rfl
  | some sub =>
    have hsub : s.subs[s.subs.length - 1]? = some sub := by
      rw [← List.getLast?_eq_getElem?]
      exact hlast
    have hphase := hturn sub (List.mem_of_getElem? hsub)
    have hfull : sub.counted = sub.items.length :=
      (hshape.sub _ sub hsub).full fun permit => by
        rw [hphase]
        exact SubmitPhase.noConfusion
    have hrem : sub.remaining = [] := by
      unfold remaining left
      rw [hphase, hfull, List.drop_eq_nil_of_le]
      · rfl
      · simp [asGroup]
    rw [Option.elim_some, hrem]
    rfl

theorem Queued.submit (hs : s.Queued cfg c) (hshape : s.Shape) {items : List IOItem}
    (hturn : ∀ sub ∈ s.subs, sub.phase = .returned) (ht : s.submit items = some t) :
    t.Queued cfg c := by
  obtain ⟨-, rfl⟩ := submit_eq ht
  have hnone := hshape.restTo_returned hturn c
  have hnew : ∀ u : EngineState, u.subs = s.subs ++ [⟨items, 0, [], .collecting false,
      .init items.length⟩] → u.submittedTo c =
        s.submittedTo c ++ tags s.subs.length (onChunk c (asGroup items)) := by
    intro u hu
    unfold submittedTo
    rw [hu, List.mapIdx_concat, List.flatten_append, List.flatten_singleton]
  have hrest : ∀ u : EngineState, u.subs = s.subs ++ [⟨items, 0, [], .collecting false,
      .init items.length⟩] → u.restTo c = tags s.subs.length (onChunk c (asGroup items)) := by
    intro u hu
    refine restTo_last (by rw [hu, List.getElem?_concat_length]) ?_
    rw [hu, List.length_append, List.length_singleton]
  refine ⟨?_, ?_, ?_, hs.executor, fun hopen => ?_, ?_⟩
  · rw [List.length_append, List.length_singleton]
    refine forall_concat (P := fun k sub => k + 1 < s.subs.length + 1 → sub.phase = .returned)
      (fun k sub hk _ => hturn sub (List.mem_of_getElem? hk)) ?_
    exact fun hk => absurd hk (by omega)
  · exact forall_concat hs.sorted ⟨fun g hg => (by cases hg), List.nodup_nil, fun g hg => by cases hg⟩
  · exact forall_concat hs.broken fun x hx => by cases hx
  · rw [hnew _ rfl, hrest _ rfl]
    have hopen' := hs.unshut hopen
    rw [hnone, List.append_nil] at hopen'
    rw [← hopen']
    rfl
  · rw [hnew _ rfl]
    exact hs.front.trans (List.prefix_append _ _)

theorem queued_init (cfg : EngineConfig) (c : ℤ) : (init cfg).Queued cfg c :=
  ⟨fun _ _ h => (by cases h), fun _ _ h => (by cases h), fun _ _ h => (by cases h),
    fun _ _ h => (by cases h), fun _ => rfl, List.prefix_rfl⟩

theorem Queued.step (hq : 1 < cfg.numQueues) (hs : s.Queued cfg c) (hshape : s.Shape)
    {e : EngineEvent} (ht : Guarded InTurn (EngineStep cfg) s e t) : t.Queued cfg c := by
  obtain ⟨hturn, ht⟩ := ht
  cases e with
  | submit items => exact hs.submit hshape hturn ht
  | advance h => exact hs.advance hq (advance_cases ht)
  | work j lib => exact hs.work (work_cases ht)
  | close =>
    obtain rfl := Option.some.inj ht
    exact ⟨hs.turn, hs.sorted, hs.broken, hs.executor, hs.unshut, hs.front⟩
  | shutdown =>
    obtain ⟨-, rfl⟩ := shutdown_eq ht
    have hmono : ∀ e, s.isShut e = true →
        isShut e { s with shut := s.shut + 1 } = true := by
      intro e he
      have := of_decide_eq_true he
      exact decide_eq_true (Nat.lt_succ_of_lt this)
    refine ⟨hs.turn, hs.sorted, fun h sub hsub x hx => hmono _ (hs.broken h sub hsub x hx),
      hs.executor, fun hopen => hs.unshut ?_, hs.front⟩
    rw [Bool.eq_false_iff]
    intro he
    rw [hmono _ he] at hopen
    cases hopen

end EngineState

end Umm
