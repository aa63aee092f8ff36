import Umm.Engine.Shape

/-! With several queues the requests of a chunk are executed in the order they were submitted in:
through the regrouping of each batch, the queue the chunk shares with others, and its one worker. -/
namespace Umm
open Umm.Lib

/-- The requests of a batch with their indices. -/
def asGroup (items : List IOItem) : List GroupItem :=
  items.mapIdx fun i item => ⟨i, item.1, item.2⟩

def onChunk (c : ℤ) (group : List GroupItem) : List GroupItem :=
  group.filter fun x => x.req.chunkId = c

def tags (h : ℕ) (group : List GroupItem) : List (ℕ × ℕ) :=
  group.map fun x => (h, x.idx)

/-- The requests to the chunk, in the order of the calls and of the batches. -/
def EngineState.submittedTo (c : ℤ) (s : EngineState) : List (ℕ × ℕ) :=
  (s.subs.mapIdx fun h sub => tags h (onChunk c (asGroup sub.items))).flatten

/-- The requests to the chunk, in the order they were executed in. -/
def EngineState.executedTo (c : ℤ) (s : EngineState) : List (ℕ × ℕ) :=
  (s.executed.map Prod.fst).filter fun x => x ∈ s.submittedTo c

/-- A call of `_submit` is made when the earlier ones have returned. -/
def EngineState.InTurn (s : EngineState) : EngineEvent → Prop
  | .submit _ => ∀ sub ∈ s.subs, sub.phase = .returned
  | _ => True

def EngineConfig.keyOf (cfg : EngineConfig) (x : GroupItem) : ℕ :=
  cfg.key x.idx x.req

/-- The executor of the chunk's queue. -/
def EngineConfig.queueOf (cfg : EngineConfig) (c : ℤ) : ℕ :=
  cfg.executorOf (c % cfg.numQueues).toNat

section Lists

variable {c : ℤ} {h : ℕ}

@[simp] theorem onChunk_nil : onChunk c [] = [] := rfl

@[simp] theorem onChunk_append (group group' : List GroupItem) :
    onChunk c (group ++ group') = onChunk c group ++ onChunk c group' :=
  List.filter_append _ _

theorem onChunk_cons (x : GroupItem) (group : List GroupItem) :
    onChunk c (x :: group) = onChunk c [x] ++ onChunk c group := by
  rw [← onChunk_append, List.singleton_append]

@[simp] theorem tags_nil : tags h [] = [] := rfl

@[simp] theorem tags_append (group group' : List GroupItem) :
    tags h (group ++ group') = tags h group ++ tags h group' :=
  List.map_append

theorem mem_onChunk {x : GroupItem} {group : List GroupItem} :
    x ∈ onChunk c group ↔ x ∈ group ∧ x.req.chunkId = c := by
  simp [onChunk]

theorem getElem?_asGroup (items : List IOItem) (i : ℕ) :
    (asGroup items)[i]? = items[i]?.map fun item => ⟨i, item.1, item.2⟩ := by
  simp [asGroup]

theorem mem_asGroup {items : List IOItem} {x : GroupItem} :
    x ∈ asGroup items ↔ items[x.idx]? = some (x.req, x.isRead) := by
  rw [List.mem_iff_getElem?]
  simp only [getElem?_asGroup, Option.map_eq_some_iff]
  constructor
  · rintro ⟨i, item, hitem, rfl⟩
    exact hitem
  · intro hx
    exact ⟨x.idx, _, hx, rfl⟩

theorem mem_submittedTo {s : EngineState} {x : ℕ × ℕ} :
    x ∈ s.submittedTo c ↔ ∃ sub item, s.subs[x.1]? = some sub ∧ sub.items[x.2]? = some item ∧
      item.1.chunkId = c := by
  unfold EngineState.submittedTo
  rw [List.mem_flatten]
  constructor
  · rintro ⟨l, hl, hx⟩
    obtain ⟨k, hk⟩ := List.mem_iff_getElem?.mp hl
    rw [List.getElem?_mapIdx] at hk
    obtain ⟨sub, hsub, rfl⟩ := Option.map_eq_some_iff.mp hk
    obtain ⟨y, hy, rfl⟩ := List.mem_map.mp hx
    obtain ⟨hin, hc⟩ := mem_onChunk.mp hy
    exact ⟨sub, _, hsub, mem_asGroup.mp hin, hc⟩
  · rintro ⟨sub, item, hsub, hitem, hc⟩
    refine ⟨tags x.1 (onChunk c (asGroup sub.items)), ?_, ?_⟩
    · refine List.mem_iff_getElem?.mpr ⟨x.1, ?_⟩
      rw [List.getElem?_mapIdx, hsub]
      rfl
    · refine List.mem_map.mpr ⟨⟨x.2, item.1, item.2⟩, mem_onChunk.mpr ⟨mem_asGroup.mpr hitem, hc⟩, rfl⟩

end Lists

namespace Submission

variable {cfg : EngineConfig} {sub : Submission}

/-- The groups the call has yet to hand out. -/
def rest (sub : Submission) : Groups :=
  match sub.phase with
  | .dispatching rest => rest
  | .failing _ _ rest => rest
  | _ => []

/-- The group the failure path is in. -/
def broken (sub : Submission) : List GroupItem :=
  match sub.phase with
  | .failing _ group _ => group
  | _ => []

theorem rest_dispatching {rest : Groups} (hphase : sub.phase = .dispatching rest) :
    sub.rest = rest := by
  unfold Submission.rest
  rw [hphase]

theorem rest_failing {undo : Undo} {group : List GroupItem} {rest : Groups}
    (hphase : sub.phase = .failing undo group rest) : sub.rest = rest := by
  unfold Submission.rest
  rw [hphase]

theorem broken_failing {undo : Undo} {group : List GroupItem} {rest : Groups}
    (hphase : sub.phase = .failing undo group rest) : sub.broken = group := by
  unfold broken
  rw [hphase]

/-- The requests of the call no executor has, in the order it hands them out. -/
def remaining (sub : Submission) : List GroupItem :=
  sub.left (fun _ => false) ++ (asGroup sub.items).drop sub.counted

structure Sorted (cfg : EngineConfig) (sub : Submission) : Prop where
  keyed : Keyed cfg.keyOf sub.groups
  nodup : (sub.groups.map Prod.fst).Nodup
  rest : Keyed cfg.keyOf sub.rest

theorem sorted_resume (hs : sub.Sorted cfg) {group : List GroupItem} {rest : Groups}
    (hrest : Keyed cfg.keyOf rest) (handle : IOHandle) :
    Sorted cfg { sub.resume group rest with handle } := by
  cases group with
  | nil => exact ⟨hs.keyed, hs.nodup, hrest⟩
  | cons x group => exact ⟨hs.keyed, hs.nodup, hrest⟩

theorem sorted_collect (hs : sub.Sorted cfg) (item : IOItem) : (sub.collect cfg item).Sorted cfg :=
  ⟨hs.keyed.addTo ⟨sub.counted, item.1, item.2⟩, (keys_addTo _ _ hs.nodup).1,
    fun g hg => by cases hg⟩

theorem remaining_resume (group : List GroupItem) (rest : Groups) (sub : Submission)
    (handle : IOHandle) : remaining { sub.resume group rest with handle } =
      group ++ grouped rest ++ (asGroup sub.items).drop sub.counted := by
  cases group with
  | nil => rfl
  | cons x group => rfl

theorem broken_resume (group : List GroupItem) (rest : Groups) (sub : Submission)
    (handle : IOHandle) : broken { sub.resume group rest with handle } = group := by
  cases group with
  | nil => rfl
  | cons x group => rfl

/-- The request that is counted goes to the end of what its chunk has in the groups. -/
theorem remaining_collect {c : ℤ} {item : IOItem} (hq : 1 < cfg.numQueues) (hs : sub.Sorted cfg)
    (hphase : sub.phase = .collecting true) (hitem : sub.items[sub.counted]? = some item) :
    onChunk c (sub.collect cfg item).remaining = onChunk c sub.remaining := by
  have hkey : ∀ y : GroupItem, decide (y.req.chunkId = c) = true →
      decide (item.1.chunkId = c) = true →
      cfg.keyOf y = cfg.keyOf ⟨sub.counted, item.1, item.2⟩ := by
    intro y hy hx
    unfold EngineConfig.keyOf EngineConfig.key
    rw [if_pos hq, if_pos hq, of_decide_eq_true hy, of_decide_eq_true hx]
  have hadd := filter_grouped_addTo hs.keyed (fun x => decide (x.req.chunkId = c))
    ⟨sub.counted, item.1, item.2⟩ hkey hs.nodup
  have hdrop : (asGroup sub.items).drop sub.counted =
      ⟨sub.counted, item.1, item.2⟩ :: (asGroup sub.items).drop (sub.counted + 1) := by
    rw [List.drop_eq_getElem?_toList_append, getElem?_asGroup, hitem]
    rfl
  unfold remaining
  rw [onChunk_append, onChunk_append, left_collecting hphase, hdrop]
  change onChunk c (grouped (addTo _ _ _)) ++ onChunk c (List.drop (sub.counted + 1) _) = _
  rw [show onChunk c (grouped (addTo (cfg.key sub.counted item.1) _ sub.groups)) = _ from hadd,
    List.append_assoc]
  congr 1
  rw [onChunk_cons]
  rfl

end Submission

namespace EngineConfig

variable {cfg : EngineConfig} {c : ℤ} {x : GroupItem}

theorem queueOf_eq (hq : 1 < cfg.numQueues) (hx : x.req.chunkId = c) :
    cfg.executorOf (cfg.keyOf x) = cfg.queueOf c := by
  unfold queueOf keyOf key
  rw [if_pos hq, hx]

end EngineConfig

namespace EngineState
open Submission

variable {cfg : EngineConfig} {s t : EngineState} {h j : ℕ} {c : ℤ}

/-- What a step of a call does with its requests to a chunk: nothing, or it hands them to their
executor, or it drops them where the executor is shut down. -/
structure Turned (cfg : EngineConfig) (c : ℤ) (h : ℕ) (s t : EngineState)
    (sub sub' : Submission) : Prop where
  found : s.subs[h]? = some sub
  busy : sub.phase ≠ .returned
  subs : t.subs = s.subs.set h sub'
  items : sub'.items = sub.items
  shut : t.shut = s.shut
  sorted : sub.Sorted cfg → sub'.Sorted cfg
  broken : sub.Sorted cfg → ∀ x ∈ sub'.broken,
    x ∈ sub.broken ∨ s.isShut (cfg.executorOf (cfg.keyOf x)) = true
  moved : sub.Sorted cfg → ∃ gone,
    onChunk c sub.remaining = onChunk c gone ++ onChunk c sub'.remaining ∧
      ((t.jobs = s.jobs ∧ ∀ x ∈ gone, x ∈ sub.broken) ∨
        ∃ e, t.jobs = s.jobs ++ [⟨h, e, gone, .queued⟩] ∧ s.isShut e = false ∧
          ∀ x ∈ gone, e = cfg.executorOf (cfg.keyOf x))

theorem turned_phase {sub : Submission} {phase : SubmitPhase} (hsub : s.subs[h]? = some sub)
    (hbusy : sub.phase ≠ .returned) (hsubs : t.subs = s.subs.set h { sub with phase })
    (hshut : t.shut = s.shut) (hjobs : t.jobs = s.jobs)
    (hsorted : sub.Sorted cfg → Sorted cfg { sub with phase })
    (hbroken : ∀ x ∈ broken { sub with phase }, x ∈ sub.broken)
    (hleft : left (fun _ => false) { sub with phase } = sub.left fun _ => false) :
    Turned cfg c h s t sub { sub with phase } := by
  refine ⟨hsub, hbusy, hsubs, rfl, hshut, hsorted, fun _ x hx => .inl (hbroken x hx),
    fun _ => ⟨[], ?_, .inl ⟨hjobs, fun x hx => by cases hx⟩⟩⟩
  rw [remaining, remaining, hleft]
  rfl

/-- The parts of the failure path that leave the group as it is. -/
theorem turned_failing {sub : Submission} {undo undo' : Undo} {group : List GroupItem}
    {rest : Groups} (hsub : s.subs[h]? = some sub) (hphase : sub.phase = .failing undo group rest)
    (hsubs : t.subs = s.subs.set h { sub with phase := .failing undo' group rest })
    (hshut : t.shut = s.shut) (hjobs : t.jobs = s.jobs) :
    Turned cfg c h s t sub { sub with phase := .failing undo' group rest } := by
  refine turned_phase hsub (hphase.trans_ne nofun) hsubs hshut hjobs (fun hs => ?_)
    (fun x hx => ?_) ?_
  · exact ⟨hs.keyed, hs.nodup, rest_failing hphase ▸ hs.rest⟩
  · rw [broken_failing hphase]
    exact hx
  · rw [left_failing hphase]
    rfl

theorem Advance.turned (hq : 1 < cfg.numQueues) (c : ℤ) (ha : Advance cfg h s t) :
    ∃ sub sub', Turned cfg c h s t sub sub' := by
  cases ha with
  | @dispatch sub permit hsub hphase hitem =>
    exact ⟨sub, _, turned_phase hsub (hphase.trans_ne nofun) rfl rfl rfl
      (fun hs => ⟨hs.keyed, hs.nodup, hs.keyed⟩) (fun x hx => by cases hx)
      (left_collecting hphase _).symm⟩
  | @acquire sub item t hsub hphase hitem ht =>
    obtain ⟨-, rfl⟩ := acquire_eq ht
    exact ⟨sub, _, turned_phase hsub (hphase.trans_ne nofun) rfl rfl rfl
      (fun hs => ⟨hs.keyed, hs.nodup, fun g hg => by cases hg⟩) (fun x hx => by cases hx)
      (left_collecting hphase _).symm⟩
  | @count sub item hsub hphase hitem =>
    refine ⟨sub, _, hsub, hphase.trans_ne nofun, rfl, rfl, rfl, fun hs => sorted_collect hs item,
      fun _ x hx => (by cases hx), fun hs => ⟨[], ?_, .inl ⟨rfl, fun x hx => by cases hx⟩⟩⟩
    exact (remaining_collect hq hs hphase hitem).symm
  | @hand sub key group rest hsub hphase hopen =>
    have hrest := rest_dispatching hphase
    refine ⟨sub, _, hsub, hphase.trans_ne nofun, rfl, rfl, rfl, fun hs => ?_,
      fun _ x hx => (by cases hx), fun hs => ?_⟩
    · exact ⟨hs.keyed, hs.nodup, fun g hg => hs.rest g (hrest ▸ List.mem_cons_of_mem _ hg)⟩
    · refine ⟨group, ?_, .inr ⟨cfg.executorOf key, rfl, hopen, fun x hx => ?_⟩⟩
      · rw [remaining, left_dispatching hphase, grouped_cons, List.append_assoc, onChunk_append]
        rfl
      · rw [hs.rest (key, group) (hrest ▸ List.mem_cons_self) x hx]
  | @refuse sub key group rest hsub hphase hshut =>
    have hrest := rest_dispatching hphase
    refine ⟨sub, _, hsub, hphase.trans_ne nofun, rfl, items_resume _ _, rfl, fun hs => ?_,
      fun hs x hx => .inr ?_, fun hs => ⟨[], ?_, .inl ⟨rfl, fun x hx => by cases hx⟩⟩⟩
    · exact sorted_resume hs (fun g hg => hs.rest g (hrest ▸ List.mem_cons_of_mem _ hg)) _
    · have hx' : x ∈ group := broken_resume group rest sub (sub.resume group rest).handle ▸ hx
      rw [hs.rest (key, group) (hrest ▸ List.mem_cons_self) x hx']
      exact hshut
    · have hrem := remaining_resume group rest sub (sub.resume group rest).handle
      rw [show (sub.resume group rest).remaining = _ from hrem, remaining,
        left_dispatching hphase, grouped_cons]
      rfl
  | @giveBack sub x group rest hsub hphase =>
    exact ⟨sub, _, turned_failing hsub hphase rfl rfl rfl⟩
  | @uncount sub x group rest hsub hphase =>
    exact ⟨sub, _, turned_failing hsub hphase rfl rfl rfl⟩
  | @fail sub x group rest hsub hphase =>
    have hbroken := broken_failing hphase
    refine ⟨sub, _, hsub, hphase.trans_ne nofun, rfl, items_resume group rest, rfl,
      fun hs => sorted_resume hs (rest_failing hphase ▸ hs.rest) _, fun _ y hy => .inl ?_,
      fun hs => ⟨[x], ?_, .inl ⟨rfl, fun y hy => ?_⟩⟩⟩
    · rw [broken_resume] at hy
      rw [hbroken]
      exact List.mem_cons_of_mem _ hy
    · rw [remaining_resume, remaining, left_failing hphase, ← onChunk_append]
      rfl
    · rw [hbroken, List.mem_singleton.mp hy]
      exact List.mem_cons_self
  | @failed sub undo rest hsub hphase =>
    refine ⟨sub, _, turned_phase hsub (hphase.trans_ne nofun) rfl rfl rfl
      (fun hs => ⟨hs.keyed, hs.nodup, rest_failing hphase ▸ hs.rest⟩) (fun y hy => by cases hy) ?_⟩
    rw [left_failing hphase]
    rfl
  | @finish sub hsub hphase =>
    exact ⟨sub, _, turned_phase hsub (hphase.trans_ne nofun) rfl rfl rfl
      (fun hs => ⟨hs.keyed, hs.nodup, fun g hg => by cases hg⟩) (fun y hy => by cases hy)
      (left_dispatching hphase _).symm⟩

end EngineState

end Umm
