import Umm.Engine.Steps
import Umm.Lib.Tally

/-! Where the requests of the engine stand: which hold a permit, which are in flight, which have
no result yet. A step moves requests from one of these to another. -/
namespace Umm
open Umm.Lib

namespace Submission

def indices (group : List GroupItem) : List ℕ :=
  group.map (·.idx)

@[simp] theorem indices_nil : indices [] = [] := rfl

@[simp] theorem indices_cons (x : GroupItem) (group : List GroupItem) :
    indices (x :: group) = x.idx :: indices group := rfl

@[simp] theorem indices_append (group group' : List GroupItem) :
    indices (group ++ group') = indices group ++ indices group' :=
  List.map_append

/-- The requests no executor has taken; where the failure path has passed its point, without the
first one of its group. -/
def left (passed : Undo → Bool) (sub : Submission) : List GroupItem :=
  match sub.phase with
  | .collecting _ => grouped sub.groups
  | .dispatching rest => grouped rest
  | .failing undo group rest => (if passed undo then group.tail else group) ++ grouped rest
  | .returned => []

/-- The permits the call has asked for and got. -/
def taken (sub : Submission) : ℕ :=
  match sub.phase with
  | .collecting true => sub.counted + 1
  | _ => sub.counted

def ahead (sub : Submission) : List ℕ :=
  match sub.phase with
  | .collecting true => [sub.counted]
  | _ => []

end Submission

namespace Job

def unreleased (job : Job) : List GroupItem :=
  match job.stage with
  | .queued => job.group
  | .running _ _ => job.group
  | .counted _ held => held
  | .finished => []

def inflight (job : Job) : List GroupItem :=
  match job.stage with
  | .queued => job.group
  | .running _ _ => job.group
  | .counted _ _ => []
  | .finished => []

def unstored (job : Job) : List GroupItem :=
  match job.stage with
  | .finished => []
  | _ => job.group

end Job

structure View where
  sub : Submission → List ℕ
  job : Job → List ℕ

namespace View
open Submission

def unreleased : View where
  sub sub := indices (sub.left (· ≠ .release)) ++ sub.ahead
  job job := indices job.unreleased

def inflight : View where
  sub sub := indices (sub.left (· = .store))
  job job := indices job.inflight

def unstored : View where
  sub sub := indices (sub.left fun _ => false)
  job job := indices job.unstored

def taken : View where
  sub sub := List.range sub.taken
  job _ := []

def entered : View where
  sub sub := List.range sub.counted
  job _ := []

def tag (h : ℕ) (l : List ℕ) : Multiset (ℕ × ℕ) :=
  (l : Multiset ℕ).map (Prod.mk h)

@[simp] theorem tag_nil (h : ℕ) : tag h [] = 0 := rfl

theorem tag_append (h : ℕ) (l l' : List ℕ) : tag h (l ++ l') = tag h l + tag h l' := by
  rw [tag, ← Multiset.coe_add, Multiset.map_add]
  rfl

theorem tag_perm (h : ℕ) {l l' : List ℕ} (hp : l.Perm l') : tag h l = tag h l' := by
  rw [tag, tag, Multiset.coe_eq_coe.mpr hp]

theorem card_tag (h : ℕ) (l : List ℕ) : (tag h l).card = l.length := by
  rw [tag, Multiset.card_map, Multiset.coe_card]

theorem count_tag (h : ℕ) (l : List ℕ) (x : ℕ × ℕ) :
    (tag h l).count x = if x.1 = h then l.count x.2 else 0 := by
  obtain ⟨k, i⟩ := x
  dsimp only
  split_ifs with hk
  · subst hk
    rw [tag, Multiset.count_map_eq_count' _ _ (Prod.mk_right_injective k), Multiset.coe_count]
  · rw [tag, Multiset.count_eq_zero]
    intro hin
    obtain ⟨i', -, he⟩ := Multiset.mem_map.mp hin
    exact hk (Prod.mk.inj he).1.symm

/-- The requests of all handles that are in the view. -/
def held (v : View) (subs : List Submission) (jobs : List Job) : Multiset (ℕ × ℕ) :=
  tally (fun h sub => tag h (v.sub sub)) subs + tally (fun _ job => tag job.handle (v.job job)) jobs

variable {v : View} {subs : List Submission} {jobs : List Job} {h j : ℕ}

theorem held_setSub {sub sub' : Submission} {into out : List ℕ} (hsub : subs[h]? = some sub)
    (hperm : (v.sub sub' ++ out).Perm (v.sub sub ++ into)) :
    v.held (subs.set h sub') jobs + tag h out = v.held subs jobs + tag h into := by
  have hset := tally_set (fun h sub => tag h (v.sub sub)) hsub sub'
  have htag := tag_perm h hperm
  rw [tag_append, tag_append] at htag
  apply add_right_cancel (b := tag h (v.sub sub))
  calc v.held (subs.set h sub') jobs + tag h out + tag h (v.sub sub)
      = (tally (fun h sub => tag h (v.sub sub)) (subs.set h sub') + tag h (v.sub sub)) +
          tally (fun _ job => tag job.handle (v.job job)) jobs + tag h out := by
        rw [held]
        abel
    _ = tally (fun h sub => tag h (v.sub sub)) subs +
          tally (fun _ job => tag job.handle (v.job job)) jobs + (tag h (v.sub sub') + tag h out) := by
        rw [hset]
        abel
    _ = v.held subs jobs + tag h into + tag h (v.sub sub) := by
        rw [htag, held]
        abel

theorem held_setJob {job job' : Job} {into out : List ℕ} (hjob : jobs[j]? = some job)
    (hhandle : job'.handle = job.handle)
    (hperm : (v.job job' ++ out).Perm (v.job job ++ into)) :
    v.held subs (jobs.set j job') + tag job.handle out =
      v.held subs jobs + tag job.handle into := by
  have hset := tally_set (fun _ job => tag job.handle (v.job job)) hjob job'
  have htag := tag_perm job.handle hperm
  rw [tag_append, tag_append] at htag
  rw [hhandle] at hset
  apply add_right_cancel (b := tag job.handle (v.job job))
  calc v.held subs (jobs.set j job') + tag job.handle out + tag job.handle (v.job job)
      = (tally (fun _ job => tag job.handle (v.job job)) (jobs.set j job') +
          tag job.handle (v.job job)) + tally (fun h sub => tag h (v.sub sub)) subs +
          tag job.handle out := by
        rw [held]
        abel
    _ = tally (fun h sub => tag h (v.sub sub)) subs +
          tally (fun _ job => tag job.handle (v.job job)) jobs +
          (tag job.handle (v.job job') + tag job.handle out) := by
        rw [hset]
        abel
    _ = v.held subs jobs + tag job.handle into + tag job.handle (v.job job) := by
        rw [htag, held]
        abel

theorem held_addJob (job : Job) :
    v.held subs (jobs ++ [job]) = v.held subs jobs + tag job.handle (v.job job) := by
  rw [held, held, tally_concat, add_assoc]

theorem held_addSub {sub : Submission} (hnone : v.sub sub = []) :
    v.held (subs ++ [sub]) jobs = v.held subs jobs := by
  rw [held, held, tally_concat, hnone, tag_nil, add_zero]

theorem held_growSub {sub sub' : Submission} {into : List ℕ} (hsub : subs[h]? = some sub)
    (hperm : (v.sub sub').Perm (v.sub sub ++ into)) :
    v.held (subs.set h sub') jobs = v.held subs jobs + tag h into := by
  have hset : v.held (subs.set h sub') jobs + tag h [] = v.held subs jobs + tag h into :=
    held_setSub hsub (by rwa [List.append_nil])
  rwa [tag_nil, add_zero] at hset

theorem held_shrinkSub {sub sub' : Submission} {out : List ℕ} (hsub : subs[h]? = some sub)
    (hperm : (v.sub sub' ++ out).Perm (v.sub sub)) :
    v.held (subs.set h sub') jobs + tag h out = v.held subs jobs := by
  have hset : v.held (subs.set h sub') jobs + tag h out = v.held subs jobs + tag h [] :=
    held_setSub hsub (by rwa [List.append_nil])
  rwa [tag_nil, add_zero] at hset

theorem held_shrinkJob {job job' : Job} {out : List ℕ} (hjob : jobs[j]? = some job)
    (hhandle : job'.handle = job.handle) (hperm : (v.job job' ++ out).Perm (v.job job)) :
    v.held subs (jobs.set j job') + tag job.handle out = v.held subs jobs := by
  have hset : v.held subs (jobs.set j job') + tag job.handle out =
      v.held subs jobs + tag job.handle [] :=
    held_setJob hjob hhandle (by rwa [List.append_nil])
  rwa [tag_nil, add_zero] at hset

end View

/-- A call of `_submit` in the middle of its loops. -/
structure Submission.WF (sub : Submission) : Prop where
  counted_le : sub.counted ≤ sub.items.length
  permit : sub.phase = .collecting true → sub.counted < sub.items.length
  full : (∀ permit, sub.phase ≠ .collecting permit) → sub.counted = sub.items.length
  own : ∀ x ∈ sub.left fun _ => false, sub.items[x.idx]? = some (x.req, x.isRead)

/-- What a job knows of its requests. -/
structure Job.WF (job : Job) : Prop where
  running : ∀ results todo, job.stage = .running results todo →
    ∃ before, before ++ todo = job.group ∧ results.map Prod.fst = Submission.indices before
  counted : ∀ results held, job.stage = .counted results held →
    results.map Prod.fst = Submission.indices job.group

namespace Submission

variable {sub : Submission}

theorem left_collecting {permit : Bool} (hphase : sub.phase = .collecting permit)
    (passed : Undo → Bool) : sub.left passed = grouped sub.groups := by
  unfold left
  rw [hphase]

theorem left_dispatching {rest : Groups} (hphase : sub.phase = .dispatching rest)
    (passed : Undo → Bool) : sub.left passed = grouped rest := by
  unfold left
  rw [hphase]

theorem left_failing {undo : Undo} {group : List GroupItem} {rest : Groups}
    (hphase : sub.phase = .failing undo group rest) (passed : Undo → Bool) :
    sub.left passed = (if passed undo then group.tail else group) ++ grouped rest := by
  unfold left
  rw [hphase]

theorem left_resume (group : List GroupItem) (rest : Groups) (sub : Submission)
    {passed : Undo → Bool} (hp : passed .release = false) :
    (sub.resume group rest).left passed = group ++ grouped rest := by
  unfold resume
  cases group with
  | nil => rfl
  | cons x group =>
    change (if passed .release then _ else _) ++ grouped rest = _
    rw [hp]
    rfl

theorem ahead_eq_nil (hphase : sub.phase ≠ .collecting true) : sub.ahead = [] := by
  unfold ahead
  split
  next h => exact absurd h hphase
  next => rfl

theorem taken_eq_counted (hphase : sub.phase ≠ .collecting true) : sub.taken = sub.counted := by
  unfold taken
  split
  next h => exact absurd h hphase
  next => rfl

theorem resume_ne_collecting (group : List GroupItem) (rest : Groups) (permit : Bool) :
    (sub.resume group rest).phase ≠ .collecting permit := by
  cases group <;> exact fun h => by cases h

@[simp] theorem counted_resume (group : List GroupItem) (rest : Groups) :
    (sub.resume group rest).counted = sub.counted := by
  cases group <;> rfl

@[simp] theorem items_resume (group : List GroupItem) (rest : Groups) :
    (sub.resume group rest).items = sub.items := by
  cases group <;> rfl

@[simp] theorem handle_resume (group : List GroupItem) (rest : Groups) :
    (sub.resume group rest).handle = sub.handle := by
  cases group <;> rfl

@[simp] theorem groups_resume (group : List GroupItem) (rest : Groups) :
    (sub.resume group rest).groups = sub.groups := by
  cases group <;> rfl

end Submission

end Umm
