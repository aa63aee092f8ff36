import Umm.Engine.Engine

/-! How the end of an I/O is signalled: any number of threads in `IOHandle._set_many`,
`add_done_callback`, `wait` and `ConcurrentIOEngine.wait_any`. A step is a section under the lock of
a handle, the start of a callback or its end. -/
namespace Umm
open Umm.Lib

/-- A function that was given to `add_done_callback`. With `event` it is the one `wait_any` gives,
which sets the event of that call. -/
structure Callback where
  id : ℕ
  event : Option ℕ
  deriving DecidableEq, Repr

/-- A handle with its condition: `waiters` are the calls that `notify_all` has not reached. The last
four fields are history: what was given to `add_done_callback`, what was called, what of it raised
past `except Exception`, and what `_set_many` then left out. -/
structure HandleState extends IOHandle where
  callbacks : List Callback
  waiters : List ℕ
  registered : List Callback
  ran : List Callback
  raised : List Callback
  skipped : List Callback
  deriving Repr

namespace HandleState

def init (n : ℕ) : HandleState :=
  ⟨.init n, [], [], [], [], [], []⟩

/-- The part of `_set_many` under the lock. -/
def store (pairs : List (ℕ × IOResult)) (x : HandleState) : HandleState :=
  { x with toIOHandle := x.toIOHandle.setMany pairs }

def notifyAll (x : HandleState) : HandleState :=
  { x with waiters := [] }

def register (cb : Callback) (x : HandleState) : HandleState :=
  { x with registered := x.registered ++ [cb] }

def keep (cb : Callback) (x : HandleState) : HandleState :=
  { x with callbacks := x.callbacks ++ [cb] }

def call (cb : Callback) (x : HandleState) : HandleState :=
  { x with ran := x.ran ++ [cb] }

def skip (cb : Callback) (rest : List Callback) (x : HandleState) : HandleState :=
  { x with raised := x.raised ++ [cb], skipped := x.skipped ++ rest }

def block (t : ℕ) (x : HandleState) : HandleState :=
  { x with waiters := x.waiters ++ [t] }

def unblock (t : ℕ) (x : HandleState) : HandleState :=
  { x with waiters := x.waiters.filter (· ≠ t) }

end HandleState

/-- What the threads share: `event` is the event that the call of `wait_any` made for itself. -/
structure Shared where
  handle : ℕ → HandleState
  event : ℕ → Bool
  nextId : ℕ

namespace Shared

def init (sizes : ℕ → ℕ) : Shared where
  handle h := .init (sizes h)
  event _ := false
  nextId := 0

def set (h : ℕ) (x : HandleState) (s : Shared) : Shared :=
  { s with handle := Function.update s.handle h x }

def setEvent (t : ℕ) (value : Bool) (s : Shared) : Shared :=
  { s with event := Function.update s.event t value }

/-- The call of a callback; only that of `wait_any` does something here. -/
def runCallback (h : ℕ) (cb : Callback) (s : Shared) : Shared :=
  match cb.event with
  | some t => (s.set h ((s.handle h).call cb)).setEvent t true
  | none => s.set h ((s.handle h).call cb)

/-- `add_done_callback` with a new function: the caller goes on with `kept`, or has to call it. -/
def addDoneCallback {β : Type} (h : ℕ) (event : Option ℕ) (kept : β) (now : Callback → β)
    (s : Shared) : β × Shared :=
  let cb : Callback := ⟨s.nextId, event⟩
  let x := (s.handle h).register cb
  let s := { s with nextId := s.nextId + 1 }
  if 0 < x.remaining then (kept, s.set h (x.keep cb)) else (now cb, s.set h x)

end Shared

inductive AnyStage
  | register (i : ℕ)
  | calling (i h : ℕ) (cb : Callback)
  | check (i : ℕ)
  | waiting
  | clear
  | returned (h : ℕ)
  | timedOut
  deriving DecidableEq, Repr

/-- Where a call is. `timed` says that it was given a timeout. -/
inductive CallPhase
  | setMany (h : ℕ) (pairs : List (ℕ × IOResult))
  | notify (h : ℕ) (callbacks : List Callback)
  | inCallback (h : ℕ) (cb : Callback) (callbacks : List Callback)
  | addDone (h : ℕ)
  | calling (h : ℕ) (cb : Callback)
  | wait (h : ℕ) (timed : Bool)
  | waiting (h : ℕ) (timed : Bool)
  | waited (h : ℕ) (result : Bool)
  | waitAny (handles : List ℕ) (timed : Bool) (stage : AnyStage)
  | finished
  deriving Repr

/-- The next thing the call `t` of `wait_any` does: `none` where it waits or is over. -/
def AnyStage.move (t : ℕ) (handles : List ℕ) (s : Shared) : AnyStage → Option (AnyStage × Shared)
  | register i =>
    match handles[i]? with
    | some h => some (s.addDoneCallback h (some t) (register (i + 1)) (calling i h))
    | none => some (check 0, s)
  | calling i h cb => some (register (i + 1), s.runCallback h cb)
  | check i =>
    match handles[i]? with
    | some h => some (if (s.handle h).done then returned h else check (i + 1), s)
    | none => some (waiting, s)
  | waiting => if s.event t then some (clear, s) else none
  | clear => some (check 0, s.setEvent t false)
  | returned _ => none
  | timedOut => none

namespace CallPhase

/-- The next thing the call `t` does: `none` where it waits or is over. -/
def move (t : ℕ) (s : Shared) : CallPhase → Option (CallPhase × Shared)
  | setMany h pairs =>
    let x := (s.handle h).store pairs
    if 0 < x.remaining then some (finished, s.set h x)
    else some (notify h x.callbacks, s.set h x.notifyAll)
  | notify _ [] => some (finished, s)
  | notify h (cb :: rest) => some (inCallback h cb rest, s.runCallback h cb)
  | inCallback h _ rest => some (notify h rest, s)
  | addDone h => some (s.addDoneCallback h none finished (calling h))
  | calling h cb => some (finished, s.runCallback h cb)
  | wait h timed =>
    if 0 < (s.handle h).remaining then some (waiting h timed, s.set h ((s.handle h).block t))
    else some (waited h true, s)
  | waiting h timed => if t ∈ (s.handle h).waiters then none else some (wait h timed, s)
  | waited _ _ => none
  | waitAny handles timed stage =>
    (stage.move t handles s).map fun next => (waitAny handles timed next.1, next.2)
  | finished => none

/-- The timeout of the call `t` runs out. -/
def expire (t : ℕ) (s : Shared) : CallPhase → Option (CallPhase × Shared)
  | wait h true => if 0 < (s.handle h).remaining then some (waited h false, s) else none
  | waiting h true => some (wait h true, s.set h ((s.handle h).unblock t))
  | waitAny handles true (.check i) =>
    if i < handles.length then none else some (waitAny handles true .timedOut, s)
  | waitAny handles true .waiting => some (waitAny handles true .clear, s)
  | _ => none

/-- A callback in `_set_many` raises what is no `Exception`. -/
def abort (s : Shared) : CallPhase → Option (CallPhase × Shared)
  | inCallback h cb rest => some (finished, s.set h ((s.handle h).skip cb rest))
  | _ => none

/-- The requests whose results a call is about to store in the handle. -/
def undelivered (h : ℕ) : CallPhase → List ℕ
  | setMany h' pairs => if h' = h then pairs.map Prod.fst else []
  | _ => []

end CallPhase

structure HandleWorld where
  shared : Shared
  calls : List CallPhase

inductive HandleEvent
  | setMany (h : ℕ) (pairs : List (ℕ × IOResult))
  | addDoneCallback (h : ℕ)
  | wait (h : ℕ) (timed : Bool)
  | waitAny (handles : List ℕ) (timed : Bool)
  | move (t : ℕ)
  | expire (t : ℕ)
  | abort (t : ℕ)

/-- The call whose thread takes the step. -/
def HandleEvent.actor : HandleEvent → Option ℕ
  | move t => some t
  | expire t => some t
  | abort t => some t
  | _ => none

namespace HandleWorld

def init (sizes : ℕ → ℕ) : HandleWorld :=
  ⟨.init sizes, []⟩

def undelivered (h : ℕ) (w : HandleWorld) : List ℕ :=
  w.calls.flatMap (CallPhase.undelivered h)

/-- What the engine gives to `_set_many`: results, none of a request that has one or is to get one
from another call. -/
def Deliverable (h : ℕ) (pairs : List (ℕ × IOResult)) (w : HandleWorld) : Prop :=
  pairs.isEmpty = false ∧ (pairs.map Prod.fst).Nodup ∧ ∀ i ∈ pairs.map Prod.fst,
    (w.shared.handle h).results[i]?.map Option.isNone = some true ∧ i ∉ w.undelivered h

instance (h : ℕ) (pairs : List (ℕ × IOResult)) (w : HandleWorld) :
    Decidable (w.Deliverable h pairs) :=
  inferInstanceAs (Decidable (_ ∧ _ ∧ ∀ i ∈ pairs.map Prod.fst, _))

def call (phase : CallPhase) (w : HandleWorld) : HandleWorld :=
  { w with calls := w.calls ++ [phase] }

def turn (t : ℕ) (f : CallPhase → Option (CallPhase × Shared)) (w : HandleWorld) :
    Option HandleWorld := do
  let phase ← w.calls[t]?
  let next ← f phase
  return ⟨next.2, w.calls.set t next.1⟩

/-- `wait_any` raises a `ValueError` where it gets no handles. -/
def step (w : HandleWorld) : HandleEvent → Option HandleWorld
  | .setMany h pairs => if w.Deliverable h pairs then some (w.call (.setMany h pairs)) else none
  | .addDoneCallback h => some (w.call (.addDone h))
  | .wait h timed => some (w.call (.wait h timed))
  | .waitAny handles timed =>
    if handles.isEmpty then none else some (w.call (.waitAny handles timed (.register 0)))
  | .move t => w.turn t (CallPhase.move t w.shared)
  | .expire t => w.turn t (CallPhase.expire t w.shared)
  | .abort t => w.turn t (CallPhase.abort w.shared)

/-- The thread of the call is neither blocked nor done. -/
def Enabled (t : ℕ) (w : HandleWorld) : Prop :=
  ∃ phase next, w.calls[t]? = some phase ∧ phase.move t w.shared = some next

end HandleWorld

/-- One turn of the call `t`: where it was, where it is then and what is shared then. -/
inductive Turn (t : ℕ) (s : Shared) : CallPhase → CallPhase → Shared → Prop
  | store {h : ℕ} {pairs : List (ℕ × IOResult)}
      (hopen : 0 < ((s.handle h).store pairs).remaining) :
      Turn t s (.setMany h pairs) .finished (s.set h ((s.handle h).store pairs))
  | complete {h : ℕ} {pairs : List (ℕ × IOResult)}
      (hdone : ¬ 0 < ((s.handle h).store pairs).remaining) :
      Turn t s (.setMany h pairs) (.notify h (s.handle h).callbacks)
        (s.set h ((s.handle h).store pairs).notifyAll)
  | notified {h : ℕ} : Turn t s (.notify h []) .finished s
  | start {h : ℕ} {cb : Callback} {rest : List Callback} :
      Turn t s (.notify h (cb :: rest)) (.inCallback h cb rest) (s.runCallback h cb)
  | back {h : ℕ} {cb : Callback} {rest : List Callback} :
      Turn t s (.inCallback h cb rest) (.notify h rest) s
  | abort {h : ℕ} {cb : Callback} {rest : List Callback} :
      Turn t s (.inCallback h cb rest) .finished (s.set h ((s.handle h).skip cb rest))
  | add {h : ℕ} {next : CallPhase × Shared}
      (hnext : s.addDoneCallback h none .finished (CallPhase.calling h) = next) :
      Turn t s (.addDone h) next.1 next.2
  | run {h : ℕ} {cb : Callback} : Turn t s (.calling h cb) .finished (s.runCallback h cb)
  | block {h : ℕ} {timed : Bool} (hopen : 0 < (s.handle h).remaining) :
      Turn t s (.wait h timed) (.waiting h timed) (s.set h ((s.handle h).block t))
  | pass {h : ℕ} {timed : Bool} (hdone : ¬ 0 < (s.handle h).remaining) :
      Turn t s (.wait h timed) (.waited h true) s
  | wake {h : ℕ} {timed : Bool} (hfree : t ∉ (s.handle h).waiters) :
      Turn t s (.waiting h timed) (.wait h timed) s
  | unblock {h : ℕ} :
      Turn t s (.waiting h true) (.wait h true) (s.set h ((s.handle h).unblock t))
  | giveUp {h : ℕ} (hopen : 0 < (s.handle h).remaining) :
      Turn t s (.wait h true) (.waited h false) s
  | any {handles : List ℕ} {timed : Bool} {stage : AnyStage} {next : AnyStage × Shared}
      (hnext : stage.move t handles s = some next) :
      Turn t s (.waitAny handles timed stage) (.waitAny handles timed next.1) next.2
  | anyGiveUp {handles : List ℕ} {i : ℕ} (hi : ¬ i < handles.length) :
      Turn t s (.waitAny handles true (.check i)) (.waitAny handles true .timedOut) s
  | anyExpire {handles : List ℕ} :
      Turn t s (.waitAny handles true .waiting) (.waitAny handles true .clear) s

/-- One turn of the call `t` of `wait_any`: where it was, where it is then and what is shared then. -/
inductive AnyTurn (t : ℕ) (handles : List ℕ) (s : Shared) : AnyStage → AnyStage × Shared → Prop
  | add {i h : ℕ} {next : AnyStage × Shared} (hi : handles[i]? = some h)
      (hnext : s.addDoneCallback h (some t) (.register (i + 1)) (AnyStage.calling i h) = next) :
      AnyTurn t handles s (.register i) next
  | added {i : ℕ} (hi : handles[i]? = none) : AnyTurn t handles s (.register i) (.check 0, s)
  | run {i h : ℕ} {cb : Callback} :
      AnyTurn t handles s (.calling i h cb) (.register (i + 1), s.runCallback h cb)
  | found {i h : ℕ} (hi : handles[i]? = some h) (hdone : (s.handle h).done = true) :
      AnyTurn t handles s (.check i) (.returned h, s)
  | pass {i h : ℕ} (hi : handles[i]? = some h) (hopen : ¬ (s.handle h).done = true) :
      AnyTurn t handles s (.check i) (.check (i + 1), s)
  | block {i : ℕ} (hi : handles[i]? = none) : AnyTurn t handles s (.check i) (.waiting, s)
  | wake (hset : s.event t = true) : AnyTurn t handles s .waiting (.clear, s)
  | clear : AnyTurn t handles s .clear (.check 0, s.setEvent t false)

theorem AnyStage.move_turn {t : ℕ} {handles : List ℕ} {s : Shared} {stage : AnyStage}
    {next : AnyStage × Shared} (hm : stage.move t handles s = some next) :
    AnyTurn t handles s stage next := by
  unfold AnyStage.move at hm
  cases stage with
  | register i =>
    dsimp only at hm
    split at hm
    next h hi => exact .add hi (Option.some.inj hm)
    next hi =>
      obtain rfl := Option.some.inj hm
      exact .added hi
  | calling i h cb =>
    obtain rfl := Option.some.inj hm
    exact .run
  | check i =>
    dsimp only at hm
    split at hm
    next h hi =>
      obtain rfl := Option.some.inj hm
      split
      next hdone => exact .found hi hdone
      next hopen => exact .pass hi hopen
    next hi =>
      obtain rfl := Option.some.inj hm
      exact .block hi
  | waiting =>
    obtain ⟨hset, he⟩ := Option.ite_none_right_eq_some.mp hm
    obtain rfl := Option.some.inj he
    exact .wake hset
  | clear =>
    obtain rfl := Option.some.inj hm
    exact .clear
  | returned h => cases hm
  | timedOut => cases hm

variable {t : ℕ} {s s' : Shared} {phase phase' : CallPhase}

theorem move_turn (hm : phase.move t s = some (phase', s')) : Turn t s phase phase' s' := by
  unfold CallPhase.move at hm
  cases phase with
  | setMany h pairs =>
    dsimp only at hm
    split at hm
    next hopen =>
      obtain ⟨rfl, rfl⟩ := Prod.mk.inj (Option.some.inj hm)
      exact .store hopen
    next hdone =>
      obtain ⟨rfl, rfl⟩ := Prod.mk.inj (Option.some.inj hm)
      exact .complete hdone
  | notify h callbacks =>
    cases callbacks with
    | nil =>
      obtain ⟨rfl, rfl⟩ := Prod.mk.inj (Option.some.inj hm)
      exact .notified
    | cons cb rest =>
      obtain ⟨rfl, rfl⟩ := Prod.mk.inj (Option.some.inj hm)
      exact .start
  | inCallback h cb rest =>
    obtain ⟨rfl, rfl⟩ := Prod.mk.inj (Option.some.inj hm)
    exact .back
  | addDone h => exact .add (Option.some.inj hm)
  | calling h cb =>
    obtain ⟨rfl, rfl⟩ := Prod.mk.inj (Option.some.inj hm)
    exact .run
  | wait h timed =>
    dsimp only at hm
    split at hm
    next hopen =>
      obtain ⟨rfl, rfl⟩ := Prod.mk.inj (Option.some.inj hm)
      exact .block hopen
    next hdone =>
      obtain ⟨rfl, rfl⟩ := Prod.mk.inj (Option.some.inj hm)
      exact .pass hdone
  | waiting h timed =>
    dsimp only at hm
    split at hm
    next => cases hm
    next hfree =>
      obtain ⟨rfl, rfl⟩ := Prod.mk.inj (Option.some.inj hm)
      exact .wake hfree
  | waited h result => cases hm
  | waitAny handles timed stage =>
    obtain ⟨next, hnext, he⟩ := Option.map_eq_some_iff.mp hm
    obtain ⟨rfl, rfl⟩ := Prod.mk.inj he
    exact .any hnext
  | finished => cases hm

theorem expire_turn (hm : phase.expire t s = some (phase', s')) : Turn t s phase phase' s' := by
  unfold CallPhase.expire at hm
  split at hm
  next h =>
    split at hm
    next hopen =>
      obtain ⟨rfl, rfl⟩ := Prod.mk.inj (Option.some.inj hm)
      exact .giveUp hopen
    next => cases hm
  next h =>
    obtain ⟨rfl, rfl⟩ := Prod.mk.inj (Option.some.inj hm)
    exact .unblock
  next handles i =>
    split at hm
    next => cases hm
    next hi =>
      obtain ⟨rfl, rfl⟩ := Prod.mk.inj (Option.some.inj hm)
      exact .anyGiveUp hi
  next handles =>
    obtain ⟨rfl, rfl⟩ := Prod.mk.inj (Option.some.inj hm)
    exact .anyExpire
  next => cases hm

theorem abort_turn (hm : phase.abort s = some (phase', s')) : Turn t s phase phase' s' := by
  unfold CallPhase.abort at hm
  split at hm
  next h cb rest =>
    obtain ⟨rfl, rfl⟩ := Prod.mk.inj (Option.some.inj hm)
    exact .abort
  next => cases hm

/-- A new call, as it starts. -/
inductive Opening (w : HandleWorld) : CallPhase → Prop
  | setMany {h : ℕ} {pairs : List (ℕ × IOResult)} (hd : w.Deliverable h pairs) :
      Opening w (.setMany h pairs)
  | addDone {h : ℕ} : Opening w (.addDone h)
  | wait {h : ℕ} {timed : Bool} : Opening w (.wait h timed)
  | waitAny {handles : List ℕ} {timed : Bool} (hne : handles ≠ []) :
      Opening w (.waitAny handles timed (.register 0))

namespace HandleWorld

variable {w w' : HandleWorld} {e : HandleEvent}

theorem turn_eq {f : CallPhase → Option (CallPhase × Shared)} (ht : w.turn t f = some w') :
    ∃ phase phase', w.calls[t]? = some phase ∧ f phase = some (phase', w'.shared) ∧
      w'.calls = w.calls.set t phase' := by
  obtain ⟨phase, hphase, ht⟩ := Option.bind_eq_some_iff.mp ht
  obtain ⟨next, hnext, he⟩ := Option.bind_eq_some_iff.mp ht
  obtain rfl := Option.some.inj he
  exact ⟨phase, next.1, hphase, hnext, rfl⟩

/-- A step is a new call or a turn of one that is there. -/
theorem step_cases (hs : w.step e = some w') :
    (∃ phase, e.actor = none ∧ Opening w phase ∧ w' = w.call phase) ∨
    ∃ t phase phase', e.actor = some t ∧ w.calls[t]? = some phase ∧
      Turn t w.shared phase phase' w'.shared ∧ w'.calls = w.calls.set t phase' := by
  cases e with
  | setMany h pairs =>
    obtain ⟨hd, he⟩ := Option.ite_none_right_eq_some.mp hs
    exact .inl ⟨_, rfl, .setMany hd, (Option.some.inj he).symm⟩
  | addDoneCallback h => exact .inl ⟨_, rfl, .addDone, (Option.some.inj hs).symm⟩
  | wait h timed => exact .inl ⟨_, rfl, .wait, (Option.some.inj hs).symm⟩
  | waitAny handles timed =>
    obtain ⟨hne, he⟩ := Option.ite_none_left_eq_some.mp hs
    exact .inl ⟨_, rfl, .waitAny fun h => hne (List.isEmpty_iff.mpr h), (Option.some.inj he).symm⟩
  | move t =>
    obtain ⟨phase, phase', hphase, hm, hcalls⟩ := turn_eq hs
    exact .inr ⟨t, phase, phase', rfl, hphase, move_turn hm, hcalls⟩
  | expire t =>
    obtain ⟨phase, phase', hphase, hm, hcalls⟩ := turn_eq hs
    exact .inr ⟨t, phase, phase', rfl, hphase, expire_turn hm, hcalls⟩
  | abort t =>
    obtain ⟨phase, phase', hphase, hm, hcalls⟩ := turn_eq hs
    exact .inr ⟨t, phase, phase', rfl, hphase, abort_turn hm, hcalls⟩

end HandleWorld

end Umm
