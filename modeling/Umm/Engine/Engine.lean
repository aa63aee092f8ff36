import Umm.Lib.Groups

/-! `ConcurrentIOEngine`: submitting threads, executors with their workers, and a `close()` that
races with them. A step is what one thread does between two points where others can run. -/
namespace Umm
open Umm.Lib

structure IORequest where
  chunkId : ℤ
  offset : ℤ
  length : ℤ
  nbytes : ℕ
  deriving DecidableEq, Repr

inductive IOError
  | offset (offset : ℤ)
  | length (length : ℤ)
  | buffer (nbytes : ℕ) (length : ℤ)
  | raised (code : ℤ)
  | shutdown
  deriving DecidableEq, Repr

abbrev IOResult := Except IOError ℤ

/-- `lib` is what `read_into` (`true`) or `write_from` (`false`) does with the request. -/
def executeOne (req : IORequest) (isRead : Bool) (lib : Bool → Except ℤ ℤ) : IOResult :=
  if req.offset < 0 then .error (.offset req.offset)
  else if req.length < 0 then .error (.length req.length)
  else if (req.nbytes : ℤ) < req.length then .error (.buffer req.nbytes req.length)
  else if req.length = 0 then .ok 0
  else (lib isRead).mapError .raised

structure EngineConfig where
  numWorkers : ℕ
  numQueues : ℕ
  maxInflight : Option ℕ
  numWorkers_pos : 1 ≤ numWorkers
  numQueues_pos : 1 ≤ numQueues
  maxInflight_pos : ∀ n, maxInflight = some n → 1 ≤ n

namespace EngineConfig

variable (cfg : EngineConfig)

def numExecutors : ℕ :=
  if 1 < cfg.numQueues then cfg.numQueues else 1

/-- The workers of each executor. -/
def maxWorkers : ℕ :=
  if 1 < cfg.numQueues then 1 else cfg.numWorkers

def key (idx : ℕ) (req : IORequest) : ℕ :=
  if 1 < cfg.numQueues then (req.chunkId % cfg.numQueues).toNat else idx % cfg.numWorkers

def executorOf (key : ℕ) : ℕ :=
  if 1 < cfg.numQueues then key % cfg.numExecutors else 0

end EngineConfig

structure IOHandle where
  results : List (Option IOResult)
  remaining : ℤ
  deriving Repr

namespace IOHandle

def init (n : ℕ) : IOHandle :=
  ⟨List.replicate n none, n⟩

def setMany (pairs : List (ℕ × IOResult)) (handle : IOHandle) : IOHandle where
  results := pairs.foldl (fun results pair => results.set pair.1 (some pair.2)) handle.results
  remaining := handle.remaining - pairs.length

def setResult (index : ℕ) (value : IOResult) (handle : IOHandle) : IOHandle :=
  handle.setMany [(index, value)]

def done (handle : IOHandle) : Bool :=
  handle.remaining = 0

end IOHandle

abbrev IOItem := IORequest × Bool

structure GroupItem where
  idx : ℕ
  req : IORequest
  isRead : Bool
  deriving DecidableEq, Repr

abbrev Groups := List (ℕ × List GroupItem)

/-- Where the loop over a group that could not be scheduled stands with its first request. -/
inductive Undo
  | release
  | uncount
  | store
  deriving DecidableEq, Repr

inductive SubmitPhase
  | collecting (permit : Bool)
  | dispatching (rest : Groups)
  | failing (undo : Undo) (group : List GroupItem) (rest : Groups)
  | returned
  deriving DecidableEq, Repr

/-- A call of `_submit`: `counted` is the index its first loop has come to. -/
structure Submission where
  items : List IOItem
  counted : ℕ
  groups : Groups
  phase : SubmitPhase
  handle : IOHandle
  deriving Repr

inductive JobStage
  | queued
  | running (results : List (ℕ × IOResult)) (todo : List GroupItem)
  | counted (results : List (ℕ × IOResult)) (held : List GroupItem)
  | finished
  deriving Repr

/-- A call of `_run_group` that an executor has taken. -/
structure Job where
  handle : ℕ
  executor : ℕ
  group : List GroupItem
  stage : JobStage
  deriving Repr

namespace JobStage

def isQueued : JobStage → Bool
  | queued => true
  | _ => false

def isActive : JobStage → Bool
  | running _ _ => true
  | counted _ _ => true
  | _ => false

end JobStage

/-- The last four fields are history: which request took and gave back a permit, which was
executed, and what was written to a handle. A request is its handle and its index there. -/
structure EngineState where
  closed : Bool
  shut : ℕ
  permits : Option ℕ
  submitted : ℤ
  completed : ℤ
  failed : ℤ
  inflight : ℤ
  subs : List Submission
  jobs : List Job
  acquired : List (ℕ × ℕ)
  released : List (ℕ × ℕ)
  executed : List ((ℕ × ℕ) × IOResult)
  stored : List ((ℕ × ℕ) × IOResult)
  deriving Repr

def submitRead (requests : List IORequest) : List IOItem :=
  requests.map fun req => (req, true)

def submitWrite (requests : List IORequest) : List IOItem :=
  requests.map fun req => (req, false)

def submitMixed (reads writes : List IORequest) : List IOItem :=
  submitRead reads ++ submitWrite writes

namespace EngineState

def init (cfg : EngineConfig) : EngineState where
  closed := false
  shut := 0
  permits := cfg.maxInflight
  submitted := 0
  completed := 0
  failed := 0
  inflight := 0
  subs := []
  jobs := []
  acquired := []
  released := []
  executed := []
  stored := []

def setSub (h : ℕ) (sub : Submission) (s : EngineState) : EngineState :=
  { s with subs := s.subs.set h sub }

def setJob (j : ℕ) (job : Job) (s : EngineState) : EngineState :=
  { s with jobs := s.jobs.set j job }

/-- Without a semaphore nothing is counted and nobody waits. -/
def acquire (req : ℕ × ℕ) (s : EngineState) : Option EngineState :=
  match s.permits with
  | some 0 => none
  | permits => some { s with permits := permits.map (· - 1), acquired := s.acquired ++ [req] }

def release (req : ℕ × ℕ) (s : EngineState) : EngineState :=
  { s with permits := s.permits.map (· + 1), released := s.released ++ [req] }

def countIn (s : EngineState) : EngineState :=
  { s with submitted := s.submitted + 1, inflight := s.inflight + 1 }

def countOut (s : EngineState) : EngineState :=
  { s with submitted := s.submitted - 1, inflight := s.inflight - 1 }

def isShut (executor : ℕ) (s : EngineState) : Bool :=
  executor < s.shut

/-- `handle._set_many`, with the handle of the submission `h`. -/
def store (h : ℕ) (sub : Submission) (pairs : List (ℕ × IOResult)) (s : EngineState) :
    EngineState :=
  { s with
    subs := s.subs.set h { sub with handle := sub.handle.setMany pairs }
    stored := s.stored ++ pairs.map fun pair => ((h, pair.1), pair.2) }

/-- `_submit` up to its first request: `none` where the engine is closed. -/
def submit (items : List IOItem) (s : EngineState) : Option EngineState :=
  if s.closed then none
  else some { s with
    subs := s.subs ++ [⟨items, 0, [], .collecting false, .init items.length⟩] }

end EngineState

namespace Submission

def collect (cfg : EngineConfig) (item : IOItem) (sub : Submission) : Submission :=
  { sub with
    counted := sub.counted + 1
    groups := addTo (cfg.key sub.counted item.1) ⟨sub.counted, item.1, item.2⟩ sub.groups
    phase := .collecting false }

/-- The loop of the failure path over what is left of its group. -/
def resume (group : List GroupItem) (rest : Groups) (sub : Submission) : Submission :=
  match group with
  | [] => { sub with phase := .dispatching rest }
  | _ => { sub with phase := .failing .release group rest }

end Submission

namespace EngineState

/-- The next thing the thread in the submission `h` does: `none` where it waits or is done. -/
def advance (cfg : EngineConfig) (h : ℕ) (s : EngineState) : Option EngineState :=
  s.subs[h]?.bind fun sub =>
    match sub.phase with
    | .collecting permit =>
      match sub.items[sub.counted]? with
      | none => some (s.setSub h { sub with phase := .dispatching sub.groups })
      | some item =>
        if permit then some (s.countIn.setSub h (sub.collect cfg item))
        else (s.acquire (h, sub.counted)).map fun s' =>
          s'.setSub h { sub with phase := .collecting true }
    | .dispatching [] => some (s.setSub h { sub with phase := .returned })
    | .dispatching ((key, group) :: rest) =>
      if s.isShut (cfg.executorOf key) then some (s.setSub h (sub.resume group rest))
      else some { s.setSub h { sub with phase := .dispatching rest } with
        jobs := s.jobs ++ [⟨h, cfg.executorOf key, group, .queued⟩] }
    | .failing _ [] rest => some (s.setSub h { sub with phase := .dispatching rest })
    | .failing .release (x :: group) rest =>
      some ((s.release (h, x.idx)).setSub h { sub with phase := .failing .uncount (x :: group) rest })
    | .failing .uncount (x :: group) rest =>
      some (s.countOut.setSub h { sub with phase := .failing .store (x :: group) rest })
    | .failing .store (x :: group) rest =>
      some (s.store h (sub.resume group rest) [(x.idx, .error .shutdown)])
    | .returned => none

/-- An executor takes its tasks in order, as soon as one of its workers is free. -/
def ready (cfg : EngineConfig) (j executor : ℕ) (s : EngineState) : Bool :=
  (s.jobs.take j).all (fun job => job.executor ≠ executor || !job.stage.isQueued) &&
    s.jobs.countP (fun job => job.executor = executor && job.stage.isActive) < cfg.maxWorkers

/-- The next thing the worker with the job `j` does, from taking it on. -/
def work (cfg : EngineConfig) (j : ℕ) (lib : Bool → Except ℤ ℤ) (s : EngineState) :
    Option EngineState :=
  s.jobs[j]?.bind fun job =>
    match job.stage with
    | .queued =>
      if s.ready cfg j job.executor then
        some (s.setJob j { job with stage := .running [] job.group })
      else none
    | .running results (x :: todo) =>
      let result := executeOne x.req x.isRead lib
      some { s.setJob j { job with stage := .running (results ++ [(x.idx, result)]) todo } with
        executed := s.executed ++ [((job.handle, x.idx), result)] }
    | .running results [] =>
      some { s.setJob j { job with stage := .counted results job.group } with
        completed := s.completed + results.countP fun pair => pair.2.isOk
        failed := s.failed + results.countP fun pair => !pair.2.isOk
        inflight := s.inflight - job.group.length }
    | .counted results (x :: held) =>
      some ((s.release (job.handle, x.idx)).setJob j { job with stage := .counted results held })
    | .counted results [] =>
      s.subs[job.handle]?.map fun sub =>
        (s.setJob j { job with stage := .finished }).store job.handle sub results
    | .finished => none

/-- The executors are shut down one by one, once the engine is marked closed. -/
def shutdown (cfg : EngineConfig) (s : EngineState) : Option EngineState :=
  if s.closed && s.shut < cfg.numExecutors then some { s with shut := s.shut + 1 } else none

end EngineState

inductive EngineEvent
  | submit (items : List IOItem)
  | advance (h : ℕ)
  | work (j : ℕ) (lib : Bool → Except ℤ ℤ)
  | close
  | shutdown

def EngineState.step (cfg : EngineConfig) (s : EngineState) : EngineEvent → Option EngineState
  | .submit items => s.submit items
  | .advance h => s.advance cfg h
  | .work j lib => s.work cfg j lib
  | .close => some { s with closed := true }
  | .shutdown => s.shutdown cfg

def EngineStep (cfg : EngineConfig) (s : EngineState) (e : EngineEvent) (t : EngineState) : Prop :=
  s.step cfg e = some t

def EngineState.run (cfg : EngineConfig) (events : List EngineEvent) (s : EngineState) :
    Option EngineState :=
  events.foldlM (EngineState.step cfg) s

/-- The submission `h` stands at the semaphore and no permit is left. -/
def EngineState.Blocked (h : ℕ) (s : EngineState) : Prop :=
  ∃ sub, s.subs[h]? = some sub ∧ sub.phase = .collecting false ∧
    sub.counted < sub.items.length ∧ s.permits = some 0

end Umm
