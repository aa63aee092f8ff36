import Umm.Server.Acl

/-! The client threads of `mem_server.c` and `meta_server.c`. Both servers keep them in a table of
slots; only the memory server has an allow list. -/
namespace Umm

def maxThreads : ℕ := 64

/-- `client_threads` and `client_thread_active`. -/
structure ClientSlot where
  thread : ℕ
  active : Bool
  deriving DecidableEq, Repr

/-- `handlers` are the client threads that run; a thread is named by the number of those created
before it. -/
structure ServerState where
  running : Bool
  listening : Bool
  slots : List ClientSlot
  threadCount : ℕ
  handlers : List ℕ
  created : ℕ
  deriving DecidableEq, Repr

namespace ServerState

def create : ServerState where
  running := false
  listening := true
  slots := List.replicate maxThreads ⟨0, false⟩
  threadCount := 0
  handlers := []
  created := 0

def start (thread : Bool) (s : ServerState) : ServerState :=
  if s.running then s
  else if thread then { s with running := true }
  else s

/-- The accept loop from the lock on: whether the client is kept. `arg` and `thread` say whether
there is memory for the argument of the thread and whether it can be created. -/
def admitClient (arg thread : Bool) (s : ServerState) : Bool × ServerState :=
  if maxThreads ≤ s.threadCount then (false, s)
  else match s.slots.findIdx? fun slot => !slot.active with
    | none => (false, s)
    | some i =>
      if !arg then (false, s)
      else if !thread then (false, s)
      else (true, { s with
        slots := s.slots.set i ⟨s.created, true⟩
        threadCount := s.threadCount + 1
        handlers := s.created :: s.handlers
        created := s.created + 1 })

/-- A connection reaches the accept loop while the server runs and listens. -/
def memAccept (allowCidrs clientAddr : CString) (arg thread : Bool) (s : ServerState) :
    Bool × ServerState :=
  if !s.running || !s.listening then (false, s)
  else if !allowCidrs.isEmpty && !netAclMatch allowCidrs clientAddr then (false, s)
  else s.admitClient arg thread

def metaAccept (arg thread : Bool) (s : ServerState) : Bool × ServerState :=
  if !s.running || !s.listening then (false, s)
  else s.admitClient arg thread

/-- One round of the loop of a client thread, with what the handler of the request returns. -/
def clientThread (thread : ℕ) (rc : Except Error Unit) (s : ServerState) : ServerState :=
  match rc with
  | .error _ => { s with handlers := s.handlers.erase thread }
  | .ok () => if s.running then s else { s with handlers := s.handlers.erase thread }

/-- `pthread_join` comes back when the thread has ended. -/
def joinSlot (s : ServerState) (i : ℕ) : ServerState :=
  match s.slots[i]? with
  | none => s
  | some slot =>
    if slot.active then { s with
      slots := s.slots.set i { slot with active := false }
      threadCount := s.threadCount - 1
      handlers := s.handlers.erase slot.thread }
    else s

def stop (s : ServerState) : ServerState :=
  if s.running then
    (List.range maxThreads).foldl joinSlot { s with running := false, listening := false }
  else s

end ServerState

inductive ServerEvent
  | start (thread : Bool)
  | connect (clientAddr : CString) (arg thread : Bool)
  | handled (thread : ℕ) (rc : Except Error Unit)
  | stop

namespace ServerState

def next (accept : CString → Bool → Bool → ServerState → Bool × ServerState) (s : ServerState) :
    ServerEvent → ServerState
  | .start thread => s.start thread
  | .connect clientAddr arg thread => (accept clientAddr arg thread s).2
  | .handled thread rc => s.clientThread thread rc
  | .stop => s.stop

def memNext (allowCidrs : CString) : ServerState → ServerEvent → ServerState :=
  next (memAccept allowCidrs)

def metaNext : ServerState → ServerEvent → ServerState :=
  next fun _ => metaAccept

end ServerState

end Umm
