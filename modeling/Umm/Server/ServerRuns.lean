import Umm.Server.Server
import Umm.Lib.Reach

/-! How the slots of a server count its clients. -/
namespace Umm
open Umm.Lib

namespace ServerState

variable {s : ServerState}

/-- The threads of the active slots. -/
def threads (s : ServerState) : List ℕ :=
  (s.slots.filter (·.active)).map (·.thread)

/-- The counter of the threads is the number of those that run and the number of active slots. -/
def Counted (s : ServerState) : Prop :=
  s.threadCount = s.handlers.length ∧ s.threadCount = (s.slots.filter (·.active)).length

/-- Every active slot has its thread running, and every running thread has its slot. -/
structure Slotted (s : ServerState) : Prop where
  length : s.slots.length = maxThreads
  count : s.threadCount = s.threads.length
  handlers : s.handlers.Perm s.threads

/-- Between two calls of the server only a running one has threads. -/
structure Tracked (s : ServerState) : Prop extends Slotted s where
  stopped : s.running = false → s.handlers = []

theorem Slotted.counted (h : s.Slotted) : s.Counted := by
  refine ⟨h.count.trans h.handlers.length_eq.symm, ?_⟩
  rw [h.count, threads, List.length_map]

theorem tracked_create : create.Tracked where
  length := List.length_replicate
  count := rfl
  handlers := List.Perm.nil
  stopped := fun _ => rfl

theorem Tracked.start (h : s.Tracked) (thread : Bool) : (s.start thread).Tracked := by
  unfold ServerState.start
  split_ifs
  · exact h
  · exact ⟨⟨h.length, h.count, h.handlers⟩, fun hno => by cases hno⟩
  · exact h

/-- The threads around one slot, and with another slot in its place. -/
theorem threads_split {i : ℕ} {slot : ClientSlot} (hi : s.slots[i]? = some slot) :
    ∃ before after : List ℕ,
      s.threads = before ++ (if slot.active then [slot.thread] else []) ++ after ∧
      ∀ new : ClientSlot, threads { s with slots := s.slots.set i new } =
        before ++ (if new.active then [new.thread] else []) ++ after := by
  have hone : ∀ (pre post : List ClientSlot) (new : ClientSlot),
      ((pre ++ new :: post).filter (·.active)).map (·.thread) =
        (pre.filter (·.active)).map (·.thread) ++ (if new.active then [new.thread] else []) ++
          (post.filter (·.active)).map (·.thread) := by
    intro pre post new
    rw [List.filter_append, List.filter_cons, List.map_append, List.append_assoc]
    cases new.active <;> rfl
  obtain ⟨hlt, rfl⟩ := List.getElem?_eq_some_iff.mp hi
  refine ⟨((s.slots.take i).filter (·.active)).map (·.thread),
    ((s.slots.drop (i + 1)).filter (·.active)).map (·.thread), ?_, fun new => ?_⟩
  · rw [threads, ← hone (s.slots.take i) (s.slots.drop (i + 1)), List.getElem_cons_drop,
      List.take_append_drop]
  · rw [← hone, threads, List.set_eq_take_append_cons_drop, if_pos hlt]

theorem Tracked.admitClient (h : s.Tracked) (hrun : s.running = true) (arg thread : Bool) :
    (s.admitClient arg thread).2.Tracked := by
  unfold ServerState.admitClient
  split
  · exact h
  · split
    · exact h
    next i hi =>
      split
      · exact h
      · split
        · exact h
        · obtain ⟨hlt, hfree, -⟩ := List.findIdx?_eq_some_iff_getElem.mp hi
          obtain ⟨before, after, hold, hset⟩ := threads_split (List.getElem?_eq_getElem hlt)
          have hfree : (s.slots[i]).active = false := by simpa using hfree
          rw [hfree, if_neg Bool.false_ne_true, List.append_nil] at hold
          have hnew : (threads { s with slots := s.slots.set i ⟨s.created, true⟩ }).Perm
              (s.created :: s.threads) := by
            rw [hset, hold, if_pos rfl, List.append_assoc]
            exact List.perm_middle
          refine ⟨⟨?_, ?_, ?_⟩, ?_⟩
          · exact List.length_set.trans h.length
          · exact (congrArg (· + 1) h.count).trans hnew.length_eq.symm
          · exact (h.handlers.cons s.created).trans hnew.symm
          · exact fun hno => by rw [hrun] at hno; cases hno

theorem Slotted.joinSlot (h : s.Slotted) (i : ℕ) : (s.joinSlot i).Slotted := by
  unfold ServerState.joinSlot
  split
  · exact h
  next slot hi =>
    split
    next hactive =>
      obtain ⟨before, after, hold, hset⟩ := threads_split hi
      have hnew := hset { slot with active := false }
      rw [if_pos hactive] at hold
      rw [if_neg Bool.false_ne_true, List.append_nil] at hnew
      have hperm : s.threads.Perm (slot.thread :: (before ++ after)) := by
        rw [hold, List.append_assoc]
        exact List.perm_middle
      refine ⟨List.length_set.trans h.length, ?_, ?_⟩
      · show s.threadCount - 1 = (threads { s with slots := _ }).length
        rw [hnew, h.count, hperm.length_eq, List.length_cons, Nat.add_sub_cancel]
      · show (s.handlers.erase slot.thread).Perm (threads { s with slots := _ })
        rw [hnew]
        have herase := (h.handlers.trans hperm).erase slot.thread
        rwa [List.erase_cons_head] at herase
    next => exact h

/-- The slot is free. -/
def FreeAt (s : ServerState) (i : ℕ) : Prop :=
  ∀ slot, s.slots[i]? = some slot → slot.active = false

theorem freeAt_joinSlot (i : ℕ) : (s.joinSlot i).FreeAt i := by
  intro slot hslot
  unfold ServerState.joinSlot at hslot
  split at hslot
  next hnone =>
    rw [hnone] at hslot
    cases hslot
  next old hi =>
    split at hslot
    next =>
      rw [List.getElem?_set_self (List.getElem?_eq_some_iff.mp hi).1] at hslot
      obtain rfl := Option.some.inj hslot
      rfl
    next hno =>
      rw [hi] at hslot
      obtain rfl := Option.some.inj hslot
      exact (Bool.not_eq_true _).mp hno

theorem FreeAt.joinSlot {i : ℕ} (h : s.FreeAt i) (j : ℕ) : (s.joinSlot j).FreeAt i := by
  by_cases hij : j = i
  · exact hij ▸ freeAt_joinSlot j
  · intro slot hslot
    unfold ServerState.joinSlot at hslot
    split at hslot
    · exact h slot hslot
    · split at hslot
      · rw [List.getElem?_set_ne hij] at hslot
        exact h slot hslot
      · exact h slot hslot

theorem Slotted.join (h : s.Slotted) (is : List ℕ) :
    (is.foldl ServerState.joinSlot s).Slotted ∧
      ∀ i, (i ∈ is ∨ s.FreeAt i) → (is.foldl ServerState.joinSlot s).FreeAt i := by
  induction is generalizing s with
  | nil => exact ⟨h, fun i hi => hi.resolve_left List.not_mem_nil⟩
  | cons j is ih =>
    obtain ⟨hslotted, hfree⟩ := ih (h.joinSlot j)
    refine ⟨hslotted, fun i hi => hfree i ?_⟩
    rcases hi with hi | hi
    · rcases List.mem_cons.mp hi with rfl | hi
      · exact .inr (freeAt_joinSlot i)
      · exact .inl hi
    · exact .inr (hi.joinSlot j)

theorem Tracked.stop (h : s.Tracked) : s.stop.Tracked := by
  unfold ServerState.stop
  split
  · have hslotted : Slotted { s with running := false, listening := false } :=
      ⟨h.length, h.count, h.handlers⟩
    obtain ⟨hjoined, hfree⟩ := hslotted.join (List.range maxThreads)
    refine ⟨hjoined, fun _ => ?_⟩
    have hnone : ∀ slot ∈ ((List.range maxThreads).foldl ServerState.joinSlot
        { s with running := false, listening := false }).slots, ¬ slot.active = true := by
      intro slot hslot
      obtain ⟨i, hlt, rfl⟩ := List.getElem_of_mem hslot
      have := hfree i (.inl (List.mem_range.mpr (hjoined.length ▸ hlt))) _
        (List.getElem?_eq_getElem hlt)
      rw [this]
      exact Bool.false_ne_true
    have hthreads := hjoined.handlers
    rw [threads, List.filter_eq_nil_iff.mpr hnone] at hthreads
    exact hthreads.eq_nil
  · exact h

/-- The request of every client is answered: none leaves and none sends a message that is not one
of the protocol. -/
def Answered (_ : ServerState) : ServerEvent → Prop
  | .handled _ rc => rc = .ok ()
  | _ => True

theorem Tracked.clientThread (h : s.Tracked) (thread : ℕ) :
    (s.clientThread thread (.ok ())).Tracked := by
  unfold ServerState.clientThread
  dsimp only
  split_ifs with hrun
  · exact h
  · have hnone := h.stopped ((Bool.not_eq_true _).mp hrun)
    rw [show s.handlers.erase thread = s.handlers by rw [hnone]; rfl]
    exact h

theorem Tracked.memAccept (h : s.Tracked) (allowCidrs clientAddr : CString) (arg thread : Bool) :
    (s.memAccept allowCidrs clientAddr arg thread).2.Tracked := by
  unfold ServerState.memAccept
  split
  · exact h
  next hrun =>
    split
    · exact h
    · have hrun : s.running = true ∧ s.listening = true := by simpa using hrun
      exact h.admitClient hrun.1 arg thread

theorem Tracked.metaAccept (h : s.Tracked) (arg thread : Bool) :
    (s.metaAccept arg thread).2.Tracked := by
  unfold ServerState.metaAccept
  split
  · exact h
  next hrun =>
    have hrun : s.running = true ∧ s.listening = true := by simpa using hrun
    exact h.admitClient hrun.1 arg thread

section Runs

variable {accept : CString → Bool → Bool → ServerState → Bool × ServerState}
  (haccept : ∀ s : ServerState, s.Tracked → ∀ clientAddr arg thread,
    (accept clientAddr arg thread s).2.Tracked)
include haccept

theorem Tracked.next (h : s.Tracked) {e : ServerEvent} (he : s.Answered e) : (s.next accept e).Tracked := by
  cases e with
  | start thread => exact h.start thread
  | connect clientAddr arg thread => exact haccept s h clientAddr arg thread
  | handled thread rc =>
    obtain rfl : rc = .ok () := he
    exact h.clientThread thread
  | stop => exact h.stop

theorem tracked_of_reach
    (h : Reach (· = create) (Guarded Answered fun s e t => t = next accept s e) s) : s.Tracked := by
  apply h.invariant (P := Tracked)
  · rintro _ rfl
    exact tracked_create
  · rintro s e _ hs ⟨he, rfl⟩
    exact hs.next haccept he

end Runs

/-- With a thread less than the slots there is a slot for the next one. -/
theorem Tracked.admits (h : s.Tracked) (hfew : s.handlers.length < maxThreads) :
    (s.admitClient true true).1 = true := by
  have hcount : s.threadCount = s.handlers.length := h.toSlotted.counted.1
  have hactive : s.threadCount = (s.slots.filter (·.active)).length := h.toSlotted.counted.2
  unfold ServerState.admitClient
  rw [if_neg (by omega)]
  cases hfind : s.slots.findIdx? fun slot => !slot.active with
  | some i => rfl
  | none =>
    rw [List.findIdx?_eq_none_iff] at hfind
    have hall : s.slots.filter (·.active) = s.slots :=
      List.filter_eq_self.mpr fun slot hslot => by simpa using hfind slot hslot
    rw [hall, h.length] at hactive
    omega

/-- A thread that ends leaves its slot behind. -/
theorem Slotted.not_counted (h : s.Slotted) {thread : ℕ} (hmem : thread ∈ s.handlers) (e : Error) :
    ¬ (s.clientThread thread (.error e)).Counted := by
  rintro ⟨hcount, -⟩
  have hlength : s.threadCount = (s.handlers.erase thread).length := hcount
  have hpos : 0 < s.handlers.length := List.length_pos_of_mem hmem
  rw [List.length_erase_of_mem hmem, h.counted.1] at hlength
  omega

/-- Fewer clients are connected than the server has slots for. -/
def HasRoom (s : ServerState) : Prop :=
  s.running = true ∧ s.listening = true ∧ s.handlers.length < maxThreads

/-- While no thread ends, the counter is the number of clients and of active slots, and a client
that passes the allow list is kept as long as there is room; the first thread that ends breaks the
count. -/
theorem server_counted (allowCidrs : CString) :
    (∀ s, Reach (· = create) (Guarded Answered fun s e t => t = memNext allowCidrs s e) s →
      s.Counted ∧
      (s.HasRoom → ∀ clientAddr, netAclMatch allowCidrs clientAddr = true →
        (s.memAccept allowCidrs clientAddr true true).1 = true) ∧
      ∀ thread ∈ s.handlers, ∀ e, ¬ (memNext allowCidrs s (.handled thread (.error e))).Counted) ∧
    (∀ s, Reach (· = create) (Guarded Answered fun s e t => t = metaNext s e) s →
      s.Counted ∧
      (s.HasRoom → (s.metaAccept true true).1 = true) ∧
      ∀ thread ∈ s.handlers, ∀ e, ¬ (metaNext s (.handled thread (.error e))).Counted) := by
  refine ⟨fun s h => ?_, fun s h => ?_⟩
  · have ht : s.Tracked := tracked_of_reach (fun s hs addr => hs.memAccept allowCidrs addr) h
    refine ⟨ht.counted, ?_, fun thread hmem e => ht.not_counted hmem e⟩
    rintro ⟨hrun, hlisten, hfew⟩ clientAddr hacl
    unfold memAccept
    rw [hrun, hlisten, hacl, Bool.not_true, Bool.and_false]
    exact ht.admits hfew
  · have ht : s.Tracked := tracked_of_reach (fun s hs _ => hs.metaAccept) h
    refine ⟨ht.counted, ?_, fun thread hmem e => ht.not_counted hmem e⟩
    rintro ⟨hrun, hlisten, hfew⟩
    unfold metaAccept
    rw [hrun, hlisten]
    exact ht.admits hfew

/-- One client of the memory server stays, a second is let in. -/
theorem server_counted_two :
    ∃ s : ServerState, s.handlers.length = 1 ∧ s.Counted ∧
      (s.memAccept emptyString emptyString true true).1 = true := by
  have hstart : Reach (· = create) (Guarded Answered fun s e t => t = memNext emptyString s e)
      create := .start rfl
  have hrun := hstart.next (ServerEvent.start true) (And.intro trivial rfl)
  have hone := hrun.next (ServerEvent.connect emptyString true true) (And.intro trivial rfl)
  have hanswered := hone.next (ServerEvent.handled 0 (.ok ())) (And.intro rfl rfl)
  obtain ⟨hcounted, hroom, -⟩ := (server_counted emptyString).1 _ hanswered
  exact ⟨_, rfl, hcounted, hroom ⟨rfl, rfl, by decide⟩ emptyString rfl⟩

/-- `maxThreads` clients in turn, each gone before the next one comes. -/
def reconnects : List ServerEvent :=
  .start true :: (List.range maxThreads).flatMap fun i =>
    [.connect emptyString true true, .handled i (.error .transportError)]

/-- After them no client is connected, and none is let in. -/
theorem server_exhausted :
    (∃ s, reconnects.foldl (memNext emptyString) create = s ∧ s.HasRoom ∧ s.handlers = [] ∧
      s.threadCount = maxThreads ∧ (s.memAccept emptyString emptyString true true).1 = false) ∧
    (∃ s, reconnects.foldl metaNext create = s ∧ s.HasRoom ∧ s.handlers = [] ∧
      s.threadCount = maxThreads ∧ (s.metaAccept true true).1 = false) := by
  refine ⟨⟨_, rfl, ?_⟩, ⟨_, rfl, ?_⟩⟩
  · unfold HasRoom
    decide +kernel
  · unfold HasRoom
    decide +kernel

end ServerState

end Umm
