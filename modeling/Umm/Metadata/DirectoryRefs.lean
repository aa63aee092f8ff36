import Umm.Metadata.DirectoryRuns

/-! The references of a chunk: it is visible as long as it was not unregistered and its number of
references was positive, if no release meets a number that has wrapped. -/
namespace Umm
open Umm.Lib

/-- A successful call on a chunk. -/
inductive RefEvent where
  | add
  | release
  | unregister
deriving DecidableEq

/-- The number of references after some calls, from the one that the registration gives. -/
def references (log : List RefEvent) : ℤ := 1 + log.count .add - log.count .release

/-- The chunk was not unregistered, and at every point until now its number was positive. The
latest call is the first of the list. -/
def Alive (log : List RefEvent) : Prop :=
  .unregister ∉ log ∧ ∀ earlier, earlier <:+ log → 0 < references earlier

section Events

variable {log : List RefEvent}

@[simp] theorem references_add : references (.add :: log) = references log + 1 := by
  unfold references
  rw [List.count_cons_self, List.count_cons_of_ne (by decide)]
  push_cast
  ring

@[simp] theorem references_release : references (.release :: log) = references log - 1 := by
  unfold references
  rw [List.count_cons_self, List.count_cons_of_ne (by decide)]
  push_cast
  ring

theorem alive_nil : Alive [] := by
  refine ⟨List.not_mem_nil, fun earlier h => ?_⟩
  rw [List.suffix_nil.mp h]
  decide

theorem alive_cons {ev : RefEvent} :
    Alive (ev :: log) ↔ ev ≠ .unregister ∧ 0 < references (ev :: log) ∧ Alive log := by
  unfold Alive
  constructor
  · rintro ⟨hmem, hpos⟩
    rw [List.mem_cons, not_or] at hmem
    exact ⟨Ne.symm hmem.1, hpos _ (List.suffix_refl _), hmem.2,
      fun earlier h => hpos earlier (h.trans (List.suffix_cons _ _))⟩
  · rintro ⟨hev, hpos, hmem, hall⟩
    refine ⟨?_, fun earlier h => ?_⟩
    · rw [List.mem_cons, not_or]
      exact ⟨Ne.symm hev, hmem⟩
    · rcases List.suffix_cons_iff.mp h with rfl | h
      · exact hpos
      · exact hall earlier h

theorem Alive.pos (h : Alive log) : 0 < references log := h.2 log (List.suffix_refl _)

theorem alive_add (h : Alive log) : Alive (.add :: log) := by
  refine alive_cons.mpr ⟨by decide, ?_, h⟩
  have := h.pos
  rw [references_add]
  omega

theorem alive_release (h : Alive log) : Alive (.release :: log) ↔ references log ≠ 1 := by
  have hpos := h.pos
  rw [alive_cons, references_release]
  constructor
  · rintro ⟨-, hlt, -⟩
    omega
  · intro hne
    exact ⟨by decide, by omega, h⟩

theorem not_alive_unregister : ¬ Alive (.unregister :: log) := by
  intro h
  exact (alive_cons.mp h).1 rfl

end Events

/-- The directory, with the successful calls on every chunk since its registration. -/
structure RefState (N : Type) where
  ctx : MetaServiceCtx N
  log : ℕ → Option (List RefEvent)

namespace RefState

variable {N : Type}

/-- The chunk is found by its identifier. -/
def Visible (s : RefState N) (id : ℕ) : Prop :=
  ∃ record, implLookupChunkById s.ctx id = .ok record

/-- The chunks that are visible are those that the references keep. -/
def VisibleExactly (s : RefState N) : Prop :=
  ∀ id, s.Visible id ↔ ∃ log, s.log id = some log ∧ Alive log

/-- The state after a call on a chunk. -/
def after (s : RefState N) (ev : RefEvent) (id : ℕ) :
    Except Error Unit × MetaServiceCtx N → RefState N
  | (.ok (), ctx) => ⟨ctx, Function.update s.log id ((s.log id).map (ev :: ·))⟩
  | (.error _, ctx) => ⟨ctx, s.log⟩

/-- A release of a visible chunk meets the last reference, or a number whose low 32 bits are two
or more. -/
def Counted (s : RefState N) : DirOp → Prop
  | .register _ _ _ => True
  | .unregister _ => True
  | .addRef _ => True
  | .releaseRef id => ∀ log, s.log id.toNat = some log → Alive log →
    references log = 1 ∨ 2 ≤ references log % 2 ^ 32

end RefState

inductive RefInit {N : Type} : RefState N → Prop
  | create {table : N} : RefInit ⟨.empty table, fun _ => none⟩

inductive RefStep {N : Type} [NameTable N] : RefState N → DirOp → RefState N → Prop
  | register {s : RefState N} {name : CString} {gpa size : UInt64} {cid : ℕ}
      {ctx' : MetaServiceCtx N} :
      implRegisterChunk s.ctx name gpa.toNat size.toNat = some (.ok cid, ctx') →
      RefStep s (.register name gpa size) ⟨ctx', Function.update s.log cid (some [])⟩
  | registerFailed {s : RefState N} {name : CString} {gpa size : UInt64} {e : Error}
      {ctx' : MetaServiceCtx N} :
      implRegisterChunk s.ctx name gpa.toNat size.toNat = some (.error e, ctx') →
      RefStep s (.register name gpa size) ⟨ctx', s.log⟩
  | unregister {s : RefState N} {chunkId : UInt64} : RefStep s (.unregister chunkId)
      (s.after .unregister chunkId.toNat (implUnregisterChunk s.ctx chunkId.toNat))
  | addRef {s : RefState N} {chunkId : UInt64} : RefStep s (.addRef chunkId)
      (s.after .add chunkId.toNat (implAddRef s.ctx chunkId.toNat))
  | releaseRef {s : RefState N} {chunkId : UInt64} : RefStep s (.releaseRef chunkId)
      (s.after .release chunkId.toNat (implReleaseRef s.ctx chunkId.toNat))

namespace RefState

variable {N : Type} {s : RefState N}

/-- A chunk that is found has a log that keeps it, and the low 32 bits of its number. -/
structure Inv (s : RefState N) : Prop where
  wf : s.ctx.WF
  known : ∀ id log, s.log id = some log → id < s.ctx.nextChunkId
  counted : ∀ id ce, findChunkById s.ctx id = some ce → ∃ log, s.log id = some log ∧ Alive log ∧
    (ce.refCount : ℤ) = references log % 2 ^ 32
  found : ∀ id log, s.log id = some log → Alive log → ∃ ce, findChunkById s.ctx id = some ce

theorem visible_iff {id : ℕ} : s.Visible id ↔ ∃ ce, findChunkById s.ctx id = some ce := by
  unfold Visible implLookupChunkById
  cases findChunkById s.ctx id with
  | none => simp
  | some ce => simp

theorem Inv.visibleExactly (h : s.Inv) : s.VisibleExactly := by
  intro id
  rw [visible_iff]
  constructor
  · rintro ⟨ce, hce⟩
    obtain ⟨log, hlog, halive, -⟩ := h.counted id ce hce
    exact ⟨log, hlog, halive⟩
  · rintro ⟨log, hlog, halive⟩
    exact h.found id log hlog halive

/-- A call on one chunk keeps the invariant if what it leaves of the chunk fits the new log. -/
theorem Inv.change (h : s.Inv) {id : ℕ} {ctx : MetaServiceCtx N} {log : List RefEvent}
    {new : Option ChunkEntry} (hid : id < s.ctx.nextChunkId) (hwf : ctx.WF)
    (hnext : ctx.nextChunkId = s.ctx.nextChunkId)
    (hfind : ∀ j, findChunkById ctx j = if j = id then new else findChunkById s.ctx j)
    (hnew : ∀ ce, new = some ce → Alive log ∧ (ce.refCount : ℤ) = references log % 2 ^ 32)
    (hkept : Alive log → ∃ ce, new = some ce) :
    RefState.Inv ⟨ctx, Function.update s.log id (some log)⟩ := by
  refine ⟨hwf, fun j log' hlog => ?_, fun j ce hce => ?_, fun j log' hlog halive => ?_⟩
  · dsimp only at hlog ⊢
    rw [hnext]
    rw [Function.update_apply] at hlog
    split_ifs at hlog with hj
    · rwa [hj]
    · exact h.known j log' hlog
  · dsimp only at hce ⊢
    rw [hfind] at hce
    rw [Function.update_apply]
    split_ifs at hce ⊢ with hj
    · exact ⟨log, rfl, hnew ce hce⟩
    · exact h.counted j ce hce
  · dsimp only at hlog ⊢
    rw [Function.update_apply] at hlog
    rw [hfind]
    split_ifs at hlog ⊢ with hj
    · obtain rfl := Option.some.inj hlog
      exact hkept halive
    · exact h.found j log' hlog halive

theorem Inv.addRef (h : s.Inv) (id : ℕ) : (s.after .add id (implAddRef s.ctx id)).Inv := by
  unfold implAddRef
  cases hf : findChunkById s.ctx id with
  | none => exact h
  | some ce =>
    obtain ⟨log, hlog, halive, hcount⟩ := h.counted id ce hf
    obtain ⟨h0, hlt, hvalid⟩ := findChunkById_range hf
    have hfind := findChunkById_setChunk h.wf h0 hlt { ce with refCount := u32 (ce.refCount + 1) }
    unfold after
    dsimp only
    rw [hlog]
    refine h.change hlt (h.wf.setChunk id _) rfl hfind ?_ fun _ => ?_
    · intro ce' hce'
      rw [if_pos hvalid] at hce'
      obtain rfl := Option.some.inj hce'
      refine ⟨alive_add halive, ?_⟩
      dsimp only
      rw [references_add]
      unfold u32
      push_cast
      rw [hcount]
      omega
    · rw [if_pos hvalid]
      exact ⟨_, rfl⟩

theorem init_inv (h : RefInit s) : s.Inv := by
  obtain @⟨table⟩ := h
  refine ⟨.empty table, fun id log hlog => ?_, fun id ce hce => ?_, fun id log hlog => ?_⟩
  · cases hlog
  · rw [findChunkById_empty] at hce
    cases hce
  · cases hlog

variable [NameTable N]

theorem Inv.unregister (h : s.Inv) (id : ℕ) :
    (s.after .unregister id (implUnregisterChunk s.ctx id)).Inv := by
  unfold implUnregisterChunk
  cases hf : findChunkById s.ctx id with
  | none => exact h
  | some ce =>
    obtain ⟨log, hlog, -, -⟩ := h.counted id ce hf
    obtain ⟨-, hlt, -⟩ := findChunkById_range hf
    unfold after
    dsimp only
    rw [hlog]
    refine h.change hlt (h.wf.dropChunk id ce) rfl (findChunkById_dropChunk h.wf hf ce) ?_ fun hal => ?_
    · intro ce' hce'
      cases hce'
    · exact absurd hal not_alive_unregister

/-- What a release does to a chunk that is found: it is dropped exactly if its counter is at most
one. -/
theorem release_cases (hw : s.ctx.WF) {id : ℕ} {ce : ChunkEntry}
    (hf : findChunkById s.ctx id = some ce) : ∃ ctx, implReleaseRef s.ctx id = (.ok (), ctx) ∧
      ctx.WF ∧ ctx.nextChunkId = s.ctx.nextChunkId ∧ ∀ j, findChunkById ctx j = if j = id then
        (if ce.refCount ≤ 1 then none else some { ce with refCount := ce.refCount - 1 })
        else findChunkById s.ctx j := by
  obtain ⟨h0, hlt, hvalid⟩ := findChunkById_range hf
  unfold implReleaseRef
  rw [hf]
  dsimp only
  by_cases hle : ce.refCount ≤ 1
  · have hzero : (if 0 < ce.refCount then ce.refCount - 1 else ce.refCount) = 0 := by
      split_ifs <;> omega
    rw [if_pos hzero, if_pos hle]
    exact ⟨_, rfl, hw.dropChunk id _, rfl, findChunkById_dropChunk hw hf _⟩
  · have hpos : (if 0 < ce.refCount then ce.refCount - 1 else ce.refCount) = ce.refCount - 1 :=
      if_pos (by omega)
    rw [hpos, if_neg (by omega), if_neg hle]
    refine ⟨_, rfl, hw.setChunk id _, rfl, fun j => ?_⟩
    rw [findChunkById_setChunk hw h0 hlt, if_pos hvalid]

theorem Inv.releaseRef (h : s.Inv) {id : ℕ} (hok : ∀ log, s.log id = some log → Alive log →
    references log = 1 ∨ 2 ≤ references log % 2 ^ 32) :
    (s.after .release id (implReleaseRef s.ctx id)).Inv := by
  cases hf : findChunkById s.ctx id with
  | none =>
    unfold implReleaseRef
    rw [hf]
    exact h
  | some ce =>
    obtain ⟨log, hlog, halive, hcount⟩ := h.counted id ce hf
    obtain ⟨-, hlt, -⟩ := findChunkById_range hf
    obtain ⟨ctx, heq, hwf, hnext, hfind⟩ := release_cases h.wf hf
    have hnum := hok log hlog halive
    rw [heq]
    unfold after
    dsimp only
    rw [hlog]
    refine h.change hlt hwf hnext hfind ?_ fun hal => ?_
    · intro ce' hce'
      split_ifs at hce' with hle
      obtain rfl := Option.some.inj hce'
      refine ⟨(alive_release halive).mpr (by omega), ?_⟩
      dsimp only
      rw [references_release]
      push_cast [show 1 ≤ ce.refCount by omega]
      omega
    · have hne := (alive_release halive).mp hal
      rw [if_neg (by omega)]
      exact ⟨_, rfl⟩

theorem Inv.register (h : s.Inv) {name : CString} {gpa size cid : ℕ} {ctx' : MetaServiceCtx N}
    (hr : implRegisterChunk s.ctx name gpa size = some (.ok cid, ctx')) :
    RefState.Inv ⟨ctx', Function.update s.log cid (some [])⟩ := by
  obtain ⟨m, -, he, -⟩ | ⟨-, ⟨hcid, -, hg⟩ | ⟨e', he, -⟩⟩ := implRegisterChunk_cases h.wf hr
  · cases he
  · obtain rfl := Except.ok.inj hcid
    have hfind := hg.find
    simp only [if_true] at hfind
    refine ⟨hg.wf, fun j log hlog => ?_, fun j ce hce => ?_, fun j log hlog halive => ?_⟩
    · dsimp only at hlog ⊢
      rw [hg.next_eq]
      rw [Function.update_apply] at hlog
      split_ifs at hlog with hj
      · omega
      · have := h.known j log hlog
        omega
    · dsimp only at hce ⊢
      rw [hfind] at hce
      rw [Function.update_apply]
      split_ifs at hce ⊢ with hj
      · obtain rfl := Option.some.inj hce
        refine ⟨[], rfl, alive_nil, ?_⟩
        dsimp only
        decide
      · exact h.counted j ce hce
    · dsimp only at hlog ⊢
      rw [Function.update_apply] at hlog
      rw [hfind]
      split_ifs at hlog ⊢ with hj
      · exact ⟨_, rfl⟩
      · exact h.found j log hlog halive
  · cases he

/-- A registration that fails gives its identifier to no visible chunk. -/
theorem Inv.registerFailed (h : s.Inv) {name : CString} {gpa size : ℕ} {e : Error}
    {ctx' : MetaServiceCtx N}
    (hr : implRegisterChunk s.ctx name gpa size = some (.error e, ctx')) :
    RefState.Inv ⟨ctx', s.log⟩ := by
  obtain ⟨m, -, -, rfl⟩ | ⟨-, ⟨hcid, -⟩ | ⟨e', -, -, hg⟩⟩ := implRegisterChunk_cases h.wf hr
  · exact h
  · cases hcid
  · have hfind := hg.find
    simp only [Bool.false_eq_true, if_false] at hfind
    refine ⟨hg.wf, fun j log hlog => ?_, fun j ce hce => ?_, fun j log hlog halive => ?_⟩
    · dsimp only at hlog ⊢
      rw [hg.next_eq]
      have := h.known j log hlog
      omega
    · dsimp only at hce ⊢
      rw [hfind] at hce
      split_ifs at hce with hj
      exact h.counted j ce hce
    · dsimp only at hlog ⊢
      have hlt := h.known j log hlog
      rw [hfind, if_neg (by omega)]
      exact h.found j log hlog halive

theorem Inv.step (h : s.Inv) {op : DirOp} {t : RefState N}
    (hs : Guarded Counted RefStep s op t) : t.Inv := by
  obtain ⟨hok, hs⟩ := hs
  cases hs with
  | register hr => exact h.register hr
  | registerFailed hr => exact h.registerFailed hr
  | unregister => exact h.unregister _
  | addRef => exact h.addRef _
  | releaseRef => exact h.releaseRef hok

/-- A release that meets a wrapped number drops a chunk that still has references. -/
theorem Inv.not_counted (h : s.Inv) {op : DirOp} {t : RefState N} (hs : RefStep s op t)
    (hnot : ¬ s.Counted op) : ¬ t.VisibleExactly := by
  intro hexact
  cases hs with
  | register => exact hnot trivial
  | registerFailed => exact hnot trivial
  | unregister => exact hnot trivial
  | addRef => exact hnot trivial
  | @releaseRef id =>
    refine hnot fun log hlog halive => ?_
    by_contra hbad
    obtain ⟨ce, hf⟩ := h.found _ log hlog halive
    obtain ⟨log', hlog', -, hcount⟩ := h.counted _ ce hf
    obtain rfl := Option.some.inj (hlog.symm.trans hlog')
    obtain ⟨ctx, heq, -, -, hfind⟩ := release_cases h.wf hf
    have hafter := hexact id.toNat
    rw [heq] at hafter
    unfold after at hafter
    dsimp only at hafter
    rw [hlog, Option.map_some, Function.update_self, visible_iff, hfind, if_pos rfl,
      if_pos (by omega)] at hafter
    obtain ⟨ce', hce'⟩ := hafter.mpr ⟨_, rfl, (alive_release halive).mpr (by omega)⟩
    cases hce'

theorem inv_of_reach (h : Reach RefInit (Guarded Counted RefStep) s) : s.Inv :=
  h.invariant (P := Inv) (fun _ h0 => init_inv h0) fun _ _ _ hi hs => hi.step hs

end RefState

/-- In every run whose releases meet no wrapped number the visible chunks are those that their
references keep, and any other release ends this. -/
theorem refsVisible_iff {N : Type} [NameTable N] {s : RefState N}
    (h : Reach RefInit (Guarded RefState.Counted RefStep) s) :
    s.VisibleExactly ∧ ∀ op t, RefStep s op t → (t.VisibleExactly ↔ s.Counted op) := by
  have hinv := RefState.inv_of_reach h
  refine ⟨hinv.visibleExactly, fun op t hs => ⟨fun hexact => ?_, fun hok => ?_⟩⟩
  · by_contra hnot
    exact hinv.not_counted hs hnot hexact
  · exact (hinv.step ⟨hok, hs⟩).visibleExactly

namespace RefState

/-- The directory of the source with one chunk. -/
def oneChunk : Option (Except Error ℕ × Directory) :=
  metaServiceDirectCreate.bind fun ctx =>
    implRegisterChunk ctx (CString.ofBytes [97]) (0 : UInt64).toNat (4096 : UInt64).toNat

theorem oneChunk_reach : ∃ s : RefState (MetaHashTable ChunkMetadata),
    Reach RefInit (Guarded Counted RefStep) s ∧ s.log 1 = some [] := by
  have hrun : oneChunk.map (fun p => p.1.toOption) = some (some 1) := by decide +kernel
  obtain ⟨⟨r, ctx⟩, hreg, hr⟩ := Option.map_eq_some_iff.mp hrun
  obtain rfl : r = .ok 1 := by
    cases r with
    | error e => cases hr
    | ok id => exact congrArg Except.ok (Option.some.inj hr)
  obtain ⟨ctx₀, hcreate, hreg⟩ := Option.bind_eq_some_iff.mp hreg
  obtain ⟨table, -, rfl⟩ := Option.map_eq_some_iff.mp hcreate
  refine ⟨⟨ctx, Function.update (fun _ => none) 1 (some [])⟩,
    .next (.register (CString.ofBytes [97]) 0 4096) (.start .create)
      ⟨trivial, .register (s := ⟨_, _⟩) hreg⟩, ?_⟩
  dsimp only
  rw [Function.update_self]

/-- Any number of references can be added. -/
theorem adds_reach (n : ℕ) : ∃ s : RefState (MetaHashTable ChunkMetadata),
    Reach RefInit (Guarded Counted RefStep) s ∧ s.log 1 = some (List.replicate n .add) ∧
      Alive (List.replicate n .add) := by
  induction n with
  | zero =>
    obtain ⟨s, hs, hlog⟩ := oneChunk_reach
    exact ⟨s, hs, hlog, alive_nil⟩
  | succ n ih =>
    obtain ⟨s, hs, hlog, halive⟩ := ih
    have hstep : RefStep s (.addRef 1) (s.after .add 1 (implAddRef s.ctx 1)) := .addRef
    obtain ⟨ce, hf⟩ := (inv_of_reach hs).found 1 _ hlog halive
    refine ⟨_, hs.next (.addRef 1) ⟨trivial, hstep⟩, ?_, alive_add halive⟩
    unfold implAddRef after
    rw [hf]
    dsimp only
    rw [hlog, Function.update_self]
    rfl

theorem references_replicate (n : ℕ) : references (List.replicate n .add) = n + 1 := by
  induction n with
  | zero => rfl
  | succ n ih =>
    rw [List.replicate_succ, references_add, ih]
    push_cast
    ring

end RefState

/-- A chunk to which one reference was added. -/
theorem refsVisible_one_added : ∃ s : RefState (MetaHashTable ChunkMetadata),
    s.log 1 = some [.add] ∧ s.VisibleExactly ∧
      ∀ op t, RefStep s op t → (t.VisibleExactly ↔ s.Counted op) := by
  obtain ⟨s, hs, hlog, -⟩ := RefState.adds_reach 1
  exact ⟨s, hlog, refsVisible_iff hs⟩

/-- After 2^32 - 1 references were added to a chunk, one release makes it disappear. -/
theorem refs_wrap : ∃ s t : RefState (MetaHashTable ChunkMetadata), ∃ log,
    Reach RefInit (Guarded RefState.Counted RefStep) s ∧ RefStep s (.releaseRef 1) t ∧
      s.log 1 = some log ∧ s.Visible 1 ∧ references log = 2 ^ 32 ∧
      t.log 1 = some (.release :: log) ∧ Alive (.release :: log) ∧ ¬ t.Visible 1 ∧
      ¬ t.VisibleExactly := by
  obtain ⟨s, hs, hlog, halive⟩ := RefState.adds_reach (2 ^ 32 - 1)
  have hnum := RefState.references_replicate (2 ^ 32 - 1)
  generalize List.replicate (2 ^ 32 - 1) RefEvent.add = log at hlog halive hnum
  have hinv := RefState.inv_of_reach hs
  have hstep : RefStep s (.releaseRef 1) (s.after .release 1 (implReleaseRef s.ctx 1)) :=
    .releaseRef
  have hkeeps : Alive (.release :: log) := (alive_release halive).mpr (by omega)
  have hexact : ¬ (s.after .release 1 (implReleaseRef s.ctx 1)).VisibleExactly := by
    refine hinv.not_counted hstep fun hok => ?_
    have hbad := hok log hlog halive
    omega
  obtain ⟨ce, hf⟩ := hinv.found 1 log hlog halive
  obtain ⟨log', hlog', -, hcount⟩ := hinv.counted 1 ce hf
  obtain rfl := Option.some.inj (hlog.symm.trans hlog')
  obtain ⟨ctx, heq, -, -, hfind⟩ := RefState.release_cases hinv.wf hf
  refine ⟨s, _, log, hs, hstep, hlog, RefState.visible_iff.mpr ⟨ce, hf⟩, by omega, ?_, hkeeps, ?_,
    hexact⟩
  · rw [heq]
    unfold RefState.after
    dsimp only
    rw [hlog, Function.update_self]
    rfl
  · rw [heq, RefState.visible_iff]
    unfold RefState.after
    dsimp only
    rw [hfind, if_pos rfl, if_pos (by omega)]
    rintro ⟨ce', hce'⟩
    cases hce'

end Umm
