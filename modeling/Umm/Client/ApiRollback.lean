import Umm.Client.ApiRuns
import Umm.Metadata.DirectoryHeap
import Umm.Memory.MemServiceUndo

/-! Allocations that fail with embedded services, in any state that the calls of the client can
build: pages are given back exactly, and no chunk and no name is left behind. -/
namespace Umm
open Umm.Lib

/-- The client whose services are both embedded in the process. -/
abbrev UmmDirect : Type := UmmGlobalState (MetaHashTable ChunkMetadata)

namespace UmmGlobalState

def registerChunkHeap (heap : HeapGrants) (g : UmmDirect) (name : CString) (gpa size : ℕ)
    (env : CallEnv) : Option (Except Error ℕ × UmmDirect) :=
  match g.localMeta with
  | some ctx =>
    (implRegisterChunkHeap heap ctx name gpa size).map
      (fun r => (r.1, { g with localMeta := some r.2 }))
  | none => g.registerChunk name gpa size env

/-- Steps 2 to 4 of both allocations, where the registration can find the heap exhausted. -/
def publishHeap (heap : HeapGrants) (env : CallEnv) : Publish (MetaHashTable ChunkMetadata) :=
  fun g node tier offset size name =>
    let gpa := makeGpa node.toNat tier.id offset
    (registerChunkHeap heap g name gpa size env).map (fun r =>
      match r with
      | (.ok cid, g) => (.ok ⟨cid, gpa, size⟩, g)
      | (.error e, g) => (.error e, g.rollback tier offset size))

end UmmGlobalState

def AllocCall.runHeap (heap : HeapGrants) (g : UmmDirect) (env : CallEnv) :
    AllocCall → Option (Except Error ChunkDescriptor × UmmDirect)
  | alloc size => ummAllocWith (UmmGlobalState.publishHeap heap env) g size.toNat env
  | allocTiered size tierId =>
    allocTierImplWith (UmmGlobalState.publishHeap heap env) g size.toNat tierId none env
  | allocOnDevice size tierId deviceIdx =>
    allocTierImplWith (UmmGlobalState.publishHeap heap env) g size.toNat tierId
      (some deviceIdx.toNat) env

theorem UmmGlobalState.publishHeap_all (g : UmmDirect) (node : UInt8) (tier : Tier)
    (offset size : ℕ) (name : CString) (env : CallEnv) :
    publishHeap .all env g node tier offset size name =
      g.publish node tier offset size name env := by
  have hregister : ∀ gpa, registerChunkHeap .all g name gpa size env =
      g.registerChunk name gpa size env := by
    intro gpa
    unfold registerChunkHeap
    split
    next ctx hctx =>
      unfold registerChunk
      rw [hctx, implRegisterChunkHeap_all]
    next => rfl
  unfold publishHeap publish
  dsimp only
  rw [hregister]
  congr 1
  funext r
  obtain ⟨r, g1⟩ := r
  cases r <;> rfl

/-- With all memory granted these are the calls as modelled before. -/
theorem AllocCall.runHeap_all (call : AllocCall) (g : UmmDirect) (env : CallEnv) :
    call.runHeap .all g env = call.run g env := by
  have hpublish : UmmGlobalState.publishHeap .all env = fun g node tier offset size name =>
      UmmGlobalState.publish g node tier offset size name env := by
    funext g node tier offset size name
    exact UmmGlobalState.publishHeap_all g node tier offset size name env
  cases call with
  | alloc size =>
    rw [runHeap, hpublish]
    rfl
  | allocTiered size tierId =>
    rw [runHeap, hpublish]
    rfl
  | allocOnDevice size tierId deviceIdx =>
    rw [runHeap, hpublish]
    rfl

/-- A call of the client, or what its transports do to the memory of the service. -/
inductive DirectOp where
  | alloc (call : AllocCall) (heap : HeapGrants) (env : CallEnv)
  | free (chunkId baseGpa userSize : UInt64) (env : CallEnv)
  | registerStorage (tierId : UInt8) (device : Option BackendKind) (capacity : UInt64)
      (env : RegisterEnv)
  | access (call : MemsvcCall)

/-- Any descriptor may be freed, and storage registered whose bitmap lies in memory. -/
inductive DirectStep : UmmDirect → DirectOp → UmmDirect → Prop
  | alloc {g g' : UmmDirect} {call : AllocCall} {heap : HeapGrants} {env : CallEnv}
      {r : Except Error ChunkDescriptor} : call.runHeap heap g env = some (r, g') →
      DirectStep g (.alloc call heap env) g'
  | free {g : UmmDirect} {chunkId baseGpa userSize : UInt64} {env : CallEnv} :
      DirectStep g (.free chunkId baseGpa userSize env)
        (ummFree g ⟨chunkId.toNat, baseGpa.toNat, userSize.toNat⟩ env).2
  | registerStorage {g : UmmDirect} {tierId : UInt8} {device : Option BackendKind}
      {capacity : UInt64} {env : RegisterEnv} :
      (∀ m, (ummRegisterStorageTier g tierId device capacity.toNat env).2.localMem = some m →
        m.FitsMemory) →
      DirectStep g (.registerStorage tierId device capacity env)
        (ummRegisterStorageTier g tierId device capacity.toNat env).2
  | access {g : UmmDirect} {call : MemsvcCall} {m m' : MemServiceCtx} : g.localMem = some m →
      call.IsAccess → MemsvcCall.Step m call m' →
      DirectStep g (.access call) { g with localMem := some m' }

/-- The client after `umm_init` without server addresses. -/
def DirectInit (g : UmmDirect) : Prop :=
  ∃ config env, ummInitDirect config env = some g

namespace UmmGlobalState

/-- Bitmaps, free-page counters and pools of all tiers, the chunks under their identifiers and
the names in the table are those of before. -/
def Restored (g g' : UmmDirect) : Prop :=
  ∃ m m' ctx ctx', g.localMem = some m ∧ g'.localMem = some m' ∧ m.SameBooks m' ∧
    g.localMeta = some ctx ∧ g'.localMeta = some ctx' ∧ ctx.SameChunks ctx'

/-- Both services are embedded and in shape. -/
def Direct (g : UmmDirect) : Prop :=
  ∃ m ctx, g.localMem = some m ∧ g.localMeta = some ctx ∧ m.Sound ∧ m.Paged ∧ ctx.Formed

end UmmGlobalState

open UmmGlobalState

section Steps

variable {g g' : UmmDirect} {m m' : MemServiceCtx} {ctx : Directory} {heap : HeapGrants}
  {env : CallEnv} {r : Except Error ChunkDescriptor}

/-- The state after a call: in shape, and restored from `m` and `ctx` if the call failed. -/
def Outcome (m : MemServiceCtx) (ctx : Directory) (r : Except Error ChunkDescriptor)
    (g' : UmmDirect) : Prop :=
  ∃ m' ctx', g'.localMem = some m' ∧ g'.localMeta = some ctx' ∧ m'.Sound ∧ m'.Paged ∧
    ctx'.Formed ∧ ∀ e, r = .error e → m.SameBooks m' ∧ ctx.SameChunks ctx'

/-- What the memory service did for an allocation, and that a free undoes it. -/
structure Granted (m m' : MemServiceCtx) (tier : Tier) (size : ℕ) (r : Except Error ℕ) : Prop where
  sound : m'.Sound
  paged : m'.Paged
  refused : ∀ e, r = .error e → m.SameBooks m'
  undo : ∀ offset, r = .ok offset → m.SameBooks (memsvcFreeTiered m' tier offset size).2

theorem memsvcAllocTiered_granted (hs : m.Sound) (hp : m.Paged) (tier : Tier) (size : ℕ)
    (backing : Backing) : Granted m (memsvcAllocTiered m tier size backing).2 tier size
      (memsvcAllocTiered m tier size backing).1 where
  sound := hs.allocTiered tier size backing
  paged := hp.allocTiered tier size backing
  refused _ he := memsvcAllocTiered_refused (Prod.ext he rfl)
  undo _ ho := memsvcAllocTiered_undo (hp.wf hs) (Prod.ext ho rfl)

theorem memsvcAllocOnDevice_granted (hs : m.Sound) (hp : m.Paged) (tier : Tier)
    (deviceIdx size : ℕ) : Granted m (memsvcAllocOnDevice m tier deviceIdx size).2 tier size
      (memsvcAllocOnDevice m tier deviceIdx size).1 where
  sound := hs.allocOnDevice tier deviceIdx size
  paged := hp.allocOnDevice tier deviceIdx size
  refused _ he := memsvcAllocOnDevice_refused (hp.wf hs) (Prod.ext he rfl)
  undo _ ho := memsvcAllocOnDevice_undo (hp.wf hs) hs (Prod.ext ho rfl)

/-- A registration that fails gives back what was granted. -/
theorem publishHeap_outcome (hctx : g.localMeta = some ctx) (hm : g.localMem = some m')
    (hf : ctx.Formed) {node : UInt8} {tier : Tier} {offset size : ℕ} {name : CString}
    (hg : Granted m m' tier size (.ok offset))
    (h : publishHeap heap env g node tier offset size name = some (r, g')) :
    Outcome m ctx r g' := by
  unfold publishHeap registerChunkHeap at h
  rw [hctx] at h
  obtain ⟨⟨r1, g1⟩, hreg, he⟩ := Option.map_eq_some_iff.mp h
  obtain ⟨⟨r2, ctx'⟩, himpl, heq⟩ := Option.map_eq_some_iff.mp hreg
  obtain ⟨rfl, rfl⟩ := Prod.mk.inj heq
  obtain ⟨hf', hsame⟩ := implRegisterChunkHeap_spec hf himpl
  cases r2 with
  | ok cid =>
    obtain ⟨rfl, rfl⟩ := Prod.mk.inj he
    exact ⟨m', ctx', hm, rfl, hg.sound, hg.paged, hf', fun e he => nomatch he⟩
  | error e =>
    obtain ⟨rfl, rfl⟩ := Prod.mk.inj he
    refine ⟨(memsvcFreeTiered m' tier offset size).2, ctx', ?_, ?_, hg.sound.freeTiered _ _ _,
      hg.paged.freeTiered _ _ _, hf', fun _ _ => ⟨hg.undo offset rfl, hsame e rfl⟩⟩
    · simp [rollback, hm]
    · simp [rollback, hm]

variable (hm : g.localMem = some m) (hctx : g.localMeta = some ctx) (hs : m.Sound)
  (hp : m.Paged) (hf : ctx.Formed)

include hm hctx hs hp hf

theorem outcome_unchanged {e : Error} : Outcome m ctx (.error e) g :=
  ⟨m, ctx, hm, hctx, hs, hp, hf, fun _ _ => ⟨.refl m, .refl ctx⟩⟩

theorem ummAllocWith_outcome {size : ℕ}
    (h : ummAllocWith (publishHeap heap env) g size env = some (r, g')) : Outcome m ctx r g' := by
  have hgranted := memsvcAllocTiered_granted hs hp .cxl (roundToPages size) env.backing
  have halloc : g.allocLocal (roundToPages size) env =
      ((memsvcAllocTiered m .cxl (roundToPages size) env.backing).1,
        { g with localMem := some (memsvcAllocTiered m .cxl (roundToPages size) env.backing).2 }) := by
    unfold allocLocal
    rw [hm]
  obtain ⟨e, rfl, rfl⟩ | ⟨e, he, rfl⟩ | ⟨offset, g1, -, he, hpub⟩ := ummAllocWith_cases h
  · exact outcome_unchanged hm hctx hs hp hf
  · obtain ⟨heq, rfl⟩ := Prod.mk.inj (halloc.symm.trans he)
    exact ⟨_, ctx, rfl, hctx, hgranted.sound, hgranted.paged, hf,
      fun _ _ => ⟨hgranted.refused e heq, .refl ctx⟩⟩
  · obtain ⟨heq, rfl⟩ := Prod.mk.inj (halloc.symm.trans he)
    rw [heq] at hgranted
    exact publishHeap_outcome (by exact hctx) rfl hf hgranted hpub

theorem allocTierImplWith_outcome {size : ℕ} {tierId : UInt8} {device : Option ℕ}
    (h : allocTierImplWith (publishHeap heap env) g size tierId device env = some (r, g')) :
    Outcome m ctx r g' := by
  obtain ⟨e, rfl, rfl⟩ | ⟨tier, -, hr⟩ := allocTierImplWith_cases h
  · exact outcome_unchanged hm hctx hs hp hf
  obtain ⟨rm, m', hgranted, halloc⟩ : ∃ rm m', Granted m m' tier (roundToPages size) rm ∧
      g.allocTier tier device (roundToPages size) env =
        (rm.map (fun offset => (offset, 0xFF)), { g with localMem := some m' }) := by
    unfold allocTier
    rw [hm]
    cases device with
    | none => exact ⟨_, _, memsvcAllocTiered_granted hs hp tier _ env.backing, rfl⟩
    | some deviceIdx => exact ⟨_, _, memsvcAllocOnDevice_granted hs hp tier deviceIdx _, rfl⟩
  rw [halloc] at hr
  cases rm with
  | error e =>
    obtain ⟨e', he, rfl⟩ | ⟨offset, owner, g1, -, he, -⟩ := hr
    · obtain ⟨-, rfl⟩ := Prod.mk.inj he
      exact ⟨m', ctx, rfl, hctx, hgranted.sound, hgranted.paged, hf,
        fun _ _ => ⟨hgranted.refused e rfl, .refl ctx⟩⟩
    · cases (Prod.mk.inj he).1
  | ok offset =>
    obtain ⟨e', he, -⟩ | ⟨offset', owner, g1, -, he, hpub⟩ := hr
    · cases (Prod.mk.inj he).1
    · obtain ⟨heq, rfl⟩ := Prod.mk.inj he
      obtain ⟨rfl, rfl⟩ := Prod.mk.inj (Except.ok.inj heq)
      exact publishHeap_outcome (by exact hctx) rfl hf hgranted hpub

theorem runHeap_outcome {call : AllocCall} (h : call.runHeap heap g env = some (r, g')) :
    Outcome m ctx r g' := by
  cases call with
  | alloc size => exact ummAllocWith_outcome hm hctx hs hp hf h
  | allocTiered size tierId => exact allocTierImplWith_outcome hm hctx hs hp hf h
  | allocOnDevice size tierId deviceIdx => exact allocTierImplWith_outcome hm hctx hs hp hf h

theorem ummFree_direct (desc : ChunkDescriptor) : Direct (ummFree g desc env).2 := by
  obtain ⟨tier, htier⟩ := exists_tier desc.baseGpa
  have hunchanged : Direct g := ⟨m, ctx, hm, hctx, hs, hp, hf⟩
  have hun : (unregisterChunk g desc.chunkId env).2 =
      { g with localMeta := some (implUnregisterChunk ctx desc.chunkId).2 } :=
    unregisterChunk_direct hctx desc.chunkId
  have hm1 : (unregisterChunk g desc.chunkId env).2.localMem = some m := by rw [hun]; exact hm
  have hmain : Direct ((unregisterChunk g desc.chunkId env).2.freeMemory desc.baseGpa
      desc.userSize env).2 := by
    rw [freeMemory_direct hm1 htier, hun]
    exact ⟨_, _, rfl, rfl, hs.freeTiered _ _ _, hp.freeTiered _ _ _,
      implUnregisterChunk_formed hf desc.chunkId⟩
  have hnotNone : ¬ (g.localMem.isNone ∧ g.memClient = false) := by simp [hm]
  unfold ummFree
  split_ifs with hi
  · exact hunchanged
  · split
    · exact hunchanged
    · dsimp only
      split
      · exact hmain
      · exact hmain

theorem ummRegisterStorageTier_direct (tierId : UInt8) (device : Option BackendKind)
    {capacity : ℕ} (hcap : capacity < 2 ^ 64) (env : RegisterEnv)
    (hfits : ∀ m', (ummRegisterStorageTier g tierId device capacity env).2.localMem = some m' →
      m'.FitsMemory) : Direct (ummRegisterStorageTier g tierId device capacity env).2 := by
  have hunchanged : Direct g := ⟨m, ctx, hm, hctx, hs, hp, hf⟩
  unfold ummRegisterStorageTier at hfits ⊢
  by_cases hi : g.initialized = false
  · rw [if_pos hi]
    exact hunchanged
  rw [if_neg hi, hm] at hfits ⊢
  cases ht : Tier.ofId tierId.toNat with
  | none => exact hunchanged
  | some tier =>
    rw [ht] at hfits
    dsimp only at hfits ⊢
    by_cases h0 : capacity = 0
    · rw [if_pos h0]
      exact hunchanged
    · rw [if_neg h0] at hfits ⊢
      exact ⟨_, ctx, rfl, hctx, hs.registerStorage env hcap (by norm_num) (hfits _ rfl),
        hp.registerStorage env hcap rfl, hf⟩

end Steps

/-- A fresh service with memory for the CXL tier. -/
theorem memServiceDirectCreate_direct {memorySize : ℕ} {env : RegisterEnv} {m : MemServiceCtx}
    (hlt : memorySize < 2 ^ 64) (h : memServiceDirectCreate memorySize 0 env = some m) :
    m.Sound ∧ m.Paged := by
  let res : StorageResource := ⟨.cxl, memorySize, 0, some .file⟩
  have hsound : memServiceDirectCreateV2.Sound := fun tier => TierMemCtx.sound_offline
  have hpaged : memServiceDirectCreateV2.Paged := fun _ => ⟨rfl, fun _ h => nomatch h⟩
  have hfits : (memsvcRegisterStorage memServiceDirectCreateV2 res env).2.FitsMemory := by
    intro pool hpool
    rw [memsvcRegisterStorage_other _ _ _ (show Tier.ssd ≠ Tier.cxl by decide)] at hpool
    cases hpool
  have hs := hsound.registerStorage env hlt (by norm_num) hfits
  have hp : (memsvcRegisterStorage memServiceDirectCreateV2 res env).2.Paged :=
    hpaged.registerStorage env hlt rfl
  unfold memServiceDirectCreate memServiceDirectCreateTiered at h
  split_ifs at h
  split at h
  next m' hr =>
    obtain rfl := Option.some.inj h
    have hm : (memsvcRegisterStorage memServiceDirectCreateV2 res env).2 = m' := by rw [hr]
    rw [hm] at hs hp
    exact ⟨hs, hp⟩
  next => cases h

theorem directInit_direct {g : UmmDirect} (h : DirectInit g) : Direct g := by
  obtain ⟨config, env, hi⟩ := h
  unfold ummInitDirect at hi
  dsimp only at hi
  split at hi
  next m ctx hmem hmeta =>
    obtain rfl := Option.some.inj hi
    have hlt : (if config.memorySize = 0 then 64 * 1024 * 1024 else config.memorySize.toNat) <
        2 ^ 64 := by
      split_ifs
      · norm_num
      · exact config.memorySize.toNat_lt
    obtain ⟨hs, hp⟩ := memServiceDirectCreate_direct hlt hmem
    exact ⟨m, ctx, rfl, rfl, hs, hp, metaServiceDirectCreate_formed hmeta⟩
  next => cases hi

theorem directStep_direct {g g' : UmmDirect} {op : DirectOp} (h : Direct g)
    (hs : DirectStep g op g') : Direct g' := by
  obtain ⟨m, ctx, hm, hctx, hsound, hp, hf⟩ := h
  cases hs with
  | alloc hr =>
    obtain ⟨m', ctx', hm', hctx', hs', hp', hf', -⟩ := runHeap_outcome hm hctx hsound hp hf hr
    exact ⟨m', ctx', hm', hctx', hs', hp', hf'⟩
  | free => exact ummFree_direct hm hctx hsound hp hf _
  | @registerStorage _ _ capacity _ hfits =>
    exact ummRegisterStorageTier_direct hm hctx hsound hp hf _ _ capacity.toNat_lt _ hfits
  | access hm1 hacc hstep =>
    obtain rfl := Option.some.inj (hm.symm.trans hm1)
    exact ⟨_, ctx, rfl, hctx, hsound.step hstep, hp.access hacc hstep.1, hf⟩

/-- In every state that the client can reach, an allocation that returns an error has restored
pages, chunks and names. -/
theorem allocCall_error_restores {g g' : UmmDirect} (hreach : Reach DirectInit DirectStep g)
    {call : AllocCall} {heap : HeapGrants} {env : CallEnv} {e : Error}
    (h : call.runHeap heap g env = some (.error e, g')) : g.Restored g' := by
  have hdirect : Direct g :=
    hreach.invariant (P := Direct) (fun _ h0 => directInit_direct h0)
      (fun _ _ _ hi hs => directStep_direct hi hs)
  obtain ⟨m, ctx, hm, hctx, hs, hp, hf⟩ := hdirect
  obtain ⟨m', ctx', hm', hctx', -, -, -, hrestored⟩ := runHeap_outcome hm hctx hs hp hf h
  obtain ⟨hbooks, hchunks⟩ := hrestored e rfl
  exact ⟨m, m', ctx, ctx', hm, hm', hbooks, hctx, hctx', hchunks⟩

/-- A page is freed under a descriptor without identifier, so its chunk stays registered. The
next allocation gets the page and the name again, and fails. -/
theorem allocCall_error_restores_page : ∃ g g' : UmmDirect,
    AllocCall.runHeap .all g ⟨.noMemory, .error .timeout, .error .timeout, .error .timeout,
      .error .timeout⟩ (.alloc 4096) = some (.error .alreadyExists, g') ∧ g.Restored g' := by
  let config : UmmConfig := ⟨0, 255, 8192⟩
  let storage : RegisterEnv := ⟨false, false, ⟨false, fun _ => 0, false⟩, .noMemory⟩
  let env0 : CallEnv := ⟨.bytes (fun _ => 0), .error .timeout, .error .timeout, .error .timeout,
    .error .timeout⟩
  let env : CallEnv := ⟨.noMemory, .error .timeout, .error .timeout, .error .timeout,
    .error .timeout⟩
  let call : AllocCall := .alloc 4096
  have hok : ((ummInitDirect config storage).bind fun g0 => (call.runHeap .all g0 env0).bind fun r1 =>
      (call.runHeap .all (ummFree r1.2 ⟨0, 2 ^ 56, 4096⟩ env).2 env).map fun r2 => (r1.1, r2.1)) =
      some (.ok ⟨1, 2 ^ 56, 4096⟩, .error .alreadyExists) := by decide +kernel
  obtain ⟨g0, hinit, h1⟩ := Option.bind_eq_some_iff.mp hok
  obtain ⟨⟨a1, g1⟩, hrun1, h2⟩ := Option.bind_eq_some_iff.mp h1
  obtain ⟨⟨a2, g2⟩, hrun2, h3⟩ := Option.map_eq_some_iff.mp h2
  obtain ⟨rfl, rfl⟩ := Prod.mk.inj h3
  have hreach : Reach DirectInit DirectStep (ummFree g1 ⟨0, 2 ^ 56, 4096⟩ env).2 :=
    .next (.free 0 (2 ^ 56) 4096 env) (.next (.alloc call .all env0) (.start ⟨config, storage, hinit⟩)
      (.alloc hrun1)) .free
  exact ⟨_, g2, hrun2, allocCall_error_restores hreach hrun2⟩

end Umm
