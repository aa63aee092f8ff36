import Umm.Metadata.DirectoryHeap
import Umm.Metadata.MetaRpcNaming
import Umm.Lib.Reach

/-! Which places of the chunk array the calls of the directory look at, when the array may not
have grown with the identifiers. -/
namespace Umm
open Umm.Lib

section Index

variable {N : Type} (ctx : MetaServiceCtx N)

/-- The index that `find_chunk_by_id` uses, if it gets to the array. -/
def chunkIndex (chunkId : ℕ) : Option ℕ :=
  if chunkId = 0 ∨ ctx.nextChunkId ≤ chunkId then none else some (chunkId - 1)

theorem findChunkById_index (chunkId : ℕ) :
    findChunkById ctx chunkId = (chunkIndex ctx chunkId).bind fun i =>
      ctx.chunks[i]?.filter fun ce => ce.valid := by
  unfold findChunkById chunkIndex
  split_ifs
  · rfl
  · rw [Option.bind_some]
    cases ctx.chunks[chunkId - 1]? with
    | none => rfl
    | some ce =>
      dsimp only
      rw [Option.filter_some]

/-- The identifiers that the listing looks up among the next `r`. -/
def listLookups (node : UInt8) : ℕ → ℕ → ℕ → List ℕ
  | 0, _, _ => []
  | _ + 1, _, 0 => []
  | r + 1, cid, room + 1 =>
    match findChunkById ctx cid with
    | none => cid :: listLookups node r (cid + 1) (room + 1)
    | some ce =>
      if gpaToNode ce.info.gpa = node.toNat then cid :: listLookups node r (cid + 1) room
      else cid :: listLookups node r (cid + 1) (room + 1)

theorem listChunksLoop_lookups (node : UInt8) (r cid room : ℕ) :
    listChunksLoop ctx node r cid room = (listLookups ctx node r cid room).filterMap fun id =>
      ((findChunkById ctx id).filter fun ce => gpaToNode ce.info.gpa = node.toNat).map
        ChunkEntry.info := by
  induction r generalizing cid room with
  | zero => rfl
  | succ r ih =>
    cases room with
    | zero => rfl
    | succ room =>
      unfold listChunksLoop listLookups
      cases hf : findChunkById ctx cid with
      | none =>
        dsimp only
        rw [List.filterMap_cons_none (by rw [hf]; rfl)]
        exact ih (cid + 1) (room + 1)
      | some ce =>
        dsimp only
        split_ifs with hn
        · rw [List.filterMap_cons_some (by rw [hf, Option.filter_some, if_pos (by simpa using hn)]; rfl)]
          exact congrArg _ (ih (cid + 1) room)
        · rw [List.filterMap_cons_none (by rw [hf, Option.filter_some, if_neg (by simpa using hn)]; rfl)]
          exact ih (cid + 1) (room + 1)

end Index

inductive DirectoryCall where
  | register (heap : HeapGrants) (name : CString) (gpa size : UInt64)
  | lookup (name : CString)
  | lookupById (chunkId : UInt64)
  | unregister (chunkId : UInt64)
  | addRef (chunkId : UInt64)
  | releaseRef (chunkId : UInt64)
  | list (node : UInt8) (maxOut : UInt32)

namespace DirectoryCall

/-- The directory after a call that returns. -/
def run (ctx : Directory) : DirectoryCall → Option Directory
  | register heap name gpa size =>
    (implRegisterChunkHeap heap ctx name gpa.toNat size.toNat).map Prod.snd
  | lookup _ | lookupById _ | list _ _ => some ctx
  | unregister chunkId => some (implUnregisterChunk ctx chunkId.toNat).2
  | addRef chunkId => some (implAddRef ctx chunkId.toNat).2
  | releaseRef chunkId => some (implReleaseRef ctx chunkId.toNat).2

/-- The identifiers that a call passes to `find_chunk_by_id`. -/
def lookups (ctx : Directory) : DirectoryCall → List ℕ
  | register _ _ _ _ | lookup _ => []
  | lookupById chunkId | unregister chunkId | addRef chunkId | releaseRef chunkId => [chunkId.toNat]
  | list node maxOut => listLookups ctx node (ctx.nextChunkId - 1) 1 maxOut.toNat

/-- Every index that a call uses lies in the array. -/
def InRange (ctx : Directory) (call : DirectoryCall) : Prop :=
  ∀ id ∈ call.lookups ctx, ∀ i, chunkIndex ctx id = some i → i < ctx.chunkCapacity

/-- A registration that needs a larger array gets it. -/
def Grants (ctx : Directory) : DirectoryCall → Prop
  | register heap name _ _ => heap.chunks = true ∨ (mhtLookup ctx.chunkTable name).isOk = true ∨
      ctx.nextChunkId ≤ ctx.chunkCapacity
  | _ => True

def Step (ctx : Directory) (call : DirectoryCall) (ctx' : Directory) : Prop :=
  call.run ctx = some ctx'

end DirectoryCall

def DirectoryInit (ctx : Directory) : Prop := metaServiceDirectCreate = some ctx

namespace MetaServiceCtx

/-- Every identifier that was given out has its place in the array. -/
def Roomy (ctx : Directory) : Prop := ctx.nextChunkId ≤ ctx.chunkCapacity + 1

end MetaServiceCtx

section Runs

variable {ctx ctx' : Directory} {call : DirectoryCall} {heap : HeapGrants} {name : CString}
  {gpa size : UInt64}

/-- A registration of a new name uses up one identifier, and the array has a place for it unless
the heap refused to make it larger. -/
theorem implRegisterChunkHeap_next (hf : ctx.Formed) {gpa size : ℕ} {r : Except Error ℕ}
    (h : implRegisterChunkHeap heap ctx name gpa size = some (r, ctx')) :
    (mhtLookup ctx.chunkTable name).isOk = true ∧ ctx' = ctx ∨
      (mhtLookup ctx.chunkTable name).isOk = false ∧ ctx'.nextChunkId = ctx.nextChunkId + 1 ∧
        ((heap.chunks = true ∨ ctx.nextChunkId ≤ ctx.chunkCapacity) ∧
            ctx.nextChunkId ≤ ctx'.chunkCapacity ∨
          heap.chunks = false ∧ ctx'.chunkCapacity = ctx.chunkCapacity ∧
            ctx.chunkCapacity < ctx.nextChunkId) := by
  obtain ⟨m, hl, -, rfl⟩ | ⟨e, capacity, hl, hc, hcase⟩ := implRegisterChunkHeap_cases hf h
  · exact Or.inl ⟨by rw [hl]; rfl, rfl⟩
  have hnew : (mhtLookup ctx.chunkTable name).isOk = false := by
    rw [hl]
    rfl
  obtain ⟨hneed, -, -, -, hgrow⟩ := register_capacity hf hc
  obtain ⟨hrefused, -, rfl⟩ | ⟨hrefused, inserted, table, -, -, rfl⟩ := hcase
  · exact Or.inr ⟨hnew, rfl, Or.inr ⟨hrefused.2, rfl, hgrow hrefused.1⟩⟩
  · refine Or.inr ⟨hnew, rfl, Or.inl ⟨?_, hneed⟩⟩
    cases hheap : heap.chunks with
    | true => exact Or.inl rfl
    | false =>
      have hsame : ¬ ctx.chunkCapacity < capacity := fun hlt => hrefused ⟨hlt, hheap⟩
      exact Or.inr (by omega)

theorem setChunk_formed (hf : ctx.Formed) (id : ℕ) (ce : ChunkEntry) :
    (ctx.setChunk id ce).Formed := by
  refine ⟨hf.next_pos, hf.next_le, ?_, hf.capacity_pow, hf.table⟩
  rw [MetaServiceCtx.setChunk, List.length_set]
  exact hf.length_eq

theorem dropChunk_formed (hf : ctx.Formed) (id : ℕ) (ce : ChunkEntry) :
    (dropChunk ctx id ce).Formed := by
  have hset := setChunk_formed hf id { ce with valid := false }
  exact ⟨hset.next_pos, hset.next_le, hset.length_eq, hset.capacity_pow, mhtRemove_formed hf.table _⟩

theorem implAddRef_formed (hf : ctx.Formed) (id : ℕ) : (implAddRef ctx id).2.Formed := by
  unfold implAddRef
  split
  · exact hf
  · exact setChunk_formed hf id _

theorem implReleaseRef_formed (hf : ctx.Formed) (id : ℕ) : (implReleaseRef ctx id).2.Formed := by
  unfold implReleaseRef
  split
  next => exact hf
  next ce _ =>
    dsimp only
    by_cases hlast : (if 0 < ce.refCount then ce.refCount - 1 else ce.refCount) = 0
    · rw [if_pos hlast]
      exact dropChunk_formed hf id _
    · rw [if_neg hlast]
      exact setChunk_formed hf id _

/-- The calls that look chunks up do not change which identifiers were given out. -/
theorem run_bounds (hreg : ∀ heap name gpa size, call ≠ .register heap name gpa size)
    (h : call.run ctx = some ctx') :
    ctx'.nextChunkId = ctx.nextChunkId ∧ ctx'.chunkCapacity = ctx.chunkCapacity := by
  cases call with
  | register heap name gpa size => exact absurd rfl (hreg heap name gpa size)
  | lookup name =>
    obtain rfl := Option.some.inj h
    exact ⟨rfl, rfl⟩
  | lookupById id =>
    obtain rfl := Option.some.inj h
    exact ⟨rfl, rfl⟩
  | list node maxOut =>
    obtain rfl := Option.some.inj h
    exact ⟨rfl, rfl⟩
  | unregister id =>
    obtain rfl := Option.some.inj h
    unfold implUnregisterChunk
    split <;> exact ⟨rfl, rfl⟩
  | addRef id =>
    obtain rfl := Option.some.inj h
    unfold implAddRef
    split <;> exact ⟨rfl, rfl⟩
  | releaseRef id =>
    obtain rfl := Option.some.inj h
    unfold implReleaseRef
    split
    · exact ⟨rfl, rfl⟩
    · dsimp only
      split_ifs <;> exact ⟨rfl, rfl⟩

theorem run_formed (hf : ctx.Formed) (h : call.run ctx = some ctx') : ctx'.Formed := by
  cases call with
  | register heap name gpa size =>
    obtain ⟨⟨r, _⟩, hreg, rfl⟩ := Option.map_eq_some_iff.mp h
    exact (implRegisterChunkHeap_spec hf hreg).1
  | lookup name => exact Option.some.inj h ▸ hf
  | lookupById id => exact Option.some.inj h ▸ hf
  | list node maxOut => exact Option.some.inj h ▸ hf
  | unregister id => exact Option.some.inj h ▸ implUnregisterChunk_formed hf _
  | addRef id => exact Option.some.inj h ▸ implAddRef_formed hf _
  | releaseRef id => exact Option.some.inj h ▸ implReleaseRef_formed hf _

theorem run_roomy (hf : ctx.Formed) (hr : ctx.Roomy) (hgrants : call.Grants ctx)
    (h : call.run ctx = some ctx') : ctx'.Roomy := by
  unfold MetaServiceCtx.Roomy at hr ⊢
  by_cases hreg : ∃ heap name gpa size, call = .register heap name gpa size
  · obtain ⟨heap, name, gpa, size, rfl⟩ := hreg
    obtain ⟨⟨r, _⟩, hrun, rfl⟩ := Option.map_eq_some_iff.mp h
    obtain ⟨-, rfl⟩ | ⟨hnew, hid, ⟨-, hplace⟩ | ⟨hrefused, hcap, hfull⟩⟩ :=
      implRegisterChunkHeap_next hf hrun
    · exact hr
    · dsimp only
      omega
    · -- The array had to grow and was refused, which the condition excludes.
      obtain hg | hg | hg := hgrants
      · rw [hg] at hrefused
        exact Bool.noConfusion hrefused
      · rw [hg] at hnew
        exact Bool.noConfusion hnew
      · omega
  · obtain ⟨hid, hcap⟩ := run_bounds (fun heap name gpa size he => hreg ⟨heap, name, gpa, size, he⟩) h
    omega

theorem inRange_of_roomy (hr : ctx.Roomy) (call : DirectoryCall) : call.InRange ctx := by
  intro id _ i hi
  unfold chunkIndex at hi
  unfold MetaServiceCtx.Roomy at hr
  split_ifs at hi with hout
  obtain rfl := Option.some.inj hi
  omega

/-- A refused array leaves an identifier without a place. -/
theorem lookupById_outside (hf : ctx.Formed)
    (hrefused : ¬ (DirectoryCall.register heap name gpa size).Grants ctx)
    (h : (DirectoryCall.register heap name gpa size).run ctx = some ctx') :
    ¬ (DirectoryCall.lookupById (UInt64.ofNat ctx.nextChunkId)).InRange ctx' := by
  have hnext := hf.next_le
  have hpos := hf.next_pos
  have hid : (UInt64.ofNat ctx.nextChunkId).toNat = ctx.nextChunkId :=
    UInt64.toNat_ofNat_of_lt' (by norm_num; omega)
  unfold DirectoryCall.Grants at hrefused
  push Not at hrefused
  obtain ⟨⟨r, _⟩, hrun, rfl⟩ := Option.map_eq_some_iff.mp h
  obtain ⟨hok, -⟩ | ⟨-, hnext', ⟨hg | hg, -⟩ | ⟨-, hcap, hfull⟩⟩ :=
    implRegisterChunkHeap_next hf hrun
  · exact absurd hok hrefused.2.1
  · exact absurd hg hrefused.1
  · omega
  · intro hin
    have hlt := hin ctx.nextChunkId (by rw [DirectoryCall.lookups, hid]; exact List.mem_singleton_self _)
      (ctx.nextChunkId - 1) (if_neg (by dsimp only; omega))
    dsimp only at hlt
    omega

end Runs

/-- As long as the array of chunks gets the memory it asks for, every index lies in it; a
registration that does not get it leaves an identifier whose lookup goes past the end. -/
theorem findChunkById_inRange {ctx : Directory}
    (h : Reach DirectoryInit (Guarded DirectoryCall.Grants DirectoryCall.Step) ctx) :
    (∀ call : DirectoryCall, call.InRange ctx) ∧
      ∀ (call : DirectoryCall) (ctx' : Directory), ¬ call.Grants ctx → call.Step ctx ctx' →
        ∃ later : DirectoryCall, ¬ later.InRange ctx' := by
  have hinv : ctx.Formed ∧ ctx.Roomy := by
    refine h.invariant (P := fun ctx => ctx.Formed ∧ ctx.Roomy) (fun s hs => ?_) fun s call t hs ht => ?_
    · refine ⟨metaServiceDirectCreate_formed hs, ?_⟩
      obtain ⟨table, -, rfl⟩ := Option.map_eq_some_iff.mp hs
      exact le_rfl
    · exact ⟨run_formed hs.1 ht.2, run_roomy hs.1 hs.2 ht.1 ht.2⟩
  refine ⟨inRange_of_roomy hinv.2, fun call ctx' hrefused hstep => ?_⟩
  cases call with
  | register heap name gpa size => exact ⟨_, lookupById_outside hinv.1 hrefused hstep⟩
  | lookup name => exact absurd trivial hrefused
  | lookupById id => exact absurd trivial hrefused
  | unregister id => exact absurd trivial hrefused
  | addRef id => exact absurd trivial hrefused
  | releaseRef id => exact absurd trivial hrefused
  | list node maxOut => exact absurd trivial hrefused

/-- A chunk of 4096 bytes under the empty name. -/
def registerPage (heap : HeapGrants) : DirectoryCall := .register heap (.ofBytes []) 0 4096

theorem findChunkById_inRange_one : ∃ ctx, (registerPage .all).Step firstDirectory ctx ∧
    ∀ call : DirectoryCall, call.InRange ctx :=
  ⟨_, rfl, (findChunkById_inRange (.next (registerPage .all) (.start rfl) ⟨Or.inl rfl, rfl⟩)).1⟩

/-- `realloc` fails in the first registration, and identifier 1 is looked up. -/
theorem findChunkById_outside : ¬ ∀ ctx, Reach DirectoryInit DirectoryCall.Step ctx →
    ∀ call : DirectoryCall, call.InRange ctx := by
  intro h
  have hstep : (registerPage ⟨false, true, true⟩).Step firstDirectory
      { firstDirectory with nextChunkId := 2 } := rfl
  have hlast := h _ (.next _ (.start rfl) hstep) (.lookupById 1) 1 (by decide) 0 rfl
  exact absurd hlast (lt_irrefl 0)

end Umm
