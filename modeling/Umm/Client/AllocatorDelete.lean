import Umm.Client.AllocatorRuns
import Umm.Client.ApiRuns

/-! The allocator on top of the client of UMM, where a chunk that is given back may raise. The
chunk then stays with the allocator, whatever `umm_free` has done to its memory. -/
namespace Umm
open Umm.Lib

/-- The answers to one `umm_free`. A memory server may have released the pages though its reply
does not say so. -/
structure DeleteEnv where
  env : CallEnv
  released : Bool
  released_of_ok : env.memFree = .ok () → released = true

section Free

variable {N : Type}

/-- The memory service marks the pages of the chunk free. -/
def ummFreeReleases (g : UmmGlobalState N) (desc : ChunkDescriptor) (d : DeleteEnv) : Bool :=
  g.initialized && (ummDescValidate desc).isOk &&
    match g.localMem with
    | some m =>
      (memsvcFreeTiered m ((Tier.ofId (gpaToTier desc.baseGpa)).getD .cxl)
        (gpaToOffset desc.baseGpa) desc.userSize).1.isOk
    | none => g.memClient && d.released

/-- The metadata service knows the chunk, and a metadata server says so. -/
def Listed (g : UmmGlobalState N) (chunkId : ℕ) (env : CallEnv) : Prop :=
  chunkId = 0 ∨
    match g.localMeta with
    | some ctx => (findChunkById ctx chunkId).isSome
    | none => g.metaClient = true → env.metaUnregister = .ok ()

/-- If the pages are released, the chunk is listed, and a memory server replies that it released
them. -/
def ReleaseReported (g : UmmGlobalState N) (desc : ChunkDescriptor) (d : DeleteEnv) : Prop :=
  ummFreeReleases g desc d = true →
    Listed g desc.chunkId d.env ∧ (g.localMem = none → d.env.memFree = .ok ())

end Free

/-- What `free` and `alloc` of the allocator raise: an error of their own, or the one of
`umm_free`. -/
inductive DeleteError
  | own (e : AllocatorError)
  | umm (e : Error)
deriving DecidableEq, Repr

def ChunkBuffer.desc (cb : ChunkBuffer) : ChunkDescriptor :=
  ⟨cb.chunkId, cb.baseGpa, cb.totalSize⟩

/-- The call behind `create_chunk`. -/
def createCall (size : ℕ) (mediaType : MediaType) (deviceIdx : Option ℤ) : AllocCall :=
  match mediaType, deviceIdx with
  | .dram, _ => .alloc (UInt64.ofNat size)
  | .ssd, none => .allocTiered (UInt64.ofNat size) 2
  | .ssd, some i => .allocOnDevice (UInt64.ofNat size) 2 (UInt32.ofInt i)

/-- The allocator and the client that it calls. The last three fields are history: the chunks that
UMM granted and whose memory it did not mark free since, the ids of all chunks that it granted, and
the blocks that `alloc` returned. -/
structure AllocatorWorld (N : Type) where
  py : FineGrainedAllocator
  g : UmmGlobalState N
  granted : List ChunkDescriptor
  ids : List ℕ
  issued : List Block

namespace AllocatorWorld

section Calls

variable {N : Type} [NameTable N] (w : AllocatorWorld N)

def createChunk (size : ℕ) (mediaType : MediaType) (deviceIdx : Option ℤ) (env : CallEnv) :
    Option (Option ChunkDescriptor × AllocatorWorld N) :=
  ((createCall size mediaType deviceIdx).run w.g env).map fun r =>
    match r with
    | (.ok desc, g) =>
      (some desc, { w with g := g, granted := desc :: w.granted, ids := desc.chunkId :: w.ids })
    | (.error _, g) => (none, { w with g := g })

def deleteChunk (desc : ChunkDescriptor) (d : DeleteEnv) : Except Error Unit × AllocatorWorld N :=
  let r := ummFree w.g desc d.env
  (r.1, { w with
    g := r.2
    granted := if ummFreeReleases w.g desc d then w.granted.erase desc else w.granted })

/-- The part of `alloc` behind `create_chunk`. -/
def cutNew (size : ℕ) (mediaType : MediaType) (deviceIdx : Option ℤ) (d : DeleteEnv) :
    Option ChunkDescriptor → Except DeleteError Block × AllocatorWorld N
  | none => (.error (.own .exhausted), w)
  | some desc =>
    match (ChunkBuffer.ofDesc desc mediaType deviceIdx).alloc size with
    | none =>
      let out := w.deleteChunk desc d
      match out.1 with
      | .error e => (.error (.umm e), out.2)
      | .ok () => (.error (.own .exhausted), out.2)
    | some (offset, cb) =>
      let block := cb.block offset size
      (.ok block, { w with
        py := { w.py.setChunks mediaType ((w.py.chunksOf mediaType).put cb) with
          live := block :: w.py.live }
        issued := block :: w.issued })

def alloc (size : ℕ) (mediaType : Option MediaType) (deviceIdx : Option ℤ) (env : CallEnv)
    (d : DeleteEnv) : Option (Except DeleteError Block × AllocatorWorld N) :=
  match FineGrainedAllocator.checkArgs mediaType deviceIdx with
  | .error e => some (.error (.own e), w)
  | .ok mediaType =>
    match (w.py.chunksOf mediaType).alloc size deviceIdx with
    | some (block, chunks) =>
      some (.ok block, { w with
        py := { w.py.setChunks mediaType chunks with live := block :: w.py.live }
        issued := block :: w.issued })
    | none =>
      (w.createChunk (max size w.py.defaultChunkSize) mediaType deviceIdx env).map fun r =>
        r.2.cutNew size mediaType deviceIdx d r.1

/-- The medium and the chunk in which a block is looked for. -/
def find (block : Block) : Option (MediaType × ChunkBuffer) :=
  match w.py.dram.get block.chunkId with
  | some cb => some (.dram, cb)
  | none => (w.py.ssd.get block.chunkId).map fun cb => (.ssd, cb)

/-- The chunk that is given back when the block is freed. -/
def deletes (block : Block) : Option ChunkDescriptor :=
  (w.find block).bind fun found =>
    let cb := found.2.free block.offset block.size
    if cb.isFullyFree then some cb.desc else none

/-- The chunk is dropped when `delete_chunk` has returned, not when it raises. -/
def free (block : Block) (d : DeleteEnv) : Except Error Unit × AllocatorWorld N :=
  match w.find block with
  | none => (.ok (), w)
  | some (mediaType, cb) =>
    let cb := cb.free block.offset block.size
    let py := { w.py.setChunks mediaType ((w.py.chunksOf mediaType).put cb) with
      live := w.py.live.erase block }
    let w := { w with py := py }
    if cb.isFullyFree then
      let out := w.deleteChunk cb.desc d
      match out.1 with
      | .error e => (.error e, out.2)
      | .ok () =>
        (.ok (), { out.2 with
          py := { py.setChunks mediaType ((py.chunksOf mediaType).del block.chunkId) with
            returned := py.returned ++ [cb.chunkId] } })
    else (.ok (), w)

/-- The loop of `preallocate_chunks`. -/
def addChunks (chunkSize : ℕ) (mediaType : MediaType) (deviceIdx : Option ℤ) :
    List CallEnv → AllocatorWorld N → Option (Except AllocatorError Unit × AllocatorWorld N)
  | [], w => some (.ok (), w)
  | env :: envs, w =>
    (w.createChunk chunkSize mediaType deviceIdx env).bind fun r =>
      match r with
      | (none, w) => some (.error .exhausted, w)
      | (some desc, w) =>
        addChunks chunkSize mediaType deviceIdx envs { w with
          py := w.py.setChunks mediaType
            ((w.py.chunksOf mediaType).put (.ofDesc desc mediaType deviceIdx)) }

def preallocateChunks (count : ℤ) (chunkSize : ℕ) (mediaType : Option MediaType)
    (deviceIdx : Option ℤ) (envs : ℕ → CallEnv) :
    Option (Except AllocatorError Unit × AllocatorWorld N) :=
  match FineGrainedAllocator.checkArgs mediaType deviceIdx with
  | .error e => some (.error e, w)
  | .ok mediaType => addChunks chunkSize mediaType deviceIdx ((List.range count.toNat).map envs) w

end Calls

end AllocatorWorld

inductive WorldEvent
  | alloc (size : ℕ) (mediaType : Option MediaType) (deviceIdx : Option ℤ) (env : CallEnv)
      (d : DeleteEnv)
  | free (block : Block) (d : DeleteEnv)
  | preallocate (count : ℤ) (chunkSize : ℕ) (mediaType : Option MediaType) (deviceIdx : Option ℤ)
      (envs : ℕ → CallEnv)

namespace AllocatorWorld

variable {N : Type} [NameTable N]

def next (w : AllocatorWorld N) : WorldEvent → Option (AllocatorWorld N)
  | .alloc size mediaType deviceIdx env d => (w.alloc size mediaType deviceIdx env d).map Prod.snd
  | .free block d => some (w.free block d).2
  | .preallocate count chunkSize mediaType deviceIdx envs =>
    (w.preallocateChunks count chunkSize mediaType deviceIdx envs).map Prod.snd

def Step (w : AllocatorWorld N) (e : WorldEvent) (w' : AllocatorWorld N) : Prop :=
  w.next e = some w'

/-- An allocator without chunks, on any client. -/
def Init (w : AllocatorWorld N) : Prop :=
  ∃ defaultChunkSize g, w = ⟨.init defaultChunkSize, g, [], [], []⟩

/-- Only blocks are freed that `alloc` returned, though maybe twice, and UMM never grants an id
again. -/
def Fair (w : AllocatorWorld N) (e : WorldEvent) : Prop :=
  (∀ block d, e = .free block d → block ∈ w.issued) ∧ ∀ w', w.Step e w' → w'.ids.Nodup

/-- No chunk is given back so that its memory is released and an error is reported. -/
def Reported (w : AllocatorWorld N) : WorldEvent → Prop
  | .free block d => ∀ desc, w.deletes block = some desc → ReleaseReported w.g desc d
  | _ => True

/-- The bytes of the block belong to a chunk that UMM granted and did not mark free since. -/
def Owns (w : AllocatorWorld N) (block : Block) : Prop :=
  ∃ desc ∈ w.granted, desc.chunkId = block.chunkId ∧ desc.baseGpa ≤ block.gpa + block.offset ∧
    block.gpa + block.offset + block.size ≤ desc.baseGpa + desc.userSize

end AllocatorWorld

section Free

variable {N : Type} [NameTable N] {g : UmmGlobalState N} {desc : ChunkDescriptor} {d : DeleteEnv}

theorem Listed.unregisterChunk_ok {chunkId : ℕ} {env : CallEnv} (h : Listed g chunkId env) :
    (unregisterChunk g chunkId env).1 = .ok () := by
  unfold Umm.unregisterChunk
  by_cases hzero : chunkId = 0
  · rw [if_pos hzero]
  · have hknown := h.resolve_left hzero
    rw [if_neg hzero]
    cases hmeta : g.localMeta with
    | some ctx =>
      rw [hmeta] at hknown
      obtain ⟨ce, hce⟩ := Option.isSome_iff_exists.mp hknown
      dsimp only
      unfold implUnregisterChunk
      rw [hce]
    | none =>
      rw [hmeta] at hknown
      dsimp only
      split_ifs with hclient
      · exact hknown hclient
      · rfl

theorem unregisterChunk_mem (g : UmmGlobalState N) (chunkId : ℕ) (env : CallEnv) :
    (unregisterChunk g chunkId env).2.localMem = g.localMem ∧
      (unregisterChunk g chunkId env).2.memClient = g.memClient := by
  unfold unregisterChunk
  by_cases hzero : chunkId = 0
  · rw [if_pos hzero]
    exact ⟨rfl, rfl⟩
  · rw [if_neg hzero]
    cases g.localMeta with
    | some ctx => exact ⟨rfl, rfl⟩
    | none =>
      dsimp only
      split_ifs
      · exact ⟨rfl, rfl⟩
      · exact ⟨rfl, rfl⟩

/-- A release that is reported does not raise. -/
theorem ReleaseReported.ummFree_ok (h : ReleaseReported g desc d)
    (hreleased : ummFreeReleases g desc d = true) : (ummFree g desc d.env).1 = .ok () := by
  obtain ⟨hlisted, hreply⟩ := h hreleased
  obtain ⟨hmem, hclient⟩ := unregisterChunk_mem g desc.chunkId d.env
  unfold ummFreeReleases at hreleased
  rw [Bool.and_eq_true, Bool.and_eq_true] at hreleased
  obtain ⟨⟨hinit, hvalid⟩, hmemory⟩ := hreleased
  unfold ummFree
  rw [hinit, if_neg (by decide)]
  cases hdesc : ummDescValidate desc with
  | error e =>
    rw [hdesc] at hvalid
    cases hvalid
  | ok u =>
    dsimp only
    rw [hlisted.unregisterChunk_ok]
    cases hlocal : g.localMem with
    | some m =>
      rw [hlocal] at hmemory
      rw [if_neg (by simp)]
      dsimp only
      unfold UmmGlobalState.freeMemory
      rw [hmem, hlocal]
      dsimp only
      cases hr : (memsvcFreeTiered m ((Tier.ofId (gpaToTier desc.baseGpa)).getD .cxl)
          (gpaToOffset desc.baseGpa) desc.userSize).1 with
      | ok u => rfl
      | error e =>
        dsimp only at hmemory
        rw [hr] at hmemory
        cases hmemory
    | none =>
      rw [hlocal] at hmemory
      rw [Bool.and_eq_true] at hmemory
      rw [hmemory.1, if_neg (by simp)]
      dsimp only
      unfold UmmGlobalState.freeMemory
      rw [hmem, hlocal]
      dsimp only
      rw [hclient, hmemory.1, if_pos rfl]
      exact hreply hlocal

/-- Without a release an embedded memory service is as it was. -/
theorem ummFree_mem_of_not_released (h : ummFreeReleases g desc d = false) :
    (ummFree g desc d.env).2.localMem = g.localMem := by
  obtain ⟨hmem, -⟩ := unregisterChunk_mem g desc.chunkId d.env
  have hfree : g.initialized = true → ummDescValidate desc = .ok () →
      ((unregisterChunk g desc.chunkId d.env).2.freeMemory desc.baseGpa desc.userSize
        d.env).2.localMem = g.localMem := by
    intro hinit hvalid
    unfold ummFreeReleases at h
    rw [hinit, hvalid] at h
    unfold UmmGlobalState.freeMemory
    cases hlocal : g.localMem with
    | none =>
      rw [hlocal] at hmem
      rw [hmem]
      dsimp only
      split_ifs
      · exact hmem
      · exact hmem
    | some m =>
      rw [hlocal] at hmem h
      rw [hmem]
      dsimp only
      cases hr : memsvcFreeTiered m ((Tier.ofId (gpaToTier desc.baseGpa)).getD .cxl)
          (gpaToOffset desc.baseGpa) desc.userSize with
      | mk r m' =>
        cases r with
        | error e => rw [memsvcFreeTiered_error hr]
        | ok u =>
          dsimp only at h
          rw [hr] at h
          cases h
  unfold ummFree
  by_cases hinit : g.initialized = false
  · rw [if_pos hinit]
  · rw [if_neg hinit]
    cases hvalid : ummDescValidate desc with
    | error e => rfl
    | ok u =>
      dsimp only
      split_ifs
      · exact hmem
      · have hkept := hfree (Bool.eq_true_of_not_eq_false hinit) hvalid
        split
        · exact hkept
        · exact hkept

end Free

/-- What the allocator knows of its chunks, in any order: each was granted with its own id and is
not marked free, and all blocks that were cut from it fit into it. -/
structure Chunks.Owned (chunks : Chunks) (granted : List ChunkDescriptor) (ids : List ℕ)
    (issued : List Block) : Prop where
  nodup : (chunks.map ChunkBuffer.chunkId).Nodup
  held : ∀ cb ∈ chunks, cb.desc ∈ granted
  named : ∀ cb ∈ chunks, cb.chunkId ∈ ids
  fits : ∀ cb ∈ chunks, FitsIn cb.totalSize cb.freeList
  known : ∀ block ∈ issued, block.chunkId ∈ ids
  inside : ∀ block ∈ issued, ∀ cb ∈ chunks, cb.chunkId = block.chunkId →
    block.offset + block.size ≤ cb.totalSize

namespace Chunks.Owned

variable {chunks chunks' : Chunks} {cb cb' : ChunkBuffer} {granted granted' : List ChunkDescriptor}
  {ids : List ℕ} {issued : List Block} {block : Block} {desc : ChunkDescriptor}

theorem perm (h : chunks.Owned granted ids issued) (hp : chunks.Perm chunks') :
    chunks'.Owned granted ids issued where
  nodup := (hp.map _).nodup_iff.mp h.nodup
  held := fun cb hcb => h.held cb (hp.mem_iff.mpr hcb)
  named := fun cb hcb => h.named cb (hp.mem_iff.mpr hcb)
  fits := fun cb hcb => h.fits cb (hp.mem_iff.mpr hcb)
  known := h.known
  inside := fun block hb cb hcb => h.inside block hb cb (hp.mem_iff.mpr hcb)

/-- Only the free list of a chunk changes. -/
theorem replace (h : Owned (cb :: chunks) granted ids issued) (hdesc : cb'.desc = cb.desc)
    (hfits : FitsIn cb'.totalSize cb'.freeList) : Owned (cb' :: chunks) granted ids issued := by
  obtain ⟨hid, -, htotal⟩ := ChunkDescriptor.mk.inj hdesc
  obtain ⟨hg, hgs⟩ := List.forall_mem_cons.mp h.held
  obtain ⟨hi, his⟩ := List.forall_mem_cons.mp h.named
  obtain ⟨-, hfs⟩ := List.forall_mem_cons.mp h.fits
  refine ⟨?_, List.forall_mem_cons.mpr ⟨hdesc ▸ hg, hgs⟩, List.forall_mem_cons.mpr ⟨hid ▸ hi, his⟩,
    List.forall_mem_cons.mpr ⟨hfits, hfs⟩, h.known, fun block hb => ?_⟩
  · have hnodup := h.nodup
    rw [List.map_cons] at hnodup ⊢
    rw [hid]
    exact hnodup
  · obtain ⟨hin, hins⟩ := List.forall_mem_cons.mp (h.inside block hb)
    refine List.forall_mem_cons.mpr ⟨fun he => ?_, hins⟩
    rw [htotal]
    exact hin (hid.symm.trans he)

/-- A block is cut from a chunk. -/
theorem issue (h : Owned (cb :: chunks) granted ids issued) (hid : block.chunkId = cb.chunkId)
    (hin : block.offset + block.size ≤ cb.totalSize) :
    Owned (cb :: chunks) granted ids (block :: issued) := by
  have hne := (List.nodup_cons.mp (List.map_cons ▸ h.nodup)).1
  refine ⟨h.nodup, h.held, h.named, h.fits, List.forall_mem_cons.mpr ⟨?_, h.known⟩,
    List.forall_mem_cons.mpr ⟨?_, h.inside⟩⟩
  · rw [hid]
    exact h.named cb List.mem_cons_self
  · refine List.forall_mem_cons.mpr ⟨fun _ => hin, fun a ha he => ?_⟩
    exact absurd (List.mem_map.mpr ⟨a, ha, he.trans hid⟩) hne

/-- A chunk is dropped; of what is granted only it may be missing then. -/
theorem drop (h : Owned (cb :: chunks) granted ids issued)
    (hg : ∀ desc ∈ granted, desc.chunkId ≠ cb.chunkId → desc ∈ granted') :
    Owned chunks granted' ids issued := by
  obtain ⟨hne, hnodup⟩ := List.nodup_cons.mp (List.map_cons ▸ h.nodup)
  refine ⟨hnodup, fun a ha => ?_, (List.forall_mem_cons.mp h.named).2,
    (List.forall_mem_cons.mp h.fits).2, h.known,
    fun block hb => (List.forall_mem_cons.mp (h.inside block hb)).2⟩
  refine hg _ (h.held a (List.mem_cons_of_mem _ ha)) fun he => ?_
  exact hne (List.mem_map.mpr ⟨a, ha, he⟩)

/-- UMM grants one more chunk. -/
theorem grant (h : chunks.Owned granted ids issued) (desc : ChunkDescriptor) (id : ℕ) :
    chunks.Owned (desc :: granted) (id :: ids) issued where
  nodup := h.nodup
  held := fun cb hcb => List.mem_cons_of_mem _ (h.held cb hcb)
  named := fun cb hcb => List.mem_cons_of_mem _ (h.named cb hcb)
  fits := h.fits
  known := fun block hb => List.mem_cons_of_mem _ (h.known block hb)
  inside := h.inside

/-- A chunk with a new id is kept. -/
theorem add (h : chunks.Owned granted ids issued) (hnew : cb.chunkId ∉ ids)
    (hfits : FitsIn cb.totalSize cb.freeList) :
    Owned (cb :: chunks) (cb.desc :: granted) (cb.chunkId :: ids) issued := by
  have hg := h.grant cb.desc cb.chunkId
  refine ⟨?_, List.forall_mem_cons.mpr ⟨List.mem_cons_self, hg.held⟩,
    List.forall_mem_cons.mpr ⟨List.mem_cons_self, hg.named⟩, List.forall_mem_cons.mpr ⟨hfits, h.fits⟩,
    hg.known, fun block hb => List.forall_mem_cons.mpr ⟨fun he => ?_, h.inside block hb⟩⟩
  · rw [List.map_cons, List.nodup_cons]
    refine ⟨fun hin => ?_, h.nodup⟩
    obtain ⟨a, ha, he⟩ := List.mem_map.mp hin
    exact hnew (he ▸ h.named a ha)
  · exact absurd (he ▸ h.known block hb) hnew

end Chunks.Owned

theorem ChunkBuffer.alloc_spec {cb cb' : ChunkBuffer} {size offset : ℕ}
    (hf : FitsIn cb.totalSize cb.freeList) (h : cb.alloc size = some (offset, cb')) :
    cb'.desc = cb.desc ∧ FitsIn cb'.totalSize cb'.freeList ∧ offset + size ≤ cb.totalSize := by
  obtain ⟨found, hfound, he⟩ := Option.map_eq_some_iff.mp h
  obtain ⟨rfl, rfl⟩ := Prod.mk.inj he
  obtain ⟨hle, hrest⟩ := hf.takeFirst hfound
  exact ⟨rfl, hrest, hle⟩

/-- The chunk that has an id, among all: what becomes of it is put in its place, or taken out. -/
theorem FineGrainedAllocator.perm_of_get {s : FineGrainedAllocator} {cb : ChunkBuffer} {id : ℕ}
    {mediaType : MediaType} (hids : (s.all.map ChunkBuffer.chunkId).Nodup)
    (hget : (s.chunksOf mediaType).get id = some cb) :
    cb.chunkId = id ∧ ∃ rest, s.all.Perm (cb :: rest) ∧ ∀ cb' : ChunkBuffer, cb'.chunkId = id →
      (s.setChunks mediaType ((s.chunksOf mediaType).put cb')).all.Perm (cb' :: rest) ∧
      (s.setChunks mediaType (((s.chunksOf mediaType).put cb').del id)).all.Perm rest := by
  obtain ⟨pre, post, hchunks, hid, hpre⟩ := Chunks.get_eq_some hget
  have hpost := ids_post hids hchunks
  have hmid : s.chunksOf mediaType = pre ++ [cb] ++ post := by
    rw [hchunks, List.append_assoc, List.singleton_append]
  obtain ⟨before, after, hall, hset⟩ := all_split mediaType s hmid
  have hmiddle : ∀ cb' : ChunkBuffer, (before ++ [cb'] ++ after).Perm (cb' :: (before ++ after)) := by
    intro cb'
    rw [List.append_assoc, List.singleton_append]
    exact List.perm_middle
  refine ⟨hid, before ++ after, hall ▸ hmiddle cb, fun cb' hid' => ?_⟩
  have hput : (s.chunksOf mediaType).put cb' = pre ++ cb' :: post := by
    rw [hchunks]
    exact Chunks.put_middle (hid'.symm ▸ hpre) (hid.trans hid'.symm)
  have hset' := hset [cb']
  rw [List.append_assoc, List.singleton_append] at hset'
  rw [hput, hset']
  refine ⟨hmiddle cb', ?_⟩
  have hdel := hset []
  rw [List.append_nil, List.append_nil] at hdel
  rw [← hid', Chunks.del_middle (hid'.symm ▸ hpre) (by rw [hid', ← hid]; exact hpost), hdel]

namespace AllocatorWorld

variable {N : Type} [NameTable N] {w w' : AllocatorWorld N}

/-- The invariant of a run. -/
def Inv (w : AllocatorWorld N) : Prop := w.py.all.Owned w.granted w.ids w.issued

omit [NameTable N] in
/-- A block that is cut from a chunk that is held. -/
theorem owns_block {cb : ChunkBuffer} {offset size : ℕ} (hg : cb.desc ∈ w.granted)
    (hin : offset + size ≤ cb.totalSize) : w.Owns (cb.block offset size) := by
  refine ⟨cb.desc, hg, rfl, ?_, ?_⟩
  · exact Nat.le_add_right _ _
  · change cb.baseGpa + offset + size ≤ cb.baseGpa + cb.totalSize
    omega

theorem createChunk_cases {size : ℕ} {mediaType : MediaType} {deviceIdx : Option ℤ} {env : CallEnv}
    {r : Option ChunkDescriptor} (h : w.createChunk size mediaType deviceIdx env = some (r, w')) :
    (r = none ∧ ∃ g, w' = { w with g := g }) ∨
    ∃ desc g, r = some desc ∧
      w' = { w with g := g, granted := desc :: w.granted, ids := desc.chunkId :: w.ids } := by
  obtain ⟨⟨answer, g⟩, hrun, he⟩ := Option.map_eq_some_iff.mp h
  cases answer with
  | ok desc =>
    obtain ⟨rfl, rfl⟩ := Prod.mk.inj he
    exact .inr ⟨desc, g, rfl, rfl⟩
  | error e =>
    obtain ⟨rfl, rfl⟩ := Prod.mk.inj he
    exact .inl ⟨rfl, g, rfl⟩

/-- How the part of `alloc` behind `create_chunk` goes: the chunk is given back, or the block is
cut from it. -/
theorem cutNew_cases {size : ℕ} {mediaType : MediaType} {deviceIdx : Option ℤ} {d : DeleteEnv}
    {desc : ChunkDescriptor} {r : Except DeleteError Block}
    (h : w.cutNew size mediaType deviceIdx d (some desc) = (r, w')) :
    (∃ e, r = .error e ∧ w' = (w.deleteChunk desc d).2) ∨
    ∃ offset cb, (ChunkBuffer.ofDesc desc mediaType deviceIdx).alloc size = some (offset, cb) ∧
      r = .ok (cb.block offset size) ∧ w' = { w with
        py := { w.py.setChunks mediaType ((w.py.chunksOf mediaType).put cb) with
          live := cb.block offset size :: w.py.live }
        issued := cb.block offset size :: w.issued } := by
  unfold cutNew at h
  dsimp only at h
  split at h
  next hnone =>
    split at h
    next e hraise =>
      obtain ⟨rfl, rfl⟩ := Prod.mk.inj h
      exact .inl ⟨_, rfl, rfl⟩
    next hdone =>
      obtain ⟨rfl, rfl⟩ := Prod.mk.inj h
      exact .inl ⟨_, rfl, rfl⟩
  next offset cb halloc =>
    obtain ⟨rfl, rfl⟩ := Prod.mk.inj h
    exact .inr ⟨offset, cb, halloc, rfl, rfl⟩

theorem fitsIn_ofDesc (desc : ChunkDescriptor) (mediaType : MediaType) (deviceIdx : Option ℤ) :
    FitsIn (ChunkBuffer.ofDesc desc mediaType deviceIdx).totalSize
      (ChunkBuffer.ofDesc desc mediaType deviceIdx).freeList :=
  List.forall_mem_singleton.mpr (Nat.zero_add _).le

/-- A chunk with a new id goes behind the others. -/
theorem all_put_perm (s : FineGrainedAllocator) (mediaType : MediaType) {cb : ChunkBuffer}
    (hfresh : ∀ a ∈ s.all, a.chunkId ≠ cb.chunkId) :
    (s.setChunks mediaType ((s.chunksOf mediaType).put cb)).all.Perm (cb :: s.all) := by
  obtain ⟨before, after, hall, hput⟩ := FineGrainedAllocator.all_put mediaType s hfresh
  rw [hput cb rfl, hall, List.append_assoc, List.singleton_append]
  exact List.perm_middle

omit [NameTable N] in
theorem Inv.fresh (h : w.Inv) {id : ℕ} (hnew : id ∉ w.ids) : ∀ a ∈ w.py.all, a.chunkId ≠ id :=
  fun a ha he => hnew (he ▸ h.named a ha)

/-- A block from a chunk that is new. -/
theorem Inv.cutNew (h : w.Inv) {size : ℕ} {mediaType : MediaType} {deviceIdx : Option ℤ}
    {d : DeleteEnv} {desc : ChunkDescriptor} {g : UmmGlobalState N} {r : Except DeleteError Block}
    (hnew : desc.chunkId ∉ w.ids)
    (hcut : AllocatorWorld.cutNew { w with
        g := g, granted := desc :: w.granted, ids := desc.chunkId :: w.ids }
      size mediaType deviceIdx d (some desc) = (r, w')) : w'.Inv := by
  obtain ⟨e, -, rfl⟩ | ⟨offset, cb, halloc, -, rfl⟩ := cutNew_cases hcut
  · have hgranted := h.grant desc desc.chunkId
    unfold Inv AllocatorWorld.deleteChunk
    dsimp only
    split_ifs
    · rw [List.erase_cons_head]
      exact ⟨h.nodup, h.held, hgranted.named, h.fits, hgranted.known, h.inside⟩
    · exact hgranted
  · obtain ⟨hdesc, hfits, hin⟩ := ChunkBuffer.alloc_spec (fitsIn_ofDesc desc mediaType deviceIdx)
      halloc
    have hid : cb.chunkId = desc.chunkId := (ChunkDescriptor.mk.inj hdesc).1
    have hadd : Chunks.Owned (.ofDesc desc mediaType deviceIdx :: w.py.all) (desc :: w.granted)
        (desc.chunkId :: w.ids) w.issued := h.add hnew (fitsIn_ofDesc desc mediaType deviceIdx)
    have hperm := all_put_perm w.py mediaType (h.fresh (hid.symm ▸ hnew))
    have htotal : cb.totalSize = desc.userSize := (ChunkDescriptor.mk.inj hdesc).2.2
    exact ((hadd.replace hdesc hfits).issue rfl (htotal.symm ▸ hin)).perm hperm.symm

omit [NameTable N] in
/-- A block from a chunk that is held. -/
theorem Inv.cut (h : w.Inv) {size : ℕ} {mediaType : MediaType} {deviceIdx : Option ℤ}
    {block : Block} {chunks : Chunks}
    (hfound : (w.py.chunksOf mediaType).alloc size deviceIdx = some (block, chunks)) :
    w.Owns block ∧ Inv { w with
      py := { w.py.setChunks mediaType chunks with live := block :: w.py.live }
      issued := block :: w.issued } := by
  obtain ⟨pre, cb, cb', post, offset, hchunks, rfl, halloc, rfl⟩ := Chunks.alloc_eq_some hfound
  have hmid : w.py.chunksOf mediaType = pre ++ [cb] ++ post := by
    rw [hchunks, List.append_assoc, List.singleton_append]
  obtain ⟨before, after, hall, hset⟩ := FineGrainedAllocator.all_split mediaType w.py hmid
  have hset' := hset [cb']
  rw [List.append_assoc, List.singleton_append] at hset'
  have hmiddle : ∀ a : ChunkBuffer, (before ++ [a] ++ after).Perm (a :: (before ++ after)) := by
    intro a
    rw [List.append_assoc, List.singleton_append]
    exact List.perm_middle
  have hown : Chunks.Owned (cb :: (before ++ after)) w.granted w.ids w.issued :=
    h.perm (hall ▸ hmiddle cb)
  obtain ⟨hdesc, hfits, hin⟩ :=
    ChunkBuffer.alloc_spec (hown.fits cb List.mem_cons_self) halloc
  obtain ⟨hid, -, htotal⟩ := ChunkDescriptor.mk.inj hdesc
  have hcut : Chunks.Owned (cb' :: (before ++ after)) w.granted w.ids
      (cb.block offset size :: w.issued) :=
    (hown.replace hdesc hfits).issue hid.symm (htotal.symm ▸ hin)
  refine ⟨owns_block (hown.held cb List.mem_cons_self) hin, hcut.perm ?_⟩
  have hperm := (hmiddle cb').symm
  rw [← hset'] at hperm
  exact hperm

theorem alloc_cases {size : ℕ} {mediaType : Option MediaType} {deviceIdx : Option ℤ} {env : CallEnv}
    {d : DeleteEnv} {r : Except DeleteError Block}
    (h : w.alloc size mediaType deviceIdx env d = some (r, w')) :
    (∃ e, r = .error e ∧ w' = w) ∨
    (∃ medium block chunks, (w.py.chunksOf medium).alloc size deviceIdx = some (block, chunks) ∧
      r = .ok block ∧ w' = { w with
        py := { w.py.setChunks medium chunks with live := block :: w.py.live }
        issued := block :: w.issued }) ∨
    (∃ e g, r = .error e ∧ w' = { w with g := g }) ∨
    ∃ medium desc g, AllocatorWorld.cutNew { w with
        g := g, granted := desc :: w.granted, ids := desc.chunkId :: w.ids }
      size medium deviceIdx d (some desc) = (r, w') := by
  unfold AllocatorWorld.alloc at h
  split at h
  next e hargs =>
    obtain ⟨rfl, rfl⟩ := Prod.mk.inj (Option.some.inj h)
    exact .inl ⟨_, rfl, rfl⟩
  next medium hargs =>
    split at h
    next block chunks hfound =>
      obtain ⟨rfl, rfl⟩ := Prod.mk.inj (Option.some.inj h)
      exact .inr (.inl ⟨medium, block, chunks, hfound, rfl, rfl⟩)
    next hnone =>
      obtain ⟨⟨desc, w₁⟩, hcreate, hcut⟩ := Option.map_eq_some_iff.mp h
      obtain ⟨rfl, g, rfl⟩ | ⟨desc, g, rfl, rfl⟩ := createChunk_cases hcreate
      · obtain ⟨rfl, rfl⟩ := Prod.mk.inj hcut
        exact .inr (.inr (.inl ⟨_, g, rfl, rfl⟩))
      · exact .inr (.inr (.inr ⟨medium, desc, g, hcut⟩))

theorem cutNew_ids {size : ℕ} {mediaType : MediaType} {deviceIdx : Option ℤ} {d : DeleteEnv}
    {desc : ChunkDescriptor} {r : Except DeleteError Block}
    (h : w.cutNew size mediaType deviceIdx d (some desc) = (r, w')) : w'.ids = w.ids := by
  obtain ⟨e, -, rfl⟩ | ⟨offset, cb, -, -, rfl⟩ := cutNew_cases h
  · rfl
  · rfl

/-- `alloc` returns blocks of chunks that are not marked free. -/
theorem Inv.alloc_owns (h : w.Inv) {size : ℕ} {mediaType : Option MediaType} {deviceIdx : Option ℤ}
    {env : CallEnv} {d : DeleteEnv} {block : Block}
    (halloc : w.alloc size mediaType deviceIdx env d = some (.ok block, w')) : w'.Owns block := by
  obtain ⟨e, he, -⟩ | ⟨medium, block', chunks, hfound, hr, rfl⟩ | ⟨e, g, he, -⟩ |
    ⟨medium, desc, g, hcut⟩ := alloc_cases halloc
  · cases he
  · obtain rfl := Except.ok.inj hr
    exact (h.cut hfound).1
  · cases he
  · obtain ⟨e, he, -⟩ | ⟨offset, cb, hnew, hr, rfl⟩ := cutNew_cases hcut
    · cases he
    · obtain rfl := Except.ok.inj hr
      obtain ⟨hdesc, -, hin⟩ := ChunkBuffer.alloc_spec (fitsIn_ofDesc desc medium deviceIdx) hnew
      have htotal : cb.totalSize = desc.userSize := (ChunkDescriptor.mk.inj hdesc).2.2
      refine owns_block ?_ (htotal.symm ▸ hin)
      rw [hdesc]
      exact List.mem_cons_self

theorem Inv.alloc (h : w.Inv) {size : ℕ} {mediaType : Option MediaType} {deviceIdx : Option ℤ}
    {env : CallEnv} {d : DeleteEnv} {r : Except DeleteError Block}
    (halloc : w.alloc size mediaType deviceIdx env d = some (r, w')) (hids : w'.ids.Nodup) :
    w'.Inv := by
  obtain ⟨e, -, rfl⟩ | ⟨medium, block, chunks, hfound, -, rfl⟩ | ⟨e, g, -, rfl⟩ |
    ⟨medium, desc, g, hcut⟩ := alloc_cases halloc
  · exact h
  · exact (h.cut hfound).2
  · exact h
  · have hsame := cutNew_ids hcut
    rw [hsame] at hids
    exact h.cutNew (List.nodup_cons.mp hids).1 hcut

omit [NameTable N] in
theorem find_eq_some {block : Block} {mediaType : MediaType} {cb : ChunkBuffer}
    (h : w.find block = some (mediaType, cb)) :
    (w.py.chunksOf mediaType).get block.chunkId = some cb := by
  unfold AllocatorWorld.find at h
  split at h
  next cb' hdram =>
    obtain ⟨rfl, rfl⟩ := Prod.mk.inj (Option.some.inj h)
    exact hdram
  next =>
    obtain ⟨cb', hssd, he⟩ := Option.map_eq_some_iff.mp h
    obtain ⟨rfl, rfl⟩ := Prod.mk.inj he
    exact hssd

omit [NameTable N] in
theorem setChunks_twice (s : FineGrainedAllocator) (mediaType : MediaType) (chunks : Chunks)
    (live : List Block) (returned : List ℕ) (f : Chunks → Chunks) :
    ({ ({ s.setChunks mediaType chunks with live := live } : FineGrainedAllocator).setChunks mediaType
        (f (({ s.setChunks mediaType chunks with live := live } : FineGrainedAllocator).chunksOf
          mediaType)) with returned := returned } : FineGrainedAllocator).all =
      (s.setChunks mediaType (f chunks)).all := by
  cases mediaType with
  | dram => rfl
  | ssd => rfl

/-- A chunk that is not given back stays, with the block in its free list. -/
theorem free_raises {block : Block} {d : DeleteEnv} {mediaType : MediaType} {cb : ChunkBuffer}
    {e : Error} (hfind : w.find block = some (mediaType, cb))
    (hfree : (cb.free block.offset block.size).isFullyFree = true)
    (hdelete : AllocatorWorld.deleteChunk { w with
        py := { w.py.setChunks mediaType
          ((w.py.chunksOf mediaType).put (cb.free block.offset block.size)) with
            live := w.py.live.erase block } }
      (cb.free block.offset block.size).desc d = (.error e, w')) :
    w.free block d = (.error e, w') := by
  unfold AllocatorWorld.free
  rw [hfind]
  dsimp only
  rw [if_pos hfree, hdelete]

/-- A block is freed, and the chunk is given back without an error, or stays. -/
theorem Inv.free (h : w.Inv) {block : Block} {d : DeleteEnv} (hissued : block ∈ w.issued)
    (hreported : ∀ desc, w.deletes block = some desc → ReleaseReported w.g desc d) :
    (w.free block d).2.Inv := by
  unfold AllocatorWorld.free
  split
  next => exact h
  next mediaType cb hfind =>
    obtain ⟨hid, rest, hperm, hput⟩ := FineGrainedAllocator.perm_of_get h.nodup (find_eq_some hfind)
    have hown : Chunks.Owned (cb :: rest) w.granted w.ids w.issued := h.perm hperm
    have hin := hown.inside block hissued cb List.mem_cons_self hid
    have hfits : FitsIn cb.totalSize (cb.free block.offset block.size).freeList :=
      (hown.fits cb List.mem_cons_self).giveBack hin
    have hfreed : Chunks.Owned (cb.free block.offset block.size :: rest) w.granted w.ids w.issued :=
      hown.replace rfl hfits
    obtain ⟨hkept, hgone⟩ := hput (cb.free block.offset block.size) hid
    dsimp only
    split_ifs with hfree
    · have hdeletes : w.deletes block = some (cb.free block.offset block.size).desc := by
        unfold deletes
        rw [hfind]
        exact if_pos hfree
      split
      next e hraise =>
        -- The chunk stays, and so nothing of it may be released.
        have hnot : ummFreeReleases w.g (cb.free block.offset block.size).desc d = false := by
          by_contra hreleased
          have hok := (hreported _ hdeletes).ummFree_ok (Bool.eq_true_of_not_eq_false hreleased)
          cases hok.symm.trans hraise
        have hgranted : (if ummFreeReleases w.g (cb.free block.offset block.size).desc d then
            w.granted.erase (cb.free block.offset block.size).desc else w.granted) = w.granted :=
          if_neg (by rw [hnot]; decide)
        unfold Inv deleteChunk
        dsimp only
        rw [hgranted]
        exact hfreed.perm hkept.symm
      next hdone =>
        have hother : ∀ desc ∈ w.granted, desc.chunkId ≠ cb.chunkId →
            desc ∈ (if ummFreeReleases w.g (cb.free block.offset block.size).desc d then
              w.granted.erase (cb.free block.offset block.size).desc else w.granted) := by
          intro desc hdesc hne
          split_ifs
          · refine (List.mem_erase_of_ne fun he => hne ?_).mpr hdesc
            rw [he]
            rfl
          · exact hdesc
        have hall := setChunks_twice w.py mediaType
          ((w.py.chunksOf mediaType).put (cb.free block.offset block.size)) (w.py.live.erase block)
          (w.py.returned ++ [cb.chunkId]) (Chunks.del block.chunkId)
        refine (hfreed.drop hother).perm (hgone.symm.trans ?_)
        rw [← hall]
        cases mediaType with
        | dram => exact .refl _
        | ssd => exact .refl _
    · exact hfreed.perm hkept.symm

theorem addChunks_ids {size : ℕ} {mediaType : MediaType} {deviceIdx : Option ℤ}
    {envs : List CallEnv} {r : Except AllocatorError Unit}
    (h : addChunks size mediaType deviceIdx envs w = some (r, w')) : w.ids <:+ w'.ids := by
  induction envs generalizing w with
  | nil =>
    obtain ⟨-, rfl⟩ := Prod.mk.inj (Option.some.inj h)
    exact List.suffix_refl _
  | cons env envs ih =>
    obtain ⟨⟨answer, w₁⟩, hcreate, hrest⟩ := Option.bind_eq_some_iff.mp h
    obtain ⟨rfl, g, rfl⟩ | ⟨desc, g, rfl, rfl⟩ := createChunk_cases hcreate
    · obtain ⟨-, rfl⟩ := Prod.mk.inj (Option.some.inj hrest)
      exact List.suffix_refl _
    · exact (List.suffix_cons _ _).trans (ih hrest)

theorem Inv.addChunks (h : w.Inv) {size : ℕ} {mediaType : MediaType} {deviceIdx : Option ℤ}
    {envs : List CallEnv} {r : Except AllocatorError Unit}
    (hadd : AllocatorWorld.addChunks size mediaType deviceIdx envs w = some (r, w'))
    (hids : w'.ids.Nodup) : w'.Inv := by
  induction envs generalizing w with
  | nil =>
    obtain ⟨-, rfl⟩ := Prod.mk.inj (Option.some.inj hadd)
    exact h
  | cons env envs ih =>
    obtain ⟨⟨answer, w₁⟩, hcreate, hrest⟩ := Option.bind_eq_some_iff.mp hadd
    obtain ⟨rfl, g, rfl⟩ | ⟨desc, g, rfl, rfl⟩ := createChunk_cases hcreate
    · obtain ⟨-, rfl⟩ := Prod.mk.inj (Option.some.inj hrest)
      exact h
    · refine ih ?_ hrest
      have hnew : desc.chunkId ∉ w.ids :=
        (List.nodup_cons.mp (hids.sublist (addChunks_ids hrest).sublist)).1
      have hadd : Chunks.Owned (.ofDesc desc mediaType deviceIdx :: w.py.all) (desc :: w.granted)
          (desc.chunkId :: w.ids) w.issued := h.add hnew (fitsIn_ofDesc desc mediaType deviceIdx)
      exact hadd.perm (all_put_perm w.py mediaType (h.fresh hnew)).symm

/-- Every step keeps the invariant if what it releases is reported. -/
theorem Inv.step (h : w.Inv) {e : WorldEvent}
    (hs : Guarded (fun w e => w.Fair e ∧ w.Reported e) Step w e w') : w'.Inv := by
  obtain ⟨⟨⟨hissued, hids⟩, hreported⟩, hstep⟩ := hs
  have hnodup := hids w' hstep
  cases e with
  | alloc size mediaType deviceIdx env d =>
    obtain ⟨⟨r, w₁⟩, halloc, rfl⟩ := Option.map_eq_some_iff.mp hstep
    exact h.alloc halloc hnodup
  | free block d =>
    obtain rfl := Option.some.inj hstep
    exact h.free (hissued block d rfl) hreported
  | preallocate count chunkSize mediaType deviceIdx envs =>
    obtain ⟨⟨r, w₁⟩, hpre, rfl⟩ := Option.map_eq_some_iff.mp hstep
    unfold AllocatorWorld.preallocateChunks at hpre
    split at hpre
    next e hargs =>
      obtain ⟨-, rfl⟩ := Prod.mk.inj (Option.some.inj hpre)
      exact h
    next medium hargs => exact h.addChunks hpre hnodup

omit [NameTable N] in
theorem inv_init {w : AllocatorWorld N} (h : w.Init) : w.Inv := by
  obtain ⟨defaultChunkSize, g, rfl⟩ := h
  exact ⟨List.nodup_nil, nofun, nofun, nofun, nofun, nofun⟩

end AllocatorWorld

/-- In every run in which each release of memory is reported as a success, `alloc` returns only
blocks of memory that UMM has not marked free, whether or not chunks that were given back raised. -/
theorem alloc_owns_of_reported {N : Type} [NameTable N] {w : AllocatorWorld N}
    (h : Reach AllocatorWorld.Init
      (Guarded (fun w e => w.Fair e ∧ w.Reported e) AllocatorWorld.Step) w)
    {size : ℕ} {mediaType : Option MediaType} {deviceIdx : Option ℤ} {env : CallEnv}
    {d : DeleteEnv} {block : Block} {w' : AllocatorWorld N}
    (halloc : w.alloc size mediaType deviceIdx env d = some (.ok block, w')) : w'.Owns block := by
  have hinv : w.Inv :=
    h.invariant (P := AllocatorWorld.Inv) (fun _ hi => AllocatorWorld.inv_init hi)
      fun _ _ _ hw hs => hw.step hs
  exact hinv.alloc_owns halloc

/-- A client whose services are both reached by RPC. -/
def remoteClient : UmmGlobalState (MetaHashTable ChunkMetadata) where
  initialized := true
  config := ⟨0, 255, 8192⟩
  memClient := true
  metaClient := true
  localMem := none
  localMeta := none
  memServerNode := 255

/-- The servers grant the chunk 7, and answer so when it is given back. -/
def chunkSeven (unregister free : Except Error Unit) : CallEnv :=
  ⟨.bytes fun _ => 0, .ok (0, 255), free, .ok 7, unregister⟩

def wholeChunk : Block := ⟨7, 0, 4096, 2 ^ 56, 4096⟩

/-- One block takes all of the chunk. -/
def oneBlock : AllocatorWorld (MetaHashTable ChunkMetadata) where
  py := ⟨4096, [⟨7, 2 ^ 56, 4096, .dram, none, []⟩], [], [wholeChunk], []⟩
  g := remoteClient
  granted := [⟨7, 2 ^ 56, 4096⟩]
  ids := [7]
  issued := [wholeChunk]

/-- The block was freed, but the chunk stays. -/
def chunkKept (granted : List ChunkDescriptor) : AllocatorWorld (MetaHashTable ChunkMetadata) where
  py := ⟨4096, [⟨7, 2 ^ 56, 4096, .dram, none, [⟨0, 4096⟩]⟩], [], [], []⟩
  g := remoteClient
  granted := granted
  ids := [7]
  issued := [wholeChunk]

/-- No server answers in time, and nothing is released. -/
def nothingReleased : DeleteEnv :=
  ⟨chunkSeven (.error .timeout) (.error .timeout), false, nofun⟩

/-- The metadata server does not answer in time, the memory server releases the pages. -/
def pagesReleased : DeleteEnv :=
  ⟨chunkSeven (.error .timeout) (.ok ()), true, fun _ => rfl⟩

theorem wholeChunk_freed :
    ChunkBuffer.free wholeChunk.offset wholeChunk.size ⟨7, 2 ^ 56, 4096, .dram, none, []⟩ =
      ⟨7, 2 ^ 56, 4096, .dram, none, [⟨0, 4096⟩]⟩ := by
  unfold ChunkBuffer.free giveBack
  rw [List.nil_append, List.mergeSort_singleton]
  rfl

theorem oneBlock_deletes : oneBlock.deletes wholeChunk = some ⟨7, 2 ^ 56, 4096⟩ := by
  have hfind : oneBlock.find wholeChunk = some (.dram, ⟨7, 2 ^ 56, 4096, .dram, none, []⟩) := rfl
  unfold AllocatorWorld.deletes
  rw [hfind, Option.bind_some]
  dsimp only
  rw [wholeChunk_freed]
  rfl

/-- The block is freed, and giving back its chunk raises. -/
theorem oneBlock_free {d : DeleteEnv} {e : Error} {w : AllocatorWorld (MetaHashTable ChunkMetadata)}
    (hdelete : (chunkKept [⟨7, 2 ^ 56, 4096⟩]).deleteChunk ⟨7, 2 ^ 56, 4096⟩ d = (.error e, w)) :
    oneBlock.free wholeChunk d = (.error e, w) := by
  have hfind : oneBlock.find wholeChunk = some (.dram, ⟨7, 2 ^ 56, 4096, .dram, none, []⟩) := rfl
  refine AllocatorWorld.free_raises hfind ?_ ?_
  · rw [wholeChunk_freed]
    rfl
  · rw [wholeChunk_freed]
    exact hdelete

theorem firstAlloc_next : AllocatorWorld.next ⟨.init 4096, remoteClient, [], [], []⟩
    (.alloc 4096 (some .dram) none nothingReleased.env nothingReleased) = some oneBlock := rfl

theorem firstAlloc_fair : AllocatorWorld.Fair ⟨.init 4096, remoteClient, [], [], []⟩
    (.alloc 4096 (some .dram) none nothingReleased.env nothingReleased) := by
  refine ⟨fun block d he => (by cases he), fun w' hw' => ?_⟩
  unfold AllocatorWorld.Step at hw'
  rw [firstAlloc_next] at hw'
  have he : oneBlock = w' := Option.some.inj hw'
  subst he
  exact List.nodup_singleton 7

theorem free_fair (d : DeleteEnv) (hids : (oneBlock.free wholeChunk d).2.ids = [7]) :
    oneBlock.Fair (.free wholeChunk d) := by
  constructor
  · intro block d' he
    rw [← (WorldEvent.free.inj he).1]
    exact List.mem_cons_self
  · intro w' hw'
    have he : (oneBlock.free wholeChunk d).2 = w' := Option.some.inj hw'
    rw [← he, hids]
    exact List.nodup_singleton 7

/-- The chunk was given to one more block. -/
def blockAgain (granted : List ChunkDescriptor) : AllocatorWorld (MetaHashTable ChunkMetadata) where
  py := ⟨4096, [⟨7, 2 ^ 56, 4096, .dram, none, []⟩], [], [wholeChunk], []⟩
  g := remoteClient
  granted := granted
  ids := [7]
  issued := [wholeChunk, wholeChunk]

theorem chunkKept_alloc (granted : List ChunkDescriptor) (d : DeleteEnv) :
    (chunkKept granted).alloc 4096 (some .dram) none d.env d =
      some (.ok wholeChunk, blockAgain granted) := rfl

/-- Nothing was released when the chunk was given back, and its memory is used again. -/
theorem alloc_owns_of_reported_kept :
    oneBlock.free wholeChunk nothingReleased =
      (.error .timeout, chunkKept [⟨7, 2 ^ 56, 4096⟩]) ∧
    (blockAgain [⟨7, 2 ^ 56, 4096⟩]).Owns wholeChunk := by
  have hfree : oneBlock.free wholeChunk nothingReleased =
      (.error .timeout, chunkKept [⟨7, 2 ^ 56, 4096⟩]) := oneBlock_free rfl
  have hreported : oneBlock.Reported (.free wholeChunk nothingReleased) := by
    intro desc hdesc hreleased
    obtain rfl := Option.some.inj (oneBlock_deletes.symm.trans hdesc)
    cases hreleased
  have hstep : oneBlock.next (.free wholeChunk nothingReleased) =
      some (chunkKept [⟨7, 2 ^ 56, 4096⟩]) := by
    change some (oneBlock.free wholeChunk nothingReleased).2 = _
    rw [hfree]
  have hids : (oneBlock.free wholeChunk nothingReleased).2.ids = [7] := by
    rw [hfree]
    rfl
  exact ⟨hfree, alloc_owns_of_reported (.next _ (.next _ (.start ⟨4096, remoteClient, rfl⟩)
    ⟨⟨firstAlloc_fair, trivial⟩, firstAlloc_next⟩) ⟨⟨free_fair _ hids, hreported⟩, hstep⟩)
    (chunkKept_alloc _ nothingReleased)⟩

/-- The memory server releases the pages of a chunk, while the metadata server does not answer: the
next block is cut from it. -/
theorem alloc_recycles_released :
    Reach AllocatorWorld.Init (Guarded AllocatorWorld.Fair AllocatorWorld.Step) oneBlock ∧
    oneBlock.Fair (.free wholeChunk pagesReleased) ∧
    oneBlock.free wholeChunk pagesReleased = (.error .timeout, chunkKept []) ∧
    (chunkKept []).alloc 4096 (some .dram) none pagesReleased.env pagesReleased =
      some (.ok wholeChunk, blockAgain []) ∧ ¬ (blockAgain []).Owns wholeChunk := by
  have hfree : oneBlock.free wholeChunk pagesReleased = (.error .timeout, chunkKept []) :=
    oneBlock_free rfl
  have hids : (oneBlock.free wholeChunk pagesReleased).2.ids = [7] := by
    rw [hfree]
    rfl
  refine ⟨.next _ (.start ⟨4096, remoteClient, rfl⟩) ⟨firstAlloc_fair, firstAlloc_next⟩,
    free_fair _ hids, hfree, chunkKept_alloc _ _, ?_⟩
  rintro ⟨desc, hdesc, -⟩
  cases hdesc

end Umm
