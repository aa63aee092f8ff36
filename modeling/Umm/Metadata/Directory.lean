import Umm.Metadata.HashTable
import Umm.Common.Gpa

/-! The chunk directory of `meta_service_direct.c`: an array of chunks indexed by identifier,
and a table from names to the same records. -/
namespace Umm

structure ChunkMetadata where
  chunkId : ℕ
  name : CString
  gpa : ℕ
  size : ℕ
  primaryTier : ℕ
  hasSsdCopy : ℕ
deriving DecidableEq

structure ChunkEntry where
  chunkId : ℕ
  refCount : ℕ
  valid : Bool
  info : ChunkMetadata
deriving DecidableEq

/-- The operations that the directory uses on its name table. An insertion that never returns
is `none`. -/
class NameTable (N : Type) where
  lookup : N → CString → Except Error ChunkMetadata
  insert : N → CString → ChunkMetadata → Option (Except Error Unit × N)
  remove : N → CString → Except Error Unit × N

instance : NameTable (MetaHashTable ChunkMetadata) where
  lookup := mhtLookup
  insert := mhtInsert
  remove := mhtRemove

/-- The directory, without the topologies that it also keeps. -/
structure MetaServiceCtx (N : Type) where
  chunkTable : N
  chunks : List ChunkEntry
  chunkCapacity : ℕ
  nextChunkId : ℕ
deriving DecidableEq

def ChunkMetadata.zero : ChunkMetadata := ⟨0, CString.ofBytes [], 0, 0, 0, 0⟩

def ChunkEntry.zero : ChunkEntry := ⟨0, 0, false, .zero⟩

/-- `strncpy` into the name field of 64 bytes, whose last byte is NUL. -/
def storedName (name : CString) : CString := CString.ofBytes (name.bytes.take 63)

section Operations

variable {N : Type}

def findChunkById (ctx : MetaServiceCtx N) (chunkId : ℕ) : Option ChunkEntry :=
  if chunkId = 0 ∨ ctx.nextChunkId ≤ chunkId then none
  else
    match ctx.chunks[chunkId - 1]? with
    | some ce => if ce.valid then some ce else none
    | none => none

/-- The size of the array after it was made to hold `neededId`, memory always being granted. -/
def newChunkCapacity (chunkCapacity neededId : ℕ) : Option ℕ :=
  let neededIdx := u32 neededId
  if neededIdx ≤ chunkCapacity then some chunkCapacity
  else doubleUntil neededIdx 33 (if chunkCapacity = 0 then 16 else chunkCapacity)

/-- Grow the array to `capacity` entries, the new ones zero. -/
def growChunks (chunks : List ChunkEntry) (capacity : ℕ) : List ChunkEntry :=
  chunks ++ List.replicate (capacity - chunks.length) .zero

def MetaServiceCtx.setChunk (ctx : MetaServiceCtx N) (chunkId : ℕ) (ce : ChunkEntry) :
    MetaServiceCtx N :=
  { ctx with chunks := ctx.chunks.set (chunkId - 1) ce }

variable [NameTable N]

/-- `impl_register_chunk`, with `none` when the array or the name table is never done growing. -/
def implRegisterChunk (ctx : MetaServiceCtx N) (name : CString) (gpa size : ℕ) :
    Option (Except Error ℕ × MetaServiceCtx N) :=
  match NameTable.lookup ctx.chunkTable name with
  | .ok _ => some (.error .alreadyExists, ctx)
  | .error _ =>
    let id := ctx.nextChunkId
    let next := u64 (id + 1)
    let cid := if id = 0 then next else id
    let next := if id = 0 then u64 (next + 1) else next
    match newChunkCapacity ctx.chunkCapacity cid with
    | none => none
    | some capacity =>
      let info : ChunkMetadata := ⟨cid, storedName name, gpa, size, 0, 0⟩
      let ctx : MetaServiceCtx N :=
        { ctx with
          chunks := growChunks ctx.chunks capacity
          chunkCapacity := capacity
          nextChunkId := next }
      match NameTable.insert ctx.chunkTable name info with
      | none => none
      | some (.ok (), table) =>
        some (.ok cid, { ctx.setChunk cid ⟨cid, 1, true, info⟩ with chunkTable := table })
      | some (.error e, table) =>
        some (.error e, { ctx.setChunk cid ⟨cid, 1, false, info⟩ with chunkTable := table })

def implLookupChunk (ctx : MetaServiceCtx N) (name : CString) : Except Error ChunkMetadata :=
  NameTable.lookup ctx.chunkTable name

def implLookupChunkById (ctx : MetaServiceCtx N) (chunkId : ℕ) : Except Error ChunkMetadata :=
  match findChunkById ctx chunkId with
  | none => .error .notFound
  | some ce => .ok ce.info

/-- Remove the chunk from both indexes; the name is taken from its record. -/
def dropChunk (ctx : MetaServiceCtx N) (chunkId : ℕ) (ce : ChunkEntry) : MetaServiceCtx N :=
  { ctx.setChunk chunkId { ce with valid := false } with
    chunkTable := (NameTable.remove ctx.chunkTable ce.info.name).2 }

def implUnregisterChunk (ctx : MetaServiceCtx N) (chunkId : ℕ) :
    Except Error Unit × MetaServiceCtx N :=
  match findChunkById ctx chunkId with
  | none => (.error .notFound, ctx)
  | some ce => (.ok (), dropChunk ctx chunkId ce)

def implAddRef (ctx : MetaServiceCtx N) (chunkId : ℕ) : Except Error Unit × MetaServiceCtx N :=
  match findChunkById ctx chunkId with
  | none => (.error .notFound, ctx)
  | some ce => (.ok (), ctx.setChunk chunkId { ce with refCount := u32 (ce.refCount + 1) })

def implReleaseRef (ctx : MetaServiceCtx N) (chunkId : ℕ) :
    Except Error Unit × MetaServiceCtx N :=
  match findChunkById ctx chunkId with
  | none => (.error .notFound, ctx)
  | some ce =>
    let refCount := if 0 < ce.refCount then ce.refCount - 1 else ce.refCount
    if refCount = 0 then (.ok (), dropChunk ctx chunkId { ce with refCount })
    else (.ok (), ctx.setChunk chunkId { ce with refCount })

end Operations

/-- A directory over an empty name table. -/
def MetaServiceCtx.empty {N : Type} (table : N) : MetaServiceCtx N := ⟨table, [], 0, 1⟩

/-- The directory over the name table of the source. -/
abbrev Directory : Type := MetaServiceCtx (MetaHashTable ChunkMetadata)

def metaServiceDirectCreate : Option (MetaServiceCtx (MetaHashTable ChunkMetadata)) :=
  (mhtCreate ChunkMetadata 64).map MetaServiceCtx.empty

end Umm
