import Umm.Client.Api
import Umm.Lib.FreeList

/-! `FineGrainedAllocator`: small blocks cut from chunks of UMM, for DRAM and SSD apart. -/
namespace Umm
open Umm.Lib

inductive MediaType
  | dram
  | ssd
  deriving DecidableEq, Repr

structure Block where
  chunkId : ℕ
  offset : ℕ
  size : ℕ
  gpa : ℕ
  chunkSize : ℕ
  deriving DecidableEq, Repr

structure ChunkBuffer where
  chunkId : ℕ
  baseGpa : ℕ
  totalSize : ℕ
  mediaType : MediaType
  deviceIdx : Option ℤ
  freeList : List Run
  deriving DecidableEq, Repr

namespace ChunkBuffer

/-- A buffer over a chunk of UMM, all of it free. -/
def ofDesc (desc : ChunkDescriptor) (mediaType : MediaType) (deviceIdx : Option ℤ) : ChunkBuffer where
  chunkId := desc.chunkId
  baseGpa := desc.baseGpa
  totalSize := desc.userSize
  mediaType := mediaType
  deviceIdx := deviceIdx
  freeList := [⟨0, desc.userSize⟩]

def alloc (size : ℕ) (cb : ChunkBuffer) : Option (ℕ × ChunkBuffer) :=
  (takeFirst size cb.freeList).map fun found => (found.1, { cb with freeList := found.2 })

def free (offset size : ℕ) (cb : ChunkBuffer) : ChunkBuffer :=
  { cb with freeList := giveBack ⟨offset, size⟩ cb.freeList }

def isFullyFree (cb : ChunkBuffer) : Bool :=
  cb.freeList = [⟨0, cb.totalSize⟩]

def block (offset size : ℕ) (cb : ChunkBuffer) : Block :=
  ⟨cb.chunkId, offset, size, cb.baseGpa, cb.totalSize⟩

end ChunkBuffer

/-- The chunks of one medium by their ids, in the order they came. -/
abbrev Chunks := List ChunkBuffer

namespace Chunks

def get (chunkId : ℕ) (chunks : Chunks) : Option ChunkBuffer :=
  chunks.find? fun cb => cb.chunkId = chunkId

/-- A buffer under its id: in the place of the one that has it, or behind the others. -/
def put (cb : ChunkBuffer) : Chunks → Chunks
  | [] => [cb]
  | other :: rest => if other.chunkId = cb.chunkId then cb :: rest else other :: put cb rest

def del (chunkId : ℕ) (chunks : Chunks) : Chunks :=
  chunks.filter fun cb => cb.chunkId ≠ chunkId

/-- The first chunk of the device that has room. -/
def alloc (size : ℕ) (deviceIdx : Option ℤ) : Chunks → Option (Block × Chunks)
  | [] => none
  | cb :: rest =>
    let later := (alloc size deviceIdx rest).map fun found => (found.1, cb :: found.2)
    if cb.deviceIdx ≠ deviceIdx then later
    else match cb.alloc size with
      | some (offset, cb') => some (cb.block offset size, cb' :: rest)
      | none => later

end Chunks

inductive AllocatorError
  | mediaType
  | deviceIdx
  | exhausted
  deriving DecidableEq, Repr

/-- `chunks_by_type` and `default_chunk_size`. The last two fields are history: the blocks in use,
and the chunks given back to UMM. -/
structure FineGrainedAllocator where
  defaultChunkSize : ℕ
  dram : Chunks
  ssd : Chunks
  live : List Block
  returned : List ℕ
  deriving Repr

namespace FineGrainedAllocator

def init (defaultChunkSize : ℕ) : FineGrainedAllocator :=
  ⟨defaultChunkSize, [], [], [], []⟩

def chunksOf (mediaType : MediaType) (s : FineGrainedAllocator) : Chunks :=
  match mediaType with
  | .dram => s.dram
  | .ssd => s.ssd

def setChunks (mediaType : MediaType) (chunks : Chunks) (s : FineGrainedAllocator) :
    FineGrainedAllocator :=
  match mediaType with
  | .dram => { s with dram := chunks }
  | .ssd => { s with ssd := chunks }

/-- `none` stands for a string that names no medium. -/
def checkArgs (mediaType : Option MediaType) (deviceIdx : Option ℤ) :
    Except AllocatorError MediaType :=
  match mediaType with
  | none => .error .mediaType
  | some .ssd => .ok .ssd
  | some .dram => if deviceIdx.isSome then .error .deviceIdx else .ok .dram

/-- The part of `alloc` that asks UMM for a chunk; `umm` is what `create_chunk` returns, `none`
where it raises. -/
def allocNew (size : ℕ) (mediaType : MediaType) (deviceIdx : Option ℤ)
    (umm : Option ChunkDescriptor) (s : FineGrainedAllocator) :
    Except AllocatorError Block × FineGrainedAllocator :=
  match umm with
  | none => (.error .exhausted, s)
  | some desc =>
    match (ChunkBuffer.ofDesc desc mediaType deviceIdx).alloc size with
    | none => (.error .exhausted, { s with returned := s.returned ++ [desc.chunkId] })
    | some (offset, cb) =>
      (.ok (cb.block offset size),
        { s.setChunks mediaType ((s.chunksOf mediaType).put cb) with
          live := cb.block offset size :: s.live })

/-- The chunk UMM is asked for has `max size default_chunk_size` bytes. -/
def alloc (size : ℕ) (mediaType : Option MediaType) (deviceIdx : Option ℤ)
    (umm : ℕ → Option ChunkDescriptor) (s : FineGrainedAllocator) :
    Except AllocatorError Block × FineGrainedAllocator :=
  match checkArgs mediaType deviceIdx with
  | .error e => (.error e, s)
  | .ok mediaType =>
    match (s.chunksOf mediaType).alloc size deviceIdx with
    | some (block, chunks) =>
      (.ok block, { s.setChunks mediaType chunks with live := block :: s.live })
    | none => s.allocNew size mediaType deviceIdx (umm (max size s.defaultChunkSize))

def freeIn (mediaType : MediaType) (cb : ChunkBuffer) (block : Block) (s : FineGrainedAllocator) :
    FineGrainedAllocator :=
  let cb := cb.free block.offset block.size
  let s := { s with live := s.live.erase block }
  if cb.isFullyFree then
    { s.setChunks mediaType ((s.chunksOf mediaType).del block.chunkId) with
      returned := s.returned ++ [cb.chunkId] }
  else s.setChunks mediaType ((s.chunksOf mediaType).put cb)

def free (block : Block) (s : FineGrainedAllocator) : FineGrainedAllocator :=
  match s.dram.get block.chunkId with
  | some cb => s.freeIn .dram cb block
  | none =>
    match s.ssd.get block.chunkId with
    | some cb => s.freeIn .ssd cb block
    | none => s

/-- The loop of `preallocate_chunks`, with what `create_chunk` returns in each turn. -/
def addChunks (mediaType : MediaType) (deviceIdx : Option ℤ) :
    List (Option ChunkDescriptor) → FineGrainedAllocator →
      Except AllocatorError Unit × FineGrainedAllocator
  | [], s => (.ok (), s)
  | none :: _, s => (.error .exhausted, s)
  | some desc :: rest, s =>
    addChunks mediaType deviceIdx rest
      (s.setChunks mediaType
        ((s.chunksOf mediaType).put (.ofDesc desc mediaType deviceIdx)))

def preallocateChunks (count : ℤ) (chunkSize : ℕ) (mediaType : Option MediaType)
    (deviceIdx : Option ℤ) (umm : ℕ → ℕ → Option ChunkDescriptor) (s : FineGrainedAllocator) :
    Except AllocatorError Unit × FineGrainedAllocator :=
  match checkArgs mediaType deviceIdx with
  | .error e => (.error e, s)
  | .ok mediaType =>
    s.addChunks mediaType deviceIdx ((List.range count.toNat).map (umm chunkSize))

end FineGrainedAllocator

inductive AllocatorEvent
  | alloc (size : ℕ) (mediaType : Option MediaType) (deviceIdx : Option ℤ)
      (umm : ℕ → Option ChunkDescriptor)
  | free (block : Block)
  | preallocate (count : ℤ) (chunkSize : ℕ) (mediaType : Option MediaType) (deviceIdx : Option ℤ)
      (umm : ℕ → ℕ → Option ChunkDescriptor)

namespace FineGrainedAllocator

def next (s : FineGrainedAllocator) : AllocatorEvent → FineGrainedAllocator
  | .alloc size mediaType deviceIdx umm => (s.alloc size mediaType deviceIdx umm).2
  | .free block => s.free block
  | .preallocate count chunkSize mediaType deviceIdx umm =>
    (s.preallocateChunks count chunkSize mediaType deviceIdx umm).2

def Step (s : FineGrainedAllocator) (e : AllocatorEvent) (t : FineGrainedAllocator) : Prop :=
  t = s.next e

def all (s : FineGrainedAllocator) : Chunks :=
  s.dram ++ s.ssd

/-- A chunk of UMM for a request of `size` bytes: as large as asked for, with an id no chunk here
has. UMM refuses requests of no bytes. -/
structure Granted (size : ℕ) (s : FineGrainedAllocator) (desc : ChunkDescriptor) : Prop where
  pos : 0 < size
  large : size ≤ desc.userSize
  fresh : ∀ cb ∈ s.all, cb.chunkId ≠ desc.chunkId

/-- Sizes are positive, blocks that are freed are in use, and UMM answers as it should. -/
def Fair (s : FineGrainedAllocator) : AllocatorEvent → Prop
  | .alloc size _ _ umm => 0 < size ∧
      ∀ desc, umm (max size s.defaultChunkSize) = some desc →
        s.Granted (max size s.defaultChunkSize) desc
  | .free block => block ∈ s.live
  | .preallocate count chunkSize _ _ umm =>
      (∀ i < count.toNat, ∀ desc, umm chunkSize i = some desc → s.Granted chunkSize desc) ∧
        ∀ i < count.toNat, ∀ j < i, ∀ desc desc', umm chunkSize i = some desc →
          umm chunkSize j = some desc' → desc.chunkId ≠ desc'.chunkId

end FineGrainedAllocator

end Umm
