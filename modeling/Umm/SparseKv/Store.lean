import Umm.SparseKv.SlotTable
import Umm.Media.VirtualMedia
import Umm.Lib.Codec

/-! The store of `store.py`: units of a layer and a token on the media layer, their addresses,
and the descriptor buffer from which they are loaded. -/
namespace Umm
open Umm.Lib

/-- A block of tokens of one layer, with their units one after another. -/
structure KVBlockRef where
  layerId : ℤ
  tokenStart : ℤ
  tokenCount : ℤ
  buffer : List UInt8

def headerSize : ℕ := 16

def entrySize : ℕ := 32

def flagDisk : ℕ := 0

def flagHostReady : ℕ := 1

/-- An entry of the descriptor buffer. -/
structure PlanEntry where
  ssdId : ℕ
  flags : ℕ
  lbaOffset : ℕ
  length : ℕ
  dstOffset : ℕ
deriving DecidableEq

/-- `ENTRY_STRUCT.pack`. -/
def PlanEntry.pack (e : PlanEntry) : Except StoreError (List UInt8) :=
  if e.ssdId < 2 ^ 32 ∧ e.flags < 2 ^ 32 ∧ e.lbaOffset < 2 ^ 64 ∧ e.length < 2 ^ 64 ∧
      e.dstOffset < 2 ^ 64 then
    .ok (leBytes 4 e.ssdId ++ (leBytes 4 e.flags ++ (leBytes 8 e.lbaOffset ++
      (leBytes 8 e.length ++ leBytes 8 e.dstOffset))))
  else .error .structError

/-- `HEADER_STRUCT.pack`. -/
def packHeader (count : ℕ) (layerId : ℤ) : Except StoreError (List UInt8) :=
  if count < 2 ^ 32 ∧ 0 ≤ layerId ∧ layerId < 2 ^ 32 then
    .ok (leBytes 4 count ++ (leBytes 4 layerId.toNat ++ leBytes 8 0))
  else .error .structError

/-- `ENTRY_STRUCT.unpack`. -/
def PlanEntry.unpack : Decoder PlanEntry := do
  let ssdId ← Decoder.le 4
  let flags ← Decoder.le 4
  let lbaOffset ← Decoder.le 8
  let length ← Decoder.le 8
  let dstOffset ← Decoder.le 8
  pure ⟨ssdId, flags, lbaOffset, length, dstOffset⟩

/-- The view that `plan` returns, on the buffer of the store. -/
structure PlanView where
  count : ℕ
  layerId : ℤ

def PlanView.entry (view : PlanView) (buf : List UInt8) (i : ℕ) : Option PlanEntry :=
  if i < view.count then some (PlanEntry.unpack (buf.drop (headerSize + i * entrySize))).1
  else none

/-- A unit that was entered in the table, and whether the token had a valid entry then. -/
structure Entered where
  key : ℤ × ℤ
  data : List UInt8
  wasValid : Bool

structure SparseKVStore where
  vm : VirtualMedia (ℤ × ℤ)
  maxTopk : ℕ
  table : SlotTable
  /-- The units that `prefetch` read. -/
  cache : ℤ × ℤ → Option (List UInt8)
  descBuf : List UInt8
  staging : List UInt8
  /-- The history of the table, the latest unit first. No call reads it. -/
  entered : List Entered

namespace SparseKVStore

/-- The constructor, on a media layer. -/
def init (vm : VirtualMedia (ℤ × ℤ)) (numLayers maxTokens maxTopk : ℤ) :
    Except StoreError SparseKVStore :=
  if maxTopk ≤ 0 then .error .maxTopk
  else do
    let table ← SlotTable.init numLayers maxTokens
    pure
      { vm
        maxTopk := maxTopk.toNat
        table
        cache := fun _ => none
        descBuf := List.replicate (headerSize + entrySize * maxTopk.toNat) 0
        staging := List.replicate (maxTopk.toNat * vm.unitSize) 0
        entered := [] }

abbrev Call (α : Type) : Type := Fallible StoreError SparseKVStore α

/-- A call of the media layer. -/
def onMedia {α : Type} (call : VirtualMedia.Call (ℤ × ℤ) α) : Call α := do
  let st ← get
  set { st with vm := (call st.vm).2 }
  match (call st.vm).1 with
  | .error e => throw (.media e)
  | .ok a => pure a

/-- A change of the table. -/
def onTable (change : SlotTable → Except StoreError SlotTable) : Call Unit := do
  let st ← get
  match change st.table with
  | .error e => throw e
  | .ok table => set { st with table }

def checkBlock (blk : KVBlockRef) : Call Unit := do
  let st ← get
  if ¬ (0 ≤ blk.layerId ∧ blk.layerId < st.table.numLayers) then throw (.layerRange blk.layerId)
  else if blk.tokenStart < 0 ∨ st.table.maxTokens < blk.tokenStart + blk.tokenCount then
    throw (.blockTokens blk.tokenStart (blk.tokenStart + blk.tokenCount) st.table.maxTokens)
  else if (blk.buffer.length : ℤ) < blk.tokenCount * st.vm.unitSize then
    throw (.blockBuffer blk.buffer.length blk.tokenCount st.vm.unitSize)
  else pure ()

/-- What the table has for a token before it is entered again. -/
def hasValid (st : SparseKVStore) (layerId tokenIdx : ℤ) : Bool :=
  match st.table.get layerId tokenIdx with
  | .error _ => false
  | .ok e => entryValid e

/-- One round of `offload`: the unit is written, then entered in the table. -/
def offloadToken (w : WriteFrom) (layerId tokenIdx : ℤ) (unit : List UInt8) : Call Unit := do
  let offset ← onMedia (VirtualMedia.write (layerId, tokenIdx) unit w)
  let st ← get
  onTable fun tbl => tbl.set layerId tokenIdx offset flagValid
  let st' ← get
  set { st' with
    entered := ⟨(layerId, tokenIdx), unit, st.hasValid layerId tokenIdx⟩ :: st'.entered }

/-- The tokens of a block from the `i`-th on. -/
def offloadTokens (w : ℕ → WriteFrom) (blk : KVBlockRef) : ℕ → ℕ → Call Unit
  | _, 0 => pure ()
  | i, n + 1 => do
    let st ← get
    offloadToken (w i) blk.layerId (blk.tokenStart + i)
      (slice blk.buffer (i * st.vm.unitSize) st.vm.unitSize)
    offloadTokens w blk (i + 1) n

/-- `offload`, where `w` says what the writes of a segment do in each round. -/
def offload (w : ℕ → ℕ → WriteFrom) : ℕ → List KVBlockRef → Call Unit
  | _, [] => pure ()
  | j, blk :: blks => do
    checkBlock blk
    offloadTokens (w j) blk 0 blk.tokenCount.toNat
    offload w (j + 1) blks

def flush (ws : ℕ → WriteFrom) : Call Unit := onMedia (VirtualMedia.flush ws)

/-- `self._staging[dst:dst + n] = data`. -/
def setSlice (l : List UInt8) (dst n : ℕ) (data : List UInt8) : List UInt8 :=
  l.take dst ++ data ++ l.drop (dst + n)

/-- One round of `plan`: the entry of a token, which is in the buffer of its device or on it. -/
def planEntry (extentBase : ℕ → ℕ) (layerId tokenIdx : ℤ) (i entry : ℕ) : Call Unit := do
  let st ← get
  if ¬ entryValid entry then throw (.notOffloaded layerId tokenIdx)
  else
    let d := st.vm.strategy.locate (layerId, tokenIdx)
    let off := entryOffset entry
    let dst := i * st.vm.unitSize
    match st.vm.mgrs[d]? with
    | none => throw (.media (.deviceRange d))
    | some mgr =>
      let found := if mgr.isBuffered off then mgr.readBuffer off st.vm.unitSize else none
      let flags := if found.isSome then flagHostReady else flagDisk
      let st := { st with
        staging := match found with
          | some data => setSlice st.staging dst st.vm.unitSize data
          | none => st.staging }
      set st
      match PlanEntry.pack ⟨d, flags, extentBase d + off, st.vm.unitSize, dst⟩ with
      | .error e => throw e
      | .ok bs => set { st with descBuf := splice st.descBuf (headerSize + i * entrySize) bs }

def planEntries (extentBase : ℕ → ℕ) (layerId : ℤ) : ℕ → List (ℤ × ℕ) → Call Unit
  | _, [] => pure ()
  | i, (t, e) :: rest => do
    planEntry extentBase layerId t i e
    planEntries extentBase layerId (i + 1) rest

/-- `plan`, where `extentBase` is the base address of an extent on its device. -/
def plan (extentBase : ℕ → ℕ) (layerId : ℤ) (tokens : List ℤ) : Call PlanView := do
  let st ← get
  if st.maxTopk < tokens.length then throw (.topkTooMany tokens.length st.maxTopk)
  else
    match st.table.gather layerId tokens with
    | .error e => throw e
    | .ok entries =>
      planEntries extentBase layerId 0 (tokens.zip entries)
      match packHeader tokens.length layerId with
      | .error e => throw e
      | .ok bs =>
        let st ← get
        set { st with descBuf := splice st.descBuf 0 bs }
        pure ⟨tokens.length, layerId⟩

section Fetch

variable (st : SparseKVStore)

/-- A call of the media layer on the views of the caller. -/
def onViews {α : Type} (call : Fallible MediaError ReadState α) :
    Fallible StoreError ReadState α := do
  let s ← get
  set (call s).2
  match (call s).1 with
  | .error e => throw (.media e)
  | .ok a => pure a

/-- The loop of `fetch`: units in the cache are copied, for the others the item and the position
are returned. -/
def fetchScan (layerId : ℤ) : ℕ → List (ℤ × ℕ) →
    Fallible StoreError ReadState (List ((ℕ × ℕ) × ℕ))
  | _, [] => pure []
  | pos, (t, e) :: rest => do
    if ¬ entryValid e then throw (.notOffloaded layerId t)
    else
      match st.cache (layerId, t) with
      | some cached => do
        onViews (st.vm.assign pos cached)
        fetchScan layerId (pos + 1) rest
      | none => do
        let items ← fetchScan layerId (pos + 1) rest
        pure (((st.vm.strategy.locate (layerId, t), entryOffset e), pos) :: items)

/-- `read_batch` on the views at some positions. -/
def readAt (items : List ((ℕ × ℕ) × ℕ)) : Fallible MediaError ReadState Unit := do
  let s ← get
  let views := items.map fun item => (s.outs[item.2]?).getD []
  let res := st.vm.readBatch (items.map Prod.fst) ⟨views, s.reads⟩
  set (⟨((items.map Prod.snd).zip res.2.outs).foldl (fun outs p => outs.set p.1 p.2) s.outs,
    res.2.reads⟩ : ReadState)
  match res.1 with
  | .error e => throw e
  | .ok () => pure ()

def fetch (layerId : ℤ) (tokens : List ℤ) : Fallible StoreError ReadState Unit := do
  let s ← get
  if s.outs.length ≠ tokens.length then throw .lengthsDiffer
  else
    match st.table.gather layerId tokens with
    | .error e => throw e
    | .ok entries => do
      let items ← st.fetchScan layerId 0 (tokens.zip entries)
      if items = [] then pure () else onViews (st.readAt items)

end Fetch

def prefetch (layerId : ℤ) (tokens : List ℤ) : Call Unit := do
  let st ← get
  let pending := tokens.filter fun t => (st.cache (layerId, t)).isNone
  if pending = [] then pure ()
  else
    match st.fetch layerId pending ⟨pending.map fun _ => List.replicate st.vm.unitSize 0, []⟩ with
    | (.error e, _) => throw e
    | (.ok (), s) =>
      set { st with
        cache := (pending.zip s.outs).foldl
          (fun cache (p : ℤ × List UInt8) => Function.update cache (layerId, p.1) (some p.2))
          st.cache }

/-- One round of `release`. -/
def releaseToken (layerId tokenIdx : ℤ) : Call Unit := do
  let st ← get
  match st.table.get layerId tokenIdx with
  | .error e => throw e
  | .ok e =>
    if ¬ entryValid e then pure ()
    else
      onTable fun tbl => tbl.invalidate layerId tokenIdx
      let st ← get
      set { st with cache := Function.update st.cache (layerId, tokenIdx) none }
      onMedia (VirtualMedia.release (st.vm.strategy.locate (layerId, tokenIdx)) (entryOffset e))

def release (layerId : ℤ) : List ℤ → Call Unit
  | [] => pure ()
  | t :: ts => do
    releaseToken layerId t
    release layerId ts

end SparseKVStore

end Umm
