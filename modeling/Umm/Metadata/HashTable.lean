import Umm.Common.Basic
import Umm.Common.CString
import Umm.Lib.Probe

/-! The name table of `meta_hash_table.c`: open addressing with Robin Hood exchanges,
tombstones, a search that stops early by probe distance, and growth by re-insertion. -/
namespace Umm
open Umm.Lib

structure MHTItem (V : Type) where
  key : CString
  /-- The cached hash of the key. -/
  hash : UInt32
  value : V
deriving DecidableEq

/-- `MHT_EMPTY`, `MHT_DELETED` or `MHT_OCCUPIED`. -/
abbrev MHTEntry (V : Type) : Type := Slot (MHTItem V)

structure MetaHashTable (V : Type) where
  entries : List (MHTEntry V)
  capacity : ℕ
  count : ℕ
  tombstones : ℕ
deriving DecidableEq

def mhtMinCapacity : ℕ := 16

def fnv1aHash (key : CString) : UInt32 :=
  key.bytes.foldl (fun h b => (h ^^^ b.toUInt32) * 0x01000193) 0x811C9DC5

def desiredPos (hash : UInt32) (capacity : ℕ) : ℕ := hash.toNat &&& (capacity - 1)

def probeDistance (hash : UInt32) (slotIdx capacity : ℕ) : ℕ :=
  let ideal := desiredPos hash capacity
  if ideal ≤ slotIdx then slotIdx - ideal else capacity - ideal + slotIdx

def nextIdx (idx capacity : ℕ) : ℕ := (idx + 1) &&& (capacity - 1)

section Operations

variable {V : Type}

def slotAt (entries : List (MHTEntry V)) (idx : ℕ) : MHTEntry V := entries.getD idx .empty

/-- The loop that finds a slot for an item of the old table, exchanging it for items that are
closer to home, with `none` when the fuel does not suffice. -/
def reinsertLoop (capacity : ℕ) :
    ℕ → List (MHTEntry V) → MHTItem V → ℕ → ℕ → Option (List (MHTEntry V))
  | 0, _, _, _, _ => none
  | fuel + 1, entries, item, idx, dist =>
    match slotAt entries idx with
    | .full there =>
      let existingDist := probeDistance there.hash idx capacity
      if existingDist < dist then
        reinsertLoop capacity fuel (entries.set idx (.full item)) there (nextIdx idx capacity)
          (existingDist + 1)
      else reinsertLoop capacity fuel entries item (nextIdx idx capacity) (dist + 1)
    | _ => some (entries.set idx (.full item))

/-- The loop over the old entries: occupied ones move, tombstones are dropped. -/
def reinsertAll (capacity : ℕ) :
    List (MHTEntry V) → List (MHTEntry V) → ℕ → Option (List (MHTEntry V) × ℕ)
  | [], entries, count => some (entries, count)
  | .full item :: old, entries, count =>
    match reinsertLoop capacity capacity entries item (desiredPos item.hash capacity) 0 with
    | none => none
    | some entries' => reinsertAll capacity old entries' (u32 (count + 1))
  | _ :: old, entries, count => reinsertAll capacity old entries count

/-- `mht_maybe_grow` with memory always granted. -/
def mhtMaybeGrow (ht : MetaHashTable V) : Option (MetaHashTable V) :=
  let threshold := u32 (ht.capacity * 7) / 10
  if u32 (ht.count + ht.tombstones) < threshold then some ht
  else
    let newCap := u32 (ht.capacity * 2)
    let newCap := if newCap < mhtMinCapacity then mhtMinCapacity else newCap
    (reinsertAll newCap ht.entries (List.replicate newCap .empty) 0).map (fun r =>
      { entries := r.1, capacity := newCap, count := r.2, tombstones := 0 })

def mhtCreate (V : Type) (initialCapacity : ℕ) : Option (MetaHashTable V) :=
  (doubleUntil initialCapacity 33 mhtMinCapacity).map (fun cap =>
    { entries := List.replicate cap .empty, capacity := cap, count := 0, tombstones := 0 })

/-- The loop of `mht_insert`. It returns the entries as they are when it stops, and the item
to place with its slot, or no item when the key was met. -/
def mhtInsertLoop (capacity : ℕ) (key : CString) :
    ℕ → List (MHTEntry V) → MHTItem V → UInt32 → ℕ → ℕ →
      Option (List (MHTEntry V) × Option (MHTItem V × ℕ))
  | 0, _, _, _, _, _ => none
  | fuel + 1, entries, entry, hash, idx, dist =>
    match slotAt entries idx with
    | .full there =>
      if there.hash = hash ∧ there.key = key then some (entries, none)
      else
        let existingDist := probeDistance there.hash idx capacity
        if existingDist < dist then
          mhtInsertLoop capacity key fuel (entries.set idx (.full entry)) there there.hash
            (nextIdx idx capacity) (existingDist + 1)
        else
          mhtInsertLoop capacity key fuel entries entry hash (nextIdx idx capacity) (dist + 1)
    | _ => some (entries, some (entry, idx))

/-- A tombstone that is taken over is no longer counted. -/
def tombstonesAfter (tombstones : ℕ) : MHTEntry V → ℕ
  | .deleted => u32 (tombstones + (2 ^ 32 - 1))
  | _ => tombstones

/-- `mht_insert` after the table was grown. -/
def mhtInsertGrown (ht : MetaHashTable V) (key : CString) (value : V) :
    Option (Except Error Unit × MetaHashTable V) :=
  let hash := fnv1aHash key
  match mhtInsertLoop ht.capacity key ht.capacity ht.entries ⟨key, hash, value⟩ hash
      (desiredPos hash ht.capacity) 0 with
  | none => none
  | some (entries, none) => some (.error .alreadyExists, { ht with entries })
  | some (entries, some (entry, idx)) =>
    some (.ok (),
      { ht with
        entries := entries.set idx (.full entry)
        count := u32 (ht.count + 1)
        tombstones := tombstonesAfter ht.tombstones (slotAt entries idx) })

def mhtInsert (ht : MetaHashTable V) (key : CString) (value : V) :
    Option (Except Error Unit × MetaHashTable V) :=
  (mhtMaybeGrow ht).bind (fun ht => mhtInsertGrown ht key value)

/-- The loop shared by `mht_lookup` and `mht_remove`, for at most `capacity + 1` slots. -/
def mhtSearch (entries : List (MHTEntry V)) (capacity : ℕ) (key : CString) (hash : UInt32) :
    ℕ → ℕ → ℕ → Option ℕ
  | 0, _, _ => none
  | r + 1, idx, dist =>
    match slotAt entries idx with
    | .empty => none
    | .deleted => mhtSearch entries capacity key hash r (nextIdx idx capacity) (dist + 1)
    | .full there =>
      if there.hash = hash ∧ there.key = key then some idx
      else if probeDistance there.hash idx capacity < dist then none
      else mhtSearch entries capacity key hash r (nextIdx idx capacity) (dist + 1)

def mhtFind (ht : MetaHashTable V) (key : CString) : Option ℕ :=
  let hash := fnv1aHash key
  mhtSearch ht.entries ht.capacity key hash (ht.capacity + 1) (desiredPos hash ht.capacity) 0

def mhtLookup (ht : MetaHashTable V) (key : CString) : Except Error V :=
  match mhtFind ht key with
  | none => .error .notFound
  | some idx =>
    match slotAt ht.entries idx with
    | .full there => .ok there.value
    | _ => .error .notFound

def mhtRemove (ht : MetaHashTable V) (key : CString) : Except Error Unit × MetaHashTable V :=
  match mhtFind ht key with
  | none => (.error .notFound, ht)
  | some idx =>
    (.ok (),
      { ht with
        entries := ht.entries.set idx .deleted
        count := u32 (ht.count + (2 ^ 32 - 1))
        tombstones := u32 (ht.tombstones + 1) })

end Operations

end Umm
