import Umm.Memory.MemService
import Umm.Metadata.Directory

/-! The allocation calls of `umm_api.c`. A chunk gets pages from the memory service and a name
and an identifier from the metadata service; each of the two is either embedded in the process
or reached by RPC. -/
namespace Umm

structure UmmConfig where
  myNodeId : UInt8
  ssdOwnerNode : UInt8
  memorySize : UInt64

structure ChunkDescriptor where
  chunkId : ℕ
  baseGpa : ℕ
  userSize : ℕ
deriving DecidableEq

/-- `UMMGlobalState`, without the data plane. The two flags say that an RPC client exists. -/
structure UmmGlobalState (N : Type) where
  initialized : Bool
  config : UmmConfig
  memClient : Bool
  metaClient : Bool
  localMem : Option MemServiceCtx
  localMeta : Option (MetaServiceCtx N)
  memServerNode : UInt8

/-- What the OS and the servers answer during one call. -/
structure CallEnv where
  backing : Backing
  /-- The offset of an allocation, and its owner if the server names one. -/
  memAlloc : Except Error (UInt64 × UInt8)
  memFree : Except Error Unit
  metaRegister : Except Error UInt64
  metaUnregister : Except Error Unit

def ummPageSize : ℕ := 4096

/-- `(size + UMM_PAGE_SIZE - 1) & ~(UMM_PAGE_SIZE - 1)` -/
def roundToPages (size : ℕ) : ℕ :=
  u64 (size + ummPageSize - 1) &&& (2 ^ 64 - 1 - (ummPageSize - 1))

/-- The bytes of `%u` and `%lu`. -/
def decimal (n : ℕ) : List UInt8 := (Nat.toDigits 10 n).map (fun c => c.toNat.toUInt8)

def ascii (s : String) : List UInt8 := s.toList.map (fun c => c.toNat.toUInt8)

/-- `snprintf` into a name of 64 bytes. -/
def printName (bytes : List UInt8) : CString := CString.ofBytes (bytes.take 63)

def chunkName (node offset : ℕ) : CString :=
  printName (ascii "chunk_" ++ decimal node ++ ascii "_" ++ decimal offset)

def tierChunkName (node offset : ℕ) (tier : Tier) : CString :=
  printName (ascii "chunk_" ++ decimal node ++ ascii "_" ++ decimal offset ++ ascii "_tier" ++
    decimal tier.id)

/-- The node that owns a chunk of an RPC allocation: for the SSD tier the one that the reply
names, else the one that the configuration names. -/
def gpaNode (config : UmmConfig) (tier : Tier) (owner : UInt8) : UInt8 :=
  if tier = .ssd then
    if owner.toNat ≠ ummNodeUnknown then owner
    else if config.ssdOwnerNode.toNat ≠ ummNodeUnknown then config.ssdOwnerNode
    else config.myNodeId
  else config.myNodeId

/-- `mem_rpc_alloc`, `mem_rpc_alloc_tiered2` and `mem_rpc_alloc_on_device` -/
def memRpcAlloc (size : ℕ) (env : CallEnv) : Except Error (UInt64 × UInt8) :=
  if size = 0 then .error .invalidArg else env.memAlloc

/-- `umm_desc_validate` -/
def ummDescValidate (desc : ChunkDescriptor) : Except Error Unit :=
  if desc.chunkId = 0 ∧ desc.baseGpa = 0 then .error .invalidArg
  else if desc.userSize = 0 then .error .invalidArg
  else .ok ()

section Calls

variable {N : Type}

/-- `umm_register_storage_tier` with an embedded memory service. An empty path gives no device;
the transports that are configured again afterwards are not part of the state. -/
def ummRegisterStorageTier (g : UmmGlobalState N) (tierId : UInt8) (device : Option BackendKind)
    (capacity : ℕ) (env : RegisterEnv) : Except Error Unit × UmmGlobalState N :=
  if g.initialized = false then (.error .notInitialized, g)
  else
    match Tier.ofId tierId.toNat, g.localMem with
    | some tier, some m =>
      if capacity = 0 then (.error .invalidArg, g)
      else
        let r := memsvcRegisterStorage m { tier, capacity, baseOffset := 0, device } env
        (r.1, { g with localMem := some r.2 })
    | _, _ => (.error .invalidArg, g)

namespace UmmGlobalState

/-- The node of a chunk: with an embedded memory service always the own one. -/
def owner (g : UmmGlobalState N) (tier : Tier) (reply : UInt8) : UInt8 :=
  match g.localMem with
  | some _ => g.config.myNodeId
  | none => gpaNode g.config tier reply

/-- Step 1 of `umm_alloc`: CXL memory. -/
def allocLocal (g : UmmGlobalState N) (size : ℕ) (env : CallEnv) :
    Except Error ℕ × UmmGlobalState N :=
  match g.localMem with
  | some m =>
    let r := memsvcAllocTiered m .cxl size env.backing
    (r.1, { g with localMem := some r.2 })
  | none =>
    if g.memClient then ((memRpcAlloc size env).map (fun r => r.1.toNat), g)
    else (.error .notInitialized, g)

/-- The client remembers the owner that a reply names for SSD memory. -/
def learnOwner (g : UmmGlobalState N) (tier : Tier) (owner : UInt8) : UmmGlobalState N :=
  if tier = .ssd ∧ owner.toNat ≠ ummNodeUnknown then { g with memServerNode := owner } else g

/-- Step 1 of `alloc_tier_impl`: memory of a tier, or of one device of it. The offset comes
with the owner that a reply names. -/
def allocTier (g : UmmGlobalState N) (tier : Tier) (device : Option ℕ) (size : ℕ)
    (env : CallEnv) : Except Error (ℕ × UInt8) × UmmGlobalState N :=
  match g.localMem with
  | some m =>
    let r :=
      match device with
      | some deviceIdx => memsvcAllocOnDevice m tier deviceIdx size
      | none => memsvcAllocTiered m tier size env.backing
    (r.1.map (fun offset => (offset, 0xFF)), { g with localMem := some r.2 })
  | none =>
    if g.memClient then
      match memRpcAlloc size env with
      | .error e => (.error e, g)
      | .ok (offset, owner) => (.ok (offset.toNat, owner), g.learnOwner tier owner)
    else (.error .notInitialized, g)

/-- Step 2 of `umm_free`; the two bits of the tier field always name a tier. -/
def freeMemory (g : UmmGlobalState N) (gpa size : ℕ) (env : CallEnv) :
    Except Error Unit × UmmGlobalState N :=
  match g.localMem with
  | some m =>
    let r := memsvcFreeTiered m ((Tier.ofId (gpaToTier gpa)).getD .cxl) (gpaToOffset gpa) size
    (r.1, { g with localMem := some r.2 })
  | none => if g.memClient then (env.memFree, g) else (.error .notInitialized, g)

/-- Undo an allocation; the reply of a server is ignored. -/
def rollback (g : UmmGlobalState N) (tier : Tier) (offset size : ℕ) : UmmGlobalState N :=
  match g.localMem with
  | some m => { g with localMem := some (memsvcFreeTiered m tier offset size).2 }
  | none => g

variable [NameTable N]

def registerChunk (g : UmmGlobalState N) (name : CString) (gpa size : ℕ) (env : CallEnv) :
    Option (Except Error ℕ × UmmGlobalState N) :=
  match g.localMeta with
  | some ctx =>
    (implRegisterChunk ctx name gpa size).map (fun r => (r.1, { g with localMeta := some r.2 }))
  | none =>
    if g.metaClient then some (env.metaRegister.map UInt64.toNat, g)
    else some (.error .notInitialized, g)

/-- Steps 2 to 4 of both allocations: compose the address, register the chunk, fill the
descriptor. A failed registration gives the memory back. -/
def publish (g : UmmGlobalState N) (node : UInt8) (tier : Tier) (offset size : ℕ)
    (name : CString) (env : CallEnv) :
    Option (Except Error ChunkDescriptor × UmmGlobalState N) :=
  let gpa := makeGpa node.toNat tier.id offset
  (g.registerChunk name gpa size env).map (fun r =>
    match r with
    | (.ok cid, g) => (.ok ⟨cid, gpa, size⟩, g)
    | (.error e, g) => (.error e, g.rollback tier offset size))

end UmmGlobalState

variable [NameTable N]

def ummAlloc (g : UmmGlobalState N) (size : ℕ) (env : CallEnv) :
    Option (Except Error ChunkDescriptor × UmmGlobalState N) :=
  if g.initialized = false then some (.error .notInitialized, g)
  else if size = 0 then some (.error .invalidArg, g)
  else
    let allocSize := roundToPages size
    match g.allocLocal allocSize env with
    | (.error e, g) => some (.error e, g)
    | (.ok offset, g) =>
      g.publish g.config.myNodeId .cxl offset allocSize
        (chunkName g.config.myNodeId.toNat offset) env

/-- `alloc_tier_impl`; `device` is the index for an allocation on one device. -/
def allocTierImpl (g : UmmGlobalState N) (size : ℕ) (tierId : UInt8) (device : Option ℕ)
    (env : CallEnv) : Option (Except Error ChunkDescriptor × UmmGlobalState N) :=
  if g.initialized = false then some (.error .notInitialized, g)
  else
    match Tier.ofId tierId.toNat with
    | none => some (.error .invalidArg, g)
    | some tier =>
      if size = 0 ∨ 2 ^ 64 - 1 - (ummPageSize - 1) < size then some (.error .invalidArg, g)
      else if device.isSome ∧ tier ≠ .ssd then some (.error .unsupported, g)
      else
        let allocSize := roundToPages size
        match g.allocTier tier device allocSize env with
        | (.error e, g) => some (.error e, g)
        | (.ok (offset, owner), g) =>
          g.publish (g.owner tier owner) tier offset allocSize
            (tierChunkName g.config.myNodeId.toNat offset tier) env

def ummAllocTiered (g : UmmGlobalState N) (size : ℕ) (tierId : UInt8) (env : CallEnv) :
    Option (Except Error ChunkDescriptor × UmmGlobalState N) :=
  allocTierImpl g size tierId none env

def ummAllocOnDevice (g : UmmGlobalState N) (size : ℕ) (tierId : UInt8) (deviceIdx : ℕ)
    (env : CallEnv) : Option (Except Error ChunkDescriptor × UmmGlobalState N) :=
  allocTierImpl g size tierId (some deviceIdx) env

/-- Step 1 of `umm_free`. -/
def unregisterChunk (g : UmmGlobalState N) (chunkId : ℕ) (env : CallEnv) :
    Except Error Unit × UmmGlobalState N :=
  if chunkId = 0 then (.ok (), g)
  else
    match g.localMeta with
    | some ctx =>
      let r := implUnregisterChunk ctx chunkId
      (r.1, { g with localMeta := some r.2 })
    | none => if g.metaClient then (env.metaUnregister, g) else (.ok (), g)

/-- The pages are freed also when the chunk was not found. -/
def ummFree (g : UmmGlobalState N) (desc : ChunkDescriptor) (env : CallEnv) :
    Except Error Unit × UmmGlobalState N :=
  if g.initialized = false then (.error .notInitialized, g)
  else
    match ummDescValidate desc with
    | .error e => (.error e, g)
    | .ok () =>
      let r1 := unregisterChunk g desc.chunkId env
      if g.localMem.isNone ∧ g.memClient = false then (.error .notInitialized, r1.2)
      else
        let r2 := r1.2.freeMemory desc.baseGpa desc.userSize env
        match r1.1 with
        | .error e => (.error e, r2.2)
        | .ok () => (r2.1, r2.2)

/-! Both allocations with their last steps left open. -/

/-- Steps 2 to 4 of an allocation: the node, tier, offset, size and name of the chunk. -/
abbrev Publish (N : Type) : Type := UmmGlobalState N → UInt8 → Tier → ℕ → ℕ → CString →
  Option (Except Error ChunkDescriptor × UmmGlobalState N)

def ummAllocWith {N : Type} (publish : Publish N) (g : UmmGlobalState N) (size : ℕ)
    (env : CallEnv) : Option (Except Error ChunkDescriptor × UmmGlobalState N) :=
  if g.initialized = false then some (.error .notInitialized, g)
  else if size = 0 then some (.error .invalidArg, g)
  else
    let allocSize := roundToPages size
    match g.allocLocal allocSize env with
    | (.error e, g) => some (.error e, g)
    | (.ok offset, g) =>
      publish g g.config.myNodeId .cxl offset allocSize (chunkName g.config.myNodeId.toNat offset)

def allocTierImplWith {N : Type} (publish : Publish N) (g : UmmGlobalState N) (size : ℕ)
    (tierId : UInt8) (device : Option ℕ) (env : CallEnv) :
    Option (Except Error ChunkDescriptor × UmmGlobalState N) :=
  if g.initialized = false then some (.error .notInitialized, g)
  else
    match Tier.ofId tierId.toNat with
    | none => some (.error .invalidArg, g)
    | some tier =>
      if size = 0 ∨ 2 ^ 64 - 1 - (ummPageSize - 1) < size then some (.error .invalidArg, g)
      else if device.isSome ∧ tier ≠ .ssd then some (.error .unsupported, g)
      else
        let allocSize := roundToPages size
        match g.allocTier tier device allocSize env with
        | (.error e, g) => some (.error e, g)
        | (.ok (offset, owner), g) =>
          publish g (g.owner tier owner) tier offset allocSize
            (tierChunkName g.config.myNodeId.toNat offset tier)

omit [NameTable N] in
/-- Everything that `umm_alloc` can do, whatever its last steps are. -/
theorem ummAllocWith_cases {publish : Publish N} {g g' : UmmGlobalState N} {size : ℕ}
    {env : CallEnv} {r : Except Error ChunkDescriptor}
    (h : ummAllocWith publish g size env = some (r, g')) :
    (∃ e, r = .error e ∧ g' = g) ∨
    (∃ e, g.allocLocal (roundToPages size) env = (.error e, g') ∧ r = .error e) ∨
    (∃ offset g1, 0 < size ∧ g.allocLocal (roundToPages size) env = (.ok offset, g1) ∧
      publish g1 g1.config.myNodeId .cxl offset (roundToPages size)
        (chunkName g1.config.myNodeId.toNat offset) = some (r, g')) := by
  unfold ummAllocWith at h
  split_ifs at h with hi hs
  · obtain ⟨rfl, rfl⟩ := by simpa using h
    exact Or.inl ⟨_, rfl, rfl⟩
  · obtain ⟨rfl, rfl⟩ := by simpa using h
    exact Or.inl ⟨_, rfl, rfl⟩
  · dsimp only at h
    cases ha : g.allocLocal (roundToPages size) env with
    | mk a g1 =>
      rw [ha] at h
      cases a with
      | error e =>
        obtain ⟨rfl, rfl⟩ := by simpa using h
        exact Or.inr (Or.inl ⟨e, rfl, rfl⟩)
      | ok offset => exact Or.inr (Or.inr ⟨offset, g1, by omega, rfl, h⟩)

omit [NameTable N] in
/-- Everything that `alloc_tier_impl` can do, whatever its last steps are. -/
theorem allocTierImplWith_cases {publish : Publish N} {g g' : UmmGlobalState N} {size : ℕ}
    {tierId : UInt8} {device : Option ℕ} {env : CallEnv} {r : Except Error ChunkDescriptor}
    (h : allocTierImplWith publish g size tierId device env = some (r, g')) :
    (∃ e, r = .error e ∧ g' = g) ∨
    ∃ tier, Tier.ofId tierId.toNat = some tier ∧
      ((∃ e, g.allocTier tier device (roundToPages size) env = (.error e, g') ∧ r = .error e) ∨
      (∃ offset owner g1, 0 < size ∧
        g.allocTier tier device (roundToPages size) env = (.ok (offset, owner), g1) ∧
        publish g1 (g1.owner tier owner) tier offset (roundToPages size)
          (tierChunkName g1.config.myNodeId.toNat offset tier) = some (r, g'))) := by
  unfold allocTierImplWith at h
  by_cases hi : g.initialized = false
  · rw [if_pos hi] at h
    obtain ⟨rfl, rfl⟩ := by simpa using h
    exact Or.inl ⟨_, rfl, rfl⟩
  rw [if_neg hi] at h
  cases ht : Tier.ofId tierId.toNat with
  | none =>
    rw [ht] at h
    obtain ⟨rfl, rfl⟩ := by simpa using h
    exact Or.inl ⟨_, rfl, rfl⟩
  | some tier =>
    rw [ht] at h
    dsimp only at h
    split_ifs at h with hs hd
    · obtain ⟨rfl, rfl⟩ := by simpa using h
      exact Or.inl ⟨_, rfl, rfl⟩
    · obtain ⟨rfl, rfl⟩ := by simpa using h
      exact Or.inl ⟨_, rfl, rfl⟩
    · refine Or.inr ⟨tier, rfl, ?_⟩
      cases ha : g.allocTier tier device (roundToPages size) env with
      | mk a g1 =>
        rw [ha] at h
        cases a with
        | error e =>
          obtain ⟨rfl, rfl⟩ := by simpa using h
          exact Or.inl ⟨e, rfl, rfl⟩
        | ok a => exact Or.inr ⟨a.1, a.2, g1, by omega, rfl, h⟩

/-- Everything that `umm_alloc` can do. -/
theorem ummAlloc_cases {g g' : UmmGlobalState N} {size : ℕ} {env : CallEnv}
    {r : Except Error ChunkDescriptor} (h : ummAlloc g size env = some (r, g')) :
    (∃ e, r = .error e ∧ g' = g) ∨
    (∃ e, g.allocLocal (roundToPages size) env = (.error e, g') ∧ r = .error e) ∨
    (∃ offset g1, 0 < size ∧ g.allocLocal (roundToPages size) env = (.ok offset, g1) ∧
      g1.publish g1.config.myNodeId .cxl offset (roundToPages size)
        (chunkName g1.config.myNodeId.toNat offset) env = some (r, g')) :=
  ummAllocWith_cases (show ummAllocWith (fun g node tier offset size name =>
    g.publish node tier offset size name env) g size env = some (r, g') from h)

/-- Everything that `alloc_tier_impl` can do. -/
theorem allocTierImpl_cases {g g' : UmmGlobalState N} {size : ℕ} {tierId : UInt8}
    {device : Option ℕ} {env : CallEnv} {r : Except Error ChunkDescriptor}
    (h : allocTierImpl g size tierId device env = some (r, g')) :
    (∃ e, r = .error e ∧ g' = g) ∨
    ∃ tier, Tier.ofId tierId.toNat = some tier ∧
      ((∃ e, g.allocTier tier device (roundToPages size) env = (.error e, g') ∧ r = .error e) ∨
      (∃ offset owner g1, 0 < size ∧
        g.allocTier tier device (roundToPages size) env = (.ok (offset, owner), g1) ∧
        g1.publish (g1.owner tier owner) tier offset (roundToPages size)
          (tierChunkName g1.config.myNodeId.toNat offset tier) env = some (r, g'))) :=
  allocTierImplWith_cases (show allocTierImplWith (fun g node tier offset size name =>
    g.publish node tier offset size name env) g size tierId device env = some (r, g') from h)

end Calls

/-- The three allocation calls. -/
inductive AllocCall where
  | alloc (size : UInt64)
  | allocTiered (size : UInt64) (tierId : UInt8)
  | allocOnDevice (size : UInt64) (tierId : UInt8) (deviceIdx : UInt32)

namespace AllocCall

def size : AllocCall → ℕ
  | alloc size => size.toNat
  | allocTiered size _ => size.toNat
  | allocOnDevice size _ _ => size.toNat

def tier : AllocCall → Option Tier
  | alloc _ => some .cxl
  | allocTiered _ tierId => Tier.ofId tierId.toNat
  | allocOnDevice _ tierId _ => Tier.ofId tierId.toNat

def device : AllocCall → Option ℕ
  | allocOnDevice _ _ deviceIdx => some deviceIdx.toNat
  | _ => none

variable {N : Type}

def run [NameTable N] (g : UmmGlobalState N) (env : CallEnv) :
    AllocCall → Option (Except Error ChunkDescriptor × UmmGlobalState N)
  | alloc size => ummAlloc g size.toNat env
  | allocTiered size tierId => ummAllocTiered g size.toNat tierId env
  | allocOnDevice size tierId deviceIdx =>
    ummAllocOnDevice g size.toNat tierId deviceIdx.toNat env

end AllocCall

/-- `umm_init` without server addresses: both services are embedded. -/
def ummInitDirect (config : UmmConfig) (env : RegisterEnv) :
    Option (UmmGlobalState (MetaHashTable ChunkMetadata)) :=
  let memorySize := if config.memorySize = 0 then 64 * 1024 * 1024 else config.memorySize.toNat
  match memServiceDirectCreate memorySize 0 env, metaServiceDirectCreate with
  | some m, some ctx =>
    some
      { initialized := true
        config
        memClient := false
        metaClient := false
        localMem := some m
        localMeta := some ctx
        memServerNode := config.ssdOwnerNode }
  | _, _ => none

end Umm
