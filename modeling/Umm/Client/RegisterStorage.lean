import Umm.Client.TierRouter
import Umm.Memory.MemServiceDevices

/-! `umm_register_storage_tier` in both modes: the service, the devices of the configuration and
the transports, one after another. -/
namespace Umm

/-- The client with the memory service embedded in it; without one the service has no tiers. -/
structure UmmLibrary where
  client : UmmState
  service : LocalMemService

/-- The arguments of one call; a null path is `none`. -/
structure RegisterCall where
  tierId : UInt8
  path : Option CString
  capacity : UInt64

/-- What the world answers during one call. -/
structure StorageEnv where
  service : PathEnv
  transports : TransportEnv

def emptySlot : Proto.StorageResource := ⟨0, emptyString, 0, 0, 0⟩

/-- The resources in front of the slots that are left. -/
def compactTopology (resources : List Proto.StorageResource) : InitTopology :=
  ⟨resources.length,
    resources ++ List.replicate (ummMaxTopologyResources - resources.length) emptySlot⟩

/-- One resource in the slot of its tier. -/
def sparseTopology (res : Proto.StorageResource) : InitTopology :=
  ⟨1, (List.replicate ummMaxTopologyResources emptySlot).set res.tier.toNat res⟩

def ummMaxSsdDevices : ℕ := 16

/-- The devices of the configuration with one more, or with a new size for it. -/
def addSsdDevice (devices : List SsdDevicePath) (path : CString) (capacity : UInt64) :
    Except Error (List SsdDevicePath) :=
  let idx := devices.findIdx (·.path = path)
  if idx = devices.length then
    if ummMaxSsdDevices ≤ idx then .error .invalidArg
    else .ok (devices ++ [⟨devicePathField path, capacity⟩])
  else .ok (devices.modify idx fun d => { d with size := capacity })

def UmmState.withoutRouter (s : UmmState) : UmmState :=
  { s with tierRouter := none, transport := none }

namespace UmmLibrary

/-- The transports that are built again, after the old router is gone. -/
def rebuild (p : UmmLibrary) (topo : InitTopology) (env : TransportEnv) :
    Except Error Unit × UmmLibrary :=
  let r := configureTransports p.client.config (some topo) env p.client.withoutRouter
  (r.1, { p with client := r.2 })

def registerDirect (p : UmmLibrary) (tier : Tier) (path : CString) (capacity : UInt64)
    (env : StorageEnv) : Except Error Unit × UmmLibrary :=
  let r := p.service.registerStorage tier (devicePathField path) capacity env.service
  let p := { p with service := r.2 }
  match r.1 with
  | .error e => (.error e, p)
  | .ok () =>
    if p.client.tierRouter.isNone then (.ok (), p)
    else match p.service.getTopology with
      | .error _ => (.ok (), p)
      | .ok resources =>
        if resources = [] then (.ok (), p)
        else p.rebuild (compactTopology resources) env.transports

/-- A device that the data plane of this process opens itself. -/
def isLocalSsd (tier : Tier) (path : CString) : Bool :=
  tier = .ssd && path.bytes ≠ [] && !isNds path

/-- The report to the metadata server before this is only logged when it fails. -/
def registerRpc (p : UmmLibrary) (tier : Tier) (path : CString) (capacity : UInt64)
    (env : StorageEnv) : Except Error Unit × UmmLibrary :=
  let config := p.client.config
  match if isLocalSsd tier path then addSsdDevice config.ssdDevices path capacity
      else .ok config.ssdDevices with
  | .error e => (.error e, p)
  | .ok devices =>
    let client := { p.client with config := { config with ssdDevices := devices } }
    if client.tierRouter.isNone then (.ok (), { p with client := client })
    else
      rebuild { p with client := { client with ssdTransport := none } }
        (sparseTopology ⟨.ofNat tier.id, devicePathField path, capacity, 0, 1⟩) env.transports

/-- `umm_register_storage_tier`. -/
def registerStorageTier (p : UmmLibrary) (call : RegisterCall) (env : StorageEnv) :
    Except Error Unit × UmmLibrary :=
  if p.client.initialized = false then (.error .notInitialized, p)
  else match Tier.ofId call.tierId.toNat, call.path with
    | some tier, some path =>
      if call.capacity = 0 then (.error .invalidArg, p)
      else if p.client.localMem.isSome then p.registerDirect tier path call.capacity env
      else if p.client.config.isRpc then p.registerRpc tier path call.capacity env
      else (.error .invalidArg, p)
    | _, _ => (.error .invalidArg, p)

/-- The list of the configuration has no place for the device. -/
def NoRoom (p : UmmLibrary) (tier : Tier) (path : CString) : Prop :=
  isLocalSsd tier path = true ∧ ummMaxSsdDevices ≤ p.client.config.ssdDevices.length ∧
    ∀ d ∈ p.client.config.ssdDevices, d.path ≠ path

end UmmLibrary

theorem addSsdDevice_cases (devices : List SsdDevicePath) (path : CString) (capacity : UInt64) :
    (∃ devices', addSsdDevice devices path capacity = .ok devices') ∧
        ¬ (ummMaxSsdDevices ≤ devices.length ∧ ∀ d ∈ devices, d.path ≠ path) ∨
      addSsdDevice devices path capacity = .error .invalidArg ∧
        ummMaxSsdDevices ≤ devices.length ∧ ∀ d ∈ devices, d.path ≠ path := by
  have hnew : devices.findIdx (·.path = path) = devices.length ↔ ∀ d ∈ devices, d.path ≠ path := by
    rw [List.findIdx_eq_length]
    simp
  unfold addSsdDevice
  dsimp only
  split
  next hidx =>
    rw [hidx]
    split
    next hfull => exact Or.inr ⟨rfl, hfull, hnew.mp hidx⟩
    next hroom => exact Or.inl ⟨⟨_, rfl⟩, fun hc => hroom hc.1⟩
  next hidx => exact Or.inl ⟨⟨_, rfl⟩, fun hc => hidx (hnew.mpr hc.2)⟩

/-! Transports that are built where every part answers. -/

def TransportEnv.allWell : TransportEnv := ⟨true, true, true, true, true, true⟩

theorem topologyDevices_ok {slots : List Proto.StorageResource} {devices : List SsdDevicePath}
    (h : devices.length + (slots.filter Proto.StorageResource.isOnlineSsd).length ≤ 16) :
    ∃ r, topologyDevices slots devices = .ok r := by
  induction slots generalizing devices with
  | nil => exact ⟨_, rfl⟩
  | cons res rest ih =>
    unfold topologyDevices
    cases hon : res.isOnlineSsd with
    | false =>
      rw [List.filter_cons_of_neg (by rw [hon]; decide)] at h
      exact ih h
    | true =>
      rw [List.filter_cons_of_pos hon, List.length_cons] at h
      simp only [Bool.not_true, Bool.false_eq_true, if_false]
      split
      · exact ⟨_, rfl⟩
      · rw [if_neg (by omega)]
        refine ih ?_
        rw [List.length_append, List.length_singleton]
        omega

theorem configureSsd_ok (cfg : InitConfig) {topo : InitTopology}
    (h : (topo.slots.filter Proto.StorageResource.isOnlineSsd).length ≤ 16) :
    ∃ r, configureSsd cfg (some topo) .allWell = .ok r := by
  have hscan : ∃ r, scanTopology cfg (some topo) = .ok r := by
    unfold scanTopology
    dsimp only
    split
    · exact topologyDevices_ok (by simpa using h)
    · exact ⟨_, rfl⟩
  obtain ⟨⟨devices, skipped⟩, hr⟩ := hscan
  unfold configureSsd
  rw [hr]
  cases skipped with
  | some path => exact ⟨_, rfl⟩
  | none =>
    dsimp only [TransportEnv.allWell]
    split
    · exact ⟨_, rfl⟩
    · split
      · split <;> exact ⟨_, rfl⟩
      · exact ⟨_, rfl⟩

theorem configureTransports_ok (cfg : InitConfig) {topo : InitTopology} (s : UmmState)
    (h : (topo.slots.filter Proto.StorageResource.isOnlineSsd).length ≤ 16) :
    (configureTransports cfg (some topo) .allWell s).1 = .ok () ∧
      (configureTransports cfg (some topo) .allWell s).2.transport.isSome = true := by
  obtain ⟨⟨ssd, skipped⟩, hr⟩ := configureSsd_ok cfg h
  unfold configureTransports
  simp only [hr]
  exact ⟨rfl, rfl⟩

/-- A failure leaves the router and the transport as they were when the building began. -/
theorem configureTransports_error {cfg : InitConfig} {topo : Option InitTopology}
    {env : TransportEnv} {s : UmmState} {e : Error}
    (h : (configureTransports cfg topo env s).1 = .error e) :
    (configureTransports cfg topo env s).2 = { s with remoteTransport := none } := by
  unfold configureTransports at h ⊢
  dsimp only at h ⊢
  split at h
  next hl => rw [if_pos hl]
  next hl =>
    rw [if_neg hl]
    split at h
    next hr => rfl
    next ssd skipped hr =>
      split at h
      next hno => rw [if_pos hno]
      next => cases h

theorem isOnlineSsd_tier {res : Proto.StorageResource} (h : res.isOnlineSsd = true) :
    res.tier.toNat = Tier.ssd.id := by
  unfold Proto.StorageResource.isOnlineSsd at h
  rw [Bool.and_eq_true, decide_eq_true_eq, decide_eq_true_eq] at h
  rw [h.2]
  rfl

theorem filter_emptySlots (n : ℕ) :
    (List.replicate n emptySlot).filter Proto.StorageResource.isOnlineSsd = [] := by
  rw [List.filter_eq_nil_iff]
  intro res hres
  rw [List.eq_of_mem_replicate hres]
  decide

/-- The topology of the service shows no more SSDs than the pool has room for. -/
theorem compactTopology_ssds {svc : LocalMemService} (h : svc.Lined) :
    ∃ resources, svc.getTopology = .ok resources ∧
      ((compactTopology resources).slots.filter Proto.StorageResource.isOnlineSsd).length ≤ 16 := by
  refine ⟨_, LocalMemService.getTopology_ok h.count_le, ?_⟩
  have hother : ∀ tier, tier ≠ .ssd →
      (svc.tierResources tier).filter Proto.StorageResource.isOnlineSsd = [] := by
    intro tier hne
    rw [List.filter_eq_nil_iff]
    intro res hres hon
    exact hne (Tier.id_inj ((LocalMemService.mem_tierResources hres).symm.trans (isOnlineSsd_tier hon)))
  have hssd := svc.length_tierResources .ssd
  have hfilter := List.length_filter_le Proto.StorageResource.isOnlineSsd (svc.tierResources .ssd)
  have hcount := h.count_le
  unfold ssdPoolMaxDevices at hcount
  rw [if_pos rfl] at hssd
  unfold compactTopology
  simp only [List.flatMap_cons, List.flatMap_nil, List.filter_append, List.length_append,
    hother .dram (by decide), hother .cxl (by decide), hother .resv (by decide), filter_emptySlots,
    List.filter_nil, List.length_nil]
  omega

end Umm
