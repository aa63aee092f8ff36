import Umm.Metadata.MetaRpcListing
import Umm.Client.Init

/-! The storage topologies that the metadata service keeps for the nodes, the two requests of the
protocol for them, and what a client reads back after any run of the service. -/
namespace Umm
open Umm.Lib Proto MetaRpcServer MetaRpcClient

/-- A `StorageTopology` of the service: one slot for each tier, with resources or without. -/
structure NodeTopology where
  nodeId : UInt8
  numResources : ℕ
  resources : Fin ummNumTiers → Proto.StorageResource

namespace NodeTopology

/-- The topology after `memset`. -/
def blank (node : UInt8) : NodeTopology := ⟨node, 0, fun _ => ⟨0, emptyString, 0, 0, 0⟩⟩

/-- The resources that are online, by their tiers. -/
def online (topo : NodeTopology) : List Proto.StorageResource :=
  ((List.finRange ummNumTiers).map topo.resources).filter (·.online ≠ 0)

def put (topo : NodeTopology) (tier : Fin ummNumTiers) (res : Proto.StorageResource) :
    NodeTopology :=
  let topo := { topo with resources := Function.update topo.resources tier res }
  { topo with numResources := topo.online.length }

end NodeTopology

/-- The part of `MetaServiceCtx` with the topologies; `num_topologies` is the length. -/
abbrev Topologies := List NodeTopology

def maxTopologies : ℕ := 64

/-- The resource is written into the first topology of the node; `none` when there is none. -/
def putResource (node : UInt8) (tier : Fin ummNumTiers) (res : Proto.StorageResource) :
    Topologies → Option Topologies
  | [] => none
  | topo :: topos =>
    if topo.nodeId = node then some (topo.put tier res :: topos)
    else (putResource node tier res topos).map (topo :: ·)

def implRegisterStorageResource (topos : Topologies) (node : UInt8) (res : Proto.StorageResource) :
    Except Error Unit × Topologies :=
  if h : res.tier.toNat < ummNumTiers then
    match putResource node ⟨res.tier.toNat, h⟩ res topos with
    | some topos => (.ok (), topos)
    | none =>
      if maxTopologies ≤ topos.length then (.error .noMemory, topos)
      else (.ok (), topos ++ [(NodeTopology.blank node).put ⟨res.tier.toNat, h⟩ res])
  else (.error .invalidArg, topos)

def findTopology (topos : Topologies) (node : UInt8) : Option NodeTopology :=
  topos.find? (·.nodeId = node)

/-- The slots are handed out without those that are not in use. -/
def implGetStorageTopology (topos : Topologies) (node : UInt8) :
    Except Error Proto.StorageTopology :=
  match findTopology topos node with
  | none => .error .notFound
  | some topo => .ok ⟨topo.nodeId, topo.online⟩

/-! The requests, and the calls that make them. -/

def opRegisterStorageResource : UInt8 := 9

def opGetStorageTopology : UInt8 := 10

/-- The service, with the directory of chunks and the topologies. -/
structure MetaServer (σ : Type) where
  directory : σ
  topologies : Topologies

section Server

variable {σ : Type} (vtbl : MetadataServiceVtbl σ) (stack : List UInt8)

/-- A node takes four bytes in a request and one in the service. -/
def handleRegisterStorage (topos : Topologies) (body : UmmProtoBody) :
    Option (UmmProtoBody × Topologies) :=
  match metaUnpackRegisterStorageResource body with
  | .error e => statusReply e.code topos
  | .ok req =>
    let r := implRegisterStorageResource topos req.node.toUInt8 req.res
    statusReply (statusOf r.1) r.2

def handleGetStorageTopology (topos : Topologies) (body : UmmProtoBody) :
    Option (UmmProtoBody × Topologies) :=
  match metaUnpackGetStorageTopology body with
  | .error e => statusReply e.code topos
  | .ok node =>
    match implGetStorageTopology topos node.toUInt8 with
    | .error e => statusReply e.code topos
    | .ok topo => do
      let reply ← metaPackGetStorageTopologyResp topo
      pure (reply, topos)

/-- `meta_service_rpc_handle` with all its requests. -/
def metaServerHandle : Peer (MetaServer σ) := fun s stream =>
  match recvFrame stream with
  | (.error _, _) => some ([], s)
  | (.ok (hdr, body), _) =>
    if hdr.opcode = opRegisterStorageResource then do
      let (reply, topos) ← handleRegisterStorage s.topologies body
      pure (frame hdr.opcode ummFlagResponse noToken reply, { s with topologies := topos })
    else if hdr.opcode = opGetStorageTopology then do
      let (reply, topos) ← handleGetStorageTopology s.topologies body
      pure (frame hdr.opcode ummFlagResponse noToken reply, { s with topologies := topos })
    else do
      let (reply, directory) ← metaServiceRpcHandle vtbl stack s.directory stream
      pure (reply, { s with directory })

end Server

section Client

variable {σ : Type} (peer : Peer σ) (ctx : σ)

/-- `do_rpc`, where the calls on chunks have their operation named. -/
def doRpcCode {α : Type} (opcode : UInt8) (request : Option UmmProtoBody)
    (unpack : UmmProtoBody → Except Int32 α) : Option (Except Int32 α × σ) := do
  let body ← request
  let (reply, ctx) ← peer ctx (frame opcode ummFlagRequest noToken body)
  pure ((withCode (recvReply opcode reply).1).bind unpack, ctx)

/-- The status is read without a look at the length of the reply. -/
def metaRpcRegisterStorageResource (node : UInt8) (res : Proto.StorageResource) :
    Option (Except Int32 Unit × σ) :=
  doRpcCode peer ctx opRegisterStorageResource (metaPackRegisterStorageResource node res)
    fun reply => checkStatus (protoReadI32 reply.data).1 ()

def metaRpcGetStorageTopology (node : UInt8) : Option (Except Int32 Proto.StorageTopology × σ) :=
  doRpcCode peer ctx opGetStorageTopology (metaPackGetStorageTopology node) fun reply =>
    withCode (metaUnpackGetStorageTopologyResp reply)

end Client

theorem doRpc_code {σ α : Type} (peer : Peer σ) (ctx : σ) (op : MetaOp)
    (request : Option UmmProtoBody) (unpack : UmmProtoBody → Except Int32 α) :
    doRpc peer ctx op request unpack = doRpcCode peer ctx op.code request unpack := rfl

/-! The topologies as a table by node and tier. -/

section Table

variable {topos topos' : Topologies} {node : UInt8} {tier : Fin ummNumTiers}
  {res : Proto.StorageResource}

@[simp] theorem NodeTopology.put_nodeId (topo : NodeTopology) :
    (topo.put tier res).nodeId = topo.nodeId := rfl

theorem NodeTopology.put_resources (topo : NodeTopology) (tier' : Fin ummNumTiers) :
    (topo.put tier res).resources tier' = if tier' = tier then res else topo.resources tier' := by
  simp only [put, Function.update_apply]

theorem putResource_none :
    putResource node tier res topos = none ↔ findTopology topos node = none := by
  unfold findTopology
  induction topos with
  | nil => exact iff_of_true rfl rfl
  | cons topo topos ih =>
    rw [putResource, List.find?_cons]
    by_cases h : topo.nodeId = node
    · simp [h]
    · simp only [h, if_false, Option.map_eq_none_iff, decide_false]
      exact ih

theorem putResource_some (h : putResource node tier res topos = some topos') :
    topos'.map (·.nodeId) = topos.map (·.nodeId) ∧
      (∀ topo ∈ topos', topo ∈ topos ∨ ∃ old : NodeTopology, topo = old.put tier res) ∧
      ∀ n, findTopology topos' n =
        if n = node then (findTopology topos node).map (·.put tier res)
        else findTopology topos n := by
  unfold findTopology
  induction topos generalizing topos' with
  | nil => cases h
  | cons topo topos ih =>
    rw [putResource] at h
    split_ifs at h with hnode
    · obtain rfl := Option.some.inj h
      refine ⟨rfl, fun t ht => ?_, fun n => ?_⟩
      · exact (List.mem_cons.mp ht).elim (fun he => Or.inr ⟨_, he⟩)
          fun ht => Or.inl (List.mem_cons_of_mem _ ht)
      by_cases hn : n = node
      · subst hn
        simp [hnode]
      · have hne : topo.nodeId ≠ n := fun he => hn (he.symm.trans hnode)
        simp [hn, hne]
    · obtain ⟨rest, hrest, rfl⟩ := Option.map_eq_some_iff.mp h
      obtain ⟨hids, hmem, hfind⟩ := ih hrest
      refine ⟨by rw [List.map_cons, List.map_cons, hids], fun t ht => ?_, fun n => ?_⟩
      · rcases List.mem_cons.mp ht with rfl | ht
        · exact Or.inl List.mem_cons_self
        · exact (hmem t ht).imp_left (List.mem_cons_of_mem _)
      by_cases hn : topo.nodeId = n
      · have hne : n ≠ node := fun he => hnode (hn.trans he)
        simp [hn, hne]
      · have hfirst := hfind n
        simp only [List.find?_cons, hn, hnode, decide_false]
        exact hfirst

theorem findTopology_append (hnone : findTopology topos node = none) (n : UInt8) :
    findTopology (topos ++ [(NodeTopology.blank node).put tier res]) n =
      if n = node then some ((NodeTopology.blank node).put tier res) else findTopology topos n := by
  unfold findTopology at hnone ⊢
  rw [List.find?_append]
  by_cases hn : n = node
  · subst hn
    rw [hnone, if_pos rfl]
    simp [NodeTopology.blank]
  · have hne : node ≠ n := Ne.symm hn
    have hlast : ([(NodeTopology.blank node).put tier res].find? fun topo => topo.nodeId = n) =
        none := by
      simp [NodeTopology.blank, hne]
    rw [if_neg hn, hlast, Option.or_none]

end Table

/-! What was registered, the latest first, and what it makes of the table. -/

abbrev StorageLog := List (UInt8 × Proto.StorageResource)

namespace StorageLog

def nodes (log : StorageLog) : Finset UInt8 := (log.map (·.1)).toFinset

/-- The resource that was registered last for a tier of a node. -/
def latest (log : StorageLog) (node : UInt8) (tier : Fin ummNumTiers) :
    Option Proto.StorageResource :=
  (log.find? fun c => c.1 = node ∧ c.2.tier.toNat = (tier : ℕ)).map (·.2)

/-- For every tier in turn the resource registered last, unless it was registered as offline. -/
def resources (log : StorageLog) (node : UInt8) : List Proto.StorageResource :=
  (List.finRange ummNumTiers).filterMap fun tier => (log.latest node tier).filter (·.online ≠ 0)

/-- The tier exists, and the node is known or there is room for one more. -/
def Accepts (log : StorageLog) (node : UInt8) (res : Proto.StorageResource) : Prop :=
  res.tier.toNat < ummNumTiers ∧ (node ∈ log.nodes ∨ log.nodes.card < maxTopologies)

instance (log : StorageLog) (node : UInt8) (res : Proto.StorageResource) :
    Decidable (log.Accepts node res) := by
  unfold Accepts
  infer_instance

def record (log : StorageLog) (node : UInt8) (res : Proto.StorageResource) : StorageLog :=
  if log.Accepts node res then (node, res) :: log else log

theorem latest_cons (log : StorageLog) (c : UInt8 × Proto.StorageResource) (node : UInt8)
    (tier : Fin ummNumTiers) :
    latest (c :: log) node tier =
      if c.1 = node ∧ c.2.tier.toNat = (tier : ℕ) then some c.2 else log.latest node tier := by
  unfold latest
  rw [List.find?_cons]
  by_cases h : c.1 = node ∧ c.2.tier.toNat = (tier : ℕ)
  · simp [h]
  · simp [h]

@[simp] theorem nodes_cons (log : StorageLog) (c : UInt8 × Proto.StorageResource) :
    nodes (c :: log) = insert c.1 log.nodes := List.toFinset_cons

end StorageLog

/-- The table holds what the log says, and every topology counts what it has online. -/
structure TopologyInv (topos : Topologies) (log : StorageLog) : Prop where
  nodup : (topos.map (·.nodeId)).Nodup
  nodes : (topos.map (·.nodeId)).toFinset = log.nodes
  slots : ∀ node topo, findTopology topos node = some topo →
    ∀ tier, topo.resources tier = (log.latest node tier).getD ((NodeTopology.blank node).resources tier)
  counted : ∀ topo ∈ topos, topo.numResources = topo.online.length

namespace TopologyInv

variable {topos : Topologies} {log : StorageLog} {node : UInt8} {res : Proto.StorageResource}

theorem empty : TopologyInv [] [] :=
  ⟨List.nodup_nil, rfl, fun _ _ h => (nomatch h), fun _ h => (nomatch h)⟩

theorem length_eq (h : TopologyInv topos log) : topos.length = log.nodes.card := by
  rw [← h.nodes, List.toFinset_card_of_nodup h.nodup, List.length_map]

theorem known_iff (h : TopologyInv topos log) :
    node ∈ log.nodes ↔ ∃ topo, findTopology topos node = some topo := by
  rw [← h.nodes, List.mem_toFinset, List.mem_map, ← Option.isSome_iff_exists]
  unfold findTopology
  rw [List.find?_isSome]
  simp only [decide_eq_true_eq]

theorem unknown (h : TopologyInv topos log) (hnone : findTopology topos node = none) :
    node ∉ log.nodes := by
  intro hknown
  obtain ⟨topo, htopo⟩ := h.known_iff.mp hknown
  rw [hnone] at htopo
  cases htopo

theorem findTopology_nodeId {topo : NodeTopology} (h : findTopology topos node = some topo) :
    topo.nodeId = node ∧ topo ∈ topos := by
  unfold findTopology at h
  exact ⟨by simpa using List.find?_some h, List.mem_of_find?_eq_some h⟩

theorem online_eq (h : TopologyInv topos log) {topo : NodeTopology}
    (hfind : findTopology topos node = some topo) : topo.online = log.resources node := by
  unfold NodeTopology.online StorageLog.resources
  rw [List.filter_map, ← List.filterMap_eq_map, ← List.filterMap_eq_filter,
    List.filterMap_filterMap]
  refine List.filterMap_congr fun tier _ => ?_
  have hslot := h.slots node topo hfind tier
  cases hlast : log.latest node tier with
  | none =>
    rw [hlast] at hslot
    simp [Option.guard, hslot, NodeTopology.blank]
  | some res =>
    rw [hlast] at hslot
    by_cases hon : res.online = 0 <;> simp [Option.guard, Option.filter, hslot, hon]

/-- A query answers with what the log has of the node. -/
theorem get_eq (h : TopologyInv topos log) (node : UInt8) :
    implGetStorageTopology topos node =
      if node ∈ log.nodes then .ok ⟨node, log.resources node⟩ else .error .notFound := by
  unfold implGetStorageTopology
  cases hfind : findTopology topos node with
  | none => rw [if_neg (h.unknown hfind)]
  | some topo =>
    obtain rfl := (findTopology_nodeId hfind).1
    rw [if_pos (h.known_iff.mpr ⟨topo, hfind⟩), ← h.online_eq hfind]

/-- The resource goes to its slot, and nothing else changes. -/
theorem slots_record (h : TopologyInv topos log) {tier : Fin ummNumTiers}
    (htier : (tier : ℕ) = res.tier.toNat) {topos' : Topologies}
    (hfind : ∀ n, findTopology topos' n = if n = node then
      some (((findTopology topos node).getD (.blank node)).put tier res) else findTopology topos n) :
    ∀ n topo, findTopology topos' n = some topo → ∀ t, topo.resources t =
      (StorageLog.latest ((node, res) :: log) n t).getD ((NodeTopology.blank n).resources t) := by
  intro n topo htopo t
  rw [hfind] at htopo
  rw [StorageLog.latest_cons]
  split_ifs at htopo with hn
  · subst hn
    obtain rfl := Option.some.inj htopo
    rw [NodeTopology.put_resources]
    by_cases ht : t = tier
    · subst ht
      rw [if_pos rfl, if_pos ⟨rfl, htier.symm⟩]
      rfl
    · have hne : ¬ (n = n ∧ res.tier.toNat = t) :=
        fun hc => ht (Fin.ext (hc.2.symm.trans htier.symm))
      rw [if_neg ht, if_neg hne]
      cases hold : findTopology topos n with
      | some old => exact h.slots n old hold t
      | none =>
        have hunknown : n ∉ log.nodes := h.unknown hold
        have hlast : log.latest n t = none := by
          unfold StorageLog.latest
          rw [Option.map_eq_none_iff, List.find?_eq_none]
          intro c hc hcn
          refine hunknown (List.mem_toFinset.mpr (List.mem_map.mpr ⟨c, hc, ?_⟩))
          simpa using (of_decide_eq_true hcn).1
        rw [hlast]
        rfl
  · rw [if_neg fun hc => hn hc.1.symm]
    exact h.slots n topo htopo t

/-- A topology that is there takes the resource. -/
theorem record_known (h : TopologyInv topos log) {tier : Fin ummNumTiers}
    (htier : (tier : ℕ) = res.tier.toNat) {topos' : Topologies} {old : NodeTopology}
    (hold : findTopology topos node = some old)
    (hput : putResource node tier res topos = some topos') :
    TopologyInv topos' ((node, res) :: log) := by
  obtain ⟨hids, hmem, hfind⟩ := putResource_some hput
  have hknown : node ∈ log.nodes := h.known_iff.mpr ⟨old, hold⟩
  refine ⟨by rw [hids]; exact h.nodup, ?_, ?_, ?_⟩
  · rw [hids, h.nodes, StorageLog.nodes_cons, Finset.insert_eq_of_mem hknown]
  · refine h.slots_record htier fun n => ?_
    rw [hfind, hold]
    rfl
  · intro topo htopo
    rcases hmem topo htopo with htopo | ⟨old, rfl⟩
    · exact h.counted topo htopo
    · rfl

/-- A node that was not known gets a topology of its own. -/
theorem record_fresh (h : TopologyInv topos log) {tier : Fin ummNumTiers}
    (htier : (tier : ℕ) = res.tier.toNat) (hnone : findTopology topos node = none) :
    TopologyInv (topos ++ [(NodeTopology.blank node).put tier res]) ((node, res) :: log) := by
  have hfresh : node ∉ topos.map (·.nodeId) := by
    rw [← List.mem_toFinset, h.nodes]
    exact h.unknown hnone
  refine ⟨?_, ?_, ?_, ?_⟩
  · rw [List.map_append]
    exact List.nodup_append_comm.mp (List.nodup_cons.mpr ⟨hfresh, h.nodup⟩)
  · rw [List.map_append, List.toFinset_append, h.nodes, StorageLog.nodes_cons, Finset.insert_eq,
      Finset.union_comm]
    rfl
  · refine h.slots_record htier fun n => ?_
    rw [hnone]
    exact findTopology_append hnone n
  · intro topo htopo
    rcases List.mem_append.mp htopo with htopo | htopo
    · exact h.counted topo htopo
    · rw [List.mem_singleton.mp htopo]
      rfl

/-- A registration is accepted where the log accepts it, and then it is in the table. -/
theorem register (h : TopologyInv topos log) (node : UInt8) (res : Proto.StorageResource) :
    ((implRegisterStorageResource topos node res).1 = .ok () ↔ log.Accepts node res) ∧
      TopologyInv (implRegisterStorageResource topos node res).2 (log.record node res) := by
  unfold implRegisterStorageResource StorageLog.record
  by_cases htier : res.tier.toNat < ummNumTiers
  swap
  · have hrefused : ¬ log.Accepts node res := fun ha => htier ha.1
    rw [dif_neg htier, if_neg hrefused]
    exact ⟨iff_of_false (fun h => nomatch h) hrefused, h⟩
  rw [dif_pos htier]
  cases hput : putResource node ⟨res.tier.toNat, htier⟩ res topos with
  | some topos' =>
    have hsome : findTopology topos node ≠ none := fun hnone => by
      rw [putResource_none.mpr hnone] at hput
      cases hput
    obtain ⟨old, hold⟩ := Option.ne_none_iff_exists'.mp hsome
    have haccepts : log.Accepts node res := ⟨htier, Or.inl (h.known_iff.mpr ⟨old, hold⟩)⟩
    rw [if_pos haccepts]
    exact ⟨iff_of_true rfl haccepts, h.record_known rfl hold hput⟩
  | none =>
    have hnone := putResource_none.mp hput
    dsimp only
    by_cases hfull : maxTopologies ≤ topos.length
    · have hrefused : ¬ log.Accepts node res := fun ha => by
        have hroom := ha.2.resolve_left (h.unknown hnone)
        rw [h.length_eq] at hfull
        omega
      rw [if_pos hfull, if_neg hrefused]
      exact ⟨iff_of_false (fun h => nomatch h) hrefused, h⟩
    · have haccepts : log.Accepts node res := ⟨htier, Or.inr (by rw [← h.length_eq]; omega)⟩
      rw [if_neg hfull, if_pos haccepts]
      exact ⟨iff_of_true rfl haccepts, h.record_fresh rfl hnone⟩

end TopologyInv

/-- `umm_get_topology`, with the answers of the parts that it asks. The metadata service is asked
last, and then every failure counts as an empty topology. -/
def UmmState.ummGetTopology (s : UmmState) (localMem : Except Error Proto.StorageTopology)
    (memRpc metaRpc : Except Int32 Proto.StorageTopology) : Except Int32 Proto.StorageTopology :=
  let viaMeta : Except Int32 Proto.StorageTopology :=
    match s.metaClient, metaRpc with
    | none, _ => .error Error.notInitialized.code
    | some _, .ok topo => .ok topo
    | some _, .error _ => .ok ⟨s.config.myNodeId, []⟩
  if s.initialized = false then .error Error.notInitialized.code
  else
    match s.localMem, s.memClient, memRpc with
    | some _, _, _ => withCode localMem
    | none, none, _ => viaMeta
    | none, some _, .ok topo => .ok topo
    | none, some _, .error e => if e ≠ Error.unsupported.code then .error e else viaMeta

/-- The metadata service is asked where no memory service is embedded and the remote one is not
there or does not know the request. -/
theorem UmmState.ummGetTopology_viaMeta {s : UmmState} {localMem : Except Error Proto.StorageTopology}
    {memRpc metaRpc : Except Int32 Proto.StorageTopology} {c : RpcClient}
    (hinit : s.initialized = true) (hlocal : s.localMem = none)
    (hmem : s.memClient = none ∨ memRpc = .error Error.unsupported.code)
    (hmeta : s.metaClient = some c) :
    s.ummGetTopology localMem memRpc metaRpc =
      .ok (metaRpc.toOption.getD ⟨s.config.myNodeId, []⟩) := by
  unfold UmmState.ummGetTopology
  rw [hinit, hlocal, hmeta]
  rcases hmem with hmem | rfl
  · rw [hmem]
    cases metaRpc <;> rfl
  · cases s.memClient <;> cases metaRpc <;> rfl

/-! One exchange. -/

section Exchange

variable {σ : Type} {vtbl : MetadataServiceVtbl σ} {stack : List UInt8} {s : MetaServer σ}

theorem doRpcCode_served {α ρ : Type} {peer : Peer ρ} {ctx ctx' : ρ} {code : UInt8}
    {request : Option UmmProtoBody} {unpack : UmmProtoBody → Except Int32 α}
    {body reply : UmmProtoBody} (hreq : request = some body) (hrep : reply.Cleared)
    (h : peer ctx (frame code ummFlagRequest noToken body) =
      some (frame code ummFlagResponse noToken reply, ctx')) :
    doRpcCode peer ctx code request unpack = some (unpack reply, ctx') := by
  have hresp := recvReply_frame code ummFlagResponse noToken hrep []
  rw [List.append_nil] at hresp
  subst hreq
  simp only [doRpcCode, Option.bind_eq_bind, Option.bind_some, h, hresp]
  rfl

theorem recvFrame_request (code : UInt8) {body : UmmProtoBody} (hb : body.Cleared) :
    recvFrame (frame code ummFlagRequest noToken body) =
      (.ok (ummProtoHeader code ummFlagRequest body.len noToken, body), []) := by
  have hreq := recvFrame_frame code ummFlagRequest noToken hb []
  rwa [List.append_nil] at hreq

/-- A registration over the protocol is one of the service. -/
theorem metaRpcRegisterStorageResource_served (node : UInt8) {res : Proto.StorageResource}
    (hv : res.Valid) :
    metaRpcRegisterStorageResource (metaServerHandle vtbl stack) s node res =
      some (withCode (implRegisterStorageResource s.topologies node res).1,
        { s with topologies := (implRegisterStorageResource s.topologies node res).2 }) := by
  set r := implRegisterStorageResource s.topologies node res with hr
  obtain ⟨body, hpack, hunpack⟩ := metaRegisterStorageResource_back node hv
  obtain ⟨reply, hrpack, hrunpack⟩ := status_back (statusOf r.1)
  have hstatus : (protoReadI32 reply.data).1 = statusOf r.1 := by
    unfold metaUnpackUnregisterChunkResp unpackAtLeast at hrunpack
    split_ifs at hrunpack
    exact Except.ok.inj hrunpack
  have hserve : metaServerHandle vtbl stack s
      (frame opRegisterStorageResource ummFlagRequest noToken body) =
        some (frame opRegisterStorageResource ummFlagResponse noToken reply,
          { s with topologies := r.2 }) := by
    unfold metaServerHandle
    rw [recvFrame_request _ (packBody_cleared hpack).1]
    simp only [ummProtoHeader, if_true, handleRegisterStorage, hunpack, UInt8.toUInt8_toUInt32,
      ← hr, statusReply, hrpack]
    rfl
  unfold metaRpcRegisterStorageResource
  rw [doRpcCode_served hpack (packBody_cleared hrpack).1 hserve, hstatus]
  have hcheck := checkStatus_statusOf r.1 ()
  simpa using hcheck

/-- A query over the protocol is one of the service, but for the code of a node that is not known:
the reply is too short for a topology. -/
theorem metaRpcGetStorageTopology_served (node : UInt8) {r : Except Error Proto.StorageTopology}
    (hr : implGetStorageTopology s.topologies node = r)
    (hv : ∀ topo, r = .ok topo → topo.resources.length ≤ 4 ∧ ∀ res ∈ topo.resources, res.Carried) :
    metaRpcGetStorageTopology (metaServerHandle vtbl stack) s node =
      some (r.mapError fun _ => Error.invalidArg.code, s) := by
  obtain ⟨body, hpack, hunpack⟩ := metaGetStorageTopology_back node
  have hserve : ∀ reply, handleGetStorageTopology s.topologies body = some (reply, s.topologies) →
      metaServerHandle vtbl stack s (frame opGetStorageTopology ummFlagRequest noToken body) =
        some (frame opGetStorageTopology ummFlagResponse noToken reply, s) := by
    intro reply hreply
    unfold metaServerHandle
    rw [recvFrame_request _ (packBody_cleared hpack).1]
    have hother : opGetStorageTopology ≠ opRegisterStorageResource := by decide
    simp only [ummProtoHeader, if_neg hother, if_true, hreply]
    rfl
  unfold metaRpcGetStorageTopology
  cases r with
  | error e =>
    obtain ⟨reply, hrpack, -⟩ := status_back e.code
    have hshort : reply.len.toNat = 4 := by
      obtain ⟨reply', rest, hpack', hlen, -⟩ := packBody_ok
        (show [protoWriteI32 e.code].flatten.length ≤ ummProtoMaxBody by simp [ummProtoMaxBody])
      obtain rfl : reply' = reply := Option.some.inj (hpack'.symm.trans hrpack)
      rw [hlen]
      simp
    have hget : handleGetStorageTopology s.topologies body = some (reply, s.topologies) := by
      simp only [handleGetStorageTopology, hunpack, UInt8.toUInt8_toUInt32, hr, statusReply, hrpack]
      rfl
    rw [doRpcCode_served hpack (packBody_cleared hrpack).1 (hserve reply hget)]
    unfold metaUnpackGetStorageTopologyResp
    rw [if_pos (by rw [hshort]; decide)]
    rfl
  | ok topo =>
    obtain ⟨hlen, hvalid⟩ := hv topo rfl
    obtain ⟨reply, hrpack, hrunpack⟩ := metaTopology_back hlen hvalid
    have hget : handleGetStorageTopology s.topologies body = some (reply, s.topologies) := by
      simp only [handleGetStorageTopology, hunpack, UInt8.toUInt8_toUInt32, hr, hrpack]
      rfl
    rw [doRpcCode_served hpack (packBody_cleared hrpack).1 (hserve reply hget), hrunpack]
    rfl

end Exchange

/-! Runs of the service. -/

/-- What arrives at the service: a registration that a client makes, or any bytes. -/
inductive StorageRequest where
  | register (node : UInt8) (res : Proto.StorageResource)
  | bytes (stream : List UInt8)

namespace StorageRequest

/-- A client's resource has its path with the NUL in 256 bytes and is online or not. -/
def Ok : StorageRequest → Prop
  | register _ res => res.Valid
  | bytes _ => True

def serve {σ : Type} (vtbl : MetadataServiceVtbl σ) (stack : List UInt8) (s : MetaServer σ) :
    StorageRequest → Option (MetaServer σ)
  | register node res =>
    (metaRpcRegisterStorageResource (metaServerHandle vtbl stack) s node res).map (·.2)
  | bytes stream => (metaServerHandle vtbl stack s stream).map (·.2)

/-- What the bytes of a request register; the service cuts the node to a byte. -/
def registration (stream : List UInt8) : Option (UInt8 × Proto.StorageResource) :=
  match recvFrame stream with
  | (.ok (hdr, body), _) =>
    if hdr.opcode = opRegisterStorageResource then
      (metaUnpackRegisterStorageResource body).toOption.map fun req => (req.node.toUInt8, req.res)
    else none
  | (.error _, _) => none

def log (log : StorageLog) : StorageRequest → StorageLog
  | register node res => log.record node res
  | bytes stream => (registration stream).elim log fun c => log.record c.1 c.2

theorem registration_carried {stream : List UInt8} {c : UInt8 × Proto.StorageResource}
    (h : registration stream = some c) : c.2.Carried := by
  unfold registration at h
  split at h
  · split_ifs at h
    obtain ⟨req, hreq, rfl⟩ := Option.map_eq_some_iff.mp h
    unfold metaUnpackRegisterStorageResource unpackAtLeast at hreq
    split_ifs at hreq
    · cases hreq
    · obtain rfl := Option.some.inj hreq
      exact unpackStorageResource_carried _
  · cases h

end StorageRequest

section Runs

variable {σ : Type} {vtbl : MetadataServiceVtbl σ} {stack : List UInt8} {s s' : MetaServer σ}
  {log : StorageLog} {requests : List StorageRequest}

theorem statusReply_state {status : Int32} {topos : Topologies} {r : UmmProtoBody × Topologies}
    (h : statusReply status topos = some r) : r.2 = topos := by
  unfold statusReply at h
  obtain ⟨_, -, hr⟩ := Option.bind_eq_some_iff.mp h
  exact (congrArg Prod.snd (Option.some.inj hr)).symm

theorem handleGetStorageTopology_state {topos : Topologies} {body : UmmProtoBody}
    {r : UmmProtoBody × Topologies} (h : handleGetStorageTopology topos body = some r) :
    r.2 = topos := by
  unfold handleGetStorageTopology at h
  split at h
  · exact statusReply_state h
  · split at h
    · exact statusReply_state h
    · obtain ⟨_, -, hr⟩ := Option.bind_eq_some_iff.mp h
      exact (congrArg Prod.snd (Option.some.inj hr)).symm

/-- Of all that arrives, only a registration changes the topologies. -/
theorem metaServerHandle_topologies {stream reply : List UInt8}
    (h : metaServerHandle vtbl stack s stream = some (reply, s')) :
    s'.topologies = (StorageRequest.registration stream).elim s.topologies
      fun c => (implRegisterStorageResource s.topologies c.1 c.2).2 := by
  unfold metaServerHandle at h
  unfold StorageRequest.registration
  cases hrecv : recvFrame stream with
  | mk r rest =>
    rw [hrecv] at h
    cases r with
    | error e =>
      obtain ⟨-, rfl⟩ := Prod.mk.inj (Option.some.inj h)
      rfl
    | ok frame =>
      obtain ⟨hdr, body⟩ := frame
      dsimp only at h ⊢
      split_ifs at h ⊢
      · obtain ⟨r, hr, hs⟩ := Option.bind_eq_some_iff.mp h
        obtain ⟨-, rfl⟩ := Prod.mk.inj (Option.some.inj hs)
        unfold handleRegisterStorage at hr
        cases hreq : metaUnpackRegisterStorageResource body with
        | error e =>
          rw [hreq] at hr
          exact statusReply_state hr
        | ok req =>
          rw [hreq] at hr
          exact statusReply_state hr
      · obtain ⟨r, hr, hs⟩ := Option.bind_eq_some_iff.mp h
        obtain ⟨-, rfl⟩ := Prod.mk.inj (Option.some.inj hs)
        exact handleGetStorageTopology_state hr
      · obtain ⟨r, -, hs⟩ := Option.bind_eq_some_iff.mp h
        obtain ⟨-, rfl⟩ := Prod.mk.inj (Option.some.inj hs)
        rfl

/-- The log has resources that a message carries, and the table is as the log says. -/
structure StorageInv (topos : Topologies) (log : StorageLog) : Prop where
  table : TopologyInv topos log
  carried : ∀ c ∈ log, c.2.Carried

theorem StorageInv.register (h : StorageInv s.topologies log) (node : UInt8)
    {res : Proto.StorageResource} (hres : res.Carried) :
    StorageInv (implRegisterStorageResource s.topologies node res).2 (log.record node res) := by
  refine ⟨(h.table.register node res).2, fun c hc => ?_⟩
  unfold StorageLog.record at hc
  split_ifs at hc
  · rcases List.mem_cons.mp hc with rfl | hold
    · exact hres
    · exact h.carried c hold
  · exact h.carried c hc

theorem StorageInv.serve (h : StorageInv s.topologies log) {request : StorageRequest}
    (hok : request.Ok) (hs : request.serve vtbl stack s = some s') :
    StorageInv s'.topologies (request.log log) := by
  cases request with
  | register node res =>
    rw [StorageRequest.serve, metaRpcRegisterStorageResource_served node hok] at hs
    obtain rfl := Option.some.inj hs
    exact h.register node hok.carried
  | bytes stream =>
    obtain ⟨⟨reply, s''⟩, hreply, rfl⟩ := Option.map_eq_some_iff.mp hs
    show StorageInv s''.topologies ((StorageRequest.registration stream).elim log _)
    rw [metaServerHandle_topologies hreply]
    cases hreg : StorageRequest.registration stream with
    | none => exact h
    | some c => exact h.register c.1 (StorageRequest.registration_carried hreg)

theorem StorageInv.run (h : StorageInv s.topologies log) (hok : ∀ r ∈ requests, r.Ok)
    (hs : requests.foldlM (fun s r => r.serve vtbl stack s) s = some s') :
    StorageInv s'.topologies (requests.foldl StorageRequest.log log) := by
  induction requests generalizing s log with
  | nil =>
    obtain rfl := Option.some.inj hs
    exact h
  | cons r requests ih =>
    rw [List.foldlM_cons] at hs
    obtain ⟨s₁, hs₁, hs⟩ := Option.bind_eq_some_iff.mp hs
    exact ih (h.serve (hok r List.mem_cons_self) hs₁)
      (fun q hq => hok q (List.mem_cons_of_mem _ hq)) hs

theorem StorageLog.resources_ok (hcarried : ∀ c ∈ log, c.2.Carried) (node : UInt8) :
    (log.resources node).length ≤ 4 ∧ ∀ res ∈ log.resources node, res.Carried := by
  constructor
  · exact (List.length_filterMap_le _ _).trans (by simp [ummNumTiers])
  · intro res hres
    obtain ⟨tier, -, hlatest⟩ := List.mem_filterMap.mp hres
    obtain ⟨hlast, -⟩ := Option.filter_eq_some_iff.mp hlatest
    obtain ⟨c, hc, rfl⟩ := Option.map_eq_some_iff.mp hlast
    exact hcarried c (List.mem_of_find?_eq_some hc)

theorem StorageLog.resources_unknown {node : UInt8} (h : node ∉ log.nodes) :
    log.resources node = [] := by
  unfold StorageLog.resources
  rw [List.filterMap_eq_nil_iff]
  intro tier _
  have hnone : log.latest node tier = none := by
    unfold StorageLog.latest
    rw [Option.map_eq_none_iff, List.find?_eq_none]
    intro c hc hcn
    exact h (List.mem_toFinset.mpr (List.mem_map.mpr ⟨c, hc, (of_decide_eq_true hcn).1⟩))
  rw [hnone]
  rfl

/-- After any run of the service, whatever bytes were sent to it: a client that queries a node gets
for every tier in turn the resource that was last accepted for it, if that is online; a
registration is accepted exactly for a tier that exists and a node that is known or among the first
64; and `umm_get_topology` through the metadata service always has an answer. -/
theorem storageRun_topology {requests : List StorageRequest} {directory : σ}
    (hok : ∀ r ∈ requests, r.Ok)
    (hs : requests.foldlM (fun s r => r.serve vtbl stack s) ⟨directory, []⟩ = some s) (node : UInt8) :
    let log := requests.foldl StorageRequest.log []
    let answer := if node ∈ log.nodes then .ok ⟨node, log.resources node⟩
      else .error Error.invalidArg.code
    metaRpcGetStorageTopology (metaServerHandle vtbl stack) s node = some (answer, s) ∧
    (∀ (client : UmmState) (memRpc : Except Int32 Proto.StorageTopology),
      client.initialized = true → client.localMem = none →
      (client.memClient = none ∨ memRpc = .error Error.unsupported.code) →
      client.metaClient.isSome → client.config.myNodeId = node →
      ∀ localMem, client.ummGetTopology localMem memRpc answer =
        .ok ⟨node, log.resources node⟩) ∧
    ∀ res : Proto.StorageResource, res.Valid → ∃ r topologies,
      metaRpcRegisterStorageResource (metaServerHandle vtbl stack) s node res =
        some (r, ⟨s.directory, topologies⟩) ∧ (r = .ok () ↔ log.Accepts node res) := by
  intro log answer
  have hinv : StorageInv s.topologies log :=
    StorageInv.run ⟨TopologyInv.empty, fun _ h => (nomatch h)⟩ hok hs
  refine ⟨?_, ?_, ?_⟩
  · have hget := hinv.table.get_eq node
    rw [metaRpcGetStorageTopology_served node hget]
    · unfold answer
      split_ifs <;> rfl
    · intro topo htopo
      split_ifs at htopo
      obtain rfl := Except.ok.inj htopo
      exact StorageLog.resources_ok hinv.carried node
  · intro client memRpc hinit hlocal hmem hmeta hnode localMem
    obtain ⟨c, hc⟩ := Option.isSome_iff_exists.mp hmeta
    rw [UmmState.ummGetTopology_viaMeta hinit hlocal hmem hc, hnode]
    unfold answer
    split_ifs with hknown
    · rfl
    · rw [StorageLog.resources_unknown hknown]
      rfl
  · intro res hv
    obtain ⟨haccepts, -⟩ := hinv.table.register node res
    refine ⟨_, _, metaRpcRegisterStorageResource_served node hv, ?_⟩
    rw [← haccepts]
    cases (implRegisterStorageResource s.topologies node res).1 <;> simp

theorem serve_register {node : UInt8} {res : Proto.StorageResource} (hv : res.Valid) :
    (StorageRequest.register node res).serve vtbl stack s =
      some ⟨s.directory, (implRegisterStorageResource s.topologies node res).2⟩ := by
  rw [StorageRequest.serve, metaRpcRegisterStorageResource_served node hv]
  rfl

theorem serve_bytes {stream : List UInt8} {c : UInt8 × Proto.StorageResource}
    (h : StorageRequest.registration stream = some c) :
    (StorageRequest.bytes stream).serve vtbl stack s =
      some ⟨s.directory, (implRegisterStorageResource s.topologies c.1 c.2).2⟩ := by
  unfold StorageRequest.registration at h
  split at h
  · rename_i hdr body rest hrecv
    split_ifs at h with hop
    obtain ⟨req, hreq, rfl⟩ := Option.map_eq_some_iff.mp h
    cases hunpack : metaUnpackRegisterStorageResource body with
    | error e => rw [hunpack] at hreq; cases hreq
    | ok req' =>
      rw [hunpack] at hreq
      obtain rfl := Option.some.inj hreq
      obtain ⟨reply, hpack, -⟩ :=
        status_back (statusOf (implRegisterStorageResource s.topologies req'.node.toUInt8 req'.res).1)
      simp only [StorageRequest.serve, metaServerHandle, hrecv, if_pos hop, handleRegisterStorage,
        hunpack, statusReply, hpack]
      rfl
  · cases h

end Runs

/-- A resource of a tier, online and without a path. -/
def onlineResource (tier : UInt8) (capacity : UInt64) : Proto.StorageResource :=
  ⟨tier, emptyString, capacity, 0, 1⟩

theorem onlineResource_valid (tier : UInt8) (capacity : UInt64) :
    (onlineResource tier capacity).Valid :=
  ⟨show emptyString.length ≤ 255 by decide, Or.inr rfl⟩

/-- A registration of CXL memory of node 3 with the flag 7, as bytes. -/
def rawRegistration : List UInt8 :=
  ((metaPackRegisterStorageResource 3 { onlineResource 1 4096 with online := 7 }).map
    (frame opRegisterStorageResource ummFlagRequest noToken)).getD []

theorem rawRegistration_registers : StorageRequest.registration rawRegistration =
    some (3, { onlineResource 1 4096 with online := 7 }) := by
  decide +kernel

/-- Node 3 registers an SSD twice and memory once, with an empty request and raw bytes in between. -/
theorem storageRun_topology_twoTiers :
    ∃ s, metaRpcGetStorageTopology (metaServerHandle (metaVtbl (MetaHashTable ChunkMetadata)) []) s 3 =
      some (.ok ⟨3, [onlineResource 0 4096, { onlineResource 1 4096 with online := 7 },
        onlineResource 2 16384]⟩, s) ∧ s.directory = firstDirectory := by
  let requests : List StorageRequest := [.register 3 (onlineResource 2 8192), .bytes rawRegistration,
    .register 3 (onlineResource 0 4096), .bytes [], .register 3 (onlineResource 2 16384)]
  have hok : ∀ r ∈ requests, r.Ok := by
    intro r hr
    simp only [requests, List.mem_cons, List.not_mem_nil, or_false] at hr
    rcases hr with rfl | rfl | rfl | rfl | rfl
    · exact onlineResource_valid _ _
    · trivial
    · exact onlineResource_valid _ _
    · trivial
    · exact onlineResource_valid _ _
  have hrun : ∃ s, requests.foldlM
      (fun s r => r.serve (metaVtbl (MetaHashTable ChunkMetadata)) [] s) ⟨firstDirectory, []⟩ =
      some s ∧ s.directory = firstDirectory := by
    simp only [requests, List.foldlM_cons, serve_register (onlineResource_valid _ _),
      serve_bytes rawRegistration_registers, Option.bind_eq_bind, Option.bind_some]
    exact ⟨_, rfl, rfl⟩
  have hlog : requests.foldl StorageRequest.log [] = [(3, onlineResource 2 16384),
      (3, onlineResource 0 4096), (3, { onlineResource 1 4096 with online := 7 }),
      (3, onlineResource 2 8192)] := by
    simp only [requests, List.foldl_cons, StorageRequest.log, rawRegistration_registers]
    rfl
  obtain ⟨s, hs, hdir⟩ := hrun
  have hget := (storageRun_topology hok hs 3).1
  rw [hlog] at hget
  exact ⟨s, hget, hdir⟩

end Umm
