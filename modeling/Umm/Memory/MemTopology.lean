import Umm.Memory.MemRpcSpec

/-! The topology that a client reads page by page. -/
namespace Umm
open Umm.Lib Proto MemRpcServer MemRpcClient

def memTopologyPageCap : ℕ := (ummProtoMaxBody - 12) / 274

/-- The `memcpy` of a page behind the resources that are there; `none` is a write past the end of
the array. -/
def copyResources (resources page : List Proto.StorageResource) :
    Option (List Proto.StorageResource) :=
  if resources.length + page.length ≤ Proto.ummMaxTopologyResources then some (resources ++ page)
  else none

inductive TopologyTurn where
  | stop (r : Except Int32 Proto.StorageTopology)
  | more (result : Proto.StorageTopology)

/-- One turn of the loop in `mem_rpc_get_topology`, after the call. -/
def topologyTurn (result : Proto.StorageTopology) (reply : Except Int32 UmmProtoBody) :
    Option TopologyTurn :=
  match reply with
  | .error e => some (.stop (.error e))
  | .ok body =>
    if body.len = 0 then some (.stop (.error Error.unsupported.code))
    else match memUnpackGetTopologyResp body with
    | .error e => some (.stop (.error e.code))
    | .ok page =>
      let room : UInt32 := UInt32.ofNat Proto.ummMaxTopologyResources - UInt32.ofNat result.resources.length
      if room < UInt32.ofNat page.resources.length ∨
          result.resources ≠ [] ∧ result.nodeId ≠ page.nodeId then
        some (.stop (.error Error.invalidArg.code))
      else
        (copyResources result.resources page.resources).map fun resources =>
          if page.resources.length < memTopologyPageCap ∨
              resources.length = Proto.ummMaxTopologyResources then .stop (.ok ⟨page.nodeId, resources⟩)
          else .more ⟨page.nodeId, resources⟩

theorem unpackTopology_le {body : UmmProtoBody} {page : Proto.StorageTopology}
    (h : memUnpackGetTopologyResp body = .ok page) :
    page.resources.length ≤ Proto.ummMaxTopologyResources := by
  unfold memUnpackGetTopologyResp at h
  dsimp only at h
  split_ifs at h with hshort hstatus hcount
  obtain rfl := Except.ok.inj h
  have hlen : (readTopology (readTopologyHeader body.data).1.2.2.toNat body.data).1.resources.length =
      (readTopologyHeader body.data).1.2.2.toNat := Decoder.length_many _ _ _
  rw [hlen]
  omega

section Turns

variable {result result' : Proto.StorageTopology} {reply : Except Int32 UmmProtoBody}

theorem topologyTurn_page (result : Proto.StorageTopology) {body : UmmProtoBody}
    {page : Proto.StorageTopology} (h : result.resources.length ≤ 20) (hne : body.len ≠ 0)
    (hpage : memUnpackGetTopologyResp body = .ok page) :
    topologyTurn result (.ok body) =
      if 20 < result.resources.length + page.resources.length ∨
          result.resources ≠ [] ∧ result.nodeId ≠ page.nodeId then
        some (.stop (.error Error.invalidArg.code))
      else if page.resources.length < 14 ∨ result.resources.length + page.resources.length = 20 then
        some (.stop (.ok ⟨page.nodeId, result.resources ++ page.resources⟩))
      else some (.more ⟨page.nodeId, result.resources ++ page.resources⟩) := by
  have hle : page.resources.length ≤ 20 := unpackTopology_le hpage
  have hlen : (UInt32.ofNat result.resources.length).toNat = result.resources.length :=
    UInt32.toNat_ofNat_of_lt' (by norm_num; omega)
  have hcount : (UInt32.ofNat page.resources.length).toNat = page.resources.length :=
    UInt32.toNat_ofNat_of_lt' (by norm_num; omega)
  have hroom : (UInt32.ofNat Proto.ummMaxTopologyResources -
      UInt32.ofNat result.resources.length).toNat = 20 - result.resources.length := by
    rw [UInt32.toNat_sub_of_le _ _ (by rw [UInt32.le_iff_toNat_le, hlen]; exact h), hlen]
    rfl
  have hcheck : UInt32.ofNat Proto.ummMaxTopologyResources - UInt32.ofNat result.resources.length <
      UInt32.ofNat page.resources.length ↔ 20 < result.resources.length + page.resources.length := by
    rw [UInt32.lt_iff_toNat_lt, hroom, hcount]
    omega
  unfold topologyTurn
  dsimp only
  rw [if_neg hne, hpage]
  dsimp only
  simp only [hcheck]
  split_ifs with hbad hlast
  · rfl
  · have hfits : result.resources.length + page.resources.length ≤ Proto.ummMaxTopologyResources :=
      not_lt.mp (not_or.mp hbad).1
    unfold copyResources
    rw [if_pos hfits, Option.map_some, if_pos]
    rw [List.length_append]
    exact hlast
  · have hfits : result.resources.length + page.resources.length ≤ Proto.ummMaxTopologyResources :=
      not_lt.mp (not_or.mp hbad).1
    unfold copyResources
    rw [if_pos hfits, Option.map_some, if_neg]
    rw [List.length_append]
    exact hlast

/-- Every page that the loop takes fits behind the ones before it, and it goes on only after a full
page and with room left. -/
theorem topologyTurn_cases (result : Proto.StorageTopology) (reply : Except Int32 UmmProtoBody)
    (h : result.resources.length ≤ 20) :
    (∃ r, topologyTurn result reply = some (.stop r)) ∨
      ∃ result', topologyTurn result reply = some (.more result') ∧
        result.resources.length + 14 ≤ result'.resources.length ∧ result'.resources.length < 20 := by
  cases reply with
  | error e => exact Or.inl ⟨_, rfl⟩
  | ok body =>
    by_cases hempty : body.len = 0
    · refine Or.inl ⟨.error Error.unsupported.code, ?_⟩
      unfold topologyTurn
      exact if_pos hempty
    cases hpage : memUnpackGetTopologyResp body with
    | error e =>
      refine Or.inl ⟨.error e.code, ?_⟩
      unfold topologyTurn
      dsimp only
      rw [if_neg hempty, hpage]
    | ok page =>
      rw [topologyTurn_page result h hempty hpage]
      split_ifs with hbad hlast
      · exact Or.inl ⟨_, rfl⟩
      · exact Or.inl ⟨_, rfl⟩
      · refine Or.inr ⟨_, rfl, ?_⟩
        rw [List.length_append]
        omega

theorem topologyTurn_more (h : topologyTurn result reply = some (.more result')) :
    result.resources.length < result'.resources.length ∧
      result'.resources.length ≤ Proto.ummMaxTopologyResources := by
  unfold topologyTurn at h
  cases reply with
  | error e => cases h
  | ok body =>
    dsimp only at h
    by_cases hempty : body.len = 0
    · rw [if_pos hempty] at h
      cases h
    rw [if_neg hempty] at h
    cases hpage : memUnpackGetTopologyResp body with
    | error e =>
      rw [hpage] at h
      cases h
    | ok page =>
      rw [hpage] at h
      dsimp only at h
      split_ifs at h with hbad
      · cases h
      obtain ⟨resources, hcopy, hturn⟩ := Option.map_eq_some_iff.mp h
      unfold copyResources at hcopy
      split_ifs at hcopy with hfits
      obtain rfl := Option.some.inj hcopy
      have hcap : memTopologyPageCap = 14 := rfl
      split_ifs at hturn with hlast
      obtain rfl := TopologyTurn.more.inj hturn
      rw [not_or] at hlast
      rw [List.length_append]
      omega

theorem topologyTurn_grows (h : topologyTurn result reply = some (.more result')) :
    Proto.ummMaxTopologyResources - result'.resources.length <
      Proto.ummMaxTopologyResources - result.resources.length := by
  have hmore := topologyTurn_more h
  omega

end Turns

namespace MemRpcClient

variable {σ : Type} (c : MemRpcClient) (peer : Peer σ)

/-- The loop over the pages. -/
def topologyLoop (result : Proto.StorageTopology) (ctx : σ) :
    Option (Except Int32 Proto.StorageTopology × σ) := do
  let body ← memPackGetTopology (UInt32.ofNat result.resources.length)
  let (reply, ctx) ← c.memrpcDoCall peer ctx .getTopology body
  match _h : topologyTurn result reply with
  | none => none
  | some (.stop r) => pure (r, ctx)
  | some (.more result') => topologyLoop result' ctx
termination_by Proto.ummMaxTopologyResources - result.resources.length
decreasing_by exact topologyTurn_grows _h

def memRpcGetTopology (ctx : σ) : Option (Except Int32 Proto.StorageTopology × σ) :=
  c.topologyLoop peer ⟨0, []⟩ ctx

section Unfold

variable {c peer} {result : Proto.StorageTopology} {ctx ctx' : σ} {body : UmmProtoBody}
  {reply : Except Int32 UmmProtoBody}

theorem topologyLoop_stop (hpack : memPackGetTopology (UInt32.ofNat result.resources.length) = some body)
    (hcall : c.memrpcDoCall peer ctx .getTopology body = some (reply, ctx'))
    {r : Except Int32 Proto.StorageTopology} (hturn : topologyTurn result reply = some (.stop r)) :
    c.topologyLoop peer result ctx = some (r, ctx') := by
  rw [topologyLoop, hpack]
  simp only [Option.bind_eq_bind, Option.bind_some, hcall]
  split
  next hnone =>
    rw [hturn] at hnone
    cases hnone
  next r' hstop =>
    rw [hturn] at hstop
    obtain rfl := TopologyTurn.stop.inj (Option.some.inj hstop)
    rfl
  next result' hmore =>
    rw [hturn] at hmore
    cases hmore

theorem topologyLoop_more (hpack : memPackGetTopology (UInt32.ofNat result.resources.length) = some body)
    (hcall : c.memrpcDoCall peer ctx .getTopology body = some (reply, ctx'))
    {result' : Proto.StorageTopology} (hturn : topologyTurn result reply = some (.more result')) :
    c.topologyLoop peer result ctx = c.topologyLoop peer result' ctx' := by
  rw [topologyLoop, hpack]
  simp only [Option.bind_eq_bind, Option.bind_some, hcall]
  split
  next hnone =>
    rw [hturn] at hnone
    cases hnone
  next r hstop =>
    rw [hturn] at hstop
    cases hstop
  next result'' hmore =>
    rw [hturn] at hmore
    obtain rfl := TopologyTurn.more.inj (Option.some.inj hmore)
    rfl

end Unfold

end MemRpcClient

/-- The turns that the loop makes on a sequence of answers: how many, and what it holds then. -/
inductive TopologyTurns (replies : ℕ → Except Int32 UmmProtoBody) : ℕ → Proto.StorageTopology → Prop
  | start : TopologyTurns replies 0 ⟨0, []⟩
  | next {n : ℕ} {result result' : Proto.StorageTopology} : TopologyTurns replies n result →
      topologyTurn result (replies n) = some (.more result') → TopologyTurns replies (n + 1) result'

section Loop

variable {replies : ℕ → Except Int32 UmmProtoBody} {n : ℕ} {result : Proto.StorageTopology}

/-- Every turn but the last fills 14 places of the 20. -/
theorem TopologyTurns.filled (h : TopologyTurns replies n result) :
    14 * n ≤ result.resources.length ∧ result.resources.length < 20 := by
  induction h with
  | start => exact ⟨le_rfl, by decide⟩
  | next _ hturn ih =>
    obtain ⟨r, hstop⟩ | ⟨result', hmore, hgrows, hroom⟩ := topologyTurn_cases _ (replies _) ih.2.le
    · rw [hstop] at hturn
      cases hturn
    · rw [hmore] at hturn
      obtain rfl := TopologyTurn.more.inj (Option.some.inj hturn)
      omega

/-- No write leaves the array, and one of the first two turns is the last. -/
theorem topologyTurns_end (replies : ℕ → Except Int32 UmmProtoBody) :
    (∀ n result, TopologyTurns replies n result → n < 2 ∧ topologyTurn result (replies n) ≠ none) ∧
      ∃ n result r, TopologyTurns replies n result ∧
        topologyTurn result (replies n) = some (.stop r) := by
  constructor
  · intro n result h
    obtain ⟨hfull, hroom⟩ := h.filled
    refine ⟨by omega, fun hnone => ?_⟩
    obtain ⟨r, hstop⟩ | ⟨result', hmore, -⟩ := topologyTurn_cases _ (replies n) hroom.le
    · rw [hstop] at hnone
      cases hnone
    · rw [hmore] at hnone
      cases hnone
  · obtain ⟨r, hstop⟩ | ⟨first, hmore, -⟩ :=
      topologyTurn_cases ⟨0, []⟩ (replies 0) (by decide)
    · exact ⟨0, _, r, .start, hstop⟩
    · have hsecond : TopologyTurns replies 1 first := .next .start hmore
      obtain ⟨r, hstop⟩ | ⟨third, hmore', -⟩ :=
        topologyTurn_cases _ (replies 1) hsecond.filled.2.le
      · exact ⟨1, first, r, hsecond, hstop⟩
      · have hthird := (TopologyTurns.next hsecond hmore').filled
        omega

end Loop

section Server

variable {σ : Type} {srv : MemRpcServer} {vtbl : MemoryServiceVtbl σ} {c : MemRpcClient}
  {gotBuf : Bool} {ctx : σ} {getTopology : σ → Except Error Proto.StorageTopology}
  {topo : Proto.StorageTopology}

theorem packTopology_take (topo : Proto.StorageTopology) :
    packTopology topo = packTopology ⟨topo.nodeId, topo.resources.take 14⟩ := by
  have hcap : topologyMaxFit = 14 := rfl
  unfold packTopology
  dsimp only
  rw [hcap, List.take_take, min_self]

theorem topologyPage_back (hlen : topo.resources.length ≤ 20) (hv : ∀ r ∈ topo.resources, r.Valid)
    {start : UInt32} (hstart : start.toNat ≤ topo.resources.length) :
    ∃ reply, topologyPage start topo = .ok (some reply) ∧ reply.Cleared ∧ reply.len ≠ 0 ∧
      memUnpackGetTopologyResp reply =
        .ok ⟨topo.nodeId, (topo.resources.drop start.toNat).take 14⟩ := by
  obtain ⟨page, hpage⟩ : ∃ page : Proto.StorageTopology,
      page = ⟨topo.nodeId, (topo.resources.drop start.toNat).take 14⟩ := ⟨_, rfl⟩
  have hfit : page.resources.length ≤ 14 := by
    rw [hpage]
    exact List.length_take_le _ _
  have hcarried : ∀ r ∈ page.resources, r.Carried := by
    intro r hr
    rw [hpage] at hr
    exact (hv r (List.drop_subset _ _ (List.take_subset _ _ hr))).carried
  obtain ⟨reply, rest, hpack, hrlen, -⟩ := packTopology_ok hfit
  obtain ⟨reply', hpack', hback⟩ := memTopology_back hfit hcarried
  have hsame : reply' = reply := by
    rw [memPackGetTopologyResp, if_neg (by unfold Proto.ummMaxTopologyResources; omega), hpack] at hpack'
    exact (Option.some.inj hpack').symm
  rw [hsame, hpage] at hback
  have hserved : topologyPage start topo = .ok (some reply) := by
    unfold topologyPage memPackGetTopologyResp
    rw [if_neg (by omega), if_neg, packTopology_take, ← hpage, hpack]
    rw [List.length_drop]
    unfold Proto.ummMaxTopologyResources
    omega
  refine ⟨reply, hserved, ?_, ?_, hback⟩
  · unfold packTopology at hpack
    exact (packBody_cleared hpack).1
  · intro hzero
    rw [hzero] at hrlen
    have h0 : (0 : UInt16).toNat = 0 := rfl
    omega

variable (hadm : srv.Admits c.headerToken.val) (hget : vtbl.getTopology = some getTopology)
  (htopo : getTopology ctx = .ok topo) (hlen : topo.resources.length ≤ 20)
  (hv : ∀ r ∈ topo.resources, r.Valid)
include hadm hget htopo hlen hv

theorem memrpcDoCall_topology (gotBuf : Bool) (start : UInt32)
    (hstart : start.toNat ≤ topo.resources.length) :
    ∃ body reply, memPackGetTopology start = some body ∧
      c.memrpcDoCall (srv.peer vtbl gotBuf) ctx .getTopology body = some (.ok reply, ctx) ∧
      reply.len ≠ 0 ∧ memUnpackGetTopologyResp reply =
        .ok ⟨topo.nodeId, (topo.resources.drop start.toNat).take 14⟩ := by
  obtain ⟨body, hpack, hread⟩ := memGetTopology_back start
  obtain ⟨reply, hpage, hcleared, hne, hback⟩ := topologyPage_back hlen hv hstart
  have hbody : body.Cleared := by
    unfold memPackGetTopology packEmpty at hpack
    split_ifs at hpack
    · exact (packBody_cleared hpack).1
    · exact (packBody_cleared hpack).1
  have hcontrol : srv.handleControl vtbl ctx .getTopology body = some (reply, ctx) := by
    have hserved : srv.handleGetTopology vtbl ctx body = some reply := by
      unfold handleGetTopology
      rw [hread, hget]
      dsimp only
      rw [htopo]
      simp only [bind, Except.bind, hpage]
    unfold handleControl
    rw [hserved]
    rfl
  exact ⟨body, reply, hpack, memrpcDoCall_served hadm (by decide) (by decide) hbody hcleared hcontrol,
    hne, hback⟩

/-- With the first `k` resources in hand the loop gets the others. -/
theorem topologyLoop_rest {result : Proto.StorageTopology} {k : ℕ} (hk : k ≤ topo.resources.length)
    (hresult : result.resources = topo.resources.take k) (hnode : k = 0 ∨ result.nodeId = topo.nodeId) :
    c.topologyLoop (srv.peer vtbl gotBuf) result ctx = some (.ok topo, ctx) := by
  have hcount : result.resources.length = k := by
    rw [hresult, List.length_take]
    omega
  have hstart : (UInt32.ofNat result.resources.length).toNat = k := by
    rw [hcount]
    exact UInt32.toNat_ofNat_of_lt' (by norm_num; omega)
  obtain ⟨body, reply, hpack, hcall, hne, hback⟩ := memrpcDoCall_topology hadm hget htopo hlen hv
    gotBuf (UInt32.ofNat result.resources.length) (by omega)
  rw [hstart] at hback
  have hpage : ((topo.resources.drop k).take 14).length = min 14 (topo.resources.length - k) := by
    rw [List.length_take, List.length_drop]
  have hjoin : result.resources ++ (topo.resources.drop k).take 14 = topo.resources.take (k + 14) := by
    rw [hresult, List.take_add]
  have hturn := topologyTurn_page result (by omega) hne hback
  dsimp only at hturn
  have hmatch : ¬ (result.resources ≠ [] ∧ result.nodeId ≠ topo.nodeId) := by
    rintro ⟨hsome, hother⟩
    obtain rfl | hsame := hnode
    · exact hsome (by rw [hresult, List.take_zero])
    · exact hother hsame
  rw [hcount, hpage, hjoin, if_neg (not_or.mpr ⟨by omega, hmatch⟩)] at hturn
  by_cases hlast : min 14 (topo.resources.length - k) < 14 ∨
      k + min 14 (topo.resources.length - k) = 20
  · have hall : topo.resources.take (k + 14) = topo.resources := List.take_of_length_le (by omega)
    rw [if_pos hlast, hall] at hturn
    exact topologyLoop_stop hpack hcall hturn
  · rw [if_neg hlast] at hturn
    rw [topologyLoop_more hpack hcall hturn]
    exact topologyLoop_rest (by omega) rfl (Or.inr rfl)
termination_by topo.resources.length - k
decreasing_by omega

end Server

/-- A topology of at most 20 resources arrives whole, and whatever a peer answers, the loop ends
without a write past its array. -/
theorem memRpcGetTopology_lossless {σ : Type} {srv : MemRpcServer} {vtbl : MemoryServiceVtbl σ}
    {c : MemRpcClient} (gotBuf : Bool) {ctx : σ} {getTopology : σ → Except Error Proto.StorageTopology}
    {topo : Proto.StorageTopology} (hadm : srv.Admits c.headerToken.val)
    (hget : vtbl.getTopology = some getTopology) (htopo : getTopology ctx = .ok topo)
    (hlen : topo.resources.length ≤ 20) (hv : ∀ r ∈ topo.resources, r.Valid) :
    c.memRpcGetTopology (srv.peer vtbl gotBuf) ctx = some (.ok topo, ctx) ∧
      ∀ replies : ℕ → Except Int32 UmmProtoBody,
        (∀ n result, TopologyTurns replies n result →
          n < 2 ∧ topologyTurn result (replies n) ≠ none) ∧
        ∃ n result r, TopologyTurns replies n result ∧
          topologyTurn result (replies n) = some (.stop r) :=
  ⟨topologyLoop_rest hadm hget htopo hlen hv (Nat.zero_le _) (List.take_zero).symm (Or.inl rfl),
    topologyTurns_end⟩

theorem memRpcGetTopology_lossless_twenty :
    let topo : Proto.StorageTopology :=
      ⟨3, (List.range 20).map fun i => ⟨3, CString.ofBytes [47, 100], 4096, UInt64.ofNat i, 1⟩⟩
    (memRpcClientInitEx none).memRpcGetTopology
        ((memRpcServerConfigure 3 none 0).peer
          (memsvcVtbl { MemEnv.quiet with topology := fun _ => .ok topo }) true)
        memServiceDirectCreateV2 = some (.ok topo, memServiceDirectCreateV2) ∧
      ∀ replies : ℕ → Except Int32 UmmProtoBody,
        (∀ n result, TopologyTurns replies n result →
          n < 2 ∧ topologyTurn result (replies n) ≠ none) ∧
        ∃ n result r, TopologyTurns replies n result ∧
          topologyTurn result (replies n) = some (.stop r) := by
  intro topo
  refine memRpcGetTopology_lossless true (by decide) rfl rfl (by decide) ?_
  intro r hr
  obtain ⟨i, -, rfl⟩ := List.mem_map.mp hr
  exact ⟨(by decide : (CString.ofBytes [47, 100]).length ≤ 255), Or.inr rfl⟩

end Umm
