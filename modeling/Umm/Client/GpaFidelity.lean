import Umm.Client.Api

/-! The addresses that the allocation calls return. They decode to the owner, the tier and the
offsets of the chunk exactly when the owner fits in six bits and the chunk ends within the 56
bits of the offset, which no call checks but the one on a device. -/
namespace Umm

namespace AllocCall

variable {N : Type}

/-- The offset that the memory service answers in the state before the call, and the owner of
memory with that answer. -/
def answer (g : UmmGlobalState N) (env : CallEnv) (call : AllocCall) :
    Except Error (ℕ × UInt8) :=
  match call, call.tier with
  | alloc size, _ =>
    (g.allocLocal (roundToPages size.toNat) env).1.map (fun offset => (offset, g.config.myNodeId))
  | call, some tier =>
    (g.allocTier tier call.device (roundToPages call.size) env).1.map
      (fun r => (r.1, g.owner tier r.2))
  | _, none => .error .invalidArg

/-- The address decodes to the owner, the tier and the offsets of the chunk. -/
def AddressFaithful (g : UmmGlobalState N) (env : CallEnv) (call : AllocCall) (gpa : ℕ) : Prop :=
  ∃ tier offset node, call.tier = some tier ∧ call.answer g env = .ok (offset, node) ∧
    Faithful gpa node.toNat tier.id offset call.size

/-- The owner fits in six bits, and the chunk ends within the 56 bits of the offset. -/
def Addressable (g : UmmGlobalState N) (env : CallEnv) (call : AllocCall) : Prop :=
  ∃ offset node, call.answer g env = .ok (offset, node) ∧ node.toNat < 64 ∧
    offset + call.size ≤ 2 ^ 56

end AllocCall

section Calls

variable {N : Type} [NameTable N] {g g' : UmmGlobalState N} {env : CallEnv}
  {desc : ChunkDescriptor}

theorem publish_ok {node : UInt8} {tier : Tier} {offset size : ℕ} {name : CString}
    (h : g.publish node tier offset size name env = some (.ok desc, g')) :
    ∃ cid, g.registerChunk name (makeGpa node.toNat tier.id offset) size env =
      some (.ok cid, g') ∧ desc = ⟨cid, makeGpa node.toNat tier.id offset, size⟩ := by
  unfold UmmGlobalState.publish at h
  obtain ⟨⟨r, g1⟩, hr, he⟩ := Option.map_eq_some_iff.mp h
  cases r with
  | error e => simp at he
  | ok cid =>
    obtain ⟨rfl, rfl⟩ := by simpa using he
    exact ⟨cid, hr, rfl⟩

omit [NameTable N] in
theorem allocLocal_config (size : ℕ) :
    (g.allocLocal size env).2.config = g.config := by
  unfold UmmGlobalState.allocLocal
  split
  · rfl
  · split <;> rfl

omit [NameTable N] in
theorem learnOwner_owner (tier tier' : Tier) (owner reply : UInt8) :
    (g.learnOwner tier owner).owner tier' reply = g.owner tier' reply := by
  unfold UmmGlobalState.learnOwner
  split_ifs <;> rfl

omit [NameTable N] in
/-- The owner is the same before and after the memory was allocated. -/
theorem allocTier_owner (tier tier' : Tier) (device : Option ℕ) (size : ℕ) (reply : UInt8) :
    (g.allocTier tier device size env).2.owner tier' reply = g.owner tier' reply := by
  unfold UmmGlobalState.allocTier
  cases hm : g.localMem with
  | some m => simp only [UmmGlobalState.owner, hm]
  | none =>
    dsimp only
    split_ifs
    · cases memRpcAlloc size env with
      | error e => rfl
      | ok r => exact learnOwner_owner tier tier' r.2 reply
    · rfl

/-- A call that succeeds packs the answer of the memory service into the address. -/
theorem allocCall_gpa {call : AllocCall} (h : call.run g env = some (.ok desc, g')) :
    ∃ tier offset node, call.tier = some tier ∧ call.answer g env = .ok (offset, node) ∧
      desc.baseGpa = makeGpa node.toNat tier.id offset ∧ 0 < call.size := by
  have htier : ∀ size tierId device, allocTierImpl g size tierId device env =
      some (.ok desc, g') → ∃ tier offset reply, Tier.ofId tierId.toNat = some tier ∧
        (g.allocTier tier device (roundToPages size) env).1 = .ok (offset, reply) ∧
        desc.baseGpa = makeGpa (g.owner tier reply).toNat tier.id offset ∧ 0 < size := by
    intro size tierId device h
    obtain ⟨e, he, -⟩ | ⟨tier, ht, ⟨e, -, he⟩ | ⟨offset, reply, g1, hs, ha, hp⟩⟩ :=
      allocTierImpl_cases h
    · cases he
    · cases he
    · obtain ⟨cid, -, rfl⟩ := publish_ok hp
      have howner : (g.allocTier tier device (roundToPages size) env).2.owner tier reply =
          g.owner tier reply := allocTier_owner tier tier device _ reply
      rw [ha] at howner
      exact ⟨tier, offset, reply, ht, by rw [ha], by rw [howner], hs⟩
  cases call with
  | alloc size =>
    obtain ⟨e, he, -⟩ | ⟨e, -, he⟩ | ⟨offset, g1, hs, ha, hp⟩ := ummAlloc_cases h
    · cases he
    · cases he
    · obtain ⟨cid, -, rfl⟩ := publish_ok hp
      have hconfig : (g.allocLocal (roundToPages size.toNat) env).2.config = g.config :=
        allocLocal_config _
      rw [ha] at hconfig
      refine ⟨.cxl, offset, g.config.myNodeId, rfl, ?_, by rw [hconfig], hs⟩
      simp only [AllocCall.answer, ha]
      rfl
  | allocTiered size tierId =>
    obtain ⟨tier, offset, reply, ht, ha, hg, hs⟩ := htier _ _ _ h
    refine ⟨tier, offset, g.owner tier reply, ht, ?_, hg, hs⟩
    simp only [AllocCall.answer, AllocCall.tier, AllocCall.device, AllocCall.size, ht, ha]
    rfl
  | allocOnDevice size tierId deviceIdx =>
    obtain ⟨tier, offset, reply, ht, ha, hg, hs⟩ := htier _ _ _ h
    refine ⟨tier, offset, g.owner tier reply, ht, ?_, hg, hs⟩
    simp only [AllocCall.answer, AllocCall.tier, AllocCall.device, AllocCall.size, ht, ha]
    rfl

/-- The address of an allocated chunk is faithful exactly when its owner and its bytes fit into
the fields of an address. -/
theorem allocCall_faithful_iff {call : AllocCall} (h : call.run g env = some (.ok desc, g')) :
    call.AddressFaithful g env desc.baseGpa ↔ call.Addressable g env := by
  obtain ⟨tier, offset, node, ht, ha, hg, hs⟩ := allocCall_gpa h
  unfold AllocCall.AddressFaithful AllocCall.Addressable
  rw [hg, ha, ht]
  constructor
  · rintro ⟨t, o, n, heqt, heq, hf⟩
    obtain rfl := Option.some.inj heqt
    obtain ⟨rfl, rfl⟩ := by simpa using heq
    exact ⟨_, _, rfl, (faithful_makeGpa_iff tier.id_lt hs).mp hf⟩
  · rintro ⟨o, n, heq, hfit⟩
    obtain ⟨rfl, rfl⟩ := by simpa using heq
    exact ⟨tier, _, _, rfl, rfl, (faithful_makeGpa_iff tier.id_lt hs).mpr hfit⟩

end Calls

/-- The own node is 64: the address of the first chunk decodes to node 0. -/
theorem allocCall_not_faithful :
    ¬ ∀ (config : UmmConfig) (storage : RegisterEnv)
      (g g' : UmmGlobalState (MetaHashTable ChunkMetadata)) (env : CallEnv) (call : AllocCall)
      (desc : ChunkDescriptor), config.myNodeId.toNat ≠ ummNodeUnknown →
      ummInitDirect config storage = some g → call.run g env = some (.ok desc, g') →
      call.AddressFaithful g env desc.baseGpa := by
  intro hall
  let config : UmmConfig := ⟨64, 255, 8192⟩
  let storage : RegisterEnv := ⟨false, false, ⟨false, fun _ => 0, false⟩, .noMemory⟩
  let env : CallEnv := ⟨.bytes (fun _ => 0), .error .timeout, .error .timeout, .error .timeout,
    .error .timeout⟩
  let call : AllocCall := .alloc 4096
  have hok : ((ummInitDirect config storage).bind fun g => (call.run g env).map fun r =>
      (r.1, call.answer g env)) = some (.ok ⟨1, 2 ^ 56, 4096⟩, .ok (0, 64)) := by decide +kernel
  obtain ⟨g, hinit, hg⟩ := Option.bind_eq_some_iff.mp hok
  obtain ⟨⟨r, g'⟩, hrun, he⟩ := Option.map_eq_some_iff.mp hg
  obtain ⟨rfl, hanswer⟩ := Prod.mk.inj he
  obtain ⟨tier, offset, node, -, ha, hf⟩ :=
    hall config storage g g' env call _ (by decide) hinit hrun
  rw [hanswer] at ha
  obtain ⟨rfl, rfl⟩ := by simpa using ha
  exact absurd (hf.node_eq 0 (by decide)) (by decide)

theorem allocCall_faithful_first_chunk :
    ∃ (g g' : UmmGlobalState (MetaHashTable ChunkMetadata)) (env : CallEnv)
      (desc : ChunkDescriptor), (AllocCall.alloc 4096).run g env = some (.ok desc, g') ∧
      (AllocCall.alloc 4096).AddressFaithful g env desc.baseGpa := by
  let storage : RegisterEnv := ⟨false, false, ⟨false, fun _ => 0, false⟩, .noMemory⟩
  let env : CallEnv := ⟨.bytes (fun _ => 0), .error .timeout, .error .timeout, .error .timeout,
    .error .timeout⟩
  let call : AllocCall := .alloc 4096
  have hok : ((ummInitDirect ⟨3, 255, 8192⟩ storage).bind fun g => (call.run g env).map fun r =>
      (r.1, call.answer g env)) = some (.ok ⟨1, 3 * 2 ^ 58 + 2 ^ 56, 4096⟩, .ok (0, 3)) := by
    decide +kernel
  obtain ⟨g, -, hg⟩ := Option.bind_eq_some_iff.mp hok
  obtain ⟨⟨r, g'⟩, hrun, he⟩ := Option.map_eq_some_iff.mp hg
  obtain ⟨rfl, hanswer⟩ := Prod.mk.inj he
  exact ⟨g, g', env, _, hrun,
    (allocCall_faithful_iff hrun).mpr ⟨0, 3, hanswer, by decide, by decide⟩⟩

end Umm
