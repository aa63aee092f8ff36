import Umm.Client.Api
import Umm.Memory.MemServiceCalls
import Umm.Metadata.DirectorySpec
import Umm.Lib.Reach

/-! Whole runs of the client with embedded services. The chunks of the directory share no byte
and lie on allocated pages, as long as no descriptor is freed again after its pages went to
another chunk, and no chunk is placed beyond the offset field of an address. -/
namespace Umm
open Umm.Lib

section Rounding

theorem and_shiftLeft (a b k : ℕ) : a &&& b <<< k = ((a >>> k) &&& b) <<< k := by
  apply Nat.eq_of_testBit_eq
  intro i
  simp only [Nat.testBit_and, Nat.testBit_shiftLeft, Nat.testBit_shiftRight]
  by_cases hi : k ≤ i
  · simp [hi]
  · simp [hi]

theorem roundToPages_dvd (size : ℕ) : 4096 ∣ roundToPages size := by
  have hmask : 2 ^ 64 - 1 - (ummPageSize - 1) = (2 ^ 52 - 1) <<< 12 := by decide
  rw [roundToPages, hmask, and_shiftLeft, Nat.shiftLeft_eq]
  exact Dvd.intro_left _ rfl

theorem roundToPages_lt (size : ℕ) : roundToPages size < 2 ^ 64 :=
  Nat.and_le_left.trans_lt (u64_lt _)

end Rounding

/-- The pages that a chunk covers in its tier. -/
def pageRun (gpa size : ℕ) : Run := ⟨gpaToOffset gpa / 4096, size / 4096⟩

/-- The byte `b` of the tier belongs to the chunk. -/
def ChunkMetadata.Covers (c : ChunkMetadata) (tier : Tier) (b : ℕ) : Prop :=
  gpaToTier c.gpa = tier.id ∧ gpaToOffset c.gpa ≤ b ∧ b < gpaToOffset c.gpa + c.size

def ChunkMetadata.CoversPage (c : ChunkMetadata) (tier : Tier) (p : ℕ) : Prop :=
  gpaToTier c.gpa = tier.id ∧ (pageRun c.gpa c.size).Covers p

structure UmmRun (N : Type) where
  g : UmmGlobalState N
  /-- Every descriptor that an allocation returned. -/
  issued : List ChunkDescriptor

inductive UmmOp where
  | alloc (call : AllocCall) (env : CallEnv)
  | free (desc : ChunkDescriptor) (env : CallEnv)

/-- The client after `umm_init` without servers and after storage was registered, which fits
into the 64-bit address space of the SSD pool. -/
inductive UmmReady : UmmGlobalState (MetaHashTable ChunkMetadata) → Prop
  | init {config : UmmConfig} {env : RegisterEnv}
      {g : UmmGlobalState (MetaHashTable ChunkMetadata)} :
      ummInitDirect config env = some g → UmmReady g
  | storage {g : UmmGlobalState (MetaHashTable ChunkMetadata)} {tierId : UInt8}
      {device : Option BackendKind} {capacity : UInt64} {env : RegisterEnv} : UmmReady g →
      (∀ m tier pool, g.localMem = some m → (m.tiers tier).ssdPool = some pool →
        pool.totalCapacity + roundUpPage capacity.toNat < 2 ^ 64) →
      UmmReady (ummRegisterStorageTier g tierId device capacity.toNat env).2

inductive UmmInit : UmmRun (MetaHashTable ChunkMetadata) → Prop
  | ready {g : UmmGlobalState (MetaHashTable ChunkMetadata)} : UmmReady g → UmmInit ⟨g, []⟩

section Runs

variable {N : Type}

/-- One call; any descriptor that was ever returned may be freed. -/
inductive UmmStep [NameTable N] : UmmRun N → UmmOp → UmmRun N → Prop
  | alloc {s : UmmRun N} {call : AllocCall} {env : CallEnv} {desc : ChunkDescriptor}
      {g' : UmmGlobalState N} : call.run s.g env = some (.ok desc, g') →
      UmmStep s (.alloc call env) ⟨g', desc :: s.issued⟩
  | allocFailed {s : UmmRun N} {call : AllocCall} {env : CallEnv} {e : Error}
      {g' : UmmGlobalState N} : call.run s.g env = some (.error e, g') →
      UmmStep s (.alloc call env) ⟨g', s.issued⟩
  | free {s : UmmRun N} {desc : ChunkDescriptor} {env : CallEnv} : desc ∈ s.issued →
      UmmStep s (.free desc env) ⟨(ummFree s.g desc env).2, s.issued⟩

namespace UmmRun

/-- The chunks of the directory share no byte of a tier, and their pages are allocated. -/
structure Sound (s : UmmRun N) : Prop where
  direct : s.g.localMeta.isSome ∧ s.g.localMem.isSome
  disjoint : ∀ ctx, s.g.localMeta = some ctx → ∀ i j ci cj, findChunkById ctx i = some ci →
    findChunkById ctx j = some cj → i ≠ j → ∀ tier b, ci.info.Covers tier b →
    ¬ cj.info.Covers tier b
  marked : ∀ ctx m, s.g.localMeta = some ctx → s.g.localMem = some m → ∀ i ce,
    findChunkById ctx i = some ce → ∀ tier b, ce.info.Covers tier b →
    m.used tier (b / 4096) = true

/-- An allocation finds its lowest free run below the limit of the offset field, and the
descriptor of a call to `umm_free` names a chunk that is still valid or a range that is not
wholly allocated. -/
def Safe (s : UmmRun N) : UmmOp → Prop
  | .alloc call _ => ∀ m tier page, s.g.localMem = some m → call.tier = some tier →
      call.device = none → LowestFree (m.used tier) 0 ((m.tiers tier).pages tier)
        (roundToPages call.size / 4096) page → page * 4096 < 2 ^ 56
  | .free desc _ => ∀ ctx m tier, s.g.localMeta = some ctx → s.g.localMem = some m →
      gpaToTier desc.baseGpa = tier.id → (findChunkById ctx desc.chunkId).isSome ∨
        ∃ p, (pageRun desc.baseGpa desc.userSize).Covers p ∧ m.used tier p = false

end UmmRun

/-- The directory and the pages agree, and the descriptors with the directory. -/
structure Coherent (ctx : MetaServiceCtx N) (m : MemServiceCtx) (issued : List ChunkDescriptor) :
    Prop where
  dir : ctx.WF
  mem : m.WF
  aligned : ∀ i ce, findChunkById ctx i = some ce →
    4096 ∣ gpaToOffset ce.info.gpa ∧ 4096 ∣ ce.info.size
  marked : ∀ i ce, findChunkById ctx i = some ce → ∀ tier p, ce.info.CoversPage tier p →
    m.used tier p = true
  apart : ∀ i j ci cj, findChunkById ctx i = some ci → findChunkById ctx j = some cj → i ≠ j →
    ∀ tier p, ci.info.CoversPage tier p → ¬ cj.info.CoversPage tier p
  issued_lt : ∀ d ∈ issued, d.chunkId < ctx.nextChunkId
  issued_size : ∀ d ∈ issued, 4096 ∣ d.userSize ∧ d.userSize < 2 ^ 64
  issued_info : ∀ d ∈ issued, ∀ ce, findChunkById ctx d.chunkId = some ce →
    ce.info.gpa = d.baseGpa ∧ ce.info.size = d.userSize

theorem ChunkMetadata.coversPage_of_covers {c : ChunkMetadata} {tier : Tier} {b : ℕ}
    (ho : 4096 ∣ gpaToOffset c.gpa) (hs : 4096 ∣ c.size) (h : c.Covers tier b) :
    c.CoversPage tier (b / 4096) := by
  obtain ⟨ht, h1, h2⟩ := h
  refine ⟨ht, ?_⟩
  unfold pageRun Run.Covers
  dsimp only
  omega

/-- The pages of a chunk whose address was packed from a page that fits. -/
theorem ChunkMetadata.coversPage_iff {c : ChunkMetadata} {node page : ℕ} {tier : Tier}
    (hgpa : c.gpa = makeGpa node tier.id (page * 4096)) (hoff : page * 4096 < 2 ^ 56)
    (tier' : Tier) (p : ℕ) :
    c.CoversPage tier' p ↔ tier' = tier ∧ (⟨page, c.size / 4096⟩ : Run).Covers p := by
  unfold ChunkMetadata.CoversPage pageRun
  rw [hgpa, gpaToTier_makeGpa _ tier.id_lt, gpaToOffset_makeGpa _ tier.id_lt,
    Nat.mod_eq_of_lt hoff, Nat.mul_div_cancel _ (by norm_num)]
  exact and_congr_left' ⟨fun h => (Tier.id_inj h).symm, fun h => by rw [h]⟩

theorem Coherent.sound {s : UmmRun N} {ctx : MetaServiceCtx N} {m : MemServiceCtx}
    (hctx : s.g.localMeta = some ctx) (hm : s.g.localMem = some m)
    (h : Coherent ctx m s.issued) : s.Sound := by
  refine ⟨by simp [hctx, hm], ?_, ?_⟩
  · intro ctx' hctx' i j ci cj hi hj hne tier b hci hcj
    obtain rfl := Option.some.inj (hctx.symm.trans hctx')
    obtain ⟨hio, his⟩ := h.aligned i ci hi
    obtain ⟨hjo, hjs⟩ := h.aligned j cj hj
    exact h.apart i j ci cj hi hj hne tier _ (ChunkMetadata.coversPage_of_covers hio his hci)
      (ChunkMetadata.coversPage_of_covers hjo hjs hcj)
  · intro ctx' m' hctx' hm' i ce hi tier b hc
    obtain rfl := Option.some.inj (hctx.symm.trans hctx')
    obtain rfl := Option.some.inj (hm.symm.trans hm')
    obtain ⟨ho, hs⟩ := h.aligned i ce hi
    exact h.marked i ce hi tier _ (ChunkMetadata.coversPage_of_covers ho hs hc)

namespace Coherent

variable {ctx ctx' : MetaServiceCtx N} {m m' : MemServiceCtx} {issued : List ChunkDescriptor}

/-- Fewer chunks, and no page of the remaining ones freed. -/
theorem shrink (h : Coherent ctx m issued) (hdir : ctx'.WF) (hmem : m'.WF)
    (hnext : ctx.nextChunkId ≤ ctx'.nextChunkId)
    (hfind : ∀ i ce, findChunkById ctx' i = some ce → findChunkById ctx i = some ce)
    (hused : ∀ i ce, findChunkById ctx' i = some ce → ∀ tier p, ce.info.CoversPage tier p →
      m'.used tier p = true) : Coherent ctx' m' issued where
  dir := hdir
  mem := hmem
  aligned i ce hi := h.aligned i ce (hfind i ce hi)
  marked := hused
  apart i j ci cj hi hj := h.apart i j ci cj (hfind i ci hi) (hfind j cj hj)
  issued_lt d hd := (h.issued_lt d hd).trans_le hnext
  issued_size := h.issued_size
  issued_info d hd ce hi := h.issued_info d hd ce (hfind _ ce hi)

theorem kept (h : Coherent ctx m issued) (hk : m.Kept m') : Coherent ctx m' issued :=
  h.shrink h.dir hk.wf le_rfl (fun _ _ hi => hi)
    (fun i ce hi tier p hc => hk.used tier p (h.marked i ce hi tier p hc))

variable [NameTable N] {name : CString} {gpa size : ℕ}

/-- A failed registration may use up an identifier. -/
theorem register_failed (h : Coherent ctx m issued) {e : Error}
    (hr : implRegisterChunk ctx name gpa size = some (.error e, ctx')) :
    Coherent ctx' m issued := by
  obtain ⟨-, -, -, rfl⟩ | ⟨-, ⟨hcid, -⟩ | ⟨e', -, -, hg⟩⟩ := implRegisterChunk_cases h.dir hr
  · exact h
  · cases hcid
  · have hfind : ∀ i ce, findChunkById ctx' i = some ce → findChunkById ctx i = some ce := by
      intro i ce hi
      rw [hg.find i] at hi
      simp only [Bool.false_eq_true, if_false] at hi
      split_ifs at hi
      exact hi
    exact h.shrink hg.wf h.mem (by rw [hg.next_eq]; exact Nat.le_succ _) hfind
      (fun i ce hi => h.marked i ce (hfind i ce hi))

/-- Pages just taken become the pages of a new chunk. -/
theorem registered (h : Coherent ctx m issued) {tier : Tier} {page : ℕ} {node cid : ℕ}
    (ht : m.Took m' tier ⟨page, size / 4096⟩) (hoff : page * 4096 < 2 ^ 56) (hd : 4096 ∣ size)
    (hlt : size < 2 ^ 64)
    (hr : implRegisterChunk ctx name (makeGpa node tier.id (page * 4096)) size =
      some (.ok cid, ctx')) :
    Coherent ctx' m' (⟨cid, makeGpa node tier.id (page * 4096), size⟩ :: issued) := by
  obtain ⟨-, -, he, -⟩ | ⟨-, ⟨hcid, -, hg⟩ | ⟨_, he, -⟩⟩ := implRegisterChunk_cases h.dir hr
  · cases he
  swap
  · cases he
  obtain rfl := Except.ok.inj hcid
  have hfind := hg.find
  simp only [if_true] at hfind
  have hoffset : gpaToOffset (makeGpa node tier.id (page * 4096)) = page * 4096 := by
    rw [gpaToOffset_makeGpa _ tier.id_lt, Nat.mod_eq_of_lt hoff]
  have hnew : ∀ tier' p, (ctx.newRecord name (makeGpa node tier.id (page * 4096)) size).CoversPage
      tier' p ↔ tier' = tier ∧ (⟨page, size / 4096⟩ : Run).Covers p :=
    ChunkMetadata.coversPage_iff rfl hoff
  -- the pages of the new chunk were free, those of all others allocated
  have hfresh : ∀ i ce, findChunkById ctx i = some ce → ∀ tier' p, ce.info.CoversPage tier' p →
      ¬ (tier' = tier ∧ (⟨page, size / 4096⟩ : Run).Covers p) := by
    rintro i ce hi tier' p hc ⟨rfl, hcov⟩
    have hused := h.marked i ce hi tier' p hc
    rw [ht.free p hcov.1 hcov.2] at hused
    cases hused
  refine ⟨hg.wf, ht.wf, ?_, ?_, ?_, ?_, ?_, ?_⟩
  · intro i ce hi
    rw [hfind i] at hi
    split_ifs at hi with hin
    · obtain rfl := Option.some.inj hi
      exact ⟨by dsimp only [MetaServiceCtx.newRecord]; rw [hoffset]; exact Dvd.intro_left _ rfl, hd⟩
    · exact h.aligned i ce hi
  · intro i ce hi tier' p hc
    rw [hfind i] at hi
    split_ifs at hi with hin
    · obtain rfl := Option.some.inj hi
      rw [ht.used, decide_eq_true ((hnew tier' p).mp hc), Bool.true_or]
    · exact ht.kept.used tier' p (h.marked i ce hi tier' p hc)
  · intro i j ci cj hi hj hne tier' p hci hcj
    rw [hfind i] at hi
    rw [hfind j] at hj
    split_ifs at hi hj with hin hjn
    · exact hne (hin.trans hjn.symm)
    · obtain rfl := Option.some.inj hi
      exact hfresh j cj hj tier' p hcj ((hnew tier' p).mp hci)
    · obtain rfl := Option.some.inj hj
      exact hfresh i ci hi tier' p hci ((hnew tier' p).mp hcj)
    · exact h.apart i j ci cj hi hj hne tier' p hci hcj
  · intro d hdm
    rw [hg.next_eq]
    rcases List.mem_cons.mp hdm with rfl | hdm
    · exact Nat.lt_succ_self _
    · exact (h.issued_lt d hdm).trans (Nat.lt_succ_self _)
  · intro d hdm
    rcases List.mem_cons.mp hdm with rfl | hdm
    · exact ⟨hd, hlt⟩
    · exact h.issued_size d hdm
  · intro d hdm ce hi
    rw [hfind] at hi
    rcases List.mem_cons.mp hdm with rfl | hdm
    · rw [if_pos rfl] at hi
      obtain rfl := Option.some.inj hi
      exact ⟨rfl, rfl⟩
    · rw [if_neg (h.issued_lt d hdm).ne] at hi
      exact h.issued_info d hdm ce hi

/-- Unregistering a chunk, found or not. -/
theorem unregistered (h : Coherent ctx m issued) (id : ℕ) :
    Coherent (implUnregisterChunk ctx id).2 m issued := by
  unfold implUnregisterChunk
  cases hf : findChunkById ctx id with
  | none => exact h
  | some ce =>
    have hfind : ∀ i c, findChunkById (dropChunk ctx id ce) i = some c →
        findChunkById ctx i = some c := by
      intro i c hi
      rw [findChunkById_dropChunk h.dir hf] at hi
      split_ifs at hi
      exact hi
    exact h.shrink (h.dir.dropChunk id ce) h.mem le_rfl hfind
      (fun i c hi => h.marked i c (hfind i c hi))

/-- Freeing the pages of a chunk that was unregistered leaves the pages of all others. -/
theorem freed (h : Coherent ctx m issued) {d : ChunkDescriptor} (hdm : d ∈ issued) {tier : Tier}
    (htier : gpaToTier d.baseGpa = tier.id) {ce : ChunkEntry}
    (hf : findChunkById ctx d.chunkId = some ce)
    (hg : m.Gave m' tier (pageRun d.baseGpa d.userSize)) :
    Coherent (dropChunk ctx d.chunkId ce) m' issued := by
  have hfind := findChunkById_dropChunk h.dir hf ce
  obtain ⟨hgpa, hsize⟩ := h.issued_info d hdm ce hf
  refine h.shrink (h.dir.dropChunk _ ce) hg.wf le_rfl ?_ ?_
  · intro i c hi
    rw [hfind i] at hi
    split_ifs at hi
    exact hi
  · intro i c hi tier' p hc
    rw [hfind i] at hi
    split_ifs at hi with hid
    have hn : ¬ (tier' = tier ∧ (pageRun d.baseGpa d.userSize).Covers p) := by
      rintro ⟨rfl, hcov⟩
      refine h.apart i d.chunkId c ce hi hf hid tier' p hc ⟨by rw [hgpa]; exact htier, ?_⟩
      rw [hgpa, hsize]
      exact hcov
    rw [hg.used, decide_eq_false hn, h.marked i c hi tier' p hc]
    rfl

end Coherent

/-- The invariant of a run. -/
def UmmRun.Inv (s : UmmRun N) : Prop :=
  ∃ ctx m, s.g.localMeta = some ctx ∧ s.g.localMem = some m ∧ Coherent ctx m s.issued

section Steps

variable [NameTable N] {g g' : UmmGlobalState N} {ctx : MetaServiceCtx N} {m m' : MemServiceCtx}
  {issued : List ChunkDescriptor} {env : CallEnv}

/-- Registering pages just taken, or giving them back. -/
theorem publish_inv (h : Coherent ctx m issued) (hctx : g.localMeta = some ctx)
    (hm : g.localMem = some m') {node : UInt8} {tier : Tier} {page size : ℕ} {name : CString}
    (ht : m.Took m' tier ⟨page, size / 4096⟩) (hoff : page * 4096 < 2 ^ 56) (hd : 4096 ∣ size)
    (hlt : size < 2 ^ 64) {r : Except Error ChunkDescriptor}
    (hp : g.publish node tier (page * 4096) size name env = some (r, g')) :
    UmmRun.Inv ⟨g', r.toOption.toList ++ issued⟩ := by
  unfold UmmGlobalState.publish UmmGlobalState.registerChunk at hp
  rw [hctx] at hp
  obtain ⟨⟨r1, g1⟩, hreg, he⟩ := Option.map_eq_some_iff.mp hp
  obtain ⟨⟨r2, ctx'⟩, himpl, heq⟩ := Option.map_eq_some_iff.mp hreg
  obtain ⟨rfl, rfl⟩ := Prod.mk.inj heq
  cases r2 with
  | ok cid =>
    obtain ⟨rfl, rfl⟩ := Prod.mk.inj he
    exact ⟨ctx', m', rfl, hm, h.registered ht hoff hd hlt himpl⟩
  | error e =>
    obtain ⟨rfl, rfl⟩ := Prod.mk.inj he
    refine ⟨ctx', (memsvcFreeTiered m' tier (page * 4096) size).2, ?_, ?_,
      (h.register_failed himpl).kept (ht.kept_free hd hlt (by omega))⟩
    · simp [UmmGlobalState.rollback, hm]
    · simp [UmmGlobalState.rollback, hm]

/-- What the memory service did for an allocation of `n` pages: it failed and left all pages
allocated that were, or it took pages below the limit of the offset field. -/
def Served (m m' : MemServiceCtx) (tier : Tier) (n : ℕ) (r : Except Error ℕ) : Prop :=
  (∃ e, r = .error e ∧ m.Kept m') ∨
    ∃ page, r = .ok (page * 4096) ∧ page * 4096 < 2 ^ 56 ∧ m.Took m' tier ⟨page, n⟩

theorem memsvcAllocTiered_served (hw : m.WF) {tier : Tier} (size : ℕ) (backing : Backing)
    (hsafe : ∀ page, LowestFree (m.used tier) 0 ((m.tiers tier).pages tier)
      (roundToPages size / 4096) page → page * 4096 < 2 ^ 56) :
    Served m (memsvcAllocTiered m tier (roundToPages size) backing).2 tier
      (roundToPages size / 4096) (memsvcAllocTiered m tier (roundToPages size) backing).1 := by
  cases hr : memsvcAllocTiered m tier (roundToPages size) backing with
  | mk r m' =>
    cases r with
    | error e => exact Or.inl ⟨e, rfl, memsvcAllocTiered_error hw hr⟩
    | ok offset =>
      obtain ⟨page, hl, rfl, -, htook⟩ :=
        memsvcAllocTiered_ok hw (roundToPages_dvd size) (roundToPages_lt size) hr
      exact Or.inr ⟨page, rfl, hsafe page hl, htook⟩

theorem memsvcAllocOnDevice_served (hw : m.WF) (tier : Tier) (deviceIdx size : ℕ) :
    Served m (memsvcAllocOnDevice m tier deviceIdx (roundToPages size)).2 tier
      (roundToPages size / 4096) (memsvcAllocOnDevice m tier deviceIdx (roundToPages size)).1 := by
  have hd := roundToPages_dvd size
  have hlt := roundToPages_lt size
  cases hr : memsvcAllocOnDevice m tier deviceIdx (roundToPages size) with
  | mk r m' =>
    cases r with
    | error e => exact Or.inl ⟨e, rfl, memsvcAllocOnDevice_error hw hd hlt hr⟩
    | ok offset =>
      obtain ⟨page, rfl, hoff, -, htook⟩ := memsvcAllocOnDevice_ok hw hd hlt hr
      exact Or.inr ⟨page, rfl, hoff, htook⟩

theorem allocTierImpl_inv (h : Coherent ctx m issued) (hctx : g.localMeta = some ctx)
    (hm : g.localMem = some m) {size : ℕ} {tierId : UInt8} {device : Option ℕ}
    (hsafe : ∀ tier page, Tier.ofId tierId.toNat = some tier → device = none →
      LowestFree (m.used tier) 0 ((m.tiers tier).pages tier) (roundToPages size / 4096) page →
      page * 4096 < 2 ^ 56)
    {r : Except Error ChunkDescriptor}
    (hr : allocTierImpl g size tierId device env = some (r, g')) :
    UmmRun.Inv ⟨g', r.toOption.toList ++ issued⟩ := by
  obtain ⟨e, rfl, rfl⟩ | ⟨tier, htier, hr⟩ := allocTierImpl_cases hr
  · exact ⟨ctx, m, hctx, hm, h⟩
  obtain ⟨rm, m', hserved, halloc⟩ : ∃ rm m', Served m m' tier (roundToPages size / 4096) rm ∧
      g.allocTier tier device (roundToPages size) env =
        (rm.map (fun offset => (offset, 0xFF)), { g with localMem := some m' }) := by
    unfold UmmGlobalState.allocTier
    rw [hm]
    cases device with
    | none =>
      exact ⟨_, _, memsvcAllocTiered_served h.mem size env.backing
        (fun page hl => hsafe tier page htier rfl hl), rfl⟩
    | some deviceIdx => exact ⟨_, _, memsvcAllocOnDevice_served h.mem tier deviceIdx size, rfl⟩
  rw [halloc] at hr
  obtain ⟨e, rfl, hkept⟩ | ⟨page, rfl, hoff, htook⟩ := hserved
  · obtain ⟨e', he, rfl⟩ | ⟨offset, owner, g1, -, he, -⟩ := hr
    · obtain ⟨-, rfl⟩ := Prod.mk.inj he
      exact ⟨ctx, m', hctx, rfl, h.kept hkept⟩
    · cases (Prod.mk.inj he).1
  · obtain ⟨e', he, -⟩ | ⟨offset, owner, g1, -, he, hp⟩ := hr
    · cases (Prod.mk.inj he).1
    · obtain ⟨heq, rfl⟩ := Prod.mk.inj he
      obtain ⟨rfl, rfl⟩ := Prod.mk.inj (Except.ok.inj heq)
      exact publish_inv h (by exact hctx) rfl htook hoff (roundToPages_dvd _) (roundToPages_lt _) hp

theorem ummAlloc_inv (h : Coherent ctx m issued) (hctx : g.localMeta = some ctx)
    (hm : g.localMem = some m) {size : ℕ}
    (hsafe : ∀ page, LowestFree (m.used .cxl) 0 ((m.tiers .cxl).pages .cxl)
      (roundToPages size / 4096) page → page * 4096 < 2 ^ 56)
    {r : Except Error ChunkDescriptor} (hr : ummAlloc g size env = some (r, g')) :
    UmmRun.Inv ⟨g', r.toOption.toList ++ issued⟩ := by
  have hserved := memsvcAllocTiered_served h.mem size env.backing hsafe
  have halloc : g.allocLocal (roundToPages size) env =
      ((memsvcAllocTiered m .cxl (roundToPages size) env.backing).1,
        { g with localMem := some (memsvcAllocTiered m .cxl (roundToPages size) env.backing).2 }) := by
    unfold UmmGlobalState.allocLocal
    rw [hm]
  obtain ⟨e, rfl, rfl⟩ | ⟨e, he, rfl⟩ | ⟨offset, g1, -, he, hp⟩ := ummAlloc_cases hr
  · exact ⟨ctx, m, hctx, hm, h⟩
  · obtain ⟨heq, rfl⟩ := Prod.mk.inj (halloc.symm.trans he)
    rw [heq] at hserved
    obtain ⟨e', -, hkept⟩ | ⟨page, hok, -⟩ := hserved
    · exact ⟨ctx, _, hctx, rfl, h.kept hkept⟩
    · cases hok
  · obtain ⟨heq, rfl⟩ := Prod.mk.inj (halloc.symm.trans he)
    rw [heq] at hserved
    obtain ⟨e', hok, -⟩ | ⟨page, hok, hoff, htook⟩ := hserved
    · cases hok
    · obtain rfl := Except.ok.inj hok
      exact publish_inv h (by exact hctx) rfl htook hoff (roundToPages_dvd _) (roundToPages_lt _) hp

theorem unregisterChunk_direct (hctx : g.localMeta = some ctx) (id : ℕ) :
    (unregisterChunk g id env).2 = { g with localMeta := some (implUnregisterChunk ctx id).2 } := by
  unfold unregisterChunk
  rw [hctx]
  by_cases h0 : id = 0
  · have hnone : findChunkById ctx 0 = none := by simp [findChunkById]
    rw [if_pos h0, h0, implUnregisterChunk, hnone, ← hctx]
  · rw [if_neg h0]

omit [NameTable N] in
theorem freeMemory_direct (hm : g.localMem = some m) {tier : Tier} {gpa : ℕ}
    (htier : Tier.ofId (gpaToTier gpa) = some tier) (size : ℕ) :
    (g.freeMemory gpa size env).2 =
      { g with localMem := some (memsvcFreeTiered m tier (gpaToOffset gpa) size).2 } := by
  unfold UmmGlobalState.freeMemory
  rw [hm, htier, Option.getD_some]

theorem exists_tier (gpa : ℕ) : ∃ tier, Tier.ofId (gpaToTier gpa) = some tier := by
  have hlt : gpaToTier gpa < 4 := by
    rw [gpaToTier_eq]
    exact Nat.mod_lt _ (by norm_num)
  interval_cases gpaToTier gpa
  · exact ⟨.dram, rfl⟩
  · exact ⟨.cxl, rfl⟩
  · exact ⟨.ssd, rfl⟩
  · exact ⟨.resv, rfl⟩

/-- Unregister, then free the pages: safe for a valid chunk, and for any other descriptor
when the allocator refuses. -/
theorem unregister_free_inv (h : Coherent ctx m issued) {desc : ChunkDescriptor}
    (hdm : desc ∈ issued) {tier : Tier} (htier : gpaToTier desc.baseGpa = tier.id)
    (hsafe : (findChunkById ctx desc.chunkId).isSome ∨
      ∃ p, (pageRun desc.baseGpa desc.userSize).Covers p ∧ m.used tier p = false) :
    Coherent (implUnregisterChunk ctx desc.chunkId).2
      (memsvcFreeTiered m tier (gpaToOffset desc.baseGpa) desc.userSize).2 issued := by
  obtain ⟨hd, hlt⟩ := h.issued_size desc hdm
  have hoff : gpaToOffset desc.baseGpa < 2 ^ 64 := by
    rw [gpaToOffset_eq]
    omega
  cases hr : memsvcFreeTiered m tier (gpaToOffset desc.baseGpa) desc.userSize with
  | mk r m' =>
    cases r with
    | error e =>
      rw [memsvcFreeTiered_error hr]
      exact h.unregistered _
    | ok u =>
      have hg := memsvcFreeTiered_ok h.mem hd hlt hoff hr
      cases hf : findChunkById ctx desc.chunkId with
      | some ce =>
        rw [implUnregisterChunk, hf]
        exact h.freed hdm htier hf hg
      | none =>
        rw [hf] at hsafe
        obtain ⟨p, hc, hp⟩ := hsafe.resolve_left (by simp)
        rw [hg.taken p hc] at hp
        cases hp

theorem ummFree_inv (h : Coherent ctx m issued) (hctx : g.localMeta = some ctx)
    (hm : g.localMem = some m) {desc : ChunkDescriptor} (hdm : desc ∈ issued)
    (hsafe : ∀ tier : Tier, gpaToTier desc.baseGpa = tier.id →
      (findChunkById ctx desc.chunkId).isSome ∨
        ∃ p, (pageRun desc.baseGpa desc.userSize).Covers p ∧ m.used tier p = false) :
    UmmRun.Inv ⟨(ummFree g desc env).2, issued⟩ := by
  obtain ⟨tier, htier⟩ := exists_tier desc.baseGpa
  have hid := (Tier.id_of_ofId htier).symm
  have hnotNone : ¬ (g.localMem.isNone ∧ g.memClient = false) := by simp [hm]
  have hun : (unregisterChunk g desc.chunkId env).2 =
      { g with localMeta := some (implUnregisterChunk ctx desc.chunkId).2 } :=
    unregisterChunk_direct hctx desc.chunkId
  have hm1 : (unregisterChunk g desc.chunkId env).2.localMem = some m := by rw [hun]; exact hm
  have hmain : UmmRun.Inv ⟨((unregisterChunk g desc.chunkId env).2.freeMemory desc.baseGpa
      desc.userSize env).2, issued⟩ := by
    rw [freeMemory_direct hm1 htier, hun]
    exact ⟨_, _, rfl, rfl, unregister_free_inv h hdm hid (hsafe tier hid)⟩
  unfold ummFree
  split_ifs with hi
  · exact ⟨ctx, m, hctx, hm, h⟩
  · split
    · exact ⟨ctx, m, hctx, hm, h⟩
    · dsimp only
      split
      · exact hmain
      · exact hmain

/-- Every safe call keeps the directory and the pages coherent. -/
theorem ummStep_inv {s t : UmmRun N} {op : UmmOp} (h : s.Inv)
    (hs : Guarded UmmRun.Safe UmmStep s op t) : t.Inv := by
  obtain ⟨ctx, m, hctx, hm, hc⟩ := h
  obtain ⟨hsafe, hs⟩ := hs
  have halloc : ∀ call env r g', UmmRun.Safe s (.alloc call env) →
      call.run s.g env = some (r, g') → UmmRun.Inv ⟨g', r.toOption.toList ++ s.issued⟩ := by
    intro call env r g' hsafe hr
    cases call with
    | alloc size => exact ummAlloc_inv hc hctx hm (fun page => hsafe m .cxl page hm rfl rfl) hr
    | allocTiered size tierId =>
      exact allocTierImpl_inv hc hctx hm (fun tier page ht _ => hsafe m tier page hm ht rfl) hr
    | allocOnDevice size tierId deviceIdx =>
      exact allocTierImpl_inv hc hctx hm
        (fun _ _ _ (hd : some deviceIdx.toNat = none) => nomatch hd) hr
  cases hs with
  | alloc hr => exact halloc _ _ _ _ hsafe hr
  | allocFailed hr => exact halloc _ _ _ _ hsafe hr
  | free hdm => exact ummFree_inv hc hctx hm hdm (fun tier ht => hsafe ctx m tier hctx hm ht)

end Steps

end Runs

theorem ummReady_mem {g : UmmGlobalState (MetaHashTable ChunkMetadata)} (h : UmmReady g) :
    ∃ table m, g.localMeta = some (.empty table) ∧ g.localMem = some m ∧ m.WF := by
  induction h with
  | @init config env g hi =>
    unfold ummInitDirect at hi
    dsimp only at hi
    split at hi
    · rename_i m ctx hmem hmeta
      obtain rfl := Option.some.inj hi
      obtain ⟨table, -, rfl⟩ := Option.map_eq_some_iff.mp hmeta
      refine ⟨table, m, rfl, rfl, memServiceDirectCreate_wf ?_ hmem⟩
      split_ifs
      · norm_num
      · exact config.memorySize.toNat_lt
    · cases hi
  | @storage g tierId device capacity env _ hfit ih =>
    obtain ⟨table, m, hmeta, hmem, hw⟩ := ih
    unfold ummRegisterStorageTier
    split
    · exact ⟨table, m, hmeta, hmem, hw⟩
    · rw [hmem]
      split
      · rename_i tier m' _ heq
        obtain rfl := Option.some.inj heq
        split
        · exact ⟨table, m, hmeta, hmem, hw⟩
        · exact ⟨table, _, hmeta, rfl, memsvcRegisterStorage_wf hw env rfl capacity.toNat_lt
            (fun pool hp => hfit m _ pool hmem hp)⟩
      · exact ⟨table, m, hmeta, hmem, hw⟩

theorem ummInit_inv {s : UmmRun (MetaHashTable ChunkMetadata)} (h : UmmInit s) : s.Inv := by
  obtain ⟨hr⟩ := h
  obtain ⟨table, m, hmeta, hmem, hw⟩ := ummReady_mem hr
  refine ⟨_, m, hmeta, hmem, .empty table, hw, ?_, ?_, ?_, ?_, ?_, ?_⟩ <;>
    simp [findChunkById_empty]

/-- In every run whose calls are safe the chunks share no byte and lie on allocated pages. -/
theorem ummRun_sound {s : UmmRun (MetaHashTable ChunkMetadata)}
    (h : Reach UmmInit (Guarded UmmRun.Safe UmmStep) s) : s.Sound := by
  obtain ⟨ctx, m, hctx, hm, hc⟩ :=
    h.invariant (P := UmmRun.Inv) (fun _ h0 => ummInit_inv h0) (fun _ _ _ hi hs => ummStep_inv hi hs)
  exact hc.sound hctx hm

/-- A chunk is allocated and freed, its page goes to a second chunk, and the first descriptor
is freed again: the page of the second chunk is free while the chunk is valid. -/
theorem ummRun_not_sound :
    ¬ ∀ s : UmmRun (MetaHashTable ChunkMetadata), Reach UmmInit UmmStep s → s.Sound := by
  intro hall
  let config : UmmConfig := ⟨0, 255, 8192⟩
  let storage : RegisterEnv := ⟨false, false, ⟨false, fun _ => 0, false⟩, .noMemory⟩
  let env : CallEnv := ⟨.bytes (fun _ => 0), .error .timeout, .error .timeout, .error .timeout,
    .error .timeout⟩
  let call : AllocCall := .alloc 4096
  let desc : ChunkDescriptor := ⟨1, 2 ^ 56, 4096⟩
  have hok : ((ummInitDirect config storage).bind fun g0 => (call.run g0 env).bind fun r1 =>
      (call.run (ummFree r1.2 desc env).2 env).bind fun r2 =>
      (ummFree r2.2 desc env).2.localMeta.bind fun ctx => (findChunkById ctx 2).bind fun ce =>
      (ummFree r2.2 desc env).2.localMem.map fun m =>
        (r1.1, r2.1, ce.info.gpa, ce.info.size, m.used .cxl 0)) =
      some (.ok desc, .ok ⟨2, 2 ^ 56, 4096⟩, 2 ^ 56, 4096, false) := by decide +kernel
  obtain ⟨g0, hinit, h1⟩ := Option.bind_eq_some_iff.mp hok
  obtain ⟨⟨a1, g1⟩, hrun1, h2⟩ := Option.bind_eq_some_iff.mp h1
  obtain ⟨⟨a2, g2⟩, hrun2, h3⟩ := Option.bind_eq_some_iff.mp h2
  obtain ⟨ctx, hctx, h4⟩ := Option.bind_eq_some_iff.mp h3
  obtain ⟨ce, hce, h5⟩ := Option.bind_eq_some_iff.mp h4
  obtain ⟨m, hm, h6⟩ := Option.map_eq_some_iff.mp h5
  simp only [Prod.mk.injEq] at h6
  obtain ⟨rfl, rfl, hgpa, hsize, hused⟩ := h6
  have hsound := hall _ (.next (.free desc env) (.next (.alloc call env)
    (.next (.free desc env) (.next (.alloc call env) (.start (.ready (.init hinit)))
      (.alloc hrun1)) (.free List.mem_cons_self)) (.alloc hrun2))
    (.free (List.mem_cons_of_mem _ List.mem_cons_self)))
  have hcovers : ce.info.Covers .cxl 0 := by
    unfold ChunkMetadata.Covers
    rw [hgpa, hsize]
    decide
  have hmarked := hsound.marked ctx m hctx hm 2 ce hce .cxl 0 hcovers
  rw [Nat.zero_div, hused] at hmarked
  cases hmarked

/-- With two pages every page is addressable. -/
theorem UmmRun.safe_twoPages {g : UmmGlobalState (MetaHashTable ChunkMetadata)}
    {issued : List ChunkDescriptor} {m : MemServiceCtx} (hm : g.localMem = some m)
    (hpages : (m.tiers .cxl).pages .cxl = 2) (size : UInt64) (env : CallEnv) :
    UmmRun.Safe ⟨g, issued⟩ (.alloc (.alloc size) env) := by
  intro m' tier page hm' htier _ hl
  obtain rfl := Option.some.inj (hm.symm.trans hm')
  obtain rfl : Tier.cxl = tier := Option.some.inj htier
  have hfits := hl.fits
  rw [hpages] at hfits
  omega

/-- A chunk is freed, and its page goes to the next one. -/
theorem ummRun_sound_reuse :
    ∃ s : UmmRun (MetaHashTable ChunkMetadata),
      s.issued = [⟨2, 2 ^ 56, 4096⟩, ⟨1, 2 ^ 56, 4096⟩] ∧ s.Sound := by
  let config : UmmConfig := ⟨0, 255, 8192⟩
  let storage : RegisterEnv := ⟨false, false, ⟨false, fun _ => 0, false⟩, .noMemory⟩
  let env : CallEnv := ⟨.bytes (fun _ => 0), .error .timeout, .error .timeout, .error .timeout,
    .error .timeout⟩
  let call : AllocCall := .alloc 4096
  let desc : ChunkDescriptor := ⟨1, 2 ^ 56, 4096⟩
  have hok : ((ummInitDirect config storage).bind fun g0 => (call.run g0 env).bind fun r1 =>
      (call.run (ummFree r1.2 desc env).2 env).bind fun r2 => g0.localMem.bind fun m0 =>
      r1.2.localMeta.bind fun ctx => (ummFree r1.2 desc env).2.localMem.map fun m =>
        (r1.1, r2.1, (m0.tiers .cxl).pages .cxl, (findChunkById ctx 1).isSome,
          (m.tiers .cxl).pages .cxl)) =
      some (.ok desc, .ok ⟨2, 2 ^ 56, 4096⟩, 2, true, 2) := by decide +kernel
  obtain ⟨g0, hinit, h1⟩ := Option.bind_eq_some_iff.mp hok
  obtain ⟨⟨a1, g1⟩, hrun1, h2⟩ := Option.bind_eq_some_iff.mp h1
  obtain ⟨⟨a2, g2⟩, hrun2, h3⟩ := Option.bind_eq_some_iff.mp h2
  obtain ⟨m0, hm0, h4⟩ := Option.bind_eq_some_iff.mp h3
  obtain ⟨ctx, hctx, h5⟩ := Option.bind_eq_some_iff.mp h4
  obtain ⟨m, hm, h6⟩ := Option.map_eq_some_iff.mp h5
  simp only [Prod.mk.injEq] at h6
  obtain ⟨rfl, rfl, hpages0, hvalid, hpages⟩ := h6
  have hfree : UmmRun.Safe ⟨g1, [desc]⟩ (.free desc env) := by
    intro ctx' m' tier hctx' _ _
    obtain rfl := Option.some.inj (hctx.symm.trans hctx')
    exact Or.inl hvalid
  exact ⟨_, rfl, ummRun_sound (.next (.alloc call env) (.next (.free desc env)
    (.next (.alloc call env) (.start (.ready (.init hinit)))
      ⟨UmmRun.safe_twoPages hm0 hpages0 4096 env, .alloc hrun1⟩)
    ⟨hfree, .free List.mem_cons_self⟩) ⟨UmmRun.safe_twoPages hm hpages 4096 env, .alloc hrun2⟩)⟩

end Umm
