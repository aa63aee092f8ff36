import Umm.Memory.MemServiceRuns

/-! Where the bytes of an allocation lie in the memory of its tier, and where the pointers lead
that the service hands out. -/
namespace Umm
open Umm.Lib

namespace MemServiceCtx

variable {m m' : MemServiceCtx} {tier : Tier} {size offset : ℕ} {backing : Backing}

/-- An allocation that succeeds has all its bytes in the memory behind the tier. -/
def AllocatesInside (m : MemServiceCtx) (tier : Tier) (size : ℕ) : Prop :=
  ∀ backing offset m', memsvcAllocTiered m tier size backing = (.ok offset, m') →
    ∃ w, (m'.tiers tier).window = some w ∧
      sub64 offset (m'.tiers tier).baseOffset + size ≤ w.length

private theorem alloc_memory {t : TierMemCtx} (ht : tier = .cxl ∨ tier = .dram)
    (ba : BitmapAllocator) (size : ℕ) : t.alloc tier ba size =
      ((baAlloc ba size).1.map (fun offset => u64 (t.baseOffset + offset)),
        { t with allocator := some (baAlloc ba size).2 }) := by
  rcases ht with rfl | rfl <;> rfl

theorem prepared_window {t t' : TierMemCtx} (h : t.Sound tier)
    (ht : tier = .cxl ∨ tier = .dram) (hon : t.online = true)
    (hprep : t.Prepared tier (.ok ()) t') :
    ∃ w, t' = { t with window := some w } ∧ w.length = t.totalSize := by
  cases hprep with
  | ready hw =>
    obtain ⟨w, hw⟩ : ∃ w, t.window = some w := by
      rcases ht with rfl | rfl
      · exact hw rfl
      · exact h.dram rfl hon
    exact ⟨w, by rw [← hw], (h.window w hw).2⟩
  | mapped content => exact ⟨_, rfl, TierMemCtx.length_backing content t.totalSize⟩

theorem Sound.allocTiered_ok (h : m.Sound) (ht : tier = .cxl ∨ tier = .dram)
    (halloc : memsvcAllocTiered m tier size backing = (.ok offset, m')) :
    ∃ ba o w, (m.tiers tier).online = true ∧ (m.tiers tier).allocator = some ba ∧
      (baAlloc ba size).1 = .ok o ∧ offset = u64 ((m.tiers tier).baseOffset + o) ∧
      (m'.tiers tier).baseOffset = (m.tiers tier).baseOffset ∧
      (m'.tiers tier).window = some w ∧ w.length = (m.tiers tier).totalSize := by
  cases memsvcAllocTiered_cases halloc with
  | @answered ba _ _ _ _ hon hba hprep hal =>
    obtain ⟨w, rfl, hlen⟩ := prepared_window (h tier) ht hon hprep
    rw [alloc_memory ht] at hal
    obtain ⟨hres, rfl⟩ := Prod.mk.inj hal
    cases ho : (baAlloc ba size).1 with
    | error e =>
      rw [ho] at hres
      cases hres
    | ok o =>
      rw [ho] at hres
      refine ⟨ba, o, w, hon, hba, ho, (Except.ok.inj hres).symm, ?_, ?_, hlen⟩ <;>
        rw [tiers_setTier_same]

private theorem prepared_granted (t : TierMemCtx) (tier : Tier) :
    ∃ t', (if tier = .cxl then ensureCxlMmap t (.bytes fun _ => 0) else (.ok (), t)) =
      (.ok (), t') := by
  split_ifs
  · unfold ensureCxlMmap
    split <;> exact ⟨_, rfl⟩
  · exact ⟨_, rfl⟩

theorem allocTiered_granted (ht : tier = .cxl ∨ tier = .dram)
    (hon : (m.tiers tier).online = true) {ba : BitmapAllocator}
    (hba : (m.tiers tier).allocator = some ba) {o : ℕ} (hsize : size ≠ 0)
    (ho : (baAlloc ba size).1 = .ok o) :
    ∃ m', memsvcAllocTiered m tier size (.bytes fun _ => 0) =
      (.ok (u64 ((m.tiers tier).baseOffset + o)), m') := by
  obtain ⟨t, hr⟩ := prepared_granted (m.tiers tier) tier
  have hbase := (TierMemCtx.prepared hr).baseOffset
  unfold memsvcAllocTiered
  dsimp only
  rw [if_neg hsize, hon, hba]
  dsimp only
  rw [hr]
  dsimp only
  rw [alloc_memory ht, ho, hbase]
  exact ⟨_, rfl⟩

theorem sub64_base {base o : ℕ} (ho : o < 2 ^ 64) :
    sub64 (u64 (base + o)) base = o := by
  unfold sub64 u64
  omega

/-- The bytes of an allocation leave the memory of the tier where those of the bitmap leave its
arena. -/
theorem Sound.allocatesInside_iff (h : m.Sound) (ht : tier = .cxl ∨ tier = .dram)
    (hsize : size < 2 ^ 64) :
    m.AllocatesInside tier size ↔ ∀ ba, (m.tiers tier).online = true →
      (m.tiers tier).allocator = some ba → ba.Roomy size := by
  have hssd : tier ≠ .ssd := by
    rintro rfl
    simp at ht
  constructor
  · intro hin ba hon hba
    have hshape := (h tier).shape hssd ba hba
    refine (hshape.grantsInside_iff hsize).mp fun o ho => ?_
    obtain ⟨hn0, -, page, hpage, -, hoff⟩ := (baAlloc_granted_iff hshape.numPages_lt).mp ho
    have ho64 : o < 2 ^ 64 := hoff ▸ u64_lt _
    obtain ⟨m', hgranted⟩ := allocTiered_granted ht hon hba hn0 ho
    obtain ⟨w, hw, hfit⟩ := hin _ _ _ hgranted
    obtain ⟨-, -, w', -, -, -, -, hbase', hw', hlen⟩ := h.allocTiered_ok ht hgranted
    obtain rfl : w = w' := Option.some.inj (hw.symm.trans hw')
    rw [hbase', sub64_base ho64, hlen] at hfit
    rw [hshape.total_eq]
    exact hfit
  · intro hroomy backing offset m' halloc
    obtain ⟨ba, o, w, hon, hba, ho, rfl, hbase', hw, hlen⟩ := h.allocTiered_ok ht halloc
    have hshape := (h tier).shape hssd ba hba
    obtain ⟨-, -, page, hpage, -, hoff⟩ := (baAlloc_granted_iff hshape.numPages_lt).mp ho
    have ho64 : o < 2 ^ 64 := hoff ▸ u64_lt _
    have hfit := (hshape.grantsInside_iff hsize).mpr (hroomy ba hon hba) o ho
    refine ⟨w, hw, ?_⟩
    rw [hbase', sub64_base ho64, hlen, ← hshape.total_eq]
    exact hfit

end MemServiceCtx

/-- Runs whose requests are roomy hand out ranges of the arena only, and at any allocator that
calls can reach a request is granted inside the arena exactly where it is roomy. The same holds
of the tiers that have memory behind them. -/
theorem baAlloc_inside_iff (totalBytes pageSize : UInt64) :
    (∀ s, Reach (BaHistory.Init totalBytes pageSize) (Guarded BaHistory.Roomy BaHistory.Step) s →
      ∀ r ∈ s.granted, r.1 + r.2 ≤ totalBytes.toNat) ∧
    (∀ s, Reach (BaHistory.Init totalBytes pageSize) BaHistory.Step s →
      s.ba.totalBytes = totalBytes.toNat ∧
        ∀ n : UInt64, s.ba.GrantsInside n.toNat ↔ s.ba.Roomy n.toNat) ∧
    ∀ m : MemServiceCtx, m.Reachable → ∀ tier, tier = .cxl ∨ tier = .dram → ∀ size : UInt64,
      (m.AllocatesInside tier size.toNat ↔ ∀ ba, (m.tiers tier).online = true →
        (m.tiers tier).allocator = some ba → ba.Roomy size.toNat) := by
  refine ⟨fun s hs => BaHistory.granted_inside hs, fun s hs => ?_, fun m hm tier ht size =>
    hm.sound.allocatesInside_iff ht size.toNat_lt⟩
  have hshape := BaHistory.shape hs
  exact ⟨hshape.total_eq, fun n => hshape.grantsInside_iff n.toNat_lt⟩

theorem baAlloc_inside_firstPage :
    ∀ r ∈ [(0, (4096 : UInt64).toNat)], r.1 + r.2 ≤ (4097 : UInt64).toNat := by
  have hroomy : BitmapAllocator.Roomy ⟨4097, 4096, 2, 2, [3#8]⟩ (4096 : UInt64).toNat := by
    refine Or.inr (Or.inr ⟨by decide, fun _ hl => ?_⟩)
    refine absurd ?_ (hl.lowest 0 le_rfl (by decide))
    intro q h1 h2
    obtain rfl : q = 0 := by
      have : BitmapAllocator.npages ⟨4097, 4096, 2, 2, [3#8]⟩ (4096 : UInt64).toNat = 1 := by decide
      omega
    decide
  have hreach : Reach (BaHistory.Init 4097 4096) (Guarded BaHistory.Roomy BaHistory.Step)
      ⟨⟨4097, 4096, 2, 1, [2#8]⟩, [(0, (4096 : UInt64).toNat)]⟩ :=
    .next (.alloc 4096) (.start (.create (by decide +kernel))) ⟨hroomy, by decide +kernel⟩
  exact (baAlloc_inside_iff 4097 4096).1 _ hreach

/-- The second page of an arena of 4097 bytes is handed out with 4096 bytes. -/
theorem baAlloc_leaves_arena :
    ¬ ∀ (totalBytes pageSize : UInt64) (s : BaHistory),
      Reach (BaHistory.Init totalBytes pageSize) BaHistory.Step s →
        ∀ (n : UInt64) off, (baAlloc s.ba n.toNat).1 = .ok off →
          off + n.toNat ≤ totalBytes.toNat := by
  intro hall
  have hcreate : BaHistory.Init 4097 4096 ⟨⟨4097, 4096, 2, 2, [3#8]⟩, []⟩ :=
    .create (by decide +kernel)
  have hreach : Reach (BaHistory.Init 4097 4096) BaHistory.Step
      ⟨⟨4097, 4096, 2, 1, [2#8]⟩, [(0, (4096 : UInt64).toNat)]⟩ :=
    .next (.alloc 4096) (.start hcreate) (by decide +kernel)
  have hin := hall 4097 4096 _ hreach 4096 4096 (by decide +kernel)
  revert hin
  decide

/-! Mappings. -/

theorem sub64_of_lt {a b : ℕ} (h : a < b) (hb : b < 2 ^ 64) : sub64 a b = 2 ^ 64 + a - b := by
  unfold sub64 u64
  omega

theorem sub64_lt (a b : ℕ) : sub64 a b < 2 ^ 64 := u64_lt _

namespace MemServiceCtx

variable {m m' : MemServiceCtx} {tier : Tier} {offset size : ℕ} {backing : Backing}
  {ptr : DevicePtr}

/-- The pointer leads to the range that starts at `offset` and lies in the memory of the tier, or
in the mapping of one SSD device. -/
def Covers (m : MemServiceCtx) (tier : Tier) (offset size : ℕ) (ptr : DevicePtr) : Prop :=
  let t := m.tiers tier
  t.baseOffset ≤ offset ∧
    match ptr with
    | .window tier' o => tier' = tier ∧ o = offset - t.baseOffset ∧
        ∃ w, t.window = some w ∧ o + size ≤ w.length
    | .ssd device o => tier = .ssd ∧ ∃ pool d, t.ssdPool = some pool ∧
        pool.devices[device]? = some d ∧ d.backend.kind = .file ∧
        offset - t.baseOffset = d.virtualBase + o ∧ o + size ≤ d.backend.data.length

/-- A mapping that succeeds is one of memory behind the tier. -/
def MapsInside (m : MemServiceCtx) (tier : Tier) (offset size : ℕ) : Prop :=
  ∀ backing ptr m', memsvcMapDevice m tier offset size backing = (.ok ptr, m') →
    m'.Covers tier offset size ptr

/-- The range starts at the base of its tier or after it and, for a tier with memory of its own,
ends in that memory. A range that starts before the base of an SSD tier wraps around; it must
miss all mapped devices. -/
def MapRoom (m : MemServiceCtx) (tier : Tier) (offset size : ℕ) : Prop :=
  let t := m.tiers tier
  t.online = true →
    if tier = .ssd then ∀ pool, t.ssdPool = some pool → t.baseOffset ≤ offset ∨
      ∀ d ∈ pool.devices, d.backend.kind = .file →
        ¬ (d.virtualBase + t.baseOffset ≤ 2 ^ 64 + offset ∧
          2 ^ 64 + offset + size ≤ d.virtualBase + d.capacity + t.baseOffset)
    else t.baseOffset ≤ offset ∧ offset - t.baseOffset + size ≤ t.totalSize

/-- Of the tiers that are not SSD, those with memory can be online. -/
private theorem Sound.memory_of_online (h : m.Sound) (ht : tier ≠ .ssd)
    (hon : (m.tiers tier).online = true) : tier = .cxl ∨ tier = .dram := by
  cases tier with
  | dram => exact Or.inr rfl
  | cxl => exact Or.inl rfl
  | ssd => exact absurd rfl ht
  | resv => exact absurd hon (by simp [(h .resv).resv rfl])

theorem mapDevice_online (hmap : (memsvcMapDevice m tier offset size backing).1 = .ok ptr) :
    (m.tiers tier).online = true := by
  by_contra hoff
  unfold memsvcMapDevice at hmap
  simp [hoff] at hmap

theorem Sound.mapDevice_memory (h : m.Sound) (ht : tier ≠ .ssd)
    (hmap : memsvcMapDevice m tier offset size backing = (.ok ptr, m')) :
    ∃ w, (m.tiers tier).online = true ∧ ptr = .window tier (sub64 offset (m.tiers tier).baseOffset) ∧
      (m'.tiers tier).baseOffset = (m.tiers tier).baseOffset ∧
      (m'.tiers tier).window = some w ∧ w.length = (m.tiers tier).totalSize := by
  have hon := mapDevice_online (congrArg Prod.fst hmap)
  have hmem := h.memory_of_online ht hon
  unfold memsvcMapDevice at hmap
  dsimp only at hmap
  rw [if_pos hon] at hmap
  split at hmap
  · cases hmap
  next t hr =>
    obtain ⟨w, rfl, hlen⟩ := prepared_window (h tier) hmem hon (TierMemCtx.prepared hr)
    refine ⟨w, hon, ?_⟩
    split at hmap
    · exact absurd rfl ht
    · dsimp only at hmap
      obtain ⟨hptr, rfl⟩ := Prod.mk.inj hmap
      obtain rfl := Except.ok.inj hptr
      rw [tiers_setTier_same]
      exact ⟨rfl, rfl, rfl, hlen⟩

theorem Sound.mapDevice_granted (h : m.Sound) (hmem : tier = .cxl ∨ tier = .dram)
    (hon : (m.tiers tier).online = true) (offset size : ℕ) :
    ∃ ptr m', memsvcMapDevice m tier offset size (.bytes fun _ => 0) = (.ok ptr, m') := by
  obtain ⟨t, hr⟩ := prepared_granted (m.tiers tier) tier
  obtain ⟨w, rfl, -⟩ := prepared_window (h tier) hmem hon (TierMemCtx.prepared hr)
  unfold memsvcMapDevice
  dsimp only
  rw [if_pos hon, hr]
  rcases hmem with rfl | rfl <;> exact ⟨_, _, rfl⟩

theorem Sound.mapsInside_memory (h : m.Sound) (ht : tier ≠ .ssd) (hoff : offset < 2 ^ 64) :
    m.MapsInside tier offset size ↔ m.MapRoom tier offset size := by
  have hbase := (h tier).base_lt
  constructor
  · intro hin hon
    rw [if_neg ht]
    have hmem := h.memory_of_online ht hon
    obtain ⟨ptr, m', hmap⟩ := h.mapDevice_granted hmem hon offset size
    obtain ⟨hle, hcov⟩ := hin _ _ _ hmap
    obtain ⟨w, -, rfl, hbase', hw, hlen⟩ := h.mapDevice_memory ht hmap
    obtain ⟨-, ho, w', hw', hfit⟩ := hcov
    obtain rfl : w = w' := Option.some.inj (hw.symm.trans hw')
    rw [hbase'] at hle ho
    rw [ho, hlen] at hfit
    exact ⟨hle, hfit⟩
  · intro hroom backing ptr m' hmap
    obtain ⟨w, hon, rfl, hbase', hw, hlen⟩ := h.mapDevice_memory ht hmap
    have hr := hroom hon
    rw [if_neg ht] at hr
    refine ⟨hbase' ▸ hr.1, rfl, ?_, w, hw, ?_⟩
    · rw [sub64_of_le hr.1 hoff, hbase']
    · rw [sub64_of_le hr.1 hoff, hlen]
      exact hr.2

theorem Sound.mapDevice_noPool (h : m.Sound) (hpool : (m.tiers .ssd).ssdPool = none) :
    memsvcMapDevice m .ssd offset size backing ≠ (.ok ptr, m') := by
  intro hmap
  unfold memsvcMapDevice at hmap
  simp only [reduceCtorEq, if_false, hpool, setTier_self] at hmap
  split_ifs at hmap
  · split at hmap
    · cases hmap
    next w hw => exact ((h .ssd).window w hw).1 rfl
  · cases hmap

theorem Sound.mapDevice_ssd_iff (h : m.Sound) {pool : SsdPool}
    (hon : (m.tiers .ssd).online = true) (hpool : (m.tiers .ssd).ssdPool = some pool)
    (hsize : 0 < size) : memsvcMapDevice m .ssd offset size backing = (.ok ptr, m') ↔
      m' = m ∧ ∃ i d, pool.devices[i]? = some d ∧ d.backend.kind = .file ∧
        d.virtualBase ≤ sub64 offset (m.tiers .ssd).baseOffset ∧
        sub64 offset (m.tiers .ssd).baseOffset + size ≤ d.virtualBase + d.capacity ∧
        ptr = .ssd i (sub64 offset (m.tiers .ssd).baseOffset - d.virtualBase) := by
  have hw := ((h .ssd).pool pool hpool).2.wf
  rw [memsvcMapDevice_pool hon hpool, ssdPool_maps_iff hw (sub64_lt _ _) hsize]
  exact and_comm

theorem Sound.mapsInside_ssd (h : m.Sound) (hoff : offset < 2 ^ 64) (hsize : 0 < size) :
    m.MapsInside .ssd offset size ↔ m.MapRoom .ssd offset size := by
  have hbase := (h .ssd).base_lt
  constructor
  · intro hin hon
    rw [if_pos rfl]
    intro pool hpool
    by_contra hc
    push Not at hc
    obtain ⟨hlt, d, hd, hfile, hlow, hfit⟩ := hc
    obtain ⟨i, hi⟩ := List.mem_iff_getElem?.mp hd
    have hsub := sub64_of_lt hlt hbase
    obtain ⟨hle, -⟩ := hin .failed _ _ ((h.mapDevice_ssd_iff hon hpool hsize).mpr
      ⟨rfl, i, d, hi, hfile, by omega, by omega, rfl⟩)
    omega
  · intro hroom backing ptr m' hmap
    have hon := mapDevice_online (congrArg Prod.fst hmap)
    cases hpool : (m.tiers .ssd).ssdPool with
    | none => exact absurd hmap (h.mapDevice_noPool hpool)
    | some pool =>
      obtain ⟨rfl, i, d, hi, hfile, hlow, hfit, rfl⟩ :=
        (h.mapDevice_ssd_iff hon hpool hsize).mp hmap
      have hd := List.mem_of_getElem? hi
      have hdata := (((h .ssd).pool pool hpool).2.wf.backed d hd).2
      have hle : (m'.tiers .ssd).baseOffset ≤ offset := by
        by_contra hlt
        have hsub := sub64_of_lt (Nat.not_le.mp hlt) hbase
        have hr := hroom hon
        rw [if_pos rfl] at hr
        rcases hr pool hpool with hle | hmiss
        · exact hlt hle
        · exact hmiss d hd hfile ⟨by omega, by omega⟩
      have hsub := sub64_of_le hle hoff
      exact ⟨hle, rfl, pool, d, hpool, hi, hfile, by omega, by omega⟩

theorem Sound.mapsInside_iff (h : m.Sound) (tier : Tier) (hoff : offset < 2 ^ 64)
    (hsize : 0 < size) : m.MapsInside tier offset size ↔ m.MapRoom tier offset size := by
  by_cases ht : tier = .ssd
  · subst ht
    exact h.mapsInside_ssd hoff hsize
  · exact h.mapsInside_memory ht hoff

theorem Covers.holds (h : m.Covers tier offset size ptr) : m.Holds ptr size := by
  unfold Holds behind
  obtain ⟨-, hcov⟩ := h
  cases ptr with
  | window tier' o =>
    obtain ⟨rfl, -, w, hw, hfit⟩ := hcov
    dsimp only
    rw [hw]
    exact hfit
  | ssd device o =>
    obtain ⟨rfl, pool, d, hpool, hd, -, -, hfit⟩ := hcov
    dsimp only
    rw [hpool, Option.bind_some, hd]
    exact hfit

/-- The pointers into SSD devices are those of their mappings, also after a wrap. -/
theorem Sound.mapDevice_ssd_holds (h : m.Sound) (hsize : 0 < size) :
    ∀ ptr, (memsvcMapDevice m .ssd offset size backing).1 = .ok ptr →
      (memsvcMapDevice m .ssd offset size backing).2.Holds ptr size := by
  intro ptr hptr
  have hmap : memsvcMapDevice m .ssd offset size backing =
      (.ok ptr, (memsvcMapDevice m .ssd offset size backing).2) := Prod.ext hptr rfl
  have hon := mapDevice_online hptr
  cases hpool : (m.tiers .ssd).ssdPool with
  | none => exact absurd hmap (h.mapDevice_noPool hpool)
  | some pool =>
    obtain ⟨hm, i, d, hi, -, hlow, hfit, rfl⟩ := (h.mapDevice_ssd_iff hon hpool hsize).mp hmap
    have hdata := (((h .ssd).pool pool hpool).2.wf.backed d (List.mem_of_getElem? hi)).2
    rw [hm]
    unfold Holds behind
    dsimp only
    rw [hpool, Option.bind_some, hi]
    dsimp only
    omega

end MemServiceCtx

end Umm
