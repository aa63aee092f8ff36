import Umm.Memory.MemServiceSpec

/-! The calls of the memory service as steps on the pages of its tiers. -/
namespace Umm
open Umm.Lib

section Calls

variable {m m' : MemServiceCtx} {tier : Tier} {size offset : ℕ}

theorem memsvcAllocTiered_ok (hw : m.WF) (hd : 4096 ∣ size) (hlt : size < 2 ^ 64)
    {backing : Backing} (h : memsvcAllocTiered m tier size backing = (.ok offset, m')) :
    ∃ page, LowestFree (m.used tier) 0 ((m.tiers tier).pages tier) (size / 4096) page ∧
      offset = page * 4096 ∧ size ≠ 0 ∧ m.Took m' tier ⟨page, size / 4096⟩ := by
  cases memsvcAllocTiered_cases h with
  | answered hs _ ha hprep hal =>
    obtain ⟨htw, htu, htp⟩ := hprep.kept (hw tier)
    obtain ⟨page, hl, ho, htook⟩ :=
      TierMemCtx.alloc_ok htw (hprep.allocator.trans ha) hd hlt hal
    have hused := funext htu
    refine ⟨page, ?_, ho, hs, MemServiceCtx.took_setTier hw htu htook⟩
    rw [hused, htp] at hl
    exact hl

theorem memsvcAllocTiered_error (hw : m.WF) {backing : Backing} {e : Error}
    (h : memsvcAllocTiered m tier size backing = (.error e, m')) : m.Kept m' := by
  have hkept : ∀ {r t}, (m.tiers tier).Prepared tier r t → m.Kept (m.setTier tier t) := by
    intro r t hprep
    obtain ⟨htw, htu, -⟩ := hprep.kept (hw tier)
    exact MemServiceCtx.kept_setTier hw htw (fun p hp => (htu p).trans hp)
  cases memsvcAllocTiered_cases h with
  | refused => exact .refl hw
  | unprepared hprep => exact hkept hprep
  | answered _ _ ha hprep hal =>
    rw [TierMemCtx.alloc_error (hprep.allocator.trans ha) hal]
    exact hkept hprep

/-- A successful free gives back pages that were all allocated. -/
theorem memsvcFreeTiered_ok (hw : m.WF) (hd : 4096 ∣ size) (hlt : size < 2 ^ 64)
    (hoff : offset < 2 ^ 64) (h : memsvcFreeTiered m tier offset size = (.ok (), m')) :
    m.Gave m' tier ⟨offset / 4096, size / 4096⟩ := by
  cases memsvcFreeTiered_cases h with
  | answered _ _ ha hf =>
    exact MemServiceCtx.gave_setTier hw (TierMemCtx.free_ok (hw tier) ha hd hlt hoff hf)

theorem memsvcFreeTiered_error {e : Error}
    (h : memsvcFreeTiered m tier offset size = (.error e, m')) : m' = m := by
  cases memsvcFreeTiered_cases h with
  | refused => rfl
  | answered _ _ ha hf => rw [TierMemCtx.free_error ha hf, MemServiceCtx.setTier_self]

/-- Pages that a call took and then tried to give back: all others stay allocated. -/
theorem MemServiceCtx.Took.kept_free {page : ℕ} (h : m.Took m' tier ⟨page, size / 4096⟩)
    (hd : 4096 ∣ size) (hlt : size < 2 ^ 64) (hoff : page * 4096 < 2 ^ 64) :
    m.Kept (memsvcFreeTiered m' tier (page * 4096) size).2 := by
  cases hr : memsvcFreeTiered m' tier (page * 4096) size with
  | mk r m'' =>
    cases r with
    | error e =>
      rw [memsvcFreeTiered_error hr]
      exact h.kept
    | ok u =>
      have hg := memsvcFreeTiered_ok h.wf hd hlt hoff hr
      rw [Nat.mul_div_cancel _ (by norm_num)] at hg
      exact h.kept_gave hg

/-- The pages of one device, found free. -/
private theorem onDevice_took (hw : m.WF) {pool pool' : SsdPool} {deviceIdx voffset : ℕ}
    (hp : (m.tiers .ssd).ssdPool = some pool) (hd : 4096 ∣ size) (hlt : size < 2 ^ 64)
    (h : ssdPoolAllocOnDevice pool deviceIdx size = (.ok voffset, pool')) :
    ∃ page, voffset = page * 4096 ∧ voffset < 2 ^ 64 ∧
      pool' = pool.take page (size / 4096) ∧
      (m.tiers .ssd).Took { m.tiers .ssd with ssdPool := some pool' } .ssd ⟨page, size / 4096⟩ := by
  have hpw := (hw .ssd).pool_wf pool hp
  obtain ⟨dev, page, hdev, -, hl, rfl, rfl⟩ := ssdPoolAllocOnDevice_ok hpw h
  rw [ssdNpages_of_dvd hd hlt] at hl ⊢
  obtain ⟨-, hin⟩ := hpw.layout.inside (List.mem_of_getElem? hdev)
  have hfits := hl.fits
  have hpages := hpw.pages_eq
  have hplt := hpw.totalPages_lt
  have htotal : page + size / 4096 ≤ pool.totalPages := by
    unfold ssdPageSize at hpages hfits
    omega
  refine ⟨page, rfl, ?_, rfl, TierMemCtx.took_pool (hw .ssd) hp htotal hl.free⟩
  unfold ssdPageSize
  omega

/-- An allocation on a device stays below the limit of the offset field. -/
theorem memsvcAllocOnDevice_ok (hw : m.WF) {deviceIdx : ℕ} (hd : 4096 ∣ size)
    (hlt : size < 2 ^ 64) (h : memsvcAllocOnDevice m tier deviceIdx size = (.ok offset, m')) :
    ∃ page, offset = page * 4096 ∧ offset < 2 ^ 56 ∧ size ≠ 0 ∧
      m.Took m' tier ⟨page, size / 4096⟩ := by
  have hbase := (hw .ssd).base_eq
  cases memsvcAllocOnDevice_cases h with
  | answered hs _ hp hr hmask =>
    obtain ⟨page, rfl, hvlt, -, htook⟩ := onDevice_took hw hp hd hlt hr
    unfold TierMemCtx.Beyond gpaOffsetMask at hmask
    rw [hbase, Nat.zero_add, u64_of_lt hvlt]
    exact ⟨page, rfl, by omega, hs, MemServiceCtx.took_setTier hw (fun _ => rfl) htook⟩

theorem memsvcAllocOnDevice_error (hw : m.WF) {deviceIdx : ℕ} (hd : 4096 ∣ size)
    (hlt : size < 2 ^ 64) {e : Error}
    (h : memsvcAllocOnDevice m tier deviceIdx size = (.error e, m')) : m.Kept m' := by
  cases memsvcAllocOnDevice_cases h with
  | refused => exact .refl hw
  | @full pool pool' _ hp hr =>
    obtain rfl := ssdPoolAllocOnDevice_error hr
    have hself : { m.tiers .ssd with ssdPool := some pool' } = m.tiers .ssd := by rw [← hp]
    rw [hself, MemServiceCtx.setTier_self]
    exact .refl hw
  | @beyond pool _ _ hp hr =>
    -- the pages are given back, or kept when the pool refuses
    obtain ⟨page, rfl, hvlt, rfl, htook⟩ := onDevice_took hw hp hd hlt hr
    have hm := MemServiceCtx.took_setTier hw (fun _ => rfl) htook
    cases hf : ssdPoolFree (pool.take page (size / 4096)) (page * 4096) size with
    | mk r pool'' =>
      cases r with
      | error e' =>
        rw [ssdPoolFree_error hf]
        exact hm.kept
      | ok u =>
        obtain ⟨-, -, hin, hall, rfl⟩ := ssdPoolFree_ok hf
        have hpage : page * 4096 / ssdPageSize = page := Nat.mul_div_cancel _ (by decide)
        rw [ssdNpages_of_dvd hd hlt, hpage] at hin hall ⊢
        rw [u64_of_lt (by omega)] at hin
        have hg := MemServiceCtx.gave_setTier hm.wf
          (show TierMemCtx.Gave _ _ .ssd ⟨page, size / 4096⟩ by
            rw [MemServiceCtx.tiers_setTier_same]
            exact TierMemCtx.gave_pool htook.wf rfl hin hall)
        rw [MemServiceCtx.setTier_setTier] at hg
        exact hm.kept_gave hg

end Calls

section Storage

variable {m : MemServiceCtx} {t : TierMemCtx}

theorem TierMemCtx.WF.dropped (hw : t.WF) : t.dropped.WF :=
  ⟨hw.base_eq, (fun _ h => nomatch h), hw.pool_wf⟩

theorem TierMemCtx.WF.withWindow (hw : t.WF) (window : Option (List UInt8)) :
    TierMemCtx.WF { t with window } :=
  ⟨hw.base_eq, hw.allocator_wf, hw.pool_wf⟩

theorem TierMemCtx.WF.registerDram (hw : t.WF) (device : Option BackendKind) (backing : Backing) :
    (t.registerDram device backing).2.WF := by
  unfold TierMemCtx.registerDram
  split
  · exact hw.withWindow _
  · exact hw.dropped
  · exact hw.withWindow _
  · exact hw.dropped

theorem TierMemCtx.WF.registerSsd (hw : t.WF) (kind : BackendKind) {capacity : ℕ}
    (firstReg : Bool) (env : RegisterEnv)
    (hfit : ∀ pool, t.ssdPool = some pool → pool.totalCapacity + roundUpPage capacity < 2 ^ 64) :
    (t.registerSsd kind capacity firstReg env).2.WF := by
  unfold TierMemCtx.registerSsd
  split
  · exact hw.dropped
  · have hpw : (t.ssdPool.getD ssdPoolCreate).WF ∧
        (t.ssdPool.getD ssdPoolCreate).totalCapacity + roundUpPage capacity < 2 ^ 64 := by
      cases hp : t.ssdPool with
      | none => exact ⟨ssdPoolCreate_wf, by simpa [ssdPoolCreate] using roundUpPage_lt capacity⟩
      | some pool => exact ⟨hw.pool_wf pool hp, hfit pool hp⟩
    split
    · rename_i e pool' hadd
      obtain rfl := ssdPoolAddDevice_error hadd
      split_ifs
      · exact ⟨hw.base_eq, by simp [TierMemCtx.dropped], by simp⟩
      · exact hw.withPool hpw.1
    · rename_i pool' hadd
      have hw' := hw.withPool (ssdPoolAddDevice_wf hpw.1 hpw.2 hadd).1
      exact ⟨hw'.base_eq, hw'.allocator_wf, hw'.pool_wf⟩

theorem memServiceDirectCreateV2_wf : memServiceDirectCreateV2.WF :=
  fun _ => ⟨rfl, (fun _ h => nomatch h), (fun _ h => nomatch h)⟩

theorem TierMemCtx.WF.registering {t : TierMemCtx} (hw : t.WF) {res : StorageResource}
    (hbase : res.baseOffset = 0) (hcap : res.capacity < 2 ^ 64) : (t.registering res).WF := by
  rcases t.registering_cases res with ⟨-, he⟩ | ⟨-, he⟩
  · rwa [he]
  · rw [he]
    refine ⟨hbase, fun ba hb => ?_, (fun _ h => nomatch h)⟩
    obtain ⟨hbw, hps, -⟩ := baCreate_wf hcap hb
    exact ⟨hbw, hps⟩

theorem TierMemCtx.WF.registerTier {t : TierMemCtx} (hw : t.WF) {res : StorageResource}
    (env : RegisterEnv) (hbase : res.baseOffset = 0) (hcap : res.capacity < 2 ^ 64)
    (hfit : ∀ pool, t.ssdPool = some pool →
      pool.totalCapacity + roundUpPage res.capacity < 2 ^ 64) : (t.registerTier res env).2.WF := by
  have hreg := hw.registering hbase hcap
  have hpool : ∀ pool, (t.registering res).ssdPool = some pool →
      pool.totalCapacity + roundUpPage res.capacity < 2 ^ 64 := by
    rcases t.registering_cases res with ⟨-, he⟩ | ⟨-, he⟩
    · rwa [he]
    · rw [he]
      exact fun _ h => nomatch h
  unfold TierMemCtx.registerTier
  dsimp only
  split
  · exact hreg.dropped
  · split
    · exact hreg
    · exact hreg.registerSsd _ _ env hpool
    · exact hreg
    · exact hreg.registerDram _ _
    · exact hreg.dropped

/-- Storage that starts at offset 0 and fits into the address space of its pool. -/
theorem memsvcRegisterStorage_wf (hw : m.WF) {res : StorageResource} (env : RegisterEnv)
    (hbase : res.baseOffset = 0) (hcap : res.capacity < 2 ^ 64)
    (hfit : ∀ pool, (m.tiers res.tier).ssdPool = some pool →
      pool.totalCapacity + roundUpPage res.capacity < 2 ^ 64) :
    (memsvcRegisterStorage m res env).2.WF := by
  rcases TierMemCtx.memsvcRegisterStorage_cases m res env with he | he
  · rw [he]
    exact hw
  · rw [he]
    exact hw.setTier ((hw res.tier).registerTier env hbase hcap hfit)

theorem memServiceDirectCreate_wf {memorySize : ℕ} {env : RegisterEnv}
    (hlt : memorySize < 2 ^ 64) (h : memServiceDirectCreate memorySize 0 env = some m) : m.WF := by
  unfold memServiceDirectCreate memServiceDirectCreateTiered at h
  split_ifs at h with h0
  split at h
  · rename_i m' hr
    obtain rfl := Option.some.inj h
    have hwf : (memsvcRegisterStorage memServiceDirectCreateV2 ⟨.cxl, memorySize, 0, some .file⟩
      env).2.WF := memsvcRegisterStorage_wf memServiceDirectCreateV2_wf env rfl hlt
        (fun _ h => nomatch h)
    rw [hr] at hwf
    exact hwf
  · cases h

end Storage

end Umm
