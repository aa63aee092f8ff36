import Umm.Memory.MemServiceSteps
import Umm.Transport.SsdTransport

/-! Whole runs of the SSD transport: whatever path served each call, a get returns the bytes
of the latest puts. -/
namespace Umm
open Umm.Lib

/-! The transports that are created. -/

/-- The devices registered so far, in `pool`; without any the SSD tier is offline. -/
structure SsdSoFar (m : MemServiceCtx) (pool : SsdPool) : Prop where
  tier : (m.tiers .ssd).online = false ∧ pool = ssdPoolCreate ∨
    (m.tiers .ssd).online = true ∧ (m.tiers .ssd).baseOffset = 0 ∧
      (m.tiers .ssd).ssdPool = some pool
  wf : pool.WF

theorem registerSsd_ok {t t' : TierMemCtx} {kind : BackendKind} {capacity : ℕ} {first : Bool}
    {env : RegisterEnv} (h : t.registerSsd kind capacity first env = (.ok (), t')) :
    ∃ pool', ssdPoolAddDevice (t.ssdPool.getD ssdPoolCreate) kind capacity env.add =
        (.ok (), pool') ∧ t'.online = t.online ∧ t'.baseOffset = t.baseOffset ∧
      t'.ssdPool = some pool' := by
  unfold TierMemCtx.registerSsd at h
  split at h
  · simp at h
  · split at h
    · split_ifs at h <;> simp at h
    · rename_i pool' hadd
      obtain rfl := (Prod.mk.inj h).2
      exact ⟨pool', hadd, rfl, rfl, rfl⟩

/-- The tier that a registration goes on with has the pool so far. -/
theorem SsdSoFar.registering {m : MemServiceCtx} {pool : SsdPool} (h : SsdSoFar m pool)
    (res : StorageResource) (hbase : res.baseOffset = 0) :
    ((m.tiers .ssd).registering res).online = true ∧
      ((m.tiers .ssd).registering res).baseOffset = 0 ∧
      ((m.tiers .ssd).registering res).ssdPool.getD ssdPoolCreate = pool := by
  rcases h.tier with ⟨hoff, rfl⟩ | ⟨hon, hzero, hpool⟩ <;>
    rcases (m.tiers .ssd).registering_cases res with ⟨hon', he⟩ | ⟨hoff', he⟩
  · rw [hoff] at hon'
    cases hon'
  · rw [he]
    exact ⟨rfl, hbase, rfl⟩
  · rw [he, hpool]
    exact ⟨hon, hzero, rfl⟩
  · rw [hon] at hoff'
    cases hoff'

/-- Registering one more SSD device appends it to the pool. -/
theorem SsdSoFar.register {m m' : MemServiceCtx} {pool : SsdPool} (h : SsdSoFar m pool)
    {kind : BackendKind} {capacity : ℕ} {env : RegisterEnv}
    (hlt : pool.totalCapacity + roundUpPage capacity < 2 ^ 64)
    (hr : memsvcRegisterStorage m
      { tier := .ssd, capacity, baseOffset := 0, device := some kind } env = (.ok (), m')) :
    ∃ pool', SsdSoFar m' pool' ∧ SsdReady m' pool' ∧
      pool'.totalCapacity = pool.totalCapacity + roundUpPage capacity := by
  rcases TierMemCtx.memsvcRegisterStorage_cases m
    { tier := .ssd, capacity, baseOffset := 0, device := some kind } env with he | he
  · rw [he] at hr
    cases (Prod.mk.inj hr).1
  rw [he] at hr
  obtain ⟨h1, h2⟩ := Prod.mk.inj hr
  obtain ⟨hon, hzero, hold⟩ :=
    h.registering ⟨.ssd, capacity, 0, some kind⟩ rfl
  unfold TierMemCtx.registerTier at h1 h2
  dsimp only at h1 h2
  split at h1
  · cases h1
  next ba ha =>
    rw [ha] at h2
    obtain ⟨pool', hadd, honl, hbase, hpool⟩ := registerSsd_ok (Prod.ext h1 rfl)
    rw [hold] at hadd
    rw [hon] at honl
    rw [hzero] at hbase
    have hw := (ssdPoolAddDevice_wf h.wf hlt hadd).1
    have htot : pool'.totalCapacity = pool.totalCapacity + roundUpPage capacity := by
      obtain ⟨sb, -, hcap, -, -, rfl⟩ := ssdPoolAddDevice_ok hadd
      simp only [SsdPool.grown]
      rw [hcap, u64_of_lt hlt]
    have htier : (m'.tiers .ssd).online = true ∧ (m'.tiers .ssd).baseOffset = 0 ∧
        (m'.tiers .ssd).ssdPool = some pool' := by
      rw [← h2, MemServiceCtx.tiers_setTier_same]
      exact ⟨honl, hbase, hpool⟩
    exact ⟨pool', ⟨Or.inr htier, hw⟩, ⟨htier.1, htier.2.1, htier.2.2, hw⟩, htot⟩

/-- The capacity that a list of devices brings in. -/
def devicesCapacity (devs : List SsdDeviceConfig) : ℕ :=
  (devs.map (fun d => roundUpPage d.size)).sum

theorem registerDevices_ready {devs : List SsdDeviceConfig} {m m' : MemServiceCtx}
    {pool : SsdPool} (h : SsdSoFar m pool) (hne : devs ≠ [])
    (hlt : pool.totalCapacity + devicesCapacity devs < 2 ^ 64)
    (hr : registerDevices m devs = some m') : ∃ pool', SsdReady m' pool' := by
  induction devs generalizing m pool with
  | nil => exact absurd rfl hne
  | cons dev devs ih =>
    unfold registerDevices at hr
    have hsum : devicesCapacity (dev :: devs) = roundUpPage dev.size + devicesCapacity devs := by
      simp [devicesCapacity]
    split at hr
    · rename_i m1 hreg
      obtain ⟨pool1, hso, hready, htot⟩ := h.register (by omega) hreg
      by_cases hnil : devs = []
      · subst hnil
        obtain rfl := Option.some.inj hr
        exact ⟨pool1, hready⟩
      · exact ih hso hnil (by omega) hr
    · simp at hr

theorem memServiceDirectCreate_ssd {size base : ℕ} {env : RegisterEnv} {m : MemServiceCtx}
    (h : memServiceDirectCreate size base env = some m) : m.tiers .ssd = .offline := by
  unfold memServiceDirectCreate memServiceDirectCreateTiered at h
  split_ifs at h
  split at h
  · rename_i m1 hreg
    obtain rfl := Option.some.inj h
    have hother := memsvcRegisterStorage_other memServiceDirectCreateV2
      ⟨.cxl, size, base, some .file⟩ env (show Tier.ssd ≠ Tier.cxl by decide)
    rw [hreg] at hother
    exact hother
  · simp at h

/-- Without devices the SSD tier of a fresh context is offline. -/
theorem memServiceDirectCreate_soFar {size base : ℕ} {env : RegisterEnv} {m : MemServiceCtx}
    (h : memServiceDirectCreate size base env = some m) : SsdSoFar m ssdPoolCreate := by
  have hoff := memServiceDirectCreate_ssd h
  exact ⟨Or.inl ⟨by rw [hoff]; rfl, rfl⟩, ssdPoolCreate_wf⟩

theorem ssdTransportCreateMulti_ready {devs : List SsdDeviceConfig} {env : RegisterEnv}
    {m : MemServiceCtx} (hlt : devicesCapacity devs < 2 ^ 64)
    (h : ssdTransportCreateMulti devs env = some m) : ∃ pool, SsdReady m pool := by
  unfold ssdTransportCreateMulti at h
  split_ifs at h with hlen
  split at h
  · simp at h
  next m0 hc =>
    refine registerDevices_ready (memServiceDirectCreate_soFar hc) ?_ ?_ h
    · rintro rfl
      exact hlen rfl
    · simpa [ssdPoolCreate] using hlt

/-- The SSD tier has nothing to serve calls with. -/
structure SsdIdle (m : MemServiceCtx) : Prop where
  pool : (m.tiers .ssd).ssdPool = none
  window : (m.tiers .ssd).window = none

/-- A failed registration leaves a fresh tier without a pool. -/
theorem registerTier_idle (res : StorageResource) (env : RegisterEnv) (htier : res.tier = .ssd)
    (h : ∀ kind, res.device = some kind →
      (TierMemCtx.offline.registerTier res env).1 ≠ .ok ()) :
    (TierMemCtx.offline.registerTier res env).2.ssdPool = none ∧
      (TierMemCtx.offline.registerTier res env).2.window = none := by
  unfold TierMemCtx.registerTier at h ⊢
  rw [show TierMemCtx.offline.registering res = _ from if_neg (by decide)] at h ⊢
  dsimp only at h ⊢
  cases hba : baCreate res.capacity baDefaultPageSize with
  | none => exact ⟨rfl, rfl⟩
  | some ba =>
    rw [hba] at h
    rw [htier] at h ⊢
    cases hdev : res.device with
    | none => exact ⟨rfl, rfl⟩
    | some kind =>
      rw [hdev] at h
      have hfailed := h kind rfl
      dsimp only at hfailed ⊢
      unfold TierMemCtx.registerSsd at hfailed ⊢
      dsimp only at hfailed ⊢
      cases hgot : env.gotPool with
      | false => exact ⟨rfl, rfl⟩
      | true =>
        rw [hgot] at hfailed
        dsimp only [Option.getD_none] at hfailed ⊢
        split at hfailed
        next e pool hadd =>
          obtain rfl : pool = ssdPoolCreate := ssdPoolAddDevice_error hadd
          exact ⟨rfl, rfl⟩
        · exact absurd rfl hfailed

theorem ssdTransportCreate_cases {device : Option BackendKind} {maxBytes : ℕ}
    {env env' : RegisterEnv} {m : MemServiceCtx} (hlt : roundUpPage maxBytes < 2 ^ 64)
    (h : ssdTransportCreate device maxBytes env env' = some m) :
    (∃ pool, SsdReady m pool) ∨ SsdIdle m := by
  obtain ⟨m₀, hm₀, rfl⟩ := Option.map_eq_some_iff.mp h
  have hoff := memServiceDirectCreate_ssd hm₀
  cases hreg : memsvcRegisterStorage m₀ ⟨.ssd, maxBytes, 0, device⟩ env' with
  | mk r m =>
    by_cases hok : r = .ok () ∧ ∃ kind, device = some kind
    · obtain ⟨rfl, kind, rfl⟩ := hok
      obtain ⟨pool, -, hready, -⟩ :=
        (memServiceDirectCreate_soFar hm₀).register (by simpa [ssdPoolCreate] using hlt) hreg
      exact .inl ⟨pool, hready⟩
    · refine .inr ?_
      rcases TierMemCtx.memsvcRegisterStorage_cases m₀ ⟨.ssd, maxBytes, 0, device⟩ env' with he | he
      · obtain rfl := (Prod.mk.inj (he.symm.trans hreg)).2
        exact ⟨by rw [hoff]; rfl, by rw [hoff]; rfl⟩
      · obtain ⟨hr, hm⟩ := Prod.mk.inj (he.symm.trans hreg)
        dsimp only at hr hm
        rw [hoff] at hr hm
        obtain ⟨hpool, hwindow⟩ := registerTier_idle ⟨.ssd, maxBytes, 0, device⟩ env' rfl
          fun kind hkind hokr => hok ⟨hr.symm.trans hokr, kind, hkind⟩
        rw [← hm]
        exact ⟨by rw [MemServiceCtx.tiers_setTier_same]; exact hpool,
          by rw [MemServiceCtx.tiers_setTier_same]; exact hwindow⟩

/-- The memory services that SSD transports are created with, of less than 2^64 bytes. -/
inductive SsdCreated : MemServiceCtx → Prop
  | multi {devs : List SsdDeviceConfig} {env : RegisterEnv} {m : MemServiceCtx} :
      devicesCapacity devs < 2 ^ 64 → ssdTransportCreateMulti devs env = some m → SsdCreated m
  | single {device : Option BackendKind} {maxBytes : ℕ} {env env' : RegisterEnv}
      {m : MemServiceCtx} : roundUpPage maxBytes < 2 ^ 64 →
      ssdTransportCreate device maxBytes env env' = some m → SsdCreated m

theorem SsdCreated.cases {m : MemServiceCtx} (h : SsdCreated m) :
    (∃ pool, SsdReady m pool) ∨ SsdIdle m := by
  cases h with
  | multi hlt h => exact .inl (ssdTransportCreateMulti_ready hlt h)
  | single hlt h => exact ssdTransportCreate_cases hlt h

/-! Runs. -/

/-- A call of `put` on the pool. -/
structure PutCall where
  offset : ℕ
  bytes : List UInt8
  ok : Bool

/-- What a put left on a pool of `size` bytes: all of its bytes where it succeeded, and a first part
of them where a device refused its piece. -/
structure PutCall.Wrote (size : ℕ) (put : PutCall) (written : ℕ × List UInt8) : Prop where
  offset : written.1 = put.offset
  part : written.2 <+: put.bytes
  all : put.ok = true → written.2 = put.bytes
  outside : size < put.offset + put.bytes.length → written.2 = []

structure TransportState where
  m : MemServiceCtx
  /-- The pool when the transport was created. -/
  start : SsdPool
  /-- The puts, the latest first. -/
  puts : List PutCall

/-- The byte that the latest write over `x` left there. -/
def latestByte (initial : List UInt8) : List (ℕ × List UInt8) → ℕ → Option UInt8
  | [], x => initial[x]?
  | (offset, bytes) :: older, x =>
    if offset ≤ x ∧ x < offset + bytes.length then bytes[x - offset]?
    else latestByte initial older x

inductive TransportOp where
  | get (os : OsIo) (gpa len : UInt64) (outBuf : List UInt8)
  | put (os : OsIo) (gpa len : UInt64) (buf : List UInt8)

/-- A transport with a pool. -/
inductive TransportInit : TransportState → Prop
  | create {m : MemServiceCtx} {pool : SsdPool} : SsdCreated m →
      (m.tiers .ssd).ssdPool = some pool → TransportInit ⟨m, pool, []⟩

/-- The calls in question: at least one byte, and an end below 2^64. -/
def CallOk (gpa len : UInt64) (buf : List UInt8) : Prop :=
  0 < len.toNat ∧ gpaToOffset gpa.toNat + len.toNat < 2 ^ 64 ∧ buf.length = len.toNat

inductive TransportStep : TransportState → TransportOp → TransportState → Prop
  | get {s : TransportState} {os : OsIo} {gpa len : UInt64} {buf out : List UInt8}
      {r : Except Error Unit} {m' : MemServiceCtx} : CallOk gpa len buf →
      ssdTransportGet os s.m gpa.toNat len.toNat buf = some (r, m', out) →
      TransportStep s (.get os gpa len buf) { s with m := m' }
  | put {s : TransportState} {os : OsIo} {gpa len : UInt64} {buf : List UInt8}
      {r : Except Error Unit} {m' : MemServiceCtx} : CallOk gpa len buf →
      ssdTransportPut os s.m gpa.toNat len.toNat buf = some (r, m') →
      TransportStep s (.put os gpa len buf)
        { s with m := m', puts := ⟨gpaToOffset gpa.toNat, buf, r.isOk⟩ :: s.puts }

/-- The pool is the one at the start, and its bytes are what the puts left. -/
structure TransportState.Inv (s : TransportState) : Prop where
  ready : ∃ pool written, SsdReady s.m pool ∧ pool.blank = s.start.blank ∧
    List.Forall₂ (PutCall.Wrote s.start.totalCapacity) s.puts written ∧
    ∀ x, pool.bytes[x]? = latestByte s.start.bytes written x

theorem transportInit_inv {s : TransportState} (h : TransportInit s) : s.Inv := by
  obtain ⟨hc, hp⟩ := h
  rcases hc.cases with ⟨pool, hready⟩ | hidle
  · have hpool := hready.pool_eq
    rw [hp] at hpool
    obtain rfl := Option.some.inj hpool
    exact ⟨_, [], hready, rfl, .nil, fun _ => rfl⟩
  · rw [hidle.pool] at hp
    cases hp

theorem transportStep_inv {s t : TransportState} {op : TransportOp} (hi : s.Inv)
    (hs : TransportStep s op t) : t.Inv := by
  obtain ⟨pool, written, hready, hsame, hputs, hbytes⟩ := hi.ready
  have htot := SsdPool.totalCapacity_of_blank hsame
  cases hs with
  | @get os gpa len buf out r m' hc h =>
    obtain ⟨hpos, hlt, hb⟩ := hc
    by_cases hin : gpaToOffset gpa.toNat + len.toNat ≤ pool.totalCapacity
    · obtain ⟨r', out', hget, -⟩ := ssdTransportGet_inside os hready hpos hb hin
      rw [hget] at h
      obtain ⟨-, rfl, -⟩ := by simpa using h
      exact hi
    · obtain ⟨e, he⟩ := (ssdTransport_outside buf os hready hpos hlt (by omega)).1
      rw [he] at h
      obtain ⟨-, rfl, -⟩ := by simpa using h
      exact hi
  | @put os gpa len buf r m' hc h =>
    obtain ⟨hpos, hlt, hb⟩ := hc
    by_cases hin : gpaToOffset gpa.toNat + len.toNat ≤ pool.totalCapacity
    · obtain ⟨r', pool', n, hput, hready', hblank, hn, hbytes', -, hall⟩ :=
        ssdTransportPut_inside os hready hpos hb hin
      rw [hput] at h
      obtain ⟨rfl, rfl⟩ := Prod.mk.inj (Option.some.inj h)
      refine ⟨pool', (gpaToOffset gpa.toNat, buf.take n) :: written, hready', hblank.trans hsame,
        .cons ?_ hputs, fun x => ?_⟩
      · refine ⟨rfl, List.take_prefix _ _, fun hok => ?_, fun hout => ?_⟩
        · cases r' with
          | error e => cases hok
          | ok u => rw [hall rfl, ← hb, List.take_length]
        · dsimp only at hout
          omega
      · have hfit : gpaToOffset gpa.toNat + (buf.take n).length ≤ pool.bytes.length := by
          rw [hready.wf.length_bytes, List.length_take_of_le (by omega)]
          omega
        rw [hbytes', getElem?_splice hfit, hbytes x]
        rfl
    · obtain ⟨e, he⟩ := (ssdTransport_outside buf os hready hpos hlt (by omega)).2
      rw [he] at h
      obtain ⟨rfl, rfl⟩ := Prod.mk.inj (Option.some.inj h)
      refine ⟨pool, (gpaToOffset gpa.toNat, []) :: written, hready, hsame, .cons ?_ hputs,
        fun x => ?_⟩
      · exact ⟨rfl, List.nil_prefix, nofun, fun _ => rfl⟩
      · rw [hbytes x, latestByte, if_neg (by simp)]

/-- In every state of every run the pool holds what the latest puts left: a get that succeeds
returns it byte for byte. A call inside the pool succeeds where every device takes its piece, and
fails otherwise, a put after a first part of its bytes; a call outside fails and changes nothing. -/
theorem transportRun_one_memory {s : TransportState} (h : Reach TransportInit TransportStep s) :
    ∃ written, List.Forall₂ (PutCall.Wrote s.start.totalCapacity) s.puts written ∧
      ∀ (os : OsIo) (gpa len : UInt64) (buf : List UInt8), CallOk gpa len buf →
        (gpaToOffset gpa.toNat + len.toNat ≤ s.start.totalCapacity →
          (s.start.Takes os false (gpaToOffset gpa.toNat) len.toNat →
            ∃ out, ssdTransportGet os s.m gpa.toNat len.toNat buf = some (.ok (), s.m, out) ∧
              out.length = len.toNat ∧
              ∀ i < len.toNat,
                out[i]? = latestByte s.start.bytes written (gpaToOffset gpa.toNat + i)) ∧
          (¬ s.start.Takes os false (gpaToOffset gpa.toNat) len.toNat →
            ∃ e out, ssdTransportGet os s.m gpa.toNat len.toNat buf = some (.error e, s.m, out)) ∧
          (s.start.Takes os true (gpaToOffset gpa.toNat) len.toNat →
            ∃ m', ssdTransportPut os s.m gpa.toNat len.toNat buf = some (.ok (), m')) ∧
          (¬ s.start.Takes os true (gpaToOffset gpa.toNat) len.toNat →
            ∃ e m', ssdTransportPut os s.m gpa.toNat len.toNat buf = some (.error e, m'))) ∧
        (s.start.totalCapacity < gpaToOffset gpa.toNat + len.toNat →
          (∃ e, ssdTransportGet os s.m gpa.toNat len.toNat buf = some (.error e, s.m, buf)) ∧
          ∃ e, ssdTransportPut os s.m gpa.toNat len.toNat buf = some (.error e, s.m)) := by
  have hi : s.Inv := h.invariant (P := TransportState.Inv) (fun _ h0 => transportInit_inv h0)
    (fun _ _ _ hi hs => transportStep_inv hi hs)
  obtain ⟨pool, written, hready, hsame, hputs, hbytes⟩ := hi.ready
  refine ⟨written, hputs, fun os gpa len buf ⟨hpos, hlt, hb⟩ => ?_⟩
  rw [← SsdPool.totalCapacity_of_blank hsame, ← SsdPool.takes_iff_of_blank hsame,
    ← SsdPool.takes_iff_of_blank hsame]
  refine ⟨fun hin => ?_, fun hout => ssdTransport_outside buf os hready hpos hlt hout⟩
  obtain ⟨r, out, hget, hok, hout⟩ := ssdTransportGet_inside os hready hpos hb hin
  obtain ⟨r', pool', n, hput, -, -, -, -, hok', -⟩ := ssdTransportPut_inside os hready hpos hb hin
  refine ⟨fun htakes => ?_, fun hnot => ?_, fun htakes => ?_, fun hnot => ?_⟩
  · obtain rfl := hok.mpr htakes
    obtain rfl := hout rfl
    refine ⟨_, hget, length_slice (by rw [hready.wf.length_bytes]; exact hin), fun i hilt => ?_⟩
    rw [getElem?_slice, if_pos hilt, hbytes]
  · cases r with
    | error e => exact ⟨e, out, hget⟩
    | ok u => exact absurd (hok.mp rfl) hnot
  · obtain rfl := hok'.mpr htakes
    exact ⟨_, hput⟩
  · cases r' with
    | error e => exact ⟨e, _, hput⟩
    | ok u => exact absurd (hok'.mp rfl) hnot

def transportEnv : RegisterEnv := ⟨false, true, ⟨true, fun _ => 0, true⟩, .noMemory⟩

/-- Two bytes that are put across a file and an unmapped device are got from there. -/
theorem transportRun_one_memory_two_devices :
    ∃ s : TransportState, s.puts = [⟨4095, [7, 9], true⟩] ∧
      ssdTransportGet OsIo.whole s.m 4095 2 [0, 0] = some (.ok (), s.m, [7, 9]) := by
  have hfacts : ((ssdTransportCreateMulti [⟨.file, 4096, transportEnv⟩, ⟨.libnvm, 4096,
      transportEnv⟩] transportEnv).bind (fun m => (m.tiers .ssd).ssdPool)).map
        (fun pool => (pool.totalCapacity, pool.devices.map (·.backend.kind))) =
          some (8192, [.file, .libnvm]) := by decide +kernel
  obtain ⟨pool, hpool, hfacts⟩ := Option.map_eq_some_iff.mp hfacts
  obtain ⟨hcap, hkinds⟩ := Prod.mk.inj hfacts
  obtain ⟨m, hm, hp⟩ := Option.bind_eq_some_iff.mp hpool
  have htakes : ∀ isWrite, pool.Takes .whole isWrite 4095 2 := by
    refine fun isWrite => takes_of_kinds rfl (fun d hd => ?_) isWrite _ _
    have hkind : d.backend.kind ∈ pool.devices.map (·.backend.kind) := List.mem_map_of_mem hd
    rw [hkinds] at hkind
    rcases List.mem_pair.mp hkind with hk | hk <;> rw [hk] <;> decide
  have hcall : ∀ a b, CallOk 4095 2 [a, b] := fun _ _ => ⟨by decide, by decide, rfl⟩
  have hin : gpaToOffset (4095 : UInt64).toNat + (2 : UInt64).toNat ≤ pool.totalCapacity := by
    rw [hcap]
    decide
  have hstart : Reach TransportInit TransportStep ⟨m, pool, []⟩ :=
    .start (.create (.multi (by decide) hm) hp)
  obtain ⟨_, -, hcalls⟩ := transportRun_one_memory hstart
  obtain ⟨m', hput⟩ := ((hcalls .whole 4095 2 [7, 9] (hcall 7 9)).1 hin).2.2.1 (htakes true)
  obtain ⟨written, hputs, hcalls⟩ := transportRun_one_memory
    (hstart.next (.put .whole 4095 2 [7, 9]) (.put (hcall 7 9) hput))
  obtain ⟨out, hget, hlen, hbytes⟩ :=
    ((hcalls .whole 4095 2 [0, 0] (hcall 0 0)).1 hin).1 (htakes false)
  refine ⟨⟨m', pool, [⟨4095, [7, 9], true⟩]⟩, rfl, ?_⟩
  obtain ⟨w, rest, hw, hnil, rfl⟩ := List.forall₂_cons_left_iff.mp hputs
  cases hnil
  obtain ⟨offset, bytes⟩ := w
  obtain rfl : offset = 4095 := hw.offset
  obtain rfl : bytes = [7, 9] := hw.all rfl
  have hout : out = [7, 9] := by
    refine List.ext_getElem? fun i => ?_
    by_cases hi : i < 2
    · rw [hbytes i hi]
      interval_cases i <;> rfl
    · rw [List.getElem?_eq_none (by rw [hlen]; exact Nat.not_lt.mp hi),
        List.getElem?_eq_none (Nat.not_lt.mp hi)]
  rw [← hout]
  exact hget

/-- A put across a file and a device that keeps books only fails and leaves its first byte, and the
byte behind it cannot be got although it lies in the pool. -/
theorem transportRun_torn_put : ∃ (s : TransportState) (m : MemServiceCtx) (e : Error),
    Reach TransportInit TransportStep s ∧ s.puts = [] ∧ s.start.totalCapacity = 8192 ∧
      s.start.bytes[4095]? = some 0 ∧
      ssdTransportPut OsIo.whole s.m 4095 2 [7, 9] = some (.error e, m) ∧
      [4095, 4096].map (fun gpa => (ssdTransportGet OsIo.whole m gpa 1 [0]).map
        fun r => (r.1.isOk, r.2.2)) = [some (true, [7]), some (false, [0])] := by
  have hstart : ((ssdTransportCreateMulti [⟨.file, 4096, transportEnv⟩, ⟨.ndsMeta, 4096,
      transportEnv⟩] transportEnv).bind fun m => (m.tiers .ssd).ssdPool.map fun pool =>
        (pool.totalCapacity, pool.bytes[4095]?)) = some (8192, some 0) := by decide +kernel
  have hrun : (ssdTransportCreateMulti [⟨.file, 4096, transportEnv⟩, ⟨.ndsMeta, 4096,
      transportEnv⟩] transportEnv).bind (fun m =>
        (ssdTransportPut OsIo.whole m 4095 2 [7, 9]).map fun r =>
          (r.1.isOk, [4095, 4096].map fun gpa => (ssdTransportGet OsIo.whole r.2 gpa 1 [0]).map
            fun r => (r.1.isOk, r.2.2))) =
      some (false, [some (true, [7]), some (false, [0])]) := by decide +kernel
  obtain ⟨m, hm, hstart⟩ := Option.bind_eq_some_iff.mp hstart
  rw [hm, Option.bind_some] at hrun
  obtain ⟨pool, hp, hstart⟩ := Option.map_eq_some_iff.mp hstart
  obtain ⟨hcap, hbyte⟩ := Prod.mk.inj hstart
  obtain ⟨⟨r, m'⟩, hput, hrun⟩ := Option.map_eq_some_iff.mp hrun
  obtain ⟨hfailed, hgets⟩ := Prod.mk.inj hrun
  cases r with
  | ok u => cases hfailed
  | error e =>
    exact ⟨⟨m, pool, []⟩, m', e, .start (.create (.multi (by decide) hm) hp), rfl, hcap, hbyte,
      hput, hgets⟩

end Umm
