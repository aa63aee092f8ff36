import Umm.Transport.SsdPoolBatch
import Umm.Lib.Groups

/-! When a rejected batch has touched nothing: the check of the pool adds up offset and length,
and what wraps around gets past it to the backend. -/
namespace Umm
open Umm.Lib

namespace SsdPool

variable {pool pool' : SsdPool}

/-- Pools that differ in their data only have the same devices. -/
theorem device_of_blank (h : pool'.blank = pool.blank) {i : ℕ} {d : SsdDevice}
    (hd : pool.devices[i]? = some d) :
    ∃ data, pool'.devices[i]? = some { d with backend := { d.backend with data } } := by
  have hdevices := congrArg (fun p => p.devices[i]?) h
  simp only [blank, List.getElem?_map, hd, Option.map_some] at hdevices
  obtain ⟨d', hd', heq⟩ := Option.map_eq_some_iff.mp hdevices
  refine ⟨d'.backend.data, hd'.trans (congrArg some ?_)⟩
  obtain ⟨⟨kind, capacity, data⟩, virtualBase, capacity'⟩ := d
  obtain ⟨⟨kind', capacity'', data'⟩, virtualBase', capacity'''⟩ := d'
  simp only [SsdDevice.mk.injEq, SsdBackend.mk.injEq] at heq ⊢
  exact ⟨⟨heq.1.1, heq.1.2.1, trivial⟩, heq.2⟩

end SsdPool

/-- The range of a translated iovec lies on its device. -/
def OnDevice (pool : SsdPool) (x : ℕ × UmmNdsIOVec) : Prop :=
  ∃ d, pool.devices[x.1]? = some d ∧ x.2.offset.toNat + x.2.length.toNat ≤ d.backend.capacity

/-- The backend that a translated iovec is for takes it. -/
def Accepts (pool : SsdPool) (nds : ℕ → NdsDevice) (x : ℕ × UmmNdsIOVec) : Prop :=
  OnDevice pool x ∧ ∀ d, pool.devices[x.1]? = some d →
    match d.backend.kind with
    | .file | .libnvm => True
    | .direct => DirectAccepts x.2
    | .nds => NdsAccepts (nds x.1) x.2
    | .ndsMeta => False

theorem OnDevice.of_blank {pool pool' : SsdPool} (h : pool'.blank = pool.blank)
    {x : ℕ × UmmNdsIOVec} (hx : OnDevice pool x) : OnDevice pool' x := by
  obtain ⟨d, hd, hin⟩ := hx
  obtain ⟨data, hd'⟩ := SsdPool.device_of_blank h hd
  exact ⟨_, hd', hin⟩

theorem Accepts.of_blank {pool pool' : SsdPool} (h : pool'.blank = pool.blank)
    {nds : ℕ → NdsDevice} {x : ℕ × UmmNdsIOVec} (hx : Accepts pool nds x) :
    Accepts pool' nds x := by
  refine ⟨hx.1.of_blank h, fun d hd => ?_⟩
  obtain ⟨data, hd'⟩ := SsdPool.device_of_blank h.symm hd
  have hkind := hx.2 _ hd'
  exact hkind

/-- After requests that the backends take, an iovec for another device ends past 2^64. -/
def SsdPool.WrapsLater (pool : SsdPool) (nds : ℕ → NdsDevice) (iovs : List UmmNdsIOVec) : Prop :=
  ∃ tmp, checkIovs pool 0 iovs = .ok tmp ∧ ∃ pre group post dev, tmp = pre ++ (group ++ post) ∧
    pre ≠ [] ∧ (∀ x ∈ pre.getLast?, x.1 ≠ dev) ∧ (∀ x ∈ pre, Accepts pool nds x) ∧
    (∀ x ∈ group, x.1 = dev) ∧
    ∃ x ∈ group, 2 ^ 64 ≤ x.2.offset.toNat + x.2.length.toNat

/-- The state that a call starts in. -/
def BatchState.start (pool : SsdPool) (nds : ℕ → NdsDevice) (host npu : Buffers)
    (iovs : List UmmNdsIOVec) : BatchState := ⟨pool, nds, host, npu, iovs, []⟩

/-- What a batch never changes. -/
def BatchState.Like (st' st : BatchState) : Prop :=
  st'.pool.blank = st.pool.blank ∧ st'.nds = st.nds ∧ st'.iovs = st.iovs ∧
    st.issued <+: st'.issued

namespace BatchState

variable {st st' st'' : BatchState}

theorem Like.refl (st : BatchState) : st.Like st := ⟨rfl, rfl, rfl, List.prefix_rfl⟩

theorem Like.trans (h : st''.Like st') (h' : st'.Like st) : st''.Like st :=
  ⟨h.1.trans h'.1, h.2.1.trans h'.2.1, h.2.2.1.trans h'.2.2.1, h'.2.2.2.trans h.2.2.2⟩

theorem Like.onDevice (h : st'.Like st) {x : ℕ × UmmNdsIOVec} :
    OnDevice st'.pool x ↔ OnDevice st.pool x :=
  ⟨.of_blank h.1.symm, .of_blank h.1⟩

theorem Like.accepts (h : st'.Like st) {x : ℕ × UmmNdsIOVec} :
    Accepts st'.pool st'.nds x ↔ Accepts st.pool st.nds x := by
  rw [h.2.1]
  exact ⟨.of_blank h.1.symm, .of_blank h.1⟩

end BatchState

section Steps

variable {env : BatchEnv} {isWrite : Bool} {dev : ℕ} {st st' : BatchState}

/-- A write that is answered was taken by its backend. -/
theorem transfer_write {d : SsdDevice} {iov : UmmNdsIOVec}
    (h : st.transfer env true dev d iov = (.ok (), st')) :
    (d.backend.kind = .direct → DirectAccepts iov) ∧
      ∃ sb, ssdBackendPwrite env.os dev d.backend iov.offset.toNat iov.length.toNat
          (st.host.read iov.vaddr.toNat iov.length.toNat) = (.ok (), sb) ∧
        st' = { st with
          pool := st.pool.setBackend dev sb, issued := st.issued ++ [⟨true, dev, iov⟩] } := by
  unfold BatchState.transfer at h
  dsimp only at h
  split at h
  · cases (Prod.mk.inj h).1
  next hdirect =>
    refine ⟨fun hk => not_not.mp fun hn => hdirect ⟨hk, hn⟩, ?_⟩
    rw [if_pos rfl] at h
    split at h
    · cases (Prod.mk.inj h).1
    next hsb =>
      split at h
      · exact ⟨_, Prod.ext hsb rfl, (Prod.mk.inj h).2.symm⟩
      · cases (Prod.mk.inj h).1

theorem transfer_read {d : SsdDevice} {iov : UmmNdsIOVec}
    (h : st.transfer env false dev d iov = (.ok (), st')) :
    (d.backend.kind = .direct → DirectAccepts iov) ∧
      ∃ bytes, ssdBackendPread env.os dev d.backend iov.offset.toNat iov.length.toNat
          (st.host.read iov.vaddr.toNat iov.length.toNat) = (.ok (), bytes) ∧
        st' = { st with
          host := st.host.write iov.vaddr.toNat bytes
          issued := st.issued ++ [⟨false, dev, iov⟩] } := by
  unfold BatchState.transfer at h
  dsimp only at h
  split at h
  · cases (Prod.mk.inj h).1
  next hdirect =>
    refine ⟨fun hk => not_not.mp fun hn => hdirect ⟨hk, hn⟩, ?_⟩
    rw [if_neg Bool.false_ne_true] at h
    split at h
    · cases (Prod.mk.inj h).1
    next hbytes =>
      split at h
      · exact ⟨_, Prod.ext hbytes rfl, (Prod.mk.inj h).2.symm⟩
      · cases (Prod.mk.inj h).1

/-- A request that is answered changes data only. -/
theorem transfer_ok {d : SsdDevice} {iov : UmmNdsIOVec} (hd : st.pool.devices[dev]? = some d)
    (h : st.transfer env isWrite dev d iov = (.ok (), st')) :
    (d.backend.kind = .direct → DirectAccepts iov) ∧ st'.Like st := by
  cases isWrite with
  | true =>
    obtain ⟨haccept, sb, hsb, rfl⟩ := transfer_write h
    obtain ⟨data, hdata, -⟩ := SsdPool.ssdBackendPwrite_shape env.os
    rw [hsb] at hdata
    obtain rfl : sb = { d.backend with data } := hdata
    exact ⟨haccept, SsdPool.blank_setBackend hd, rfl, rfl, List.prefix_append _ _⟩
  | false =>
    obtain ⟨haccept, bytes, -, rfl⟩ := transfer_read h
    exact ⟨haccept, rfl, rfl, rfl, List.prefix_append _ _⟩

/-- A request is not refused for the range of its iovec. -/
theorem transfer_error {d : SsdDevice} {iov : UmmNdsIOVec} {f : BatchFault}
    (h : st.transfer env isWrite dev d iov = (.error f, st')) : ¬ f.Rejects := by
  unfold BatchState.transfer at h
  dsimp only at h
  repeat' split at h
  all_goals cases h
  all_goals exact not_false

theorem transferLoop_ok {iovs : List UmmNdsIOVec}
    (h : transferLoop env isWrite dev iovs st = (.ok (), st')) :
    (∀ d, st.pool.devices[dev]? = some d → d.backend.kind = .direct →
      ∀ iov ∈ iovs, DirectAccepts iov) ∧ st'.Like st := by
  induction iovs generalizing st with
  | nil =>
    obtain rfl := (Prod.mk.inj h).2
    exact ⟨fun _ _ _ iov hm => (by cases hm), .refl _⟩
  | cons iov iovs ih =>
    unfold transferLoop at h
    split at h
    · cases (Prod.mk.inj h).1
    next d hd =>
      split at h
      · cases (Prod.mk.inj h).1
      next st₁ hone =>
        obtain ⟨haccept, hlike⟩ := transfer_ok hd hone
        obtain ⟨hrest, hlike'⟩ := ih h
        refine ⟨fun d' hd' hk => ?_, hlike'.trans hlike⟩
        obtain rfl : d = d' := Option.some.inj (hd.symm.trans hd')
        obtain ⟨data, hd₁⟩ := SsdPool.device_of_blank hlike.1 hd
        exact List.forall_mem_cons.mpr ⟨haccept hk, hrest _ hd₁ hk⟩

theorem transferLoop_error {iovs : List UmmNdsIOVec} {f : BatchFault}
    (h : transferLoop env isWrite dev iovs st = (.error f, st')) : ¬ f.Rejects := by
  induction iovs generalizing st with
  | nil => cases (Prod.mk.inj h).1
  | cons iov iovs ih =>
    unfold transferLoop at h
    split at h
    · obtain rfl := Except.error.inj (Prod.mk.inj h).1
      exact not_false
    · split at h
      next e st₁ hone =>
        obtain rfl := Except.error.inj (Prod.mk.inj h).1
        exact transfer_error hone
      next => exact ih h

theorem ssdNdsBatch_ok {d : SsdDevice} {iovs : List UmmNdsIOVec}
    (hd : st.pool.devices[dev]? = some d)
    (h : ssdNdsBatch env isWrite dev d iovs st = (.ok (), st')) :
    (∀ iov ∈ iovs, NdsAccepts (st.nds dev) iov) ∧ st'.Like st := by
  unfold ssdNdsBatch at h
  split_ifs at h with hnone haccept hgot
  · cases (Prod.mk.inj h).1
  · obtain rfl := (Prod.mk.inj h).2
    exact ⟨haccept, SsdPool.blank_setBackend hd, rfl, rfl, List.prefix_append _ _⟩
  · cases (Prod.mk.inj h).1
  · cases (Prod.mk.inj h).1

theorem ssdNdsBatch_error {d : SsdDevice} {iovs : List UmmNdsIOVec} {f : BatchFault}
    (h : ssdNdsBatch env isWrite dev d iovs st = (.error f, st')) : ¬ f.Rejects := by
  unfold ssdNdsBatch at h
  split_ifs at h with hnone haccept hgot
  · obtain rfl := Except.error.inj (Prod.mk.inj h).1
    exact not_false
  · cases (Prod.mk.inj h).1
  · obtain rfl := Except.error.inj (Prod.mk.inj h).1
    exact not_false
  · obtain rfl := Except.error.inj (Prod.mk.inj h).1
    exact not_false

theorem batchCheckBounds_ok {sb : SsdBackend} {i : ℕ} {iovs : List UmmNdsIOVec} :
    batchCheckBounds dev sb i iovs = .ok () ↔
      ∀ iov ∈ iovs, iov.offset.toNat + iov.length.toNat ≤ sb.capacity := by
  induction iovs generalizing i with
  | nil => simp [batchCheckBounds]
  | cons iov iovs ih =>
    unfold batchCheckBounds
    rw [List.forall_mem_cons]
    split_ifs with hout
    · refine iff_of_false (fun h => by cases h) ?_
      rintro ⟨hin, -⟩
      omega
    · rw [ih, and_iff_right (by omega)]

theorem ssdBackendBatch_ok {iovs : List UmmNdsIOVec}
    (h : ssdBackendBatch env isWrite dev iovs st = (.ok (), st')) :
    (∀ iov ∈ iovs, Accepts st.pool st.nds (dev, iov)) ∧ st'.Like st := by
  unfold ssdBackendBatch at h
  split at h
  · cases (Prod.mk.inj h).1
  next d hd =>
    split at h
    · cases (Prod.mk.inj h).1
    next hbounds =>
      have hin := batchCheckBounds_ok.mp hbounds
      have hone : ∀ iov ∈ iovs, (match d.backend.kind with
          | .file | .libnvm => True
          | .direct => DirectAccepts iov
          | .nds => NdsAccepts (st.nds dev) iov
          | .ndsMeta => False) → Accepts st.pool st.nds (dev, iov) := by
        intro iov hm hkind
        refine ⟨⟨d, hd, hin iov hm⟩, fun d' hd' => ?_⟩
        obtain rfl : d = d' := Option.some.inj (hd.symm.trans hd')
        exact hkind
      cases hk : d.backend.kind with
      | ndsMeta =>
        rw [hk] at h
        cases (Prod.mk.inj h).1
      | nds =>
        rw [hk] at h
        obtain ⟨haccept, hlike⟩ := ssdNdsBatch_ok hd h
        exact ⟨fun iov hm => hone iov hm (by rw [hk]; exact haccept iov hm), hlike⟩
      | direct =>
        rw [hk] at h
        obtain ⟨haccept, hlike⟩ := transferLoop_ok h
        exact ⟨fun iov hm => hone iov hm (by rw [hk]; exact haccept d hd hk iov hm), hlike⟩
      | file =>
        rw [hk] at h
        exact ⟨fun iov hm => hone iov hm (by rw [hk]; trivial), (transferLoop_ok h).2⟩
      | libnvm =>
        rw [hk] at h
        exact ⟨fun iov hm => hone iov hm (by rw [hk]; trivial), (transferLoop_ok h).2⟩

/-- A backend rejects a group before it issues a request, and for an iovec that ends behind it. -/
theorem ssdBackendBatch_rejects {iovs : List UmmNdsIOVec} {f : BatchFault} (hf : f.Rejects)
    (h : ssdBackendBatch env isWrite dev iovs st = (.error f, st')) :
    st' = st ∧ ∃ iov ∈ iovs, ¬ OnDevice st.pool (dev, iov) := by
  unfold ssdBackendBatch at h
  split at h
  · obtain rfl := Except.error.inj (Prod.mk.inj h).1
    cases hf
  next d hd =>
    split at h
    next hbounds =>
      refine ⟨(Prod.mk.inj h).2.symm, ?_⟩
      by_contra hnone
      have hin : ∀ iov ∈ iovs, iov.offset.toNat + iov.length.toNat ≤ d.backend.capacity := by
        intro iov hm
        obtain ⟨d', hd', hon⟩ := not_not.mp fun hn => hnone ⟨iov, hm, hn⟩
        obtain rfl : d = d' := Option.some.inj (hd.symm.trans hd')
        exact hon
      rw [batchCheckBounds_ok.mpr hin] at hbounds
      cases hbounds
    · split at h
      · obtain rfl := Except.error.inj (Prod.mk.inj h).1
        cases hf
      · exact absurd hf (ssdNdsBatch_error h)
      all_goals exact absurd hf (transferLoop_error h)

/-- The iovecs of a group are for one device. -/
def OneDevice (group : List (ℕ × UmmNdsIOVec)) : Prop := ∀ x ∈ group, ∀ y ∈ group, x.1 = y.1

theorem OneDevice.map {iov : UmmNdsIOVec} {group : List (ℕ × UmmNdsIOVec)}
    (h : OneDevice ((dev, iov) :: group)) {x : ℕ × UmmNdsIOVec} (hx : x ∈ (dev, iov) :: group) :
    ∃ iov' ∈ iov :: group.map (·.2), x = (dev, iov') := by
  have hdev : x.1 = dev := h x hx (dev, iov) List.mem_cons_self
  refine ⟨x.2, ?_, Prod.ext hdev rfl⟩
  rcases List.mem_cons.mp hx with rfl | hx
  · exact List.mem_cons_self
  · exact List.mem_cons_of_mem _ (List.mem_map.mpr ⟨x, hx, rfl⟩)

theorem OneDevice.mem {iov : UmmNdsIOVec} {group : List (ℕ × UmmNdsIOVec)}
    (h : OneDevice ((dev, iov) :: group)) {iov' : UmmNdsIOVec}
    (hm : iov' ∈ iov :: group.map (·.2)) : (dev, iov') ∈ (dev, iov) :: group := by
  rcases List.mem_cons.mp hm with rfl | hm
  · exact List.mem_cons_self
  · obtain ⟨x, hx, rfl⟩ := List.mem_map.mp hm
    have hdev : x.1 = dev := h x (List.mem_cons_of_mem _ hx) _ List.mem_cons_self
    exact hdev ▸ List.mem_cons_of_mem _ hx

/-- A rejection comes from a group that ends behind its device, after groups that were taken. -/
theorem groupLoop_rejects {groups : List (List (ℕ × UmmNdsIOVec))} {f : BatchFault}
    (hone : ∀ group ∈ groups, OneDevice group) (hf : f.Rejects)
    (h : groupLoop env isWrite groups st = (.error f, st')) :
    ∃ pre group post, groups = pre ++ group :: post ∧ (∃ x ∈ group, ¬ OnDevice st.pool x) ∧
      (∀ x ∈ pre.flatten, Accepts st.pool st.nds x) ∧ (pre.flatten = [] → st' = st) := by
  induction groups generalizing st with
  | nil => cases (Prod.mk.inj h).1
  | cons group groups ih =>
    obtain ⟨hgroup, hgroups⟩ := List.forall_mem_cons.mp hone
    cases group with
    | nil =>
      obtain ⟨pre, g, post, rfl, hbad, hpre, hsame⟩ := ih hgroups h
      exact ⟨[] :: pre, g, post, rfl, hbad, hpre, hsame⟩
    | cons x group =>
      obtain ⟨dev, iov⟩ := x
      unfold groupLoop at h
      split at h
      next e st₁ hfirst =>
        obtain rfl := Except.error.inj (Prod.mk.inj h).1
        obtain rfl := (Prod.mk.inj h).2
        obtain ⟨hsame, iov', hm, hbad⟩ := ssdBackendBatch_rejects hf hfirst
        exact ⟨[], _, groups, rfl, ⟨_, hgroup.mem hm, hbad⟩, fun x hx => (by cases hx),
          fun _ => hsame⟩
      next st₁ hfirst =>
        obtain ⟨haccept, hlike⟩ := ssdBackendBatch_ok hfirst
        obtain ⟨pre, g, post, rfl, ⟨x, hx, hbad⟩, hpre, -⟩ := ih hgroups h
        refine ⟨_ :: pre, g, post, rfl, ⟨x, hx, fun hon => hbad (hlike.onDevice.mpr hon)⟩, ?_, ?_⟩
        · intro x hx
          rcases List.mem_append.mp hx with hx | hx
          · obtain ⟨iov', hm, rfl⟩ := hgroup.map hx
            exact haccept iov' hm
          · exact hlike.accepts.mp (hpre x hx)
        · intro hnil
          cases hnil

end Steps

/-- A world in which nothing fails. -/
def BatchEnv.calm : BatchEnv where
  os := .whole
  gotArrays := true
  gotNdsArray _ := true
  fails _ _ := none
  ndsBatch _ _ data npu := (data, npu)

section Calm

variable {isWrite : Bool} {dev : ℕ} {st : BatchState} {d : SsdDevice}

/-- Where nothing fails, a device takes what its checks let through. -/
theorem takes_calm (isWrite : Bool) (dev : ℕ) {sb : SsdBackend} {iov : UmmNdsIOVec}
    (hbooks : sb.kind ≠ .ndsMeta) (hdirect : sb.kind = .direct → DirectAccepts iov) :
    sb.Takes BatchEnv.calm.os isWrite dev iov.offset.toNat iov.length.toNat := by
  unfold SsdBackend.Takes
  cases hk : sb.kind with
  | ndsMeta => exact absurd hk hbooks
  | direct => exact ⟨(hdirect hk).1, (hdirect hk).2, rfl⟩
  | libnvm => rfl
  | nds => rfl
  | file => trivial

theorem transfer_calm {iov : UmmNdsIOVec} (hbooks : d.backend.kind ≠ .ndsMeta)
    (hin : iov.offset.toNat + iov.length.toNat ≤ d.backend.capacity)
    (hdirect : d.backend.kind = .direct → DirectAccepts iov) :
    ∃ st', st.transfer .calm isWrite dev d iov = (.ok (), st') ∧
      st'.issued = st.issued ++ [⟨isWrite, dev, iov⟩] := by
  have htakes := takes_calm isWrite dev hbooks hdirect
  unfold BatchState.transfer
  dsimp only
  rw [if_neg fun h => h.2 (hdirect h.1)]
  cases isWrite with
  | true =>
    have hok := (ssdBackendPwrite_ok_iff BatchEnv.calm.os dev
      (st.host.read iov.vaddr.toNat iov.length.toNat) hin).mpr htakes
    rw [if_pos rfl, hok]
    exact ⟨_, rfl, rfl⟩
  | false =>
    have hok := (ssdBackendPread_ok_iff BatchEnv.calm.os dev
      (st.host.read iov.vaddr.toNat iov.length.toNat) hin).mpr htakes
    rw [if_neg Bool.false_ne_true, hok]
    exact ⟨_, rfl, rfl⟩

theorem transferLoop_calm (hd : st.pool.devices[dev]? = some d)
    (hbooks : d.backend.kind ≠ .ndsMeta)
    {iovs : List UmmNdsIOVec}
    (hin : ∀ iov ∈ iovs, iov.offset.toNat + iov.length.toNat ≤ d.backend.capacity)
    (hdirect : d.backend.kind = .direct → ∀ iov ∈ iovs, DirectAccepts iov) :
    ∃ st', transferLoop .calm isWrite dev iovs st = (.ok (), st') ∧
      st'.issued.length = st.issued.length + iovs.length := by
  induction iovs generalizing st d with
  | nil => exact ⟨st, rfl, rfl⟩
  | cons iov iovs ih =>
    obtain ⟨hone, hrest⟩ := List.forall_mem_cons.mp hin
    obtain ⟨st₁, hst₁, hissued⟩ := @transfer_calm isWrite dev st d iov hbooks hone
      fun hk => hdirect hk iov List.mem_cons_self
    obtain ⟨data, hd₁⟩ := SsdPool.device_of_blank (transfer_ok hd hst₁).2.1 hd
    obtain ⟨st', hst', hlen⟩ := ih hd₁ hbooks hrest fun hk iov' hm =>
      hdirect hk iov' (List.mem_cons_of_mem _ hm)
    refine ⟨st', ?_, ?_⟩
    · unfold transferLoop
      simp only [hd, hst₁, hst']
    · simp only [hlen, hissued, List.length_append, List.length_cons, List.length_nil]
      omega

theorem ssdBackendBatch_calm {iovs : List UmmNdsIOVec} (hne : iovs ≠ [])
    (h : ∀ iov ∈ iovs, Accepts st.pool st.nds (dev, iov)) :
    ∃ st', ssdBackendBatch .calm isWrite dev iovs st = (.ok (), st') ∧
      st'.issued.length = st.issued.length + iovs.length := by
  obtain ⟨iov₀, hm₀⟩ := List.exists_mem_of_ne_nil iovs hne
  obtain ⟨⟨d, hd, -⟩, -⟩ := h iov₀ hm₀
  have hin : ∀ iov ∈ iovs, iov.offset.toNat + iov.length.toNat ≤ d.backend.capacity := by
    intro iov hm
    obtain ⟨⟨d', hd', hon⟩, -⟩ := h iov hm
    obtain rfl : d = d' := Option.some.inj (hd.symm.trans hd')
    exact hon
  have hbounds : batchCheckBounds dev d.backend 0 iovs = .ok () := batchCheckBounds_ok.mpr hin
  have hkind := fun iov hm => (h iov hm).2 d hd
  unfold ssdBackendBatch
  simp only [hd, hbounds]
  cases hk : d.backend.kind with
  | ndsMeta =>
    have := hkind iov₀ hm₀
    rw [hk] at this
    cases this
  | nds =>
    have haccept : ∀ iov ∈ iovs, NdsAccepts (st.nds dev) iov := by
      intro iov hm
      have := hkind iov hm
      rw [hk] at this
      exact this
    have hregions : (st.nds dev).regions ≠ [] := by
      intro hnil
      have hin := (haccept iov₀ hm₀).2.2.2.2.2
      rw [ndsVaddrInRegion, hnil] at hin
      cases hin
    have hgot : BatchEnv.calm.gotNdsArray st.issued = true := rfl
    show ∃ st', ssdNdsBatch .calm isWrite dev d iovs st = (.ok (), st') ∧ _
    unfold ssdNdsBatch
    rw [if_neg hregions, if_pos haccept, if_pos hgot]
    refine ⟨_, rfl, ?_⟩
    rw [List.length_append, List.length_map]
  | direct =>
    refine transferLoop_calm hd (by rw [hk]; decide) hin fun _ iov hm => ?_
    have := hkind iov hm
    rw [hk] at this
    exact this
  | file | libnvm =>
    refine transferLoop_calm hd (by rw [hk]; decide) hin fun hk' => ?_
    rw [hk] at hk'
    cases hk'

theorem groupLoop_calm {groups : List (List (ℕ × UmmNdsIOVec))}
    (hone : ∀ group ∈ groups, OneDevice group)
    (h : ∀ x ∈ groups.flatten, Accepts st.pool st.nds x) :
    ∃ st', groupLoop .calm isWrite groups st = (.ok (), st') ∧
      st'.issued.length = st.issued.length + groups.flatten.length ∧ st'.Like st := by
  induction groups generalizing st with
  | nil => exact ⟨st, rfl, rfl, .refl _⟩
  | cons group groups ih =>
    obtain ⟨hgroup, hgroups⟩ := List.forall_mem_cons.mp hone
    rw [List.flatten_cons] at h
    cases group with
    | nil => exact ih hgroups h
    | cons x group =>
      obtain ⟨dev, iov⟩ := x
      obtain ⟨st₁, hst₁, hlen₁⟩ := @ssdBackendBatch_calm isWrite dev st (iov :: group.map (·.2))
        (List.cons_ne_nil _ _) fun iov' hm => h _ (List.mem_append_left _ (hgroup.mem hm))
      have hlike := (ssdBackendBatch_ok hst₁).2
      obtain ⟨st', hst', hlen, hlike'⟩ := @ih st₁ hgroups fun x hx =>
        hlike.accepts.mpr (h x (List.mem_append_right _ hx))
      refine ⟨st', ?_, ?_, hlike'.trans hlike⟩
      · unfold groupLoop
        rw [hst₁]
        exact hst'
      · rw [hlen, hlen₁, List.flatten_cons, List.length_append]
        simp only [List.length_cons, List.length_map]
        omega

/-- After groups that were answered the loop goes on with the others. -/
theorem groupLoop_append {env : BatchEnv} {pre groups : List (List (ℕ × UmmNdsIOVec))}
    {st' : BatchState} (h : groupLoop env isWrite pre st = (.ok (), st')) :
    groupLoop env isWrite (pre ++ groups) st = groupLoop env isWrite groups st' := by
  induction pre generalizing st with
  | nil =>
    obtain rfl := (Prod.mk.inj h).2
    rfl
  | cons group pre ih =>
    cases group with
    | nil => exact ih h
    | cons x group =>
      obtain ⟨dev, iov⟩ := x
      rw [groupLoop] at h
      rw [List.cons_append, groupLoop]
      split at h
      · cases (Prod.mk.inj h).1
      · exact ih h

/-- The check of the bounds fails with the index of an iovec. -/
theorem batchCheckBounds_error {iovs : List UmmNdsIOVec} {i : ℕ}
    (h : batchCheckBounds dev d.backend i iovs ≠ .ok ()) :
    ∃ j, batchCheckBounds dev d.backend i iovs = .error (.outOfBounds dev j) := by
  induction iovs generalizing i with
  | nil => exact absurd rfl h
  | cons iov iovs ih =>
    unfold batchCheckBounds at h ⊢
    split_ifs at h ⊢
    · exact ⟨i, rfl⟩
    · exact ih h

theorem ssdBackendBatch_outside {env : BatchEnv} {iovs : List UmmNdsIOVec}
    (hd : st.pool.devices[dev]? = some d)
    (hout : ∃ iov ∈ iovs, d.backend.capacity < iov.offset.toNat + iov.length.toNat) :
    ∃ i, ssdBackendBatch env isWrite dev iovs st = (.error (.outOfBounds dev i), st) := by
  have hnot : batchCheckBounds dev d.backend 0 iovs ≠ .ok () := by
    intro hok
    obtain ⟨iov, hm, hgt⟩ := hout
    have := batchCheckBounds_ok.mp hok iov hm
    omega
  obtain ⟨i, hi⟩ := batchCheckBounds_error hnot
  refine ⟨i, ?_⟩
  unfold ssdBackendBatch
  simp only [hd, hi]

/-- The loop stops at an iovec that ends behind its device, after the groups before it. -/
theorem groupLoop_outside {pre gs : List (List (ℕ × UmmNdsIOVec))}
    {group : List (ℕ × UmmNdsIOVec)} (hone : ∀ g ∈ pre ++ group :: gs, OneDevice g)
    (hpre : ∀ x ∈ pre.flatten, Accepts st.pool st.nds x) {x : ℕ × UmmNdsIOVec} (hx : x ∈ group)
    (hd : st.pool.devices[x.1]? = some d)
    (hout : d.backend.capacity < x.2.offset.toNat + x.2.length.toNat) :
    ∃ st' i, groupLoop .calm isWrite (pre ++ group :: gs) st = (.error (.outOfBounds x.1 i), st') ∧
      st'.issued.length = st.issued.length + pre.flatten.length := by
  obtain ⟨st₁, hst₁, hissued, hlike⟩ := @groupLoop_calm isWrite st pre
    (fun g hg => hone g (List.mem_append_left _ hg)) hpre
  obtain ⟨data, hd₁⟩ := SsdPool.device_of_blank hlike.1 hd
  have hgroup := hone group (List.mem_append_right _ List.mem_cons_self)
  obtain ⟨⟨dev, iov⟩, rest, rfl⟩ := List.exists_cons_of_ne_nil (List.ne_nil_of_mem hx)
  obtain ⟨iov', hm, rfl⟩ := hgroup.map hx
  obtain ⟨i, hi⟩ := @ssdBackendBatch_outside isWrite dev st₁ _ .calm (iov :: rest.map (·.2)) hd₁
    ⟨iov', hm, hout⟩
  refine ⟨st₁, i, ?_, hissued⟩
  rw [groupLoop_append hst₁, groupLoop, hi]

end Calm

/-- The iovec `x` on its device stands for `iov`: it starts on the device, and ends there unless
the sum of offset and length wraps around. -/
structure Located (pool : SsdPool) (iov : UmmNdsIOVec) (x : ℕ × UmmNdsIOVec) (d : SsdDevice) :
    Prop where
  device : pool.devices[x.1]? = some d
  offset : iov.offset.toNat = d.virtualBase + x.2.offset.toNat
  starts : x.2.offset.toNat < d.capacity
  fits : u64 (x.2.offset.toNat + iov.length.toNat) ≤ d.capacity
  nonempty : iov.length ≠ 0
  length : x.2.length = iov.length
  vaddr : x.2.vaddr = iov.vaddr

theorem checkIov_ok {pool : SsdPool} (hw : pool.WF) {i : ℕ} {iov : UmmNdsIOVec}
    {x : ℕ × UmmNdsIOVec} (h : checkIov pool i iov = .ok x) : ∃ d, Located pool iov x d := by
  unfold checkIov at h
  split_ifs at h with hempty
  by_cases hlt : iov.offset.toNat < pool.totalCapacity
  · obtain ⟨dev, d, hd, ⟨hlow, hhigh⟩, ht⟩ := ssdPoolTranslate_eq hw hlt
    rw [ht] at h
    simp only [hd] at h
    split_ifs at h with hacross
    obtain rfl := Except.ok.inj h
    have hin := hw.layout.inside (List.mem_of_getElem? hd)
    have htotal := hw.total_lt
    have hoff : (iov.offset.toNat - d.virtualBase).toUInt64.toNat =
        iov.offset.toNat - d.virtualBase := UInt64.toNat_ofNat_of_lt' (show _ < 2 ^ 64 by omega)
    refine ⟨d, hd, ?_, ?_, ?_, fun h0 => hempty (Or.inr h0), rfl, rfl⟩
    · rw [hoff]
      omega
    · rw [hoff]
      omega
    · rw [hoff]
      omega
  · unfold ssdPoolTranslate at h
    rw [if_pos (by omega)] at h
    cases h

theorem checkIovs_ok {pool : SsdPool} (hw : pool.WF) {i : ℕ} {iovs : List UmmNdsIOVec}
    {tmp : List (ℕ × UmmNdsIOVec)} (h : checkIovs pool i iovs = .ok tmp) :
    List.Forall₂ (fun iov x => ∃ d, Located pool iov x d) iovs tmp := by
  induction iovs generalizing i tmp with
  | nil =>
    obtain rfl := Except.ok.inj h
    exact .nil
  | cons iov iovs ih =>
    unfold checkIovs at h
    split at h
    · cases h
    next x hx =>
      split at h
      · cases h
      next xs hxs =>
        obtain rfl := Except.ok.inj h
        exact .cons (checkIov_ok hw hx) (ih hxs)

theorem located_of_mem {pool : SsdPool} {iovs : List UmmNdsIOVec} {tmp : List (ℕ × UmmNdsIOVec)}
    (h : List.Forall₂ (fun iov x => ∃ d, Located pool iov x d) iovs tmp) {x : ℕ × UmmNdsIOVec}
    (hx : x ∈ tmp) : ∃ iov d, Located pool iov x d := by
  induction h with
  | nil => cases hx
  | cons hhead htail ih =>
    rcases List.mem_cons.mp hx with rfl | hx
    · exact ⟨_, hhead⟩
    · exact ih hx

/-- No answer of the world makes a batch touch anything that it then rejects. -/
def ValidatedFirst (isWrite : Bool) (st : BatchState) : Prop :=
  ∀ env f, (ssdPoolBatchIo env isWrite st).1 = .error f → f.Rejects →
    (ssdPoolBatchIo env isWrite st).2 = st

section Validated

variable {pool : SsdPool} {nds : ℕ → NdsDevice} {host npu : Buffers} {iovs : List UmmNdsIOVec}
  {isWrite : Bool}

theorem oneDevice_of_splitBy (tmp : List (ℕ × UmmNdsIOVec)) :
    ∀ group ∈ tmp.splitBy sameDevice, OneDevice group := fun _ hg =>
  key_of_mem_splitBy Prod.fst hg

/-- An iovec that the pool let through and that is not on its device ends past 2^64. -/
theorem wraps_of_not_onDevice (hw : pool.WF) {tmp : List (ℕ × UmmNdsIOVec)}
    (htmp : checkIovs pool 0 iovs = .ok tmp) {x : ℕ × UmmNdsIOVec} (hx : x ∈ tmp)
    (hout : ¬ OnDevice pool x) : 2 ^ 64 ≤ x.2.offset.toNat + x.2.length.toNat := by
  obtain ⟨iov, d, hloc⟩ := located_of_mem (checkIovs_ok hw htmp) hx
  have hfits := hloc.fits
  by_contra hlt
  rw [← hloc.length, u64_of_lt (by omega)] at hfits
  exact hout ⟨d, hloc.device, hfits.trans_eq (hw.backed d (List.mem_of_getElem? hloc.device)).1.symm⟩

theorem ssdPoolBatchIo_checked {env : BatchEnv} {st : BatchState} (hne : st.iovs ≠ [])
    (hgot : env.gotArrays = true) {tmp : List (ℕ × UmmNdsIOVec)}
    (htmp : checkIovs st.pool 0 st.iovs = .ok tmp) :
    ssdPoolBatchIo env isWrite st = groupLoop env isWrite (tmp.splitBy sameDevice) st := by
  unfold ssdPoolBatchIo
  rw [if_neg hne, if_pos hgot, htmp]

theorem validatedFirst_of_not_wrapsLater (hw : pool.WF) (hnot : ¬ pool.WrapsLater nds iovs) :
    ValidatedFirst isWrite (.start pool nds host npu iovs) := by
  intro env f he hf
  unfold ssdPoolBatchIo at he ⊢
  split at he
  · cases he
  · split at he
    next hempty hgot =>
      rw [if_neg hempty, if_pos hgot]
      split at he
      · rfl
      next tmp htmp =>
        obtain ⟨pre, group, post, hsplit, ⟨x, hx, hout⟩, hpre, hsame⟩ :=
          groupLoop_rejects (oneDevice_of_splitBy tmp) hf (Prod.ext he rfl)
        by_cases hnil : pre.flatten = []
        · exact hsame hnil
        have hflat : tmp = pre.flatten ++ (group ++ post.flatten) := by
          rw [← List.flatten_splitBy sameDevice tmp, hsplit, List.flatten_append, List.flatten_cons]
        have hmem : x ∈ tmp := by
          rw [hflat]
          exact List.mem_append_right _ (List.mem_append_left _ hx)
        have hgroup : group ∈ tmp.splitBy sameDevice := by
          rw [hsplit]
          exact List.mem_append_right _ List.mem_cons_self
        refine absurd ⟨tmp, htmp, pre.flatten, group, post.flatten, x.1, hflat, hnil, ?_, hpre, ?_,
          x, hx, wraps_of_not_onDevice hw htmp hmem hout⟩ hnot
        · exact fun y hy => key_of_splitBy_eq Prod.fst hsplit y hy x hx
        · exact fun y hy => oneDevice_of_splitBy tmp group hgroup y hy x hx
    next hempty hgot =>
      obtain rfl := Except.error.inj he
      cases hf

/-- The groups of `pre`, and then one that starts with `group`. -/
theorem splitBy_between {pre group : List (ℕ × UmmNdsIOVec)} {dev : ℕ} (hne : group ≠ [])
    (hlast : ∀ x ∈ pre.getLast?, x.1 ≠ dev) (hgroup : ∀ x ∈ group, x.1 = dev)
    (post : List (ℕ × UmmNdsIOVec)) : ∃ zs gs,
      (pre ++ (group ++ post)).splitBy sameDevice =
        pre.splitBy sameDevice ++ (group ++ zs) :: gs := by
  obtain ⟨zs, gs, hfront⟩ := splitBy_of_front Prod.fst hne hgroup post
  refine ⟨zs, gs, (List.splitBy_append fun a ha b hb => ?_).trans (congrArg _ hfront)⟩
  have hb : b ∈ group := by
    cases group with
    | nil => exact absurd rfl hne
    | cons y group =>
      obtain rfl := Option.some.inj hb
      exact List.mem_cons_self
  rw [sameDevice, beq_eq_false_iff_ne, hgroup b hb]
  exact hlast a ha

theorem not_validatedFirst_of_wrapsLater (hw : pool.WF) (h : pool.WrapsLater nds iovs) :
    ¬ ValidatedFirst isWrite (.start pool nds host npu iovs) := by
  obtain ⟨tmp, htmp, pre, group, post, dev, rfl, hne, hlast, hpre, hgroup, x, hx, hwraps⟩ := h
  obtain ⟨iov, d, hloc⟩ := located_of_mem (checkIovs_ok hw htmp)
    (List.mem_append_right pre (List.mem_append_left post hx))
  have hempty : iovs ≠ [] := by
    rintro rfl
    have hnil := (Except.ok.inj htmp).symm
    exact hne (List.append_eq_nil_iff.mp hnil).1
  have hout : d.backend.capacity < x.2.offset.toNat + x.2.length.toNat := by
    have hcap := (hw.backed d (List.mem_of_getElem? hloc.device)).1
    have hin := hw.layout.inside (List.mem_of_getElem? hloc.device)
    have htotal := hw.total_lt
    omega
  obtain ⟨zs, gs, hsplit⟩ := splitBy_between (List.ne_nil_of_mem hx) hlast hgroup post
  have hone := oneDevice_of_splitBy (pre ++ (group ++ post))
  rw [hsplit] at hone
  obtain ⟨st', i, hloop, hissued⟩ := @groupLoop_outside isWrite (.start pool nds host npu iovs) d
    (pre.splitBy sameDevice) gs _ hone (by rw [List.flatten_splitBy]; exact hpre) x
    (List.mem_append_left zs hx) hloc.device hout
  have hrun : ssdPoolBatchIo .calm isWrite (.start pool nds host npu iovs) =
      (.error (.outOfBounds x.1 i), st') := by
    rw [ssdPoolBatchIo_checked hempty rfl htmp, hsplit]
    exact hloop
  intro hv
  have hsame := hv .calm (.outOfBounds x.1 i) (by rw [hrun]) trivial
  rw [hrun] at hsame
  have hzero : st'.issued.length = 0 := by
    rw [show st' = _ from hsame]
    rfl
  rw [List.flatten_splitBy] at hissued
  have hpos := List.length_pos_iff.mpr hne
  omega

end Validated

/-- A batch is validated before it starts unless an iovec that ends past 2^64 comes after requests
for another device that the backends take. -/
theorem ssdPoolBatch_validatedFirst_iff {pool : SsdPool} (h : pool.Reachable) (isWrite : Bool)
    (nds : ℕ → NdsDevice) (host npu : Buffers) (iovs : List UmmNdsIOVec) :
    ValidatedFirst isWrite (.start pool nds host npu iovs) ↔ ¬ pool.WrapsLater nds iovs :=
  ⟨fun hv hlater => not_validatedFirst_of_wrapsLater h.wf hlater hv,
    validatedFirst_of_not_wrapsLater h.wf⟩

/-- A pool of two files with one page each. -/
def SsdPool.twoFiles : SsdPool :=
  PoolCall.run (PoolCall.run ssdPoolCreate (.add .file 4096 ⟨true, fun _ => 0, true⟩))
    (.add .file 4096 ⟨true, fun _ => 0, true⟩)

theorem SsdPool.twoFiles_reachable : SsdPool.twoFiles.Reachable := by
  refine (reachable_create.next (.add .file 4096 ⟨true, fun _ => 0, true⟩) ?_).next _ ?_
  · decide
  · decide

/-- The end wraps to the start of the second file: alone the iovec is rejected before anything is
touched, and after a byte for the first file it is not. -/
theorem ssdPoolBatch_validatedFirst_twoFiles :
    ValidatedFirst true (.start SsdPool.twoFiles (fun _ => ⟨4096, 4096, []⟩) (fun _ => 7)
      (fun _ => 0) [⟨1, 4097, 18446744073709551615⟩]) ∧
    ¬ ValidatedFirst true (.start SsdPool.twoFiles (fun _ => ⟨4096, 4096, []⟩) (fun _ => 7)
      (fun _ => 0) [⟨1, 0, 1⟩, ⟨1, 4097, 18446744073709551615⟩]) := by
  have hiff := ssdPoolBatch_validatedFirst_iff SsdPool.twoFiles_reachable true
    (fun _ => ⟨4096, 4096, []⟩) (fun _ => 7) fun _ => 0
  refine ⟨(hiff _).mpr ?_, fun hv => (hiff _).mp hv ?_⟩
  · rintro ⟨tmp, htmp, pre, group, post, dev, rfl, hne, -, -, -, x, hx, -⟩
    have hlen := (checkIovs_ok SsdPool.twoFiles_reachable.wf htmp).length_eq
    have hpre := List.length_pos_iff.mpr hne
    have hgroup := List.length_pos_of_mem hx
    simp only [List.length_append, List.length_cons, List.length_nil] at hlen
    omega
  · refine ⟨[(0, ⟨1, 0, 1⟩), (1, ⟨1, 1, 18446744073709551615⟩)], rfl, [(0, ⟨1, 0, 1⟩)],
      [(1, ⟨1, 1, 18446744073709551615⟩)], [], 1, rfl, by decide, by decide, ?_, by decide,
      _, List.mem_singleton_self _, by decide⟩
    intro x hx
    obtain rfl := List.mem_singleton.mp hx
    refine ⟨⟨_, rfl, by decide⟩, fun d hd => ?_⟩
    obtain rfl := Option.some.inj hd
    trivial

/-- One byte is written to the first file, and then the second iovec is rejected. -/
theorem ssdPoolBatch_rejects_late : ∃ (pool : SsdPool) (iovs : List UmmNdsIOVec)
    (nds : ℕ → NdsDevice) (host npu : Buffers), pool.Reachable ∧
      ¬ ValidatedFirst true (.start pool nds host npu iovs) := by
  refine ⟨SsdPool.twoFiles, [⟨1, 0, 1⟩, ⟨1, 4097, 18446744073709551615⟩], fun _ => ⟨4096, 4096, []⟩,
    fun _ => 7, fun _ => 0, SsdPool.twoFiles_reachable, fun hv => ?_⟩
  have hsame := hv .calm (.outOfBounds 1 0) rfl trivial
  have hissued := congrArg (fun st => st.issued.length) hsame
  exact absurd (hissued : 1 = 0) (by decide)

end Umm
