import Umm.SparseKv.Store
import Umm.Media.VirtualMediaRuns

/-! What every call of the store keeps, whatever was called before: a valid entry is a unit in
use. Units in use that no entry names any more are possible. -/
namespace Umm
open Umm.Lib

namespace SparseKVStore

variable {st st' : SparseKVStore} {live : ℕ → List LiveUnit}

/-- The bytes of the latest offload of a token. -/
def latest (st : SparseKVStore) (layer token : ℕ) : Option (List UInt8) :=
  (st.entered.find? fun e => e.key = ((layer : ℤ), (token : ℤ))).map Entered.data

def Valid (st : SparseKVStore) (layer token : ℕ) : Prop :=
  ∃ e, st.table.entryAt layer token = some e ∧ entryValid e = true

/-- No token was entered while it was valid. -/
def EnteredFresh (st : SparseKVStore) : Prop := ∀ e ∈ st.entered, e.wasValid = false

/-- The device of a token. -/
def deviceOf (st : SparseKVStore) (layer token : ℕ) : ℕ :=
  st.vm.strategy.locate ((layer : ℤ), (token : ℤ))

/-- The valid entries are units in use, each its own, with the bytes of the latest offload. -/
structure Held (st : SparseKVStore) (live : ℕ → List LiveUnit) : Prop where
  media : st.vm.WF live
  unit : ∀ l t e, st.table.entryAt l t = some e → entryValid e = true →
    ∃ data, st.latest l t = some data ∧ ⟨entryOffset e, data⟩ ∈ live (st.deviceOf l t)
  apart : ∀ l t l' t' e e', st.table.entryAt l t = some e → entryValid e = true →
    st.table.entryAt l' t' = some e' → entryValid e' = true →
    st.deviceOf l t = st.deviceOf l' t' → entryOffset e = entryOffset e' → l = l' ∧ t = t'
  length_cached : ∀ key data, st.cache key = some data → data.length = st.vm.unitSize
  cached : ∀ l t : ℕ, st.cache ((l : ℤ), (t : ℤ)) ≠ none → st.Valid l t
  length_descBuf : st.descBuf.length = headerSize + entrySize * st.maxTopk
  length_staging : st.staging.length = st.maxTopk * st.vm.unitSize

section Calls

theorem onMedia_cases {α : Type} {call : VirtualMedia.Call (ℤ × ℤ) α}
    {q : Except MediaError α} {vm : VirtualMedia (ℤ × ℤ)} (hcall : call st.vm = (q, vm))
    {r : Except StoreError α} (h : onMedia call st = (r, st')) :
    st' = { st with vm } ∧
      ((∃ e, q = .error e ∧ r = .error (.media e)) ∨ ∃ a, q = .ok a ∧ r = .ok a) := by
  unfold onMedia at h
  simp only [Fallible.get_bind, Fallible.set_bind, hcall] at h
  cases q with
  | error e =>
    obtain ⟨rfl, rfl⟩ := Prod.mk.inj h
    exact ⟨rfl, .inl ⟨e, rfl, rfl⟩⟩
  | ok a =>
    obtain ⟨rfl, rfl⟩ := Prod.mk.inj h
    exact ⟨rfl, .inr ⟨a, rfl, rfl⟩⟩

theorem onTable_ok {change : SlotTable → Except StoreError SlotTable} {table : SlotTable}
    (h : change st.table = .ok table) : onTable change st = (.ok (), { st with table }) := by
  unfold onTable
  simp only [Fallible.get_bind, h]
  rfl

theorem onTable_error {change : SlotTable → Except StoreError SlotTable} {e : StoreError}
    (h : change st.table = .error e) : onTable change st = (.error e, st) := by
  unfold onTable
  simp only [Fallible.get_bind, h]
  rfl

/-- The indices of a token are in the range of the table. -/
def InRange (st : SparseKVStore) (layerId tokenIdx : ℤ) : Prop :=
  (0 ≤ layerId ∧ layerId < st.table.numLayers) ∧ 0 ≤ tokenIdx ∧ tokenIdx < st.table.maxTokens

theorem check_ok {layerId tokenIdx : ℤ} (h : st.InRange layerId tokenIdx) :
    st.table.check layerId tokenIdx = .ok () := by
  unfold SlotTable.check
  rw [if_neg (not_not.mpr h.1), if_neg (not_not.mpr h.2)]

theorem inRange_natCast {l t : ℕ} (hl : l < st.table.numLayers) (ht : t < st.table.maxTokens) :
    st.InRange l t :=
  ⟨⟨by omega, by omega⟩, by omega, by omega⟩

theorem set_packed {layerId tokenIdx : ℤ} (h : st.InRange layerId tokenIdx) {offset flags e : ℕ}
    (hpack : packEntry offset flags = .ok e) :
    st.table.set layerId tokenIdx offset flags =
      .ok (st.table.put layerId.toNat tokenIdx.toNat e) := by
  unfold SlotTable.set
  rw [check_ok h, hpack]
  rfl

theorem set_offsetRange {layerId tokenIdx : ℤ} (h : st.InRange layerId tokenIdx) {offset : ℕ}
    (flags : ℕ) (hbig : 2 ^ 48 ≤ offset) :
    st.table.set layerId tokenIdx offset flags = .error (.offsetRange offset) := by
  unfold SlotTable.set packEntry
  rw [check_ok h, if_pos hbig]
  rfl

theorem get_ok {l t : ℕ} (hl : l < st.table.numLayers) (ht : t < st.table.maxTokens) :
    ∃ e, st.table.entryAt l t = some e ∧ st.table.get l t = .ok e := by
  obtain ⟨e, he⟩ := SlotTable.entryAt_some hl ht
  refine ⟨e, he, ?_⟩
  unfold SlotTable.get
  rw [check_ok (inRange_natCast hl ht)]
  simp only [Int.toNat_natCast, he]
  rfl

theorem latest_cons (st : SparseKVStore) (e : Entered) (l t : ℕ) (entered : List Entered) :
    latest { st with entered := e :: entered } l t =
      if e.key = ((l : ℤ), (t : ℤ)) then some e.data else latest { st with entered } l t := by
  unfold latest
  rw [List.find?_cons]
  split_ifs with h
  · simp [h]
  · simp [h]

theorem get_cases {e : ℕ} (h : st.table.get layerId tokenIdx = .ok e) :
    ∃ l t : ℕ, layerId = l ∧ tokenIdx = t ∧ l < st.table.numLayers ∧ t < st.table.maxTokens ∧
      st.table.entryAt l t = some e := by
  have hcheck : (0 ≤ layerId ∧ layerId < st.table.numLayers) ∧
      0 ≤ tokenIdx ∧ tokenIdx < st.table.maxTokens := by
    by_contra hnot
    have herr : ∃ err, st.table.check layerId tokenIdx = .error err := by
      unfold SlotTable.check
      split_ifs with h1 h2
      · exact absurd ⟨h1, h2⟩ hnot
      · exact ⟨_, rfl⟩
      · exact ⟨_, rfl⟩
    obtain ⟨err, herr⟩ := herr
    unfold SlotTable.get at h
    rw [herr] at h
    cases h
  obtain ⟨⟨hl, hl'⟩, ht, ht'⟩ := hcheck
  obtain ⟨l, rfl⟩ := Int.eq_ofNat_of_zero_le hl
  obtain ⟨t, rfl⟩ := Int.eq_ofNat_of_zero_le ht
  have hlt : l < st.table.numLayers := by omega
  have htt : t < st.table.maxTokens := by omega
  obtain ⟨e', he', hget⟩ := get_ok hlt htt
  obtain rfl := Except.ok.inj (h.symm.trans hget)
  exact ⟨l, t, rfl, rfl, hlt, htt, he'⟩

/-- The media layer made a step that keeps the units in use. -/
theorem Held.withMedia (hw : st.Held live) {vm : VirtualMedia (ℤ × ℤ)}
    {live' : ℕ → List LiveUnit} (hvm : vm.WF live') (hsame : VirtualMedia.SameSetup st.vm vm)
    (hkeep : ∀ d, ∀ u ∈ live d, u ∈ live' d) : Held { st with vm } live' := by
  obtain ⟨hunit, hstrat, -⟩ := id hsame
  have hdev : ∀ l t, deviceOf { st with vm } l t = st.deviceOf l t := by
    intro l t
    unfold deviceOf
    rw [hstrat]
  exact
    { media := hvm
      unit := fun l t e he hv => by
        obtain ⟨data, hdata, hmem⟩ := hw.unit l t e he hv
        rw [hdev]
        exact ⟨data, hdata, hkeep _ _ hmem⟩
      apart := fun l t l' t' e e' => by
        rw [hdev, hdev]
        exact hw.apart l t l' t' e e'
      length_cached := fun key data hc => by
        dsimp only
        rw [hunit]
        exact hw.length_cached key data hc
      cached := hw.cached
      length_descBuf := hw.length_descBuf
      length_staging := by
        dsimp only
        rw [hunit]
        exact hw.length_staging }

theorem Held.device_lt (hw : st.Held live) (l t : ℕ) : st.deviceOf l t < st.vm.mgrs.length := by
  rw [hw.media.devices]
  exact st.vm.strategy.locate_lt _

/-- A token is entered with a new unit, whether it was valid or not. -/
theorem Held.enter (hw : st.Held live) {l t e : ℕ} (hl : l < st.table.numLayers)
    (ht : t < st.table.maxTokens) (hval : entryValid e = true) {data : List UInt8}
    {vm : VirtualMedia (ℤ × ℤ)} (hsame : VirtualMedia.SameSetup st.vm vm)
    (hvm : vm.WF (Function.update live (st.deviceOf l t)
      (⟨entryOffset e, data⟩ :: live (st.deviceOf l t)))) (was : Bool) :
    Held { st with
      vm
      table := st.table.put l t e
      entered := ⟨((l : ℤ), (t : ℤ)), data, was⟩ :: st.entered }
      (Function.update live (st.deviceOf l t)
        (⟨entryOffset e, data⟩ :: live (st.deviceOf l t))) := by
  obtain ⟨hunit, hstrat, -⟩ := id hsame
  have hput := SlotTable.entryAt_put hl ht e
  have hdev : ∀ table entered l' t', deviceOf { st with vm, table, entered } l' t' =
      st.deviceOf l' t' := by
    intro table entered l' t'
    unfold deviceOf
    rw [hstrat]
  have hlatest : ∀ table l' t', latest { st with
      vm, table, entered := ⟨((l : ℤ), (t : ℤ)), data, was⟩ :: st.entered } l' t' =
      if l' = l ∧ t' = t then some data else st.latest l' t' := by
    intro table l' t'
    refine (latest_cons { st with vm, table } _ l' t' st.entered).trans ?_
    simp only [Prod.mk.injEq, Nat.cast_inj, eq_comm]
    rfl
  have hnew : entryOffset e ∉ (live (st.deviceOf l t)).map LiveUnit.offset := by
    have hlt : st.deviceOf l t < vm.mgrs.length := by
      rw [hsame.length_mgrs]
      exact hw.device_lt l t
    have hnodup := (hvm.mgr _ _ (List.getElem?_eq_getElem hlt)).nodup
    rw [Function.update_self, List.map_cons] at hnodup
    exact (List.nodup_cons.mp hnodup).1
  have hoffset : ∀ l' t' e', st.table.entryAt l' t' = some e' → entryValid e' = true →
      st.deviceOf l' t' = st.deviceOf l t → entryOffset e' ≠ entryOffset e := by
    intro l' t' e' he' hv' hd heq
    obtain ⟨data', -, hmem⟩ := hw.unit l' t' e' he' hv'
    rw [hd] at hmem
    refine hnew ?_
    rw [← heq]
    exact List.mem_map_of_mem (f := LiveUnit.offset) hmem
  refine
    { media := hvm
      unit := fun l' t' e' he' hv' => ?_
      apart := fun l₁ t₁ l₂ t₂ e₁ e₂ he₁ hv₁ he₂ hv₂ hd heq => ?_
      length_cached := fun key data' hc => ?_
      cached := fun l' t' hc => ?_
      length_descBuf := hw.length_descBuf
      length_staging := ?_ }
  · rw [hdev, hlatest]
    dsimp only at he'
    rw [hput] at he'
    split_ifs at he' ⊢ with hkey
    · obtain ⟨rfl, rfl⟩ := hkey
      obtain rfl := Option.some.inj he'
      refine ⟨data, rfl, ?_⟩
      rw [Function.update_self]
      exact List.mem_cons_self
    · obtain ⟨data', hdata', hmem⟩ := hw.unit l' t' e' he' hv'
      refine ⟨data', hdata', ?_⟩
      by_cases hd : st.deviceOf l' t' = st.deviceOf l t
      · rw [hd] at hmem ⊢
        rw [Function.update_self]
        exact List.mem_cons_of_mem _ hmem
      · rwa [Function.update_of_ne hd]
  · dsimp only at he₁ he₂
    rw [hdev, hdev] at hd
    rw [hput] at he₁ he₂
    split_ifs at he₁ he₂ with h1 h2 h2
    · exact ⟨h1.1.trans h2.1.symm, h1.2.trans h2.2.symm⟩
    · obtain rfl := Option.some.inj he₁
      obtain ⟨rfl, rfl⟩ := h1
      exact absurd heq.symm (hoffset l₂ t₂ e₂ he₂ hv₂ hd.symm)
    · obtain rfl := Option.some.inj he₂
      obtain ⟨rfl, rfl⟩ := h2
      exact absurd heq (hoffset l₁ t₁ e₁ he₁ hv₁ hd)
    · exact hw.apart l₁ t₁ l₂ t₂ e₁ e₂ he₁ hv₁ he₂ hv₂ hd heq
  · dsimp only
    rw [hunit]
    exact hw.length_cached key data' hc
  · obtain ⟨e', he', hv'⟩ := hw.cached l' t' hc
    unfold Valid
    dsimp only
    rw [hput]
    split_ifs
    · exact ⟨e, rfl, hval⟩
    · exact ⟨e', he', hv'⟩
  · dsimp only
    rw [hunit]
    exact hw.length_staging

/-- A valid token gives up its unit. -/
theorem Held.leave (hw : st.Held live) {l t old : ℕ} (hl : l < st.table.numLayers)
    (ht : t < st.table.maxTokens) (hold : st.table.entryAt l t = some old)
    (hval : entryValid old = true) {data : List UInt8} {vm : VirtualMedia (ℤ × ℤ)}
    (hsame : VirtualMedia.SameSetup st.vm vm)
    (hvm : vm.WF (Function.update live (st.deviceOf l t)
      ((live (st.deviceOf l t)).erase ⟨entryOffset old, data⟩))) :
    Held { st with
      vm
      table := st.table.put l t 0
      cache := Function.update st.cache ((l : ℤ), (t : ℤ)) none }
      (Function.update live (st.deviceOf l t)
        ((live (st.deviceOf l t)).erase ⟨entryOffset old, data⟩)) := by
  obtain ⟨hunit, hstrat, -⟩ := id hsame
  have hput := SlotTable.entryAt_put hl ht 0
  have hzero : entryValid 0 = false := rfl
  have hdev : ∀ table cache l' t', deviceOf { st with vm, table, cache } l' t' =
      st.deviceOf l' t' := by
    intro table cache l' t'
    unfold deviceOf
    rw [hstrat]
  have hkept : ∀ l' t' e', (st.table.put l t 0).entryAt l' t' = some e' → entryValid e' = true →
      st.table.entryAt l' t' = some e' ∧ ¬ (l' = l ∧ t' = t) := by
    intro l' t' e' he' hv'
    rw [hput] at he'
    split_ifs at he' with hkey
    · obtain rfl := Option.some.inj he'
      rw [hzero] at hv'
      cases hv'
    · exact ⟨he', hkey⟩
  refine
    { media := hvm
      unit := fun l' t' e' he' hv' => ?_
      apart := fun l₁ t₁ l₂ t₂ e₁ e₂ he₁ hv₁ he₂ hv₂ hd heq => ?_
      length_cached := fun key data' hc => ?_
      cached := fun l' t' hc => ?_
      length_descBuf := hw.length_descBuf
      length_staging := ?_ }
  · obtain ⟨he', hkey⟩ := hkept l' t' e' he' hv'
    obtain ⟨data', hdata', hmem'⟩ := hw.unit l' t' e' he' hv'
    refine ⟨data', hdata', ?_⟩
    rw [hdev]
    by_cases hd : st.deviceOf l' t' = st.deviceOf l t
    · have hne : (⟨entryOffset e', data'⟩ : LiveUnit) ≠ ⟨entryOffset old, data⟩ := by
        intro heq
        exact hkey (hw.apart l' t' l t e' old he' hv' hold hval hd (congrArg LiveUnit.offset heq))
      rw [hd] at hmem' ⊢
      rw [Function.update_self]
      exact (List.mem_erase_of_ne hne).mpr hmem'
    · rwa [Function.update_of_ne hd]
  · rw [hdev, hdev] at hd
    exact hw.apart l₁ t₁ l₂ t₂ e₁ e₂ (hkept l₁ t₁ e₁ he₁ hv₁).1 hv₁ (hkept l₂ t₂ e₂ he₂ hv₂).1 hv₂
      hd heq
  · dsimp only at hc ⊢
    rw [Function.update_apply] at hc
    split_ifs at hc
    rw [hunit]
    exact hw.length_cached key data' hc
  · dsimp only at hc
    rw [Function.update_apply] at hc
    split_ifs at hc with hkey
    · exact absurd rfl hc
    · obtain ⟨e', he', hv'⟩ := hw.cached l' t' hc
      refine ⟨e', ?_, hv'⟩
      dsimp only
      rw [hput, if_neg, he']
      rintro ⟨rfl, rfl⟩
      exact hkey rfl
  · dsimp only
    rw [hunit]
    exact hw.length_staging

end Calls

section Offload

variable {w : WriteFrom} {r : Except StoreError Unit}

/-- A round that raised wrote at most to the media layer. Where the address of the new unit does
not fit an entry, the unit stays in use. -/
structure RoundRaised (st : SparseKVStore) (live : ℕ → List LiveUnit) (l t : ℕ)
    (unit : List UInt8) (st' : SparseKVStore) : Prop where
  same : st' = { st with vm := st'.vm }
  setup : VirtualMedia.SameSetup st.vm st'.vm
  media : st'.vm.WF live ∨ ∃ offset, 2 ^ 48 ≤ offset ∧
    st'.vm.WF (Function.update live (st.deviceOf l t) (⟨offset, unit⟩ :: live (st.deviceOf l t)))

/-- A round that went through entered the token with its new unit. -/
structure RoundEntered (st : SparseKVStore) (live : ℕ → List LiveUnit) (l t : ℕ)
    (unit : List UInt8) (st' : SparseKVStore) (e : ℕ) : Prop where
  valid : entryValid e = true
  same : st' = { st with
    vm := st'.vm
    table := st.table.put l t e
    entered := ⟨((l : ℤ), (t : ℤ)), unit, entryValid ((st.table.entryAt l t).getD 0)⟩ ::
      st.entered }
  setup : VirtualMedia.SameSetup st.vm st'.vm
  length_unit : unit.length = st.vm.unitSize
  media : st'.vm.WF (Function.update live (st.deviceOf l t)
    (⟨entryOffset e, unit⟩ :: live (st.deviceOf l t)))

section Round

variable {layerId tokenIdx : ℤ} {unit : List UInt8} {vm : VirtualMedia (ℤ × ℤ)}

/-- A round whose unit is not written enters nothing. -/
theorem offloadToken_unwritten {e : MediaError}
    (hwrite : VirtualMedia.write (layerId, tokenIdx) unit w st.vm = (.error e, vm)) :
    offloadToken w layerId tokenIdx unit st = (.error (.media e), { st with vm }) := by
  unfold offloadToken onMedia
  rw [Fallible.bind_eq]
  simp only [Fallible.get_bind, Fallible.set_bind, hwrite]
  rfl

/-- A round whose unit is written goes on with the table. -/
theorem offloadToken_written {offset : ℕ}
    (hwrite : VirtualMedia.write (layerId, tokenIdx) unit w st.vm = (.ok offset, vm)) :
    offloadToken w layerId tokenIdx unit st =
      (onTable (fun tbl => tbl.set layerId tokenIdx offset flagValid) >>= fun _ => do
        let st' ← get
        set { st' with
          entered := ⟨(layerId, tokenIdx), unit, st.hasValid layerId tokenIdx⟩ :: st'.entered })
        { st with vm } := by
  have hmedia : onMedia (VirtualMedia.write (layerId, tokenIdx) unit w) st =
      (.ok offset, { st with vm }) := by
    unfold onMedia
    simp only [Fallible.get_bind, Fallible.set_bind, hwrite]
    rfl
  unfold offloadToken
  rw [Fallible.bind_eq, hmedia]
  rfl

/-- A unit whose address fits is written and entered. -/
theorem offloadToken_enters {offset e : ℕ} (hin : st.InRange layerId tokenIdx)
    (hwrite : VirtualMedia.write (layerId, tokenIdx) unit w st.vm = (.ok offset, vm))
    (hpack : packEntry offset flagValid = .ok e) :
    offloadToken w layerId tokenIdx unit st = (.ok (), { st with
      vm
      table := st.table.put layerId.toNat tokenIdx.toNat e
      entered := ⟨(layerId, tokenIdx), unit, st.hasValid layerId tokenIdx⟩ :: st.entered }) := by
  have hset : onTable (fun tbl => tbl.set layerId tokenIdx offset flagValid) { st with vm } =
      (.ok (), { st with vm, table := st.table.put layerId.toNat tokenIdx.toNat e }) :=
    onTable_ok (set_packed hin hpack)
  rw [offloadToken_written hwrite, Fallible.bind_eq, hset]
  rfl

/-- A unit whose address does not fit an entry is written, and not entered. -/
theorem offloadToken_leaks {offset : ℕ} (hin : st.InRange layerId tokenIdx)
    (hwrite : VirtualMedia.write (layerId, tokenIdx) unit w st.vm = (.ok offset, vm))
    (hbig : 2 ^ 48 ≤ offset) :
    offloadToken w layerId tokenIdx unit st =
      (.error (.offsetRange offset), { st with vm }) := by
  have hset : onTable (fun tbl => tbl.set layerId tokenIdx offset flagValid) { st with vm } =
      (.error (.offsetRange offset), { st with vm }) :=
    onTable_error (set_offsetRange hin flagValid hbig)
  rw [offloadToken_written hwrite, Fallible.bind_eq, hset]

end Round

/-- What one round of `offload` does. -/
theorem offloadToken_cases (hvm : st.vm.WF live) {l t : ℕ} (hl : l < st.table.numLayers)
    (ht : t < st.table.maxTokens) {unit : List UInt8}
    (h : offloadToken w l t unit st = (r, st')) :
    (∃ e, r = .error e ∧ RoundRaised st live l t unit st') ∨
      r = .ok () ∧ ∃ e, RoundEntered st live l t unit st' e := by
  have hin := inRange_natCast hl ht
  cases hwrite : VirtualMedia.write ((l : ℤ), (t : ℤ)) unit w st.vm with
  | mk q vm₁ =>
    obtain ⟨hsame, ⟨e, rfl, hvm₁⟩ | ⟨offset, rfl, hlen, hvm₁⟩⟩ := hvm.write hwrite
    · rw [offloadToken_unwritten hwrite] at h
      obtain ⟨rfl, rfl⟩ := Prod.mk.inj h
      exact .inl ⟨_, rfl, rfl, hsame, .inl hvm₁⟩
    by_cases hlt : offset < 2 ^ 48
    · obtain ⟨e, hpack, hoff, hval⟩ := packEntry_ok hlt
      rw [offloadToken_enters hin hwrite hpack] at h
      obtain ⟨rfl, rfl⟩ := Prod.mk.inj h
      obtain ⟨old, hold, hget⟩ := get_ok hl ht
      have hwas : st.hasValid l t = entryValid ((st.table.entryAt l t).getD 0) := by
        unfold hasValid
        rw [hget, hold]
        rfl
      rw [← hoff] at hvm₁
      refine .inr ⟨rfl, e, hval, ?_, hsame, hlen, hvm₁⟩
      rw [hwas]
      rfl
    · rw [offloadToken_leaks hin hwrite (not_lt.mp hlt)] at h
      obtain ⟨rfl, rfl⟩ := Prod.mk.inj h
      exact .inl ⟨_, rfl, rfl, hsame, .inr ⟨offset, not_lt.mp hlt, hvm₁⟩⟩

theorem mem_update_cons {live : ℕ → List LiveUnit} {d d' : ℕ} {u u' : LiveUnit}
    (h : u ∈ live d) : u ∈ Function.update live d' (u' :: live d') d := by
  rw [Function.update_apply]
  split_ifs with hd
  · subst hd
    exact List.mem_cons_of_mem _ h
  · exact h

theorem RoundRaised.held {l t : ℕ} {unit : List UInt8} (h : RoundRaised st live l t unit st')
    (hw : st.Held live) : ∃ live', st'.Held live' := by
  rw [h.same]
  rcases h.media with hvm | ⟨offset, -, hvm⟩
  · exact ⟨live, hw.withMedia hvm h.setup fun d u hu => hu⟩
  · exact ⟨_, hw.withMedia hvm h.setup fun d u hu => mem_update_cons hu⟩

theorem RoundEntered.held {l t e : ℕ} {unit : List UInt8}
    (h : RoundEntered st live l t unit st' e) (hw : st.Held live) (hl : l < st.table.numLayers)
    (ht : t < st.table.maxTokens) :
    st'.Held (Function.update live (st.deviceOf l t)
      (⟨entryOffset e, unit⟩ :: live (st.deviceOf l t))) := by
  rw [h.same]
  exact hw.enter hl ht h.valid h.setup h.media _

theorem checkBlock_cases {blk : KVBlockRef} (h : checkBlock blk st = (r, st')) :
    st' = st ∧ ((∃ e, r = .error e) ∨ r = .ok () ∧ 0 ≤ blk.layerId ∧
      blk.layerId < st.table.numLayers ∧ 0 ≤ blk.tokenStart ∧
      blk.tokenStart + blk.tokenCount ≤ st.table.maxTokens) := by
  unfold checkBlock at h
  rw [Fallible.get_bind] at h
  split_ifs at h with h1 h2 h3
  · obtain ⟨rfl, rfl⟩ := Prod.mk.inj h
    exact ⟨rfl, .inl ⟨_, rfl⟩⟩
  · obtain ⟨rfl, rfl⟩ := Prod.mk.inj h
    exact ⟨rfl, .inl ⟨_, rfl⟩⟩
  · obtain ⟨rfl, rfl⟩ := Prod.mk.inj h
    exact ⟨rfl, .inr ⟨rfl, h1.1, h1.2, by omega, by omega⟩⟩
  · obtain ⟨rfl, rfl⟩ := Prod.mk.inj h
    exact ⟨rfl, .inl ⟨_, rfl⟩⟩

end Offload

section Release

variable {layerId tokenIdx : ℤ} {r : Except StoreError Unit}

/-- A round that released a unit: the entry and the cache of the token are gone. -/
structure RoundReleased (st : SparseKVStore) (live : ℕ → List LiveUnit) (l t : ℕ)
    (st' : SparseKVStore) (old : ℕ) (data : List UInt8) : Prop where
  entry : st.table.entryAt l t = some old
  valid : entryValid old = true
  unit : ⟨entryOffset old, data⟩ ∈ live (st.deviceOf l t)
  same : st' = { st with
    vm := st'.vm
    table := st.table.put l t 0
    cache := Function.update st.cache ((l : ℤ), (t : ℤ)) none }
  setup : VirtualMedia.SameSetup st.vm st'.vm
  media : st'.vm.WF (Function.update live (st.deviceOf l t)
    ((live (st.deviceOf l t)).erase ⟨entryOffset old, data⟩))

/-- What one round of `release` does. -/
theorem Held.releaseToken_cases (hw : st.Held live)
    (h : releaseToken layerId tokenIdx st = (r, st')) :
    (∃ e, r = .error e ∧ st' = st ∧ ¬ st.InRange layerId tokenIdx) ∨
      r = .ok () ∧ ∃ l t : ℕ, layerId = l ∧ tokenIdx = t ∧ l < st.table.numLayers ∧
        t < st.table.maxTokens ∧ (st' = st ∧ ¬ st.Valid l t ∨
          ∃ old data, RoundReleased st live l t st' old data) := by
  unfold releaseToken at h
  rw [Fallible.get_bind] at h
  cases hget : st.table.get layerId tokenIdx with
  | error e =>
    rw [hget] at h
    obtain ⟨rfl, rfl⟩ := Prod.mk.inj h
    refine .inl ⟨e, rfl, rfl, fun hin => ?_⟩
    obtain ⟨l, rfl⟩ := Int.eq_ofNat_of_zero_le hin.1.1
    obtain ⟨t, rfl⟩ := Int.eq_ofNat_of_zero_le hin.2.1
    have hl : l < st.table.numLayers := by exact_mod_cast hin.1.2
    have ht : t < st.table.maxTokens := by exact_mod_cast hin.2.2
    obtain ⟨e', -, hok⟩ := get_ok hl ht
    rw [hget] at hok
    cases hok
  | ok e =>
    obtain ⟨l, t, rfl, rfl, hl, ht, he⟩ := get_cases hget
    simp only [hget] at h
    refine .inr ?_
    cases hval : entryValid e with
    | false =>
      rw [if_pos (by simp [hval])] at h
      obtain ⟨rfl, rfl⟩ := Prod.mk.inj h
      refine ⟨rfl, l, t, rfl, rfl, hl, ht, .inl ⟨rfl, ?_⟩⟩
      rintro ⟨e', he', hv'⟩
      obtain rfl := Option.some.inj (he.symm.trans he')
      rw [hval] at hv'
      cases hv'
    | true =>
      rw [if_neg (by simp [hval])] at h
      obtain ⟨data, -, hmem⟩ := hw.unit l t e he hval
      have hinv : st.table.invalidate l t = .ok (st.table.put l t 0) := by
        unfold SlotTable.invalidate
        rw [check_ok (inRange_natCast hl ht)]
        rfl
      have htable : onTable (fun tbl => tbl.invalidate l t) st =
          (.ok (), { st with table := st.table.put l t 0 }) := onTable_ok hinv
      rw [Fallible.bind_eq, htable] at h
      simp only [Fallible.get_bind, Fallible.set_bind] at h
      cases hrel : VirtualMedia.release (st.deviceOf l t) (entryOffset e) st.vm with
      | mk q vm =>
        obtain ⟨hsame, rfl, hvm⟩ := hw.media.release hmem hrel
        have hrel' : ∀ table cache, VirtualMedia.release (st.deviceOf l t) (entryOffset e)
            (SparseKVStore.vm { st with table, cache }) = (.ok (), vm) := fun _ _ => hrel
        obtain ⟨rfl, ⟨e', he', -⟩ | ⟨u, -, rfl⟩⟩ := onMedia_cases (hrel' _ _) h
        · cases he'
        · exact ⟨rfl, l, t, rfl, rfl, hl, ht, .inr ⟨e, data, he, hval, hmem, rfl, hsame, hvm⟩⟩

theorem RoundReleased.held {l t old : ℕ} {data : List UInt8}
    (h : RoundReleased st live l t st' old data) (hw : st.Held live) (hl : l < st.table.numLayers)
    (ht : t < st.table.maxTokens) :
    st'.Held (Function.update live (st.deviceOf l t)
      ((live (st.deviceOf l t)).erase ⟨entryOffset old, data⟩)) := by
  rw [h.same]
  exact hw.leave hl ht h.entry h.valid h.setup h.media

end Release

end SparseKVStore

end Umm
