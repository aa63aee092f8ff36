import Umm.SparseKv.StoreSpec
import Umm.Media.SegmentRoom

/-! The room of a store whose units are never released: each row that is offloaded takes the room of
one unit on its device. -/
namespace Umm
open Umm.Lib

def StoreError.OfSegments : StoreError → Prop
  | .media e => e.OfSegments
  | _ => False

namespace SparseKVStore

variable {st : SparseKVStore} {k : ℕ} {rooms : ℕ → ℕ} {calm : Prop}

/-- The devices of the store have this room, and its addresses fit the table where the environment
is calm. -/
structure Filling (calm : Prop) (st : SparseKVStore) (k : ℕ) (rooms : ℕ → ℕ) : Prop where
  media : ∃ live, st.vm.Filling live k rooms
  addressed : calm → ∀ geo ∈ st.vm.mgrs.map DeviceSegmentManager.geo,
    geo.nSeg * geo.spBytes ≤ 2 ^ 48

/-- The parts of a store that no call changes. -/
def SameShape (st st' : SparseKVStore) : Prop :=
  st'.vm.unitSize = st.vm.unitSize ∧ st'.vm.strategy = st.vm.strategy ∧
    st'.table.numLayers = st.table.numLayers ∧ st'.table.maxTokens = st.table.maxTokens

theorem onMedia_outcome {α : Type} {needs : Prop} {post : α → VirtualMedia (ℤ × ℤ) → Prop}
    {call : VirtualMedia.Call (ℤ × ℤ) α}
    (h : CallResult MediaError.OfSegments calm needs post (call st.vm)) :
    CallResult StoreError.OfSegments calm needs
      (fun a st' => ∃ vm, post a vm ∧ st' = { st with vm }) (onMedia call st) := by
  unfold onMedia
  simp only [Fallible.get_bind, Fallible.set_bind]
  generalize call st.vm = q at h
  cases h with
  | fine hn hp => exact .fine hn ⟨_, hp, rfl⟩
  | missing he hn => exact .missing he hn
  | failed he hc => exact .failed he hc

/-- A row that is offloaded takes the room of a unit. -/
theorem Filling.offloadToken (hf : st.Filling calm k rooms) {w : WriteFrom}
    (hcalm : calm → w = .done) {l t : ℕ} (hl : l < st.table.numLayers)
    (ht : t < st.table.maxTokens) {unit : List UInt8} (hlen : unit.length = st.vm.unitSize) :
    CallResult StoreError.OfSegments calm (0 < rooms (st.deviceOf l t))
      (fun _ st' => SameShape st st' ∧ st'.Filling calm k (Function.update rooms (st.deviceOf l t)
        (rooms (st.deviceOf l t) - 1))) (SparseKVStore.offloadToken w l t unit st) := by
  obtain ⟨live, hmedia⟩ := hf.media
  have hin := inRange_natCast hl ht
  have hres : CallResult _ _ _ _ (VirtualMedia.write ((l : ℤ), (t : ℤ)) unit w st.vm) :=
    hmedia.write hcalm hlen
  cases hwrite : VirtualMedia.write ((l : ℤ), (t : ℤ)) unit w st.vm with
  | mk q vm =>
    rw [hwrite] at hres
    cases hres with
    | missing he hn =>
      rw [offloadToken_unwritten hwrite]
      exact .missing he hn
    | failed he hc =>
      rw [offloadToken_unwritten hwrite]
      exact .failed he hc
    | @fine offset _ hn hp =>
      obtain ⟨hsame, hfilling⟩ := hp
      by_cases hlt : offset < 2 ^ 48
      · obtain ⟨e, hpack, -, -⟩ := packEntry_ok hlt
        rw [offloadToken_enters hin hwrite hpack]
        refine .fine hn ⟨⟨hsame.1, hsame.2.1, rfl, rfl⟩, ⟨_, hfilling⟩, fun hc => ?_⟩
        rw [hsame.2.2]
        exact hf.addressed hc
      · rw [offloadToken_leaks hin hwrite (not_lt.mp hlt)]
        refine .failed id fun hc => hlt ?_
        refine offset_lt hfilling.wf (fun geo hgeo => ?_) (d := st.deviceOf l t)
          (u := ⟨offset, unit⟩) ?_
        · have hroom : geo.nSeg * geo.spBytes ≤ 2 ^ 48 := by
            rw [hsame.2.2] at hgeo
            exact hf.addressed hc geo hgeo
          obtain ⟨mgr, hmgr, rfl⟩ := List.mem_map.mp hgeo
          obtain ⟨d, hd⟩ := List.mem_iff_getElem?.mp hmgr
          have hunit := hfilling.wf.unit d mgr hd
          have hpos := mgr.geo.unit_pos
          omega
        · unfold deviceOf
          rw [Function.update_self]
          exact List.mem_cons_self

/-- The block of one row. -/
theorem Filling.offload (hf : st.Filling calm k rooms) (ws : ℕ → ℕ → WriteFrom)
    (hcalm : calm → ws 0 0 = .done) {l t : ℕ} (hl : l < st.table.numLayers)
    (ht : t < st.table.maxTokens) {unit : List UInt8} (hlen : unit.length = st.vm.unitSize) :
    CallResult StoreError.OfSegments calm (0 < rooms (st.deviceOf l t))
      (fun _ st' => SameShape st st' ∧ st'.Filling calm k (Function.update rooms (st.deviceOf l t)
        (rooms (st.deviceOf l t) - 1))) (SparseKVStore.offload ws 0 [⟨l, t, 1, unit⟩] st) := by
  have hcheck : checkBlock ⟨l, t, 1, unit⟩ st = (.ok (), st) := by
    unfold checkBlock
    rw [Fallible.get_bind]
    dsimp only
    rw [if_neg (by omega), if_neg (by omega), if_neg (by omega)]
    rfl
  have hslice : slice unit (0 * st.vm.unitSize) st.vm.unitSize = unit := by
    rw [Nat.zero_mul, ← hlen]
    exact slice_self _
  have hone := hf.offloadToken hcalm hl ht hlen
  unfold SparseKVStore.offload
  rw [Fallible.bind_eq, hcheck]
  dsimp only
  have hblock : SparseKVStore.offloadTokens (ws 0) ⟨l, t, 1, unit⟩ 0 (Int.toNat 1) st =
      (SparseKVStore.offloadToken (ws 0 0) l t unit >>= fun _ => pure ()) st := by
    change SparseKVStore.offloadTokens (ws 0) ⟨l, t, 1, unit⟩ 0 (0 + 1) st = _
    rw [SparseKVStore.offloadTokens, Fallible.get_bind]
    dsimp only
    rw [hslice, Nat.cast_zero, add_zero]
    rfl
  refine (CallResult.bind (x := SparseKVStore.offloadTokens (ws 0) ⟨l, t, 1, unit⟩ 0 (Int.toNat 1))
    ?_ fun _ st' _ h' => .fine trivial h').imp (and_true _).to_iff fun _ _ _ h => h
  rw [hblock]
  exact (hone.bind fun _ st' _ h' => .fine trivial h').imp (and_true _).to_iff fun _ _ _ h => h

/-- A flush keeps the room of the whole segments. -/
theorem Filling.flush (hf : st.Filling calm k rooms) (ws : ℕ → WriteFrom)
    (hcalm : calm → ∀ d, ws d = .done) :
    CallResult StoreError.OfSegments calm True (fun _ st' => SameShape st st' ∧
      st'.Filling calm k fun d => rooms d / k * k) (SparseKVStore.flush ws st) := by
  obtain ⟨live, hmedia⟩ := hf.media
  refine (onMedia_outcome (hmedia.flush hcalm)).imp Iff.rfl fun _ st' _ h' => ?_
  obtain ⟨vm, ⟨hsame, hfilling⟩, rfl⟩ := h'
  refine ⟨⟨hsame.1, hsame.2.1, rfl, rfl⟩, ⟨live, hfilling⟩, fun hc => ?_⟩
  rw [hsame.2.2]
  exact hf.addressed hc

end SparseKVStore

end Umm
