import Mathlib.Data.List.TakeWhile
import Umm.SparseKv.PlanIntact

/-! How far an offload gets: its rounds in order, up to the first that does not go through. -/
namespace Umm
open Umm.Lib

/-- A unit of a call, with its token and what the writes of its round do. -/
structure Round where
  key : ℤ × ℤ
  unit : List UInt8
  w : WriteFrom

namespace SparseKVStore

variable {st st' : SparseKVStore} {live : ℕ → List LiveUnit} {r : Except StoreError Unit}

/-- The rounds of a block from the `i`-th token on. -/
def blockRounds (unitSize : ℕ) (w : ℕ → WriteFrom) (blk : KVBlockRef) (i n : ℕ) : List Round :=
  (List.range' i n).map fun i : ℕ =>
    ⟨(blk.layerId, blk.tokenStart + i), slice blk.buffer (i * unitSize) unitSize, w i⟩

/-- The rounds of a call, in the order of its blocks and their tokens. -/
def callRounds (unitSize : ℕ) (ws : ℕ → ℕ → WriteFrom) : ℕ → List KVBlockRef → List Round
  | _, [] => []
  | j, blk :: blks =>
    blockRounds unitSize (ws j) blk 0 blk.tokenCount.toNat ++ callRounds unitSize ws (j + 1) blks

/-- A block that passes its check. -/
def acceptsBlock (st : SparseKVStore) (blk : KVBlockRef) : Bool :=
  decide ((0 ≤ blk.layerId ∧ blk.layerId < st.table.numLayers) ∧ 0 ≤ blk.tokenStart ∧
    blk.tokenStart + blk.tokenCount ≤ st.table.maxTokens ∧
    blk.tokenCount * st.vm.unitSize ≤ (blk.buffer.length : ℤ))

/-- The rounds before the first block that does not pass its check. -/
def checkedRounds (st : SparseKVStore) (ws : ℕ → ℕ → WriteFrom) (blks : List KVBlockRef) :
    List Round :=
  callRounds st.vm.unitSize ws 0 (blks.takeWhile st.acceptsBlock)

/-- The unit is written to an offset that an entry holds. -/
def goesThrough (vm : VirtualMedia (ℤ × ℤ)) (p : Round) : Bool :=
  (VirtualMedia.write p.key p.unit p.w vm).1.toOption.any fun offset => decide (offset < 2 ^ 48)

/-- The rounds before the first that does not go through. -/
def through : VirtualMedia (ℤ × ℤ) → List Round → List Round
  | _, [] => []
  | vm, p :: ps =>
    if goesThrough vm p then p :: through (VirtualMedia.write p.key p.unit p.w vm).2 ps else []

/-- The unit of the last round for a token. -/
def lastUnit (done : List Round) (l t : ℕ) : Option (List UInt8) :=
  (done.reverse.find? fun p => p.key = ((l : ℤ), (t : ℤ))).map Round.unit

/-- The token has a round. -/
def Named (done : List Round) (l t : ℕ) : Prop := ∃ p ∈ done, p.key = ((l : ℤ), (t : ℤ))

theorem through_isPrefix (vm : VirtualMedia (ℤ × ℤ)) (ps : List Round) : through vm ps <+: ps := by
  induction ps generalizing vm with
  | nil => exact List.prefix_refl _
  | cons p ps ih =>
    unfold through
    split_ifs
    · exact List.cons_prefix_cons.mpr ⟨rfl, ih _⟩
    · exact List.nil_prefix

theorem named_cons {p : Round} {ps : List Round} {l t : ℕ} :
    Named (p :: ps) l t ↔ p.key = ((l : ℤ), (t : ℤ)) ∨ Named ps l t := by
  unfold Named
  simp

theorem lastUnit_cons (p : Round) (ps : List Round) (l t : ℕ) :
    lastUnit (p :: ps) l t =
      (lastUnit ps l t).or (if p.key = ((l : ℤ), (t : ℤ)) then some p.unit else none) := by
  unfold lastUnit
  rw [List.reverse_cons, List.find?_append, Option.map_or, List.find?_singleton]
  split_ifs with h1 h2 h2
  · rfl
  · exact absurd (of_decide_eq_true h1) h2
  · exact absurd (decide_eq_true h2) h1
  · rfl

theorem lastUnit_eq_none {done : List Round} {l t : ℕ} (h : ¬ Named done l t) :
    lastUnit done l t = none := by
  unfold lastUnit
  rw [Option.map_eq_none_iff, List.find?_eq_none]
  intro p hp hkey
  exact h ⟨p, List.mem_reverse.mp hp, of_decide_eq_true hkey⟩

theorem lastUnit_isSome {done : List Round} {l t : ℕ} (h : Named done l t) :
    ∃ unit, lastUnit done l t = some unit := by
  obtain ⟨p, hp, hkey⟩ := h
  unfold lastUnit
  cases hfind : done.reverse.find? fun p => p.key = ((l : ℤ), (t : ℤ)) with
  | none =>
    have hnot := List.find?_eq_none.mp hfind p (List.mem_reverse.mpr hp)
    exact absurd (decide_eq_true hkey) hnot
  | some q => exact ⟨q.unit, rfl⟩

section Rounds

/-- The rounds one after another. -/
def runRounds : List Round → Call Unit
  | [] => pure ()
  | p :: ps => do
    offloadToken p.w p.key.1 p.key.2 p.unit
    runRounds ps

theorem runRounds_cons (p : Round) (ps : List Round) : runRounds (p :: ps) = (do
    offloadToken p.w p.key.1 p.key.2 p.unit
    runRounds ps) :=
  rfl

theorem runRounds_append (ps qs : List Round) (st : SparseKVStore) :
    runRounds (ps ++ qs) st = (do runRounds ps; runRounds qs) st := by
  induction ps generalizing st with
  | nil => rfl
  | cons p ps ih =>
    rw [List.cons_append, runRounds_cons, runRounds_cons, bind_assoc, Fallible.bind_eq,
      Fallible.bind_eq]
    cases offloadToken p.w p.key.1 p.key.2 p.unit st with
    | mk q st₁ =>
      cases q with
      | error e => rfl
      | ok u => exact ih st₁

theorem offloadTokens_eq {unitSize : ℕ} (w : ℕ → WriteFrom) (blk : KVBlockRef) (i n : ℕ)
    (h : st.vm.unitSize = unitSize) :
    offloadTokens w blk i n st = runRounds (blockRounds unitSize w blk i n) st := by
  induction n generalizing i st with
  | zero => rfl
  | succ n ih =>
    unfold blockRounds
    rw [List.range'_succ, List.map_cons]
    unfold offloadTokens runRounds
    rw [Fallible.get_bind, Fallible.bind_eq, Fallible.bind_eq, h]
    cases hone : offloadToken (w i) blk.layerId (blk.tokenStart + i)
        (slice blk.buffer (i * unitSize) unitSize) st with
    | mk q st₁ =>
      cases q with
      | error e => rfl
      | ok u =>
        have hgrows := offloadToken_grows _ _ _ _ _ _ hone
        exact ih _ (hgrows.unitSize.trans h)

theorem checkBlock_eq (blk : KVBlockRef) :
    (st.acceptsBlock blk = true ∧ checkBlock blk st = (.ok (), st)) ∨
      st.acceptsBlock blk = false ∧ ∃ e, checkBlock blk st = (.error e, st) := by
  unfold acceptsBlock checkBlock
  rw [Fallible.get_bind]
  split_ifs with h1 h2 h3
  · refine .inr ⟨decide_eq_false fun h => ?_, _, rfl⟩
    omega
  · refine .inr ⟨decide_eq_false fun h => ?_, _, rfl⟩
    omega
  · exact .inl ⟨decide_eq_true ⟨h1, by omega, by omega, by omega⟩, rfl⟩
  · exact .inr ⟨decide_eq_false fun h => h1 h.1, _, rfl⟩

theorem acceptsBlock_grows (h : Grows st st') : st'.acceptsBlock = st.acceptsBlock := by
  funext blk
  unfold acceptsBlock
  rw [h.numLayers, h.maxTokens, h.unitSize]

/-- A call runs the rounds before the first block that does not pass its check. -/
theorem offload_rounds {ws : ℕ → ℕ → WriteFrom} {j : ℕ} {blks : List KVBlockRef}
    (h : offload ws j blks st = (r, st')) :
    ∃ r₀, runRounds (callRounds st.vm.unitSize ws j (blks.takeWhile st.acceptsBlock)) st =
        (r₀, st') ∧
      (r = .ok () → r₀ = .ok () ∧ blks.takeWhile st.acceptsBlock = blks) := by
  induction blks generalizing j st with
  | nil => exact ⟨r, h, fun hr => ⟨hr, rfl⟩⟩
  | cons blk blks ih =>
    unfold offload at h
    rcases st.checkBlock_eq blk with ⟨hacc, hcheck⟩ | ⟨hacc, e, hcheck⟩
    · rw [Fallible.bind_eq, hcheck] at h
      dsimp only at h
      rw [List.takeWhile_cons_of_pos hacc]
      unfold callRounds
      rw [runRounds_append, Fallible.bind_eq, ← offloadTokens_eq (ws j) blk 0 _ rfl]
      rcases Fallible.bind_cases h with ⟨e, hblock, rfl⟩ | ⟨u, st₁, hblock, hrest⟩
      · rw [hblock]
        exact ⟨_, rfl, fun hr => by cases hr⟩
      · rw [hblock]
        have hgrows := offloadTokens_grows _ _ _ _ _ _ _ hblock
        obtain ⟨r₀, hrun, hok⟩ := ih hrest
        rw [acceptsBlock_grows hgrows, hgrows.unitSize] at hrun
        refine ⟨r₀, hrun, fun hr => ?_⟩
        obtain ⟨hr₀, hall⟩ := hok hr
        rw [acceptsBlock_grows hgrows] at hall
        exact ⟨hr₀, congrArg _ hall⟩
    · rw [Fallible.bind_eq, hcheck] at h
      obtain ⟨rfl, rfl⟩ := Prod.mk.inj h
      have hneg : ¬ st.acceptsBlock blk = true := by simp [hacc]
      rw [List.takeWhile_cons_of_neg hneg]
      exact ⟨.ok (), rfl, fun hr => by cases hr⟩

/-- A round goes through exactly if its unit is written to an offset that an entry holds. -/
theorem offloadToken_goes {p : Round} {l t : ℕ} (hkey : p.key = ((l : ℤ), (t : ℤ)))
    (hl : l < st.table.numLayers) (ht : t < st.table.maxTokens)
    (h : offloadToken p.w p.key.1 p.key.2 p.unit st = (r, st')) :
    st'.vm = (VirtualMedia.write p.key p.unit p.w st.vm).2 ∧
      (r = .ok () ↔ goesThrough st.vm p = true) := by
  have hin := inRange_natCast hl ht
  obtain ⟨key, unit, w⟩ := p
  dsimp only at hkey h ⊢
  subst hkey
  unfold goesThrough
  dsimp only
  cases hwrite : VirtualMedia.write ((l : ℤ), (t : ℤ)) unit w st.vm with
  | mk q vm₁ =>
    cases q with
    | error e =>
      rw [offloadToken_unwritten hwrite] at h
      obtain ⟨rfl, rfl⟩ := Prod.mk.inj h
      exact ⟨rfl, iff_of_false (fun hr => by cases hr) fun hgoes => by cases hgoes⟩
    | ok offset =>
      by_cases hlt : offset < 2 ^ 48
      · obtain ⟨e, hpack, -, -⟩ := packEntry_ok hlt
        rw [offloadToken_enters hin hwrite hpack] at h
        obtain ⟨rfl, rfl⟩ := Prod.mk.inj h
        exact ⟨rfl, iff_of_true rfl (decide_eq_true hlt)⟩
      · rw [offloadToken_leaks hin hwrite (not_lt.mp hlt)] at h
        obtain ⟨rfl, rfl⟩ := Prod.mk.inj h
        refine ⟨rfl, iff_of_false (fun hr => ?_) fun hgoes => hlt (of_decide_eq_true hgoes)⟩
        cases hr

/-- What one round does to a state in which every valid token is held. -/
theorem Held.round_cases (hw : st.Held live) {p : Round} (hin : st.InRange p.key.1 p.key.2)
    (h : offloadToken p.w p.key.1 p.key.2 p.unit st = (r, st')) :
    ∃ l t : ℕ, p.key = ((l : ℤ), (t : ℤ)) ∧ l < st.table.numLayers ∧ t < st.table.maxTokens ∧
      st'.vm = (VirtualMedia.write p.key p.unit p.w st.vm).2 ∧
      (goesThrough st.vm p = false ∧ (∃ e, r = .error e) ∧ RoundRaised st live l t p.unit st' ∨
        goesThrough st.vm p = true ∧ r = .ok () ∧ ∃ e, RoundEntered st live l t p.unit st' e) := by
  obtain ⟨l, hl⟩ := Int.eq_ofNat_of_zero_le hin.1.1
  obtain ⟨t, ht⟩ := Int.eq_ofNat_of_zero_le hin.2.1
  have hkey : p.key = ((l : ℤ), (t : ℤ)) := Prod.ext hl ht
  obtain ⟨-, hlt⟩ := hin.1
  obtain ⟨-, htt⟩ := hin.2
  rw [hl, Nat.cast_lt] at hlt
  rw [ht, Nat.cast_lt] at htt
  obtain ⟨hvm, hgoes⟩ := offloadToken_goes hkey hlt htt h
  rw [hl, ht] at h
  refine ⟨l, t, hkey, hlt, htt, hvm, ?_⟩
  rcases offloadToken_cases hw.media hlt htt h with ⟨e, rfl, hraised⟩ | ⟨rfl, e, hentered⟩
  · refine .inl ⟨?_, ⟨e, rfl⟩, hraised⟩
    rw [Bool.eq_false_iff]
    intro hthrough
    cases hgoes.mpr hthrough
  · exact .inr ⟨hgoes.mp rfl, rfl, e, hentered⟩

/-- What holds of no round and is passed on by each one holds of the rounds that go through. -/
theorem runRounds_induct
    {R : SparseKVStore → (ℕ → List LiveUnit) → List Round → SparseKVStore → Prop}
    (hnil : ∀ st live, R st live [] st)
    (hraised : ∀ {st live} {l t : ℕ} {unit st'}, st.Held live → RoundRaised st live l t unit st' →
      R st live [] st')
    (hcons : ∀ {st live} {l t : ℕ} {p st₁ e ps st'}, st.Held live → p.key = ((l : ℤ), (t : ℤ)) →
      l < st.table.numLayers → t < st.table.maxTokens → RoundEntered st live l t p.unit st₁ e →
      R st₁ (Function.update live (st.deviceOf l t)
        (⟨entryOffset e, p.unit⟩ :: live (st.deviceOf l t))) ps st' → R st live (p :: ps) st')
    {ps : List Round} (hw : st.Held live) (hin : ∀ p ∈ ps, st.InRange p.key.1 p.key.2)
    (h : runRounds ps st = (r, st')) :
    R st live (through st.vm ps) st' ∧ (r = .ok () → through st.vm ps = ps) := by
  induction ps generalizing st live with
  | nil =>
    obtain ⟨rfl, rfl⟩ := Prod.mk.inj h
    exact ⟨hnil _ _, fun _ => rfl⟩
  | cons p ps ih =>
    rw [runRounds_cons] at h
    unfold through
    rcases Fallible.bind_cases h with ⟨e, hone, rfl⟩ | ⟨u, st₁, hone, hrest⟩
    · obtain ⟨l, t, -, -, -, -, ⟨hgoes, -, hround⟩ | ⟨-, hr, -⟩⟩ :=
        hw.round_cases (hin p List.mem_cons_self) hone
      · rw [hgoes]
        exact ⟨hraised hw hround, fun hr => by cases hr⟩
      · cases hr
    · obtain ⟨l, t, hkey, hl, ht, hvm, ⟨-, ⟨e, hr⟩, -⟩ | ⟨hgoes, -, e, hround⟩⟩ :=
        hw.round_cases (hin p List.mem_cons_self) hone
      · cases hr
      have hgrows := offloadToken_grows _ _ _ _ _ _ hone
      have hin₁ : ∀ q ∈ ps, st₁.InRange q.key.1 q.key.2 := by
        intro q hq
        unfold InRange
        rw [hgrows.numLayers, hgrows.maxTokens]
        exact hin q (List.mem_cons_of_mem _ hq)
      obtain ⟨hR, hok⟩ := ih (hround.held hw hl ht) hin₁ hrest
      rw [hvm] at hR hok
      rw [if_pos hgoes]
      exact ⟨hcons hw hkey hl ht hround hR, fun hr => congrArg _ (hok hr)⟩

end Rounds

/-- What the rounds that went through leave: their tokens are valid, with their units, and the
others are as they were. -/
structure Advanced (st : SparseKVStore) (done : List Round) (st' : SparseKVStore) : Prop where
  setup : VirtualMedia.SameSetup st.vm st'.vm
  numLayers : st'.table.numLayers = st.table.numLayers
  cache : st'.cache = st.cache
  latest : ∀ l t, st'.latest l t = (lastUnit done l t).or (st.latest l t)
  entry : ∀ l t, ¬ Named done l t → st'.table.entryAt l t = st.table.entryAt l t
  valid : ∀ l t, Named done l t → st'.Valid l t
  complete : ∀ p ∈ done, p.unit.length = st.vm.unitSize

theorem Advanced.refl (st : SparseKVStore) : Advanced st [] st where
  setup := ⟨rfl, rfl, rfl⟩
  numLayers := rfl
  cache := rfl
  latest l t := rfl
  entry l t _ := rfl
  valid l t h := by
    obtain ⟨p, hp, -⟩ := h
    cases hp
  complete := by simp

theorem Advanced.of_raised {l t : ℕ} {unit : List UInt8} (h : RoundRaised st live l t unit st') :
    Advanced st [] st' := by
  rw [h.same]
  exact { Advanced.refl st with setup := h.setup }

theorem Advanced.cons {l t e : ℕ} {p : Round} {ps : List Round} {st₁ : SparseKVStore}
    (hkey : p.key = ((l : ℤ), (t : ℤ))) (hl : l < st.table.numLayers)
    (ht : t < st.table.maxTokens) (hround : RoundEntered st live l t p.unit st₁ e)
    (h : Advanced st₁ ps st') : Advanced st (p :: ps) st' := by
  have hkey' : ∀ l' t' : ℕ, p.key = ((l' : ℤ), (t' : ℤ)) ↔ l' = l ∧ t' = t := by
    intro l' t'
    rw [hkey, Prod.mk.injEq, Nat.cast_inj, Nat.cast_inj]
    exact ⟨fun h => ⟨h.1.symm, h.2.symm⟩, fun h => ⟨h.1.symm, h.2.symm⟩⟩
  have hentry : ∀ l' t', st₁.table.entryAt l' t' =
      if l' = l ∧ t' = t then some e else st.table.entryAt l' t' := by
    intro l' t'
    rw [hround.same]
    exact SlotTable.entryAt_put hl ht e l' t'
  have hlatest : ∀ l' t', st₁.latest l' t' =
      (if p.key = ((l' : ℤ), (t' : ℤ)) then some p.unit else none).or (st.latest l' t') := by
    intro l' t'
    rw [hround.same]
    refine (latest_cons { st with vm := st₁.vm, table := st.table.put l t e } _ l' t'
      st.entered).trans ?_
    rw [← hkey]
    split_ifs
    · rfl
    · rfl
  refine
    { setup := hround.setup.trans h.setup
      numLayers := ?_
      cache := ?_
      latest := fun l' t' => ?_
      entry := fun l' t' hnot => ?_
      valid := fun l' t' hnamed => ?_
      complete := fun q hq => ?_ }
  · rw [h.numLayers, hround.same]
    rfl
  · rw [h.cache, hround.same]
  · rw [h.latest, hlatest, lastUnit_cons, Option.or_assoc]
  · rw [named_cons, not_or, hkey'] at hnot
    rw [h.entry l' t' hnot.2, hentry, if_neg hnot.1]
  · by_cases hrest : Named ps l' t'
    · exact h.valid l' t' hrest
    · have hown := (hkey' l' t').mp ((named_cons.mp hnamed).resolve_right hrest)
      refine ⟨e, ?_, hround.valid⟩
      rw [h.entry l' t' hrest, hentry, if_pos hown]
  · rcases List.mem_cons.mp hq with rfl | hq
    · exact hround.length_unit
    · rw [h.complete q hq, hround.setup.1]

theorem InRange.of_accepts {blk : KVBlockRef} (h : st.acceptsBlock blk = true) {w : ℕ → WriteFrom}
    {unitSize : ℕ} {p : Round} (hp : p ∈ blockRounds unitSize w blk 0 blk.tokenCount.toNat) :
    st.InRange p.key.1 p.key.2 := by
  obtain ⟨hlayer, hlow, hhigh, -⟩ := of_decide_eq_true h
  obtain ⟨i, hi, rfl⟩ := List.mem_map.mp hp
  rw [List.mem_range'_1] at hi
  refine ⟨hlayer, ?_, ?_⟩
  · dsimp only
    omega
  · dsimp only
    omega

theorem mem_callRounds {unitSize : ℕ} {ws : ℕ → ℕ → WriteFrom} {j : ℕ} {blks : List KVBlockRef}
    {p : Round} (hp : p ∈ callRounds unitSize ws j blks) :
    ∃ blk ∈ blks, ∃ w, p ∈ blockRounds unitSize w blk 0 blk.tokenCount.toNat := by
  induction blks generalizing j with
  | nil => cases hp
  | cons blk blks ih =>
    rcases List.mem_append.mp hp with hp | hp
    · exact ⟨blk, List.mem_cons_self, _, hp⟩
    · obtain ⟨blk', hmem, hw⟩ := ih hp
      exact ⟨blk', List.mem_cons_of_mem _ hmem, hw⟩

theorem InRange.of_checked {ws : ℕ → ℕ → WriteFrom} {blks : List KVBlockRef} {p : Round}
    (hp : p ∈ st.checkedRounds ws blks) : st.InRange p.key.1 p.key.2 := by
  obtain ⟨blk, hblk, w, hp⟩ := mem_callRounds hp
  exact InRange.of_accepts (List.mem_takeWhile_imp hblk) hp

theorem checkedRounds_isPrefix (ws : ℕ → ℕ → WriteFrom) (blks : List KVBlockRef) :
    st.checkedRounds ws blks <+: callRounds st.vm.unitSize ws 0 blks := by
  unfold checkedRounds
  generalize 0 = j
  induction blks generalizing j with
  | nil => exact List.prefix_refl _
  | cons blk blks ih =>
    rw [List.takeWhile_cons]
    split_ifs
    · exact (List.prefix_append_right_inj _).mpr (ih (j + 1))
    · exact List.nil_prefix

/-- The rounds of a call that go through. -/
def enteredRounds (st : SparseKVStore) (ws : ℕ → ℕ → WriteFrom) (blks : List KVBlockRef) :
    List Round :=
  through st.vm (st.checkedRounds ws blks)

theorem enteredRounds_prefix (ws : ℕ → ℕ → WriteFrom) (blks : List KVBlockRef) :
    st.enteredRounds ws blks <+: callRounds st.vm.unitSize ws 0 blks :=
  (through_isPrefix _ _).trans (st.checkedRounds_isPrefix ws blks)

/-- A call enters exactly the tokens whose rounds go through. -/
theorem Held.offload_advanced (hw : st.Held live) {ws : ℕ → ℕ → WriteFrom}
    {blks : List KVBlockRef} (h : SparseKVStore.offload ws 0 blks st = (r, st')) :
    Advanced st (st.enteredRounds ws blks) st' ∧
      (r = .ok () → st.enteredRounds ws blks = callRounds st.vm.unitSize ws 0 blks) := by
  obtain ⟨r₀, hrun, hok⟩ := offload_rounds h
  obtain ⟨hadv, hall⟩ := runRounds_induct (R := fun st _ => Advanced st) (fun st _ => .refl st)
    (fun _ hround => .of_raised hround) (fun _ hkey hl ht hround hrest => hrest.cons hkey hl ht hround)
    hw (fun p hp => InRange.of_checked hp) hrun
  refine ⟨hadv, fun hr => ?_⟩
  obtain ⟨hr₀, hblks⟩ := hok hr
  have hthrough := hall hr₀
  unfold enteredRounds
  rw [hthrough]
  unfold checkedRounds
  rw [hblks]

theorem Advanced.valid_iff {done : List Round} (h : Advanced st done st') {l t : ℕ} :
    st'.Valid l t ↔ st.Valid l t ∨ Named done l t := by
  by_cases hnamed : Named done l t
  · exact iff_of_true (h.valid l t hnamed) (.inr hnamed)
  · unfold Valid
    rw [h.entry l t hnamed]
    simp [hnamed]

/-- Tokens that were not valid are fetched with their units, the others as before. -/
theorem Advanced.ownBytes_eq {done : List Round} (hw : st.Held live) (h : Advanced st done st')
    {l t : ℕ} (hnew : Named done l t → ¬ st.Valid l t) :
    st'.ownBytes l t = (lastUnit done l t).getD (st.ownBytes l t) := by
  unfold ownBytes
  rw [h.cache, h.latest]
  by_cases hnamed : Named done l t
  · obtain ⟨unit, hunit⟩ := lastUnit_isSome hnamed
    have hcache : st.cache ((l : ℤ), (t : ℤ)) = none := by
      by_contra hsome
      exact hnew hnamed (hw.cached l t hsome)
    rw [hcache, hunit]
    rfl
  · rw [lastUnit_eq_none hnamed]
    rfl

end SparseKVStore

open SparseKVStore in
/-- An offload of tokens that are not valid enters a prefix of them, with complete units, and
leaves all others, in every run of the store. -/
theorem offload_prefix {unitSize : ℤ} {extents : List VirtualMedia.Extent}
    {strategy : PlacementStrategy (ℤ × ℤ)} {readMerge : Bool} {maxReadBytes : Option ℤ}
    {vm : VirtualMedia (ℤ × ℤ)}
    (hvm : VirtualMedia.init unitSize extents strategy readMerge maxReadBytes = .ok vm)
    {numLayers maxTokens maxTopk : ℤ} {start st : SparseKVStore}
    (hstart : SparseKVStore.init vm numLayers maxTokens maxTopk = .ok start)
    (h : Reach (· = start) AnyStep st) {ws : ℕ → ℕ → WriteFrom} {blks : List KVBlockRef}
    (hnew : ∀ l t, Named (callRounds st.vm.unitSize ws 0 blks) l t → ¬ st.Valid l t)
    {r : Except StoreError Unit} {st' : SparseKVStore}
    (hoff : SparseKVStore.offload ws 0 blks st = (r, st')) :
    ∃ done, done <+: callRounds st.vm.unitSize ws 0 blks ∧
      (r = .ok () → done = callRounds st.vm.unitSize ws 0 blks) ∧
      (∀ l t, st'.Valid l t ↔ st.Valid l t ∨ Named done l t) ∧
      (∀ p ∈ done, p.unit.length = st.vm.unitSize) ∧
      (∀ l t, ¬ Named done l t → st'.table.entryAt l t = st.table.entryAt l t) ∧
      ∀ l < st.table.numLayers, ∀ ts : List ℕ,
        ((∀ t ∈ ts, st.Valid l t) → st.Fetches l (st.ownBytes l) ts) ∧
        ((∀ t ∈ ts, st'.Valid l t) →
          st'.Fetches l (fun t => (lastUnit done l t).getD (st.ownBytes l t)) ts) := by
  obtain ⟨live, hw⟩ := held_of_reach hvm hstart h
  obtain ⟨live', hw'⟩ := hw.offload hoff
  obtain ⟨hadv, hok⟩ := hw.offload_advanced hoff
  have hprefix := st.enteredRounds_prefix ws blks
  have hown : ∀ l t, st'.ownBytes l t =
      (lastUnit (st.enteredRounds ws blks) l t).getD (st.ownBytes l t) := by
    intro l t
    refine hadv.ownBytes_eq hw fun hnamed => hnew l t ?_
    obtain ⟨p, hp, hkey⟩ := hnamed
    exact ⟨p, hprefix.subset hp, hkey⟩
  refine ⟨st.enteredRounds ws blks, hprefix, hok, fun l t => hadv.valid_iff, hadv.complete,
    hadv.entry, fun l hl ts => ⟨fun hval => ?_, fun hval => ?_⟩⟩
  · exact hw.fetch hl (fun t ht => (valid_lt (hval t ht)).2) hval
  · have hfetch := hw'.fetch (hadv.numLayers ▸ hl) (fun t ht => (valid_lt (hval t ht)).2) hval
    rwa [show st'.ownBytes l = fun t => (lastUnit (st.enteredRounds ws blks) l t).getD
      (st.ownBytes l t) from funext (hown l)] at hfetch

/-- All three tokens in one block. -/
def threeTokens : KVBlockRef :=
  ⟨0, 0, 3, List.replicate 4096 7 ++ (List.replicate 4096 8 ++ List.replicate 4096 9)⟩

open SparseKVStore in
/-- There is no segment for the third token, so the first two are entered. -/
theorem offload_prefix_full : ∃ start e done, threeTokenStore = some start ∧
    (SparseKVStore.offload (fun _ _ => .done) 0 [threeTokens] start).1 = .error e ∧
    done <+: callRounds start.vm.unitSize (fun _ _ => .done) 0 [threeTokens] ∧
    ∀ l t, (start.next (.offload (fun _ _ => .done) [threeTokens])).Valid l t ↔
      start.Valid l t ∨ Named done l t := by
  have hrun : threeTokenStore.map (fun start =>
      (SparseKVStore.offload (fun _ _ => .done) 0 [threeTokens] start).1.toOption.isSome) =
      some false := by
    decide +kernel
  obtain ⟨start, hstart, hfails⟩ := Option.map_eq_some_iff.mp hrun
  obtain ⟨vm, hvm, hinit⟩ := freshStore_eq_some hstart
  cases hoff : SparseKVStore.offload (fun _ _ => .done) 0 [threeTokens] start with
  | mk r st' =>
    rw [hoff] at hfails
    cases r with
    | ok u => cases hfails
    | error e =>
      obtain ⟨done, hprefix, -, hvalid, -⟩ := offload_prefix hvm hinit (.start rfl)
        (fun l t _ => init_not_valid hinit l t) hoff
      have hnext : start.next (.offload (fun _ _ => .done) [threeTokens]) = st' :=
        congrArg Prod.snd hoff
      refine ⟨start, e, done, hstart, by rw [hoff], hprefix, fun l t => ?_⟩
      rw [hnext, hvalid]

end Umm
