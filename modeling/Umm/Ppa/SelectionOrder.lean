import Umm.Ppa.SelectionRuns
import Umm.Ppa.ExportLayout

/-! `select` does not depend on the order of its input, nor on the order in which its sets are
gone through. -/
namespace Umm
open Umm.Lib

/-- The rows have the same tokens, with the same scores and on the same pages. -/
structure RowsAgree {σ : Type} (rows : List (CandidateEntry σ)) (mapping : DenseMapping)
    (rows' : List (CandidateEntry σ)) (mapping' : DenseMapping) : Prop where
  tokens : ∀ t, t ∈ rows.map (·.token) ↔ t ∈ rows'.map (·.token)
  entries : ∀ r ∈ rows, ∀ r' ∈ rows', r.token = r'.token → r.score = r'.score ∧
    mapping.get (r.offsetBytes / pageBytes) = mapping'.get (r'.offsetBytes / pageBytes)

section Inputs

variable {σ : Type} {rows rows' : List (CandidateEntry σ)} {mapping mapping' : DenseMapping}

theorem RowsAgree.of_perm (hrows : (rows.map (·.token)).Nodup) (h : rows.Perm rows') :
    RowsAgree rows mapping rows' mapping := by
  refine ⟨fun t => (h.map _).mem_iff, fun r hr r' hr' htoken => ?_⟩
  obtain rfl := List.inj_on_of_nodup_map hrows hr (h.mem_iff.mpr hr') htoken
  exact ⟨rfl, rfl⟩

theorem RowsAgree.symm (h : RowsAgree rows mapping rows' mapping') :
    RowsAgree rows' mapping' rows mapping := by
  refine ⟨fun t => (h.tokens t).symm, fun r hr r' hr' htoken => ?_⟩
  obtain ⟨hscore, hpage⟩ := h.entries r' hr' r hr htoken.symm
  exact ⟨hscore.symm, hpage.symm⟩

/-- Each row has a partner. -/
theorem RowsAgree.partner (h : RowsAgree rows mapping rows' mapping') {r : CandidateEntry σ}
    (hr : r ∈ rows) : ∃ r' ∈ rows', r'.token = r.token ∧ r'.score = r.score ∧
      mapping'.get (r'.offsetBytes / pageBytes) = mapping.get (r.offsetBytes / pageBytes) := by
  obtain ⟨r', hr', htoken⟩ := List.mem_map.mp
    ((h.tokens r.token).mp (List.mem_map.mpr ⟨r, hr, rfl⟩))
  obtain ⟨hscore, hpage⟩ := h.entries r hr r' hr' htoken.symm
  exact ⟨r', hr', htoken, hscore.symm, hpage.symm⟩

theorem RowsAgree.mem_scored [LinearOrder σ] (h : RowsAgree rows mapping rows' mapping')
    {pair : ℤ × σ} (hpair : pair ∈ scoredRows rows) : pair ∈ scoredRows rows' := by
  obtain ⟨r, hr, htoken, hscore⟩ := mem_scoredRows.mp hpair
  obtain ⟨r', hr', htoken', hscore', -⟩ := h.partner hr
  exact mem_scoredRows.mpr ⟨r', hr', htoken'.trans htoken, hscore'.trans hscore⟩

theorem nodup_scoredRows [LinearOrder σ] (hrows : (rows.map (·.token)).Nodup) :
    (scoredRows rows).Nodup :=
  List.Nodup.of_map _ (nodup_scoredTokens hrows)

/-- The scored rows come out in one order. -/
theorem RowsAgree.scoredRows_eq [LinearOrder σ] (hrows : (rows.map (·.token)).Nodup)
    (hrows' : (rows'.map (·.token)).Nodup) (h : RowsAgree rows mapping rows' mapping') :
    scoredRows rows = scoredRows rows' := by
  have hperm : (scoredRows rows).Perm (scoredRows rows') :=
    (List.perm_ext_iff_of_nodup (nodup_scoredRows hrows) (nodup_scoredRows hrows')).mpr
      fun pair => ⟨h.mem_scored, h.symm.mem_scored⟩
  refine List.Perm.eq_of_pairwise (fun a b _ _ hab hba => ?_)
    pairwise_sortBy pairwise_sortBy hperm
  have hkey := toLex.injective (le_antisymm hab hba)
  exact Prod.ext (Prod.mk.inj hkey).2 (Prod.mk.inj hkey).1

theorem RowsAgree.lookup_eq (h : RowsAgree rows mapping rows' mapping')
    (hrows' : (rows'.map (·.token)).Nodup) {info info' : Dict ℤ MappingRow}
    (hinfo : candidateInfo rows mapping = some info)
    (hinfo' : candidateInfo rows' mapping' = some info') {t : ℤ} {row : MappingRow}
    (hrow : info.lookup t = some row) : info'.lookup t = some row := by
  obtain ⟨pairs, rfl, -, hpairs⟩ := candidateInfo_pairs hinfo
  obtain ⟨pairs', rfl, hkeys', hpairs'⟩ := candidateInfo_pairs hinfo'
  obtain ⟨r, hr, rfl, hpage⟩ := hpairs _ (mem_of_lookup_dictOf hrow)
  have htoken := (h.tokens r.token).mp (List.mem_map.mpr ⟨r, hr, rfl⟩)
  rw [← hkeys'] at htoken
  obtain ⟨pair', hpair', htoken'⟩ := List.mem_map.mp htoken
  obtain ⟨r', hr', hsame, hpage'⟩ := hpairs' pair' hpair'
  obtain ⟨-, hpages⟩ := h.entries r hr r' hr' (htoken'.symm.trans hsame.symm)
  have hrow' : pair'.2 = row := by
    rw [hpage, hpage'] at hpages
    exact (Option.some.inj hpages).symm
  refine (lookup_dictOf_iff (by rwa [hkeys'])).mpr ?_
  rw [← htoken', ← hrow']
  exact hpair'

theorem RowsAgree.info_eq (h : RowsAgree rows mapping rows' mapping')
    (hrows : (rows.map (·.token)).Nodup) (hrows' : (rows'.map (·.token)).Nodup)
    {info info' : Dict ℤ MappingRow} (hinfo : candidateInfo rows mapping = some info)
    (hinfo' : candidateInfo rows' mapping' = some info') (t : ℤ) :
    info.lookup t = info'.lookup t := by
  refine Option.ext fun row => ⟨fun hrow => ?_, fun hrow => ?_⟩
  · exact h.lookup_eq hrows' hinfo hinfo' hrow
  · exact h.symm.lookup_eq hrows hinfo' hinfo hrow

theorem RowsAgree.info_isSome (h : RowsAgree rows mapping rows' mapping')
    (hsome : (candidateInfo rows mapping).isSome) : (candidateInfo rows' mapping').isSome := by
  rw [candidateInfo_isSome] at hsome ⊢
  intro r' hr'
  obtain ⟨r, hr, -, -, hpage⟩ := h.symm.partner hr'
  rw [← hpage]
  exact hsome r hr

end Inputs

/-! Two runs side by side. -/

/-- The data give the same scores and resources. -/
structure SameData {σ : Type} (d d' : SelectData σ) : Prop where
  score_eq : d.scoreOf = d'.scoreOf
  path_eq : d.path = d'.path

/-- The states are the same but for how their loads are stored. -/
structure SameState (st st' : SelectState) : Prop where
  selected_eq : st.selected = st'.selected
  removable_eq : st.removable = st'.removable
  available_eq : st.available = st'.available
  loads_eq : st.loads.get = st'.loads.get
  exchanges_eq : st.exchanges = st'.exchanges

theorem objective_congr {loads loads' : Counter Resource} (h : loads.get = loads'.get) :
    objective loads = objective loads' :=
  Counter.squares_congr fun k => congrFun h k

section Runs

variable {σ δ : Type} [LinearOrder σ] [LinearOrder δ] {d d' : SelectData σ}
  {loads loads' : Counter Resource}

/-- The groups depend on the elements only, where no two keys are the same. -/
theorem groupValues_perm {α κ θ : Type*} [DecidableEq κ] [LinearOrder θ] {group : α → κ}
    {key : α → θ} (hkey : Function.Injective key) {l l' : List α} (h : ∀ a, a ∈ l ↔ a ∈ l') :
    (groupValues (groupBest group key l)).Perm (groupValues (groupBest group key l')) := by
  have hl : ∀ l : List α, ∀ a ∈ l, ∀ b ∈ l, key a = key b → a = b :=
    fun _ a _ b _ heq => hkey heq
  refine (List.perm_ext_iff_of_nodup (nodup_groupValues l) (nodup_groupValues l')).mpr fun a => ?_
  rw [mem_groupValues (hl l), mem_groupValues (hl l'), h a]
  refine and_congr_right fun _ => forall_congr' fun b => ?_
  rw [h b]

theorem removals_eq (hd : SameData d d') (hloads : loads.get = loads'.get) {l l' : List ℤ}
    (h : ∀ t, t ∈ l ↔ t ∈ l') : d.removals loads l = d'.removals loads' l' := by
  have hgroup : d.groupOf = d'.groupOf := by
    funext t
    rw [SelectData.groupOf, SelectData.groupOf, hd.path_eq]
  unfold SelectData.removals SelectData.removeGroups
  rw [hd.score_eq, hd.path_eq, hloads, hgroup]
  refine congrArg (List.take 16) (sortBy_perm (fun a _ b _ hab => ?_) (groupValues_perm ?_ h))
  · exact (Prod.mk.inj (toLex.injective (Prod.mk.inj (toLex.injective hab)).2)).2
  · intro a b hab
    exact neg_injective (Prod.mk.inj (toLex.injective hab)).2

theorem additions_eq (hd : SameData d d') (hloads : loads.get = loads'.get) {l l' : List ℤ}
    (h : ∀ t, t ∈ l ↔ t ∈ l') : d.additions loads l = d'.additions loads' l' := by
  have hgroup : d.groupOf = d'.groupOf := by
    funext t
    rw [SelectData.groupOf, SelectData.groupOf, hd.path_eq]
  unfold SelectData.additions SelectData.addGroups
  rw [hd.score_eq, hd.path_eq, hloads, hgroup]
  refine congrArg (List.take 16) (sortBy_perm (fun a _ b _ hab => ?_) (groupValues_perm ?_ h))
  · exact (Prod.mk.inj (toLex.injective (Prod.mk.inj (toLex.injective hab)).2)).2
  · intro a b hab
    exact (Prod.mk.inj (toLex.injective hab)).2

omit [LinearOrder σ] in
theorem bestSwap_eq (diff : σ → σ → δ) (hd : SameData d d') (hloads : loads.get = loads'.get)
    (removals additions : List ℤ) :
    d.bestSwap diff loads removals additions = d'.bestSwap diff loads' removals additions := by
  have hswap : d.swapOf loads = d'.swapOf loads' := by
    funext old new
    unfold SelectData.swapOf
    rw [hd.path_eq, hloads]
  have himprove : d.improve diff loads = d'.improve diff loads' := by
    funext best pair
    unfold SelectData.improve SelectData.swapKey
    rw [hswap, hd.score_eq]
  unfold SelectData.bestSwap
  rw [himprove]

variable (diff : σ → σ → δ) (order order' : SetOrder)

/-- Both rounds break the loop, or both make the same swap. -/
theorem selectRound_same (hd : SameData d d') (n : ℕ) {st st' : SelectState}
    (h : SameState st st') :
    selectRound diff order d n st = none ∧ selectRound diff order' d' n st' = none ∨
      ∃ next next', selectRound diff order d n st = some next ∧
        selectRound diff order' d' n st' = some next' ∧ SameState next next' := by
  have hrem : d.removals st.loads (order.rows (2 * n + 1) st.removable) =
      d'.removals st'.loads (order'.rows (2 * n + 1) st'.removable) :=
    removals_eq hd h.loads_eq fun t => by rw [order.mem, order'.mem, h.removable_eq]
  have hadd : d.additions st.loads (order.rows (2 * n + 2) st.available) =
      d'.additions st'.loads (order'.rows (2 * n + 2) st'.available) :=
    additions_eq hd h.loads_eq fun t => by rw [order.mem, order'.mem, h.available_eq]
  unfold selectRound
  dsimp only
  rw [hrem, hadd, bestSwap_eq diff hd h.loads_eq]
  cases d'.bestSwap diff st'.loads (d'.removals st'.loads (order'.rows (2 * n + 1) st'.removable))
      (d'.additions st'.loads (order'.rows (2 * n + 2) st'.available)) with
  | none => exact .inl ⟨rfl, rfl⟩
  | some c =>
    refine .inr ⟨_, _, rfl, rfl, ?_⟩
    constructor
    · simp only [SelectState.swap, h.selected_eq]
    · simp only [SelectState.swap, h.removable_eq]
    · simp only [SelectState.swap, h.available_eq]
    · funext k
      simp only [SelectState.swap, Counter.get_update, h.loads_eq]
    · simp only [SelectState.swap, h.exchanges_eq]

theorem selectLoop_same (hd : SameData d d') (budget n : ℕ) {st st' : SelectState}
    (h : SameState st st') :
    SameState (selectLoop diff order d budget n st) (selectLoop diff order' d' budget n st') := by
  induction budget generalizing n st st' with
  | zero => exact h
  | succ budget ih =>
    unfold selectLoop
    rcases selectRound_same diff order order' hd n h with ⟨hnone, hnone'⟩ |
      ⟨next, next', hnext, hnext', hsame⟩
    · rw [hnone, hnone']
      exact h
    · rw [hnext, hnext']
      exact ih (n + 1) hsame

variable {rows rows' : List (CandidateEntry σ)} {mapping mapping' : DenseMapping}

theorem selectStart_same {info info' : Dict ℤ MappingRow}
    (hinfo : ∀ t, info.lookup t = info'.lookup t) (hscored : scoredRows rows = scoredRows rows') {native resident : Finset ℤ} (protectTop : ℤ)
    (hloads : pressure info (order.rows 0 (native \ resident)) = some loads)
    (hloads' : pressure info' (order'.rows 0 (native \ resident)) = some loads') :
    SameState (selectStart native resident rows protectTop loads)
      (selectStart native resident rows' protectTop loads') := by
  have hmisses : ∀ o : SetOrder, (o.rows 0 (native \ resident)).toFinset = native \ resident := by
    intro o
    ext t
    rw [List.mem_toFinset, o.mem]
  have hget := SelectData.get_pressure (d := ⟨dictOf (scoredRows rows), info⟩) hloads
    (order.nodup _ _)
  have hget' := SelectData.get_pressure (d := ⟨dictOf (scoredRows rows), info'⟩) hloads'
    (order'.nodup _ _)
  constructor
  · rfl
  · unfold selectStart selectRemovable scoredRank
    rw [hscored]
  · unfold selectStart selectAvailable
    rw [hscored]
  · funext k
    simp only [selectStart]
    rw [hget, hget', hmisses, hmisses]
    unfold SelectData.load SelectData.path
    simp only [hinfo]
  · rfl

/-- Rows that agree lead to one result. -/
theorem select_eq_of_agree (hrows : (rows.map (·.token)).Nodup)
    (hrows' : (rows'.map (·.token)).Nodup) (h : RowsAgree rows mapping rows' mapping')
    (native : Finset ℤ) (current budget protectTop : ℤ) (cached : Finset ℤ) :
    select diff order native rows mapping current budget protectTop cached =
      select diff order' native rows' mapping' current budget protectTop cached := by
  have hscored := h.scoredRows_eq hrows hrows'
  cases hinfo : candidateInfo rows mapping with
  | none =>
    have hinfo' : candidateInfo rows' mapping' = none := by
      rw [← Option.not_isSome_iff_eq_none]
      intro hsome
      simpa [hinfo] using h.symm.info_isSome hsome
    simp [select, hinfo, hinfo']
  | some info =>
    obtain ⟨info', hinfo'⟩ := Option.isSome_iff_exists.mp (h.info_isSome (by simp [hinfo]))
    have hlookup := h.info_eq hrows hrows' hinfo hinfo'
    have hsame : (pressure info (order.rows 0 (native \ insert current cached))).isSome ↔
        (pressure info' (order'.rows 0 (native \ insert current cached))).isSome := by
      rw [pressure_isSome, pressure_isSome]
      simp only [order.mem, order'.mem, hlookup]
    cases hloads : pressure info (order.rows 0 (native \ insert current cached)) with
    | none =>
      have hloads' : pressure info' (order'.rows 0 (native \ insert current cached)) = none := by
        rw [← Option.not_isSome_iff_eq_none, ← hsame, hloads]
        simp
      simp [select, hinfo, hinfo', hloads, hloads']
    | some loads =>
      obtain ⟨loads', hloads'⟩ := Option.isSome_iff_exists.mp (hsame.mp (by simp [hloads]))
      have hstart := selectStart_same order order' hlookup hscored protectTop hloads hloads'
      have hdata : SameData (⟨dictOf (scoredRows rows), info⟩ : SelectData σ)
          ⟨dictOf (scoredRows rows'), info'⟩ := by
        constructor
        · unfold SelectData.scoreOf
          rw [hscored]
        · funext t
          simp only [SelectData.path, hlookup]
      have hend := selectLoop_same diff order order' hdata budget.toNat 0 hstart
      have hinitial : objective loads = objective loads' := objective_congr hstart.loads_eq
      simp only [select, hinfo, hinfo', hloads, hloads', Option.bind_eq_bind, Option.bind_some]
      rw [hend.selected_eq, hend.exchanges_eq, hinitial, objective_congr hend.loads_eq]

end Runs

/-! The online hook and the offline oracle. -/

section Hook

variable {σ δ : Type} [LinearOrder σ] [LinearOrder δ]

/-- The rows that `_apply_override` builds from the candidates of the step. -/
def hookRows (native candIds : List ℤ) (candScores : List σ) (base : ℤ) :
    List (CandidateEntry σ) :=
  let scores := dictOf (candIds.zip candScores)
  (BatchLru.sorted (native ++ candIds)).map fun t => ⟨t, scores.lookup t, base + t * slotBytes⟩

/-- What rank 0 selects in `_apply_override`. -/
def hookSelect (diff : σ → σ → δ) (order : SetOrder) (native candIds : List ℤ)
    (candScores : List σ) (base : ℤ) (mapping : DenseMapping) (seq budget protectTop : ℤ)
    (lru : BatchLru ℤ) : Option Selection :=
  select diff order native.toFinset (hookRows native candIds candScores base) mapping (seq - 1)
    budget protectTop lru.rows.toFinset

/-- What the oracle selects for a record. -/
def oracleSelect (diff : σ → σ → δ) (order : SetOrder) (row : CandidateRow σ)
    (mapping : DenseMapping) (budget protectTop : ℤ) (cached : Finset ℤ) : Option Selection :=
  select diff order row.native.toFinset row.candidates mapping row.currentToken budget protectTop
    cached

/-- The candidates of a record are its native tokens and those with a score, once each. -/
structure CandidateRow.Complete (row : CandidateRow σ) : Prop where
  nodup : (row.candidates.map (·.token)).Nodup
  native : ∀ t ∈ row.native, t ∈ row.candidates.map (·.token)
  only : ∀ r ∈ row.candidates, r.token ∈ row.native ∨ r.score.isSome

/-- The records of an export are complete. -/
theorem exportRecord_complete {layerId : String → Option ℕ} {args : ExportArgs} {stride : ℤ}
    {ranks : List (ℕ × ℤ)} {c : ChosenLayer σ} {base : ℤ} {step : ℕ} {f : DumpFile σ}
    {row : CandidateRow σ} (h : exportRecord layerId args stride ranks c base step f = .ok row) :
    row.Complete := by
  unfold exportRecord at h
  obtain ⟨r, hr, h⟩ := except_bind_ok h
  split_ifs at h with hlayer
  · cases h
  obtain ⟨-, -, h⟩ := except_bind_ok h
  obtain ⟨applied, -, h⟩ := except_bind_ok h
  obtain rfl := Except.ok.inj h
  have htokens : ((BatchLru.sorted (r.native ++ r.ranked)).map fun t =>
      (⟨t, r.scores.lookup t, base + t * args.slotBytes⟩ : CandidateEntry σ)).map (·.token) =
        BatchLru.sorted (r.native ++ r.ranked) := by
    rw [List.map_map]
    exact List.map_id _
  have hmem : ∀ t, t ∈ BatchLru.sorted (r.native ++ r.ranked) ↔ t ∈ r.native ∨ t ∈ r.ranked := by
    intro t
    rw [BatchLru.sorted_eq, Finset.mem_sort, List.mem_toFinset, List.mem_append]
  constructor
  · dsimp only
    rw [htokens, BatchLru.sorted_eq]
    exact Finset.sort_nodup _ _
  · dsimp only
    intro t ht
    rw [BatchLru.sorted_eq, Finset.mem_sort, List.mem_toFinset] at ht
    rw [htokens, hmem]
    exact .inl ht
  · dsimp only
    intro entry hentry
    obtain ⟨t, ht, rfl⟩ := List.mem_map.mp hentry
    rcases (hmem t).mp ht with hin | hin
    · refine .inl ?_
      rw [BatchLru.sorted_eq, Finset.mem_sort, List.mem_toFinset]
      exact hin
    · exact .inr (loadRecord_scores (liftExport_ok hr) hin)

/-- The step of the hook and the record say the same. -/
structure HookAgrees (native candIds : List ℤ) (candScores : List σ) (base : ℤ)
    (mapping : DenseMapping) (row : CandidateRow σ) (mapping' : DenseMapping) : Prop where
  native_eq : native.toFinset = row.native.toFinset
  score_iff : ∀ t s, (dictOf (candIds.zip candScores)).lookup t = some s ↔
    ∃ r ∈ row.candidates, r.token = t ∧ r.score = some s
  page_eq : ∀ r ∈ row.candidates,
    mapping'.get (r.offsetBytes / pageBytes) =
      mapping.get ((base + r.token * slotBytes) / pageBytes)

omit [LinearOrder σ] in
theorem tokens_hookRows (native candIds : List ℤ) (candScores : List σ) (base : ℤ) :
    (hookRows native candIds candScores base).map (·.token) =
      BatchLru.sorted (native ++ candIds) := by
  unfold hookRows
  rw [List.map_map]
  exact List.map_id _

omit [LinearOrder σ] in
theorem mem_tokens_hookRows {native candIds : List ℤ} {candScores : List σ} {base t : ℤ} :
    t ∈ (hookRows native candIds candScores base).map (·.token) ↔ t ∈ native ∨ t ∈ candIds := by
  rw [tokens_hookRows, BatchLru.sorted_eq, Finset.mem_sort, List.mem_toFinset, List.mem_append]

omit [LinearOrder σ] in
theorem nodup_hookRows (native candIds : List ℤ) (candScores : List σ) (base : ℤ) :
    ((hookRows native candIds candScores base).map (·.token)).Nodup := by
  rw [tokens_hookRows, BatchLru.sorted_eq]
  exact Finset.sort_nodup _ _

omit [LinearOrder σ] in
/-- Every candidate of the hook has its score. -/
theorem lookup_zip_isSome {ids : List ℤ} {scores : List σ} (hlen : ids.length = scores.length)
    {t : ℤ} : ((dictOf (ids.zip scores)).lookup t).isSome ↔ t ∈ ids := by
  rw [lookup_dictOf_isSome]
  constructor
  · rintro ⟨s, hs⟩
    exact (List.of_mem_zip hs).1
  · intro ht
    obtain ⟨i, hi⟩ := List.mem_iff_getElem?.mp ht
    have hlt := (List.getElem?_eq_some_iff.mp hi).1
    refine ⟨scores[i], List.mem_iff_getElem?.mpr ⟨i, ?_⟩⟩
    rw [List.getElem?_zip_eq_some]
    exact ⟨hi, List.getElem?_eq_getElem (by omega)⟩

omit [LinearOrder σ] in
theorem HookAgrees.rowsAgree {native candIds : List ℤ} {candScores : List σ} {base : ℤ}
    {mapping mapping' : DenseMapping} {row : CandidateRow σ} (hrow : row.Complete)
    (hlen : candIds.length = candScores.length)
    (h : HookAgrees native candIds candScores base mapping row mapping') :
    RowsAgree (hookRows native candIds candScores base) mapping row.candidates mapping' := by
  have hnative : ∀ t, t ∈ native ↔ t ∈ row.native := by
    intro t
    rw [← List.mem_toFinset, h.native_eq, List.mem_toFinset]
  constructor
  · intro t
    rw [mem_tokens_hookRows]
    constructor
    · rintro (ht | ht)
      · exact hrow.native t ((hnative t).mp ht)
      · obtain ⟨s, hs⟩ := Option.isSome_iff_exists.mp ((lookup_zip_isSome hlen).mpr ht)
        obtain ⟨r, hr, rfl, -⟩ := (h.score_iff t s).mp hs
        exact List.mem_map.mpr ⟨r, hr, rfl⟩
    · intro ht
      obtain ⟨r, hr, rfl⟩ := List.mem_map.mp ht
      rcases hrow.only r hr with hin | hscore
      · exact .inl ((hnative _).mpr hin)
      · obtain ⟨s, hs⟩ := Option.isSome_iff_exists.mp hscore
        have hlookup := (h.score_iff r.token s).mpr ⟨r, hr, rfl, hs⟩
        exact .inr ((lookup_zip_isSome hlen).mp (by rw [hlookup]; rfl))
  · intro r hr r' hr' htoken
    obtain ⟨t, -, rfl⟩ := List.mem_map.mp hr
    dsimp only at htoken ⊢
    subst htoken
    refine ⟨Option.ext fun s => ?_, (h.page_eq r' hr').symm⟩
    rw [h.score_iff]
    constructor
    · rintro ⟨r'', hr'', htoken, hs⟩
      obtain rfl := List.inj_on_of_nodup_map hrow.nodup hr'' hr' htoken
      exact hs
    · exact fun hs => ⟨r', hr', rfl, hs⟩

/-- The result does not depend on the order of the rows, or on the orders in which sets are gone
through; so the hook and the oracle agree where their inputs do. -/
theorem select_order_free (diff : σ → σ → δ) (order order' : SetOrder) :
    (∀ {rows rows' : List (CandidateEntry σ)}, (rows.map (·.token)).Nodup → rows.Perm rows' →
      ∀ native mapping current budget protectTop cached,
        select diff order native rows mapping current budget protectTop cached =
          select diff order' native rows' mapping current budget protectTop cached) ∧
    (∀ {native candIds candScores base mapping seq lru} {row : CandidateRow σ} {mapping' cached},
      row.Complete → candIds.length = candScores.length →
      HookAgrees native candIds candScores base mapping row mapping' →
      seq - 1 = row.currentToken → lru.rows.toFinset = cached →
      ∀ budget protectTop,
        hookSelect diff order native candIds candScores base mapping seq budget protectTop lru =
          oracleSelect diff order' row mapping' budget protectTop cached) := by
  constructor
  · intro rows rows' hrows hperm native mapping current budget protectTop cached
    have hrows' : (rows'.map (·.token)).Nodup := (hperm.map _).nodup_iff.mp hrows
    exact select_eq_of_agree diff order order' hrows hrows' (.of_perm hrows hperm) native current
      budget protectTop cached
  · rintro native candIds candScores base mapping seq lru row mapping' _ hrow hlen hagrees hseq rfl
      budget protectTop
    unfold hookSelect oracleSelect
    rw [hseq, hagrees.native_eq]
    exact select_eq_of_agree diff order order' (nodup_hookRows _ _ _ _) hrow.nodup
      (hagrees.rowsAgree hrow hlen) _ _ _ _ _

def twoPlanesRecord : CandidateRow ℤ := ⟨0, 0, 10, 9, [1, 0], twoPlanesRows, 3, 2, none⟩

theorem twoPlanes_agrees :
    HookAgrees [0, 1] [4, 1, 0] [3, 4, 5] 0 twoPlanes twoPlanesRecord twoPlanes := by
  refine ⟨by decide, fun t s => ?_, by decide⟩
  have hkeys : (([4, 1, 0] : List ℤ).zip ([3, 4, 5] : List ℤ)).map (·.1) = [4, 1, 0] := rfl
  rw [lookup_dictOf_iff (by rw [hkeys]; decide)]
  simp only [twoPlanesRecord, twoPlanesRows, List.zip_cons_cons, List.zip_nil_right,
    List.mem_cons, Prod.mk.injEq, List.not_mem_nil, or_false]
  constructor
  · rintro (⟨rfl, rfl⟩ | ⟨rfl, rfl⟩ | ⟨rfl, rfl⟩) <;> simp
  · rintro ⟨r, rfl | rfl | rfl, rfl, hs⟩ <;> simp_all

/-- The rows in both orders, and the step of the hook with its record. -/
theorem select_order_free_twoPlanes :
    select (fun a b => a - b) ascending {0, 1} twoPlanesRows twoPlanes 9 4 0 ∅ =
        select (fun a b => a - b) ascending {0, 1} twoPlanesRows.reverse twoPlanes 9 4 0 ∅ ∧
      hookSelect (fun a b => a - b) ascending [0, 1] [4, 1, 0] ([3, 4, 5] : List ℤ) 0 twoPlanes 10
          4 0 (.new 2048) =
        oracleSelect (fun a b => a - b) ascending twoPlanesRecord twoPlanes 4 0 ∅ := by
  have hfree := select_order_free (fun a b : ℤ => a - b) ascending ascending
  have hcomplete : twoPlanesRecord.Complete := ⟨by decide, by decide, by decide⟩
  constructor
  · exact hfree.1 (by decide) (List.reverse_perm _).symm {0, 1} twoPlanes 9 4 0 ∅
  · have hseq : (10 : ℤ) - 1 = twoPlanesRecord.currentToken := rfl
    have hlen : ([4, 1, 0] : List ℤ).length = ([3, 4, 5] : List ℤ).length := rfl
    exact hfree.2 hcomplete hlen twoPlanes_agrees hseq rfl 4 0

end Hook

end Umm
