import Umm.Ppa.Oracle
import Umm.Lib.Fallible

/-! The exports that the oracle accepts, and the random control: for every record its pools are
large enough, and what it draws passes the miss-only check. -/
namespace Umm
open Umm.Lib

section Accepted

variable {σ : Type} {isFinite : σ → Bool} {geometry : Dict ℕ ManifestLayer} {g : ManifestLayer}
  {row : OracleRecord σ}

/-- What the checks of an export leave for the selection. -/
structure OracleRecord.Sound (row : OracleRecord σ) : Prop where
  nodup : row.tokens.Nodup
  native : ∀ t ∈ row.native, t ∈ row.tokens

/-- What the oracle asks of a line of a layer. -/
structure OracleRecord.Valid (isFinite : σ → Bool) (row : OracleRecord σ) (g : ManifestLayer) :
    Prop where
  native_length : (row.native.length : ℤ) = min 2048 row.contextLength
  native_nodup : row.native.Nodup
  native_subset : ∀ t ∈ row.native, t ∈ row.tokens
  nodup : row.tokens.Nodup
  scored : ((row.candidates.filterMap (·.score)).length : ℤ) = min 2400 row.contextLength
  finite : ∀ s ∈ row.candidates.filterMap (·.score), isFinite s
  applied : ∀ applied ∈ row.appliedSelected, applied.length = row.native.length ∧
    applied.Nodup ∧ ∀ t ∈ applied, 0 ≤ t ∧ t < row.contextLength
  context_pos : 1 ≤ row.contextLength
  current_eq : row.currentToken = row.contextLength - 1
  context_le : row.contextLength ≤ g.contextLength
  address : ∀ x ∈ row.candidates, (0 ≤ x.token ∧ x.token < row.contextLength) ∧ x.device = 0 ∧
    x.offsetBytes = g.baseBytes + x.token * slotBytes

def OracleRecord.key (row : OracleRecord σ) : ℕ × ℕ := (row.stepId, row.layerId)

theorem keyLe_iff {a b : ℕ × ℕ} : keyLe a b = true ↔ toLex a ≤ toLex b := by
  rw [Prod.Lex.toLex_le_toLex]
  simp [keyLe]

theorem nodup_of_toFinset_card {l : List ℤ} (h : l.toFinset.card = l.length) : l.Nodup :=
  Multiset.coe_nodup.mp (Multiset.toFinset_card_eq_card_iff_nodup.mp h)

theorem toFinset_card_eq_length {l : List ℤ} : l.toFinset.card = l.length ↔ l.Nodup :=
  ⟨nodup_of_toFinset_card, List.toFinset_card_of_nodup⟩

/-- The checks that are refused, one after the other. -/
theorem OracleRecord.valid_iff : row.Valid isFinite g ↔
    ¬ ((row.native.length : ℤ) ≠ min 2048 row.contextLength ∨
        row.native.toFinset.card ≠ row.native.length ∨
        ¬ row.native.toFinset ⊆ row.tokens.toFinset ∨
        row.tokens.toFinset.card ≠ row.candidates.length) ∧
      ¬ (((row.candidates.filterMap (·.score)).length : ℤ) ≠ min 2400 row.contextLength ∨
        (row.candidates.filterMap (·.score)).any fun s => !isFinite s) ∧
      ¬ (row.appliedSelected.any fun applied => applied.length ≠ row.native.length ∨
        applied.toFinset.card ≠ applied.length ∨
        applied.any fun t => ¬ (0 ≤ t ∧ t < row.contextLength)) ∧
      ¬ (row.contextLength < 1 ∨ row.currentToken ≠ row.contextLength - 1 ∨
        (g.contextLength : ℤ) < row.contextLength) ∧
      ¬ (row.candidates.any fun x => ¬ (0 ≤ x.token ∧ x.token < row.contextLength) ∨
        x.device ≠ 0 ∨ x.offsetBytes ≠ g.baseBytes + x.token * slotBytes) := by
  have hcount : row.candidates.length = row.tokens.length := (List.length_map _).symm
  have hsubset : row.native.toFinset ⊆ row.tokens.toFinset ↔ ∀ t ∈ row.native, t ∈ row.tokens := by
    simp [Finset.subset_iff]
  have happlied : (row.appliedSelected.any fun applied => applied.length ≠ row.native.length ∨
      applied.toFinset.card ≠ applied.length ∨
      applied.any fun t => ¬ (0 ≤ t ∧ t < row.contextLength)) = false ↔
      ∀ applied ∈ row.appliedSelected, applied.length = row.native.length ∧
        applied.Nodup ∧ ∀ t ∈ applied, 0 ≤ t ∧ t < row.contextLength := by
    cases row.appliedSelected with
    | none => simp
    | some applied => simp [toFinset_card_eq_length]
  have hscores : ((row.candidates.filterMap (·.score)).any fun s => !isFinite s) = true ↔
      ¬ ∀ s ∈ row.candidates.filterMap (·.score), isFinite s := by
    rw [← Bool.not_eq_false, List.any_eq_false]
    simp
  have haddress : (row.candidates.any fun x => ¬ (0 ≤ x.token ∧ x.token < row.contextLength) ∨
      x.device ≠ 0 ∨ x.offsetBytes ≠ g.baseBytes + x.token * slotBytes) = false ↔
      ∀ x ∈ row.candidates, (0 ≤ x.token ∧ x.token < row.contextLength) ∧ x.device = 0 ∧
        x.offsetBytes = g.baseBytes + x.token * slotBytes := by
    rw [List.any_eq_false]
    simp only [decide_eq_true_eq, not_or, not_not]
  rw [hcount, Bool.not_eq_true, Bool.not_eq_true, happlied, hscores, haddress, hsubset]
  simp only [ne_eq, toFinset_card_eq_length, not_or, not_not, not_lt]
  constructor
  · intro h
    exact ⟨⟨h.native_length, h.native_nodup, h.native_subset, h.nodup⟩, ⟨h.scored, h.finite⟩,
      h.applied, ⟨h.context_pos, h.current_eq, h.context_le⟩, h.address⟩
  · rintro ⟨⟨hlength, hnative, hsub, hnodup⟩, ⟨hscored, hfinite⟩, happlied,
      ⟨hpos, hcurrent, hcontext⟩, haddress⟩
    exact ⟨hlength, hnative, hsub, hnodup, hscored, hfinite, happlied, hpos, hcurrent, hcontext,
      haddress⟩

/-- A line is taken when it comes after the one before it and is valid for its layer. -/
theorem validateRecord_iff {previous : Option (ℕ × ℕ)} :
    validateRecord isFinite geometry previous row = .ok () ↔
      (∀ p ∈ previous, toLex p < toLex row.key) ∧
        ∃ g, geometry.lookup row.layerId = some g ∧ row.Valid isFinite g := by
  have horder : (previous.any fun p => keyLe row.key p) = true ↔
      ¬ ∀ p ∈ previous, toLex p < toLex row.key := by
    cases previous <;> simp [keyLe_iff]
  unfold validateRecord
  dsimp only
  split
  next hfirst =>
    exact ⟨fun h => (nomatch h), fun h => absurd h.1 (horder.mp hfirst)⟩
  next hfirst =>
    rw [and_iff_right (not_not.mp (mt horder.mpr hfirst))]
    split
    next hnone =>
      rw [hnone]
      exact ⟨fun h => (nomatch h), fun ⟨g, h, _⟩ => (nomatch h)⟩
    next g hlookup =>
      rw [hlookup]
      simp only [Option.some.injEq, exists_eq_left', OracleRecord.valid_iff]
      split_ifs with hnative hscores happlied hgeometry haddress
      · exact ⟨fun h => (nomatch h), fun h => absurd hnative h.1⟩
      · exact ⟨fun h => (nomatch h), fun h => absurd hscores h.2.1⟩
      · exact ⟨fun h => (nomatch h), fun h => absurd happlied h.2.2.1⟩
      · exact ⟨fun h => (nomatch h), fun h => absurd hgeometry h.2.2.2.1⟩
      · exact ⟨fun h => (nomatch h), fun h => absurd haddress h.2.2.2.2⟩
      · exact iff_of_true rfl ⟨hnative, hscores, happlied, hgeometry, haddress⟩

/-- The lines are taken when their keys increase and each is valid. -/
theorem validateRecords_iff {records : List (OracleRecord σ)} {previous : Option (ℕ × ℕ)} :
    validateRecords isFinite geometry previous records = .ok () ↔
      ((previous.toList ++ records.map OracleRecord.key).map toLex).IsChain (· < ·) ∧
        ∀ row ∈ records, ∃ g, geometry.lookup row.layerId = some g ∧ row.Valid isFinite g := by
  induction records generalizing previous with
  | nil => cases previous <;> simp [validateRecords]
  | cons r rest ih =>
    have hbind : validateRecords isFinite geometry previous (r :: rest) = .ok () ↔
        validateRecord isFinite geometry previous r = .ok () ∧
          validateRecords isFinite geometry (some r.key) rest = .ok () := by
      constructor
      · intro h
        obtain ⟨_, hr, hrest⟩ := except_bind_ok h
        exact ⟨hr, hrest⟩
      · rintro ⟨hr, hrest⟩
        unfold validateRecords
        rw [hr]
        exact hrest
    have hchain : ((previous.toList ++ (r :: rest).map OracleRecord.key).map toLex).IsChain
        (· < ·) ↔ (∀ p ∈ previous, toLex p < toLex r.key) ∧
          (((some r.key).toList ++ rest.map OracleRecord.key).map toLex).IsChain (· < ·) := by
      cases previous <;> simp
    rw [hbind, hchain, validateRecord_iff, ih, List.forall_mem_cons]
    tauto

/-- An export is taken when its manifest is right and its lines are. -/
theorem validateExport_iff {m : OracleManifest} {records : List (OracleRecord σ)} :
    validateExport isFinite m records = .ok () ↔
      (m.complete ∧ m.deviceCount = 1 ∧ m.slotBytes = slotBytes) ∧ m.candidatesMatch ∧
        (m.segmentBytes % pageBytes = 0 ∧ m.segmentBytes / 512 ≤ 65535) ∧
        m.snapshotBytes % m.segmentBytes = 0 ∧
        ((records.map OracleRecord.key).map toLex).IsChain (· < ·) ∧
        (∀ row ∈ records, ∃ g, (dictOf (m.layers.map fun l => (l.layerId, l))).lookup row.layerId =
          some g ∧ row.Valid isFinite g) ∧
        records.length = m.records ∧ records ≠ [] := by
  have hrecords : validateRecords isFinite (dictOf (m.layers.map fun l => (l.layerId, l))) none
      records = .ok () ↔ ((records.map OracleRecord.key).map toLex).IsChain (· < ·) ∧
        ∀ row ∈ records, ∃ g, (dictOf (m.layers.map fun l => (l.layerId, l))).lookup row.layerId =
          some g ∧ row.Valid isFinite g :=
    validateRecords_iff
  unfold validateExport
  constructor
  · intro h
    split_ifs at h with hform hmatch hsegment hsnapshot hcount
    any_goals cases h
    · obtain ⟨_, -, h⟩ := except_bind_ok h
      cases h
    obtain ⟨_, hvalid, -⟩ := except_bind_ok h
    obtain ⟨hchain, hrows⟩ := hrecords.mp hvalid
    push Not at hform hsegment hsnapshot hcount
    exact ⟨hform, hmatch, hsegment, hsnapshot, hchain, hrows, hcount.1,
      List.length_eq_zero_iff.not.mp hcount.2⟩
  · rintro ⟨hform, hmatch, hsegment, hsnapshot, hchain, hrows, hcount, hne⟩
    rw [if_neg (by push Not; exact hform), if_neg (not_not.mpr hmatch),
      if_neg (by push Not; exact hsegment), if_neg (not_not.mpr hsnapshot),
      hrecords.mpr ⟨hchain, hrows⟩]
    exact if_neg (by push Not; exact ⟨hcount, List.length_eq_zero_iff.not.mpr hne⟩)

theorem OracleRecord.Valid.native_length_le (h : row.Valid isFinite g) :
    row.native.length ≤ 2048 := by
  have hlength := h.native_length
  omega

theorem validateExport_ok {m : OracleManifest} {records : List (OracleRecord σ)}
    (h : validateExport isFinite m records = .ok ()) : ∀ row ∈ records, row.Sound := by
  intro row hrow
  obtain ⟨-, -, -, -, -, hvalid, -⟩ := validateExport_iff.mp h
  obtain ⟨g, -, hvalid⟩ := hvalid row hrow
  exact ⟨hvalid.nodup, hvalid.native_subset⟩

theorem OracleRecord.tokens_entries (row : OracleRecord σ) :
    row.entries.map (·.token) = row.tokens := by
  rw [OracleRecord.entries, OracleRecord.tokens, List.map_map]
  rfl

end Accepted

section Pools

variable {σ : Type} [LinearOrder σ] {row : OracleRecord σ} {cached : Finset ℤ}
  {budget protectTop : ℤ} {info : Dict ℤ MappingRow} {s : Selection}

theorem mem_eligible (hprotect : 0 ≤ protectTop) {t : ℤ} :
    t ∈ row.eligible cached protectTop ↔ t ∈ row.native ∧ t ∈ scoredTokens row.entries ∧
      t ∉ (scoredTokens row.entries).take protectTop.toNat ∧ t ∉ row.resident cached := by
  unfold OracleRecord.eligible sliceTo scoredTokens
  dsimp only
  rw [if_pos hprotect, Finset.mem_sort, Finset.mem_sdiff, Finset.mem_inter, Finset.mem_union,
    List.mem_toFinset, List.mem_toFinset, List.mem_toFinset]
  tauto

theorem mem_extra {t : ℤ} : t ∈ row.extra cached ↔
    t ∈ scoredTokens row.entries ∧ t ∉ row.native ∧ t ∉ row.resident cached := by
  unfold OracleRecord.extra scoredTokens
  dsimp only
  rw [Finset.mem_sort, Finset.mem_sdiff, Finset.mem_sdiff, List.mem_toFinset, List.mem_toFinset]
  tauto

theorem sides_sublist (swaps : List (ℤ × ℤ)) :
    (swaps.map (·.1)).Sublist (swaps.flatMap fun p => [p.1, p.2]) ∧
      (swaps.map (·.2)).Sublist (swaps.flatMap fun p => [p.1, p.2]) := by
  induction swaps with
  | nil => exact ⟨.refl _, .refl _⟩
  | cons p swaps ih =>
    rw [List.map_cons, List.map_cons, List.flatMap_cons]
    exact ⟨(ih.1.cons p.2).cons_cons p.1, (ih.2.cons_cons p.2).cons p.1⟩

theorem nodup_sides {swaps : List (ℤ × ℤ)} (h : (swaps.flatMap fun p => [p.1, p.2]).Nodup) :
    (swaps.map (·.1)).Nodup ∧ (swaps.map (·.2)).Nodup := by
  obtain ⟨hold, hnew⟩ := sides_sublist swaps
  exact ⟨h.sublist hold, h.sublist hnew⟩

/-- Every token that `select` drops is in the pool of the control. -/
theorem dropped_eligible (hrow : row.Sound) (hprotect : 0 ≤ protectTop)
    (hs : s.Improves row.native.toFinset (row.resident cached) row.entries info budget protectTop) :
    ∀ t ∈ s.swaps.map (·.1), t ∈ row.eligible cached protectTop := by
  intro t ht
  obtain ⟨p, hp, rfl⟩ := List.mem_map.mp ht
  obtain ⟨hnative, hmiss, rank, hrank, hle⟩ := hs.dropped p hp
  have hnodup : (scoredTokens row.entries).Nodup :=
    nodup_scoredTokens (by rw [row.tokens_entries]; exact hrow.nodup)
  refine (mem_eligible hprotect).mpr
    ⟨List.mem_toFinset.mp hnative, List.mem_of_getElem? hrank, fun htop => ?_, hmiss⟩
  have hdrop : p.1 ∈ (scoredTokens row.entries).drop protectTop.toNat := by
    refine List.mem_iff_getElem?.mpr ⟨rank - protectTop.toNat, ?_⟩
    rw [List.getElem?_drop, Nat.add_sub_cancel' (by omega), hrank]
  exact List.disjoint_take_drop hnodup le_rfl htop hdrop

theorem added_extra
    (hs : s.Improves row.native.toFinset (row.resident cached) row.entries info budget protectTop) :
    ∀ t ∈ s.swaps.map (·.2), t ∈ row.extra cached := by
  intro t ht
  obtain ⟨p, hp, rfl⟩ := List.mem_map.mp ht
  obtain ⟨hscored, hnative, hmiss⟩ := hs.added p hp
  exact mem_extra.mpr ⟨hscored, fun h => hnative (List.mem_toFinset.mpr h), hmiss⟩

/-- Both pools are at least as large as the number of swaps. -/
theorem pools_suffice (hrow : row.Sound) (hprotect : 0 ≤ protectTop)
    (hs : s.Improves row.native.toFinset (row.resident cached) row.entries info budget protectTop) :
    s.swaps.length ≤ (row.eligible cached protectTop).length ∧
      s.swaps.length ≤ (row.extra cached).length := by
  obtain ⟨holds, hnews⟩ := nodup_sides hs.distinct
  have hold := (holds.subperm (dropped_eligible hrow hprotect hs)).length_le
  have hnew := (hnews.subperm (added_extra hs)).length_le
  rw [List.length_map] at hold hnew
  exact ⟨hold, hnew⟩

theorem nodup_of_subperm {l pool : List ℤ} (h : l.Subperm pool) (hpool : pool.Nodup) :
    l.Nodup := by
  obtain ⟨l', hperm, hsub⟩ := h
  exact hperm.nodup_iff.mp (hpool.sublist hsub)

/-- What is drawn from the pools passes the check. -/
theorem missOnly_of_drawn (hprotect : 0 ≤ protectTop) {old new : List ℤ}
    (hold : old.Subperm (row.eligible cached protectTop)) (hnew : new.Subperm (row.extra cached))
    (hlen : old.length = new.length) :
    MissOnly row cached (exchange row.native.toFinset old.toFinset new.toFinset) (old.zip new)
      ((exchange row.native.toFinset old.toFinset new.toFinset \ row.resident cached).sort
        (· ≤ ·)) := by
  have holdin : ∀ t ∈ old, t ∈ row.native.toFinset ∧ t ∉ row.resident cached := fun t ht => by
    obtain ⟨hnative, -, -, hmiss⟩ := (mem_eligible hprotect).mp (hold.subset ht)
    exact ⟨List.mem_toFinset.mpr hnative, hmiss⟩
  have hnewin : ∀ t ∈ new, t ∉ row.native.toFinset ∧ t ∉ row.resident cached := fun t ht => by
    obtain ⟨-, hnative, hmiss⟩ := mem_extra.mp (hnew.subset ht)
    exact ⟨fun h => hnative (List.mem_toFinset.mp h), hmiss⟩
  have hcard : old.toFinset.card = new.toFinset.card := by
    rw [List.toFinset_card_of_nodup (nodup_of_subperm hold (Finset.sort_nodup _ _)),
      List.toFinset_card_of_nodup (nodup_of_subperm hnew (Finset.sort_nodup _ _)), hlen]
  have hsame : (exchange row.native.toFinset old.toFinset new.toFinset).card =
      row.native.toFinset.card := by
    refine card_exchange (fun t ht => (holdin t (List.mem_toFinset.mp ht)).1) ?_ hcard
    exact Finset.disjoint_right.mpr fun t ht => (hnewin t (List.mem_toFinset.mp ht)).1
  have hhits : exchange row.native.toFinset old.toFinset new.toFinset ∩ row.resident cached =
      row.native.toFinset ∩ row.resident cached := by
    refine exchange_inter ?_ ?_
    · exact Finset.disjoint_left.mpr fun t ht => (holdin t (List.mem_toFinset.mp ht)).2
    · exact Finset.disjoint_left.mpr fun t ht => (hnewin t (List.mem_toFinset.mp ht)).2
  refine ⟨hsame, hhits, ?_, fun p hp => ?_⟩
  · have hsplit := Finset.card_inter_add_card_sdiff
      (exchange row.native.toFinset old.toFinset new.toFinset) (row.resident cached)
    have hsplit' := Finset.card_inter_add_card_sdiff row.native.toFinset (row.resident cached)
    rw [Finset.length_sort, OracleRecord.nativeMisses]
    rw [hhits] at hsplit
    omega
  · obtain ⟨hpold, hpnew⟩ := List.of_mem_zip (a := p.1) (b := p.2) hp
    exact ⟨Finset.mem_sdiff.mpr (holdin _ hpold), (hnewin _ hpnew).2, (hnewin _ hpnew).1⟩

omit [LinearOrder σ] in
/-- Tokens of the record have an address. -/
theorem mapM_address_isSome {ids : List ℤ} (h : ∀ t ∈ ids, t ∈ row.tokens) :
    (ids.mapM fun t => (dictOf (row.entries.map fun x => (x.token, x.offsetBytes))).lookup t).isSome
    := by
  rw [mapM_lookup_isSome]
  intro t ht
  rw [lookup_dictOf_isSome]
  have htoken := h t ht
  rw [← row.tokens_entries] at htoken
  obtain ⟨x, hx, rfl⟩ := List.mem_map.mp htoken
  exact ⟨x.offsetBytes, List.mem_map.mpr ⟨x, hx, rfl⟩⟩

end Pools

section Control

variable {σ δ ρ : Type} [LinearOrder σ] [LinearOrder δ] (diff : σ → σ → δ) (order : SetOrder)
  (rng : Rng ρ) (state : ρ) {row : OracleRecord σ} (mapping : DenseMapping) (cached : Finset ℤ)
  (cacheDigest : String) (budget : ℤ) {protectTop : ℤ}

/-- The draws succeed where both pools are large enough. -/
theorem randomSwaps_ok {n : ℕ} (hold : n ≤ (row.eligible cached protectTop).length)
    (hnew : n ≤ (row.extra cached).length) :
    ∃ old new, randomSwaps rng state row cached protectTop n = .ok (old, new) ∧ old.length = n ∧
      new.length = n ∧ old.Subperm (row.eligible cached protectTop) ∧
      new.Subperm (row.extra cached) := by
  unfold randomSwaps
  cases hdraw : rng.sample state (row.eligible cached protectTop) n with
  | none =>
    have hlt := (rng.refuses _ _ _).mp hdraw
    omega
  | some result =>
    obtain ⟨old, state'⟩ := result
    dsimp only
    cases hdraw' : rng.sample state' (row.extra cached) n with
    | none =>
      have hlt := (rng.refuses _ _ _).mp hdraw'
      omega
    | some result' =>
      obtain ⟨new, state''⟩ := result'
      exact ⟨old, new, rfl, rng.length _ _ _ _ hdraw, rng.length _ _ _ _ hdraw',
        rng.subperm _ _ _ _ hdraw, rng.subperm _ _ _ _ hdraw'⟩

theorem planRow_unmapped (h : candidateInfo row.entries mapping = none) (strategy : OracleStrategy) :
    planRow diff order rng state row mapping cached cacheDigest strategy budget protectTop =
      .error .keyError := by
  unfold planRow
  rw [h]
  rfl

/-- The plan of the control for a record whose pages are mapped. -/
theorem planRow_random (hrow : row.Sound) (hprotect : 0 ≤ protectTop) {info : Dict ℤ MappingRow}
    (hinfo : candidateInfo row.entries mapping = some info) {s : Selection}
    (hs : selectRow diff order row mapping cached budget protectTop = some s)
    (himproves : s.Improves row.native.toFinset (row.resident cached) row.entries info budget
      protectTop) :
    ∃ plan, planRow diff order rng state row mapping cached cacheDigest .randomMatched budget
        protectTop = .ok plan ∧ plan.swaps.length = s.swaps.length ∧
      MissOnly row cached plan.selected plan.swaps plan.emitted := by
  obtain ⟨hold, hnew⟩ := pools_suffice hrow hprotect himproves
  obtain ⟨old, new, hdraw, holdlen, hnewlen, holdsub, hnewsub⟩ :=
    randomSwaps_ok rng state cached hold hnew
  have hcheck := missOnly_of_drawn hprotect holdsub hnewsub (holdlen.trans hnewlen.symm)
  have htokens : ∀ t ∈ (exchange row.native.toFinset old.toFinset new.toFinset \
      row.resident cached).sort (· ≤ ·), t ∈ row.tokens := by
    intro t ht
    rcases mem_exchange.mp (Finset.mem_sdiff.mp ((Finset.mem_sort _).mp ht)).1 with ⟨hin, -⟩ | hin
    · exact hrow.native t (List.mem_toFinset.mp hin)
    · obtain ⟨hscored, -⟩ := mem_extra.mp (hnewsub.subset (List.mem_toFinset.mp hin))
      obtain ⟨x, hx, rfl, -⟩ := mem_scoredTokens.mp hscored
      rw [← row.tokens_entries]
      exact List.mem_map.mpr ⟨x, hx, rfl⟩
  obtain ⟨loads, hloads⟩ := Option.isSome_iff_exists.mp (pressure_isSome.mpr fun t ht =>
    (lookup_candidateInfo_isSome hinfo).mpr (by rw [row.tokens_entries]; exact htokens t ht))
  obtain ⟨offsets, hoffsets⟩ := Option.isSome_iff_exists.mp (mapM_address_isSome htokens)
  refine ⟨⟨exchange row.native.toFinset old.toFinset new.toFinset, old.zip new,
    (exchange row.native.toFinset old.toFinset new.toFinset \ row.resident cached).sort (· ≤ ·),
    s.initial, objective loads, offsets⟩, ?_, ?_, hcheck⟩
  · unfold planRow chooseRow
    simp only [hinfo, hs, hdraw, lookupError, bind, Except.bind, pure, Except.pure]
    rw [if_pos hcheck, hloads]
    simp only [hoffsets]
  · dsimp only
    rw [List.length_zip, holdlen, hnewlen, Nat.min_self]

/-- For every record of an accepted export the control either fails, as all strategies do, because
a page is not mapped, or draws from pools that are large enough and passes the check. -/
theorem random_control_valid {isFinite : σ → Bool} {m : OracleManifest}
    {records : List (OracleRecord σ)} (h : validateExport isFinite m records = .ok ())
    (hrow : row ∈ records) (hprotect : 0 ≤ protectTop) :
    (∃ x ∈ row.entries, mapping.get (x.offsetBytes / pageBytes) = none) ∧
        planRow diff order rng state row mapping cached cacheDigest .randomMatched budget
          protectTop = .error .keyError ∨
      ∃ s plan, selectRow diff order row mapping cached budget protectTop = some s ∧
        s.swaps.length ≤ (row.eligible cached protectTop).length ∧
        s.swaps.length ≤ (row.extra cached).length ∧
        planRow diff order rng state row mapping cached cacheDigest .randomMatched budget
          protectTop = .ok plan ∧
        plan.swaps.length = s.swaps.length ∧
        MissOnly row cached plan.selected plan.swaps plan.emitted := by
  have hsound := validateExport_ok h row hrow
  have hrows : (row.entries.map (·.token)).Nodup := by
    rw [row.tokens_entries]
    exact hsound.nodup
  have hnative : ∀ t ∈ row.native.toFinset, t ∈ row.entries.map (·.token) := by
    intro t ht
    rw [row.tokens_entries]
    exact hsound.native t (List.mem_toFinset.mp ht)
  obtain ⟨hnone, hsome⟩ := select_improves diff order hrows hnative mapping row.currentToken budget
    protectTop cached
  cases hs : selectRow diff order row mapping cached budget protectTop with
  | none =>
    obtain ⟨x, hx, hpage⟩ := hnone.mp hs
    have hinfo : candidateInfo row.entries mapping = none := by
      rw [← Option.not_isSome_iff_eq_none, candidateInfo_isSome]
      intro hall
      simpa [hpage] using hall x hx
    exact .inl ⟨⟨x, hx, hpage⟩, planRow_unmapped diff order rng state mapping cached cacheDigest
      budget hinfo _⟩
  | some s =>
    obtain ⟨info, hinfo, himproves⟩ := hsome s hs
    obtain ⟨hold, hnew⟩ := pools_suffice hsound hprotect himproves
    obtain ⟨plan, hplan⟩ := planRow_random diff order rng state mapping cached cacheDigest budget
      hsound hprotect hinfo hs himproves
    exact .inr ⟨s, plan, rfl, hold, hnew, hplan⟩

/-- A generator that draws the first elements. -/
def drawFirst : Rng ℕ where
  sample := fun state population n =>
    if population.length < n then none else some (population.take n, state + 1)
  refuses := by
    intro state population n
    split_ifs with hlt <;> simp [hlt]
  length := by
    intro state population n result h
    split_ifs at h with hlt
    obtain rfl := Option.some.inj h
    rw [List.length_take]
    omega
  subperm := by
    intro state population n result h
    split_ifs at h with hlt
    obtain rfl := Option.some.inj h
    exact (List.take_sublist _ _).subperm

/-- A record of `n` native tokens, one token that is not selected, and the current one. -/
def wideRecord (n : ℕ) : OracleRecord ℤ where
  stepId := 0
  layerId := 0
  contextLength := n + 2
  currentToken := n + 1
  native := (List.range n).map fun t : ℕ => (t : ℤ)
  candidates := (List.range (n + 2)).map fun t : ℕ => ⟨⟨t, some (-t), t * slotBytes⟩, 0⟩
  appliedSelected := none
  appliedSwaps := []
  appliedCacheState := ""

def wideManifest (n : ℕ) : OracleManifest :=
  ⟨true, 1, slotBytes, true, pageBytes, (n / 4 + 1) * pageBytes, [⟨0, n + 2, 0⟩], 1⟩

/-- The first `n` pages are on one channel, the others on another. -/
def splitPages (n : ℕ) : DenseMapping :=
  ⟨(List.range (n + 1)).map fun i => ⟨i, i, if i < n then 0 else 1, 0, 0, 0, 0, i⟩⟩

theorem mem_wideRecord_native {n : ℕ} {t : ℤ} : t ∈ (wideRecord n).native ↔ 0 ≤ t ∧ t < n := by
  constructor
  · intro h
    obtain ⟨i, hi, rfl⟩ := List.mem_map.mp h
    have hlt := List.mem_range.mp hi
    omega
  · rintro ⟨hpos, hlt⟩
    exact List.mem_map.mpr ⟨t.toNat, List.mem_range.mpr (by omega), Int.toNat_of_nonneg hpos⟩

theorem wideRecord_tokens (n : ℕ) :
    (wideRecord n).tokens = (List.range (n + 2)).map fun t : ℕ => (t : ℤ) := by
  unfold OracleRecord.tokens wideRecord
  rw [List.map_map]
  rfl

theorem mem_wideRecord_tokens {n : ℕ} {t : ℤ} :
    t ∈ (wideRecord n).tokens ↔ 0 ≤ t ∧ t < n + 2 := by
  rw [wideRecord_tokens]
  constructor
  · intro h
    obtain ⟨i, hi, rfl⟩ := List.mem_map.mp h
    have hlt := List.mem_range.mp hi
    omega
  · rintro ⟨hpos, hlt⟩
    exact List.mem_map.mpr ⟨t.toNat, List.mem_range.mpr (by omega), Int.toNat_of_nonneg hpos⟩

theorem nodup_range_cast (n : ℕ) : ((List.range n).map fun t : ℕ => (t : ℤ)).Nodup :=
  List.nodup_range.map fun _ _ h => Int.ofNat.inj h

theorem wideRecord_valid {n : ℕ} (hn : n = 2048) :
    validateExport (fun _ => true) (wideManifest n) [wideRecord n] = .ok () := by
  refine validateExport_iff.mpr ⟨⟨rfl, rfl, rfl⟩, rfl,
    ⟨Int.emod_self, by show pageBytes / 512 ≤ 65535; decide⟩,
    Int.mul_emod_left _ _,
    List.isChain_singleton _, ?_, rfl, List.cons_ne_nil _ _⟩
  intro row hrow
  obtain rfl := List.mem_singleton.mp hrow
  refine ⟨⟨0, n + 2, 0⟩, rfl, ?_⟩
  constructor
  · simp [wideRecord]
    omega
  · exact nodup_range_cast n
  · intro t ht
    rw [mem_wideRecord_native] at ht
    rw [mem_wideRecord_tokens]
    omega
  · rw [wideRecord_tokens]
    exact nodup_range_cast (n + 2)
  · simp [wideRecord, List.filterMap_map]
    omega
  · exact fun _ _ => rfl
  · intro applied happlied
    cases happlied
  · show (1 : ℤ) ≤ n + 2
    omega
  · show (n : ℤ) + 1 = n + 2 - 1
    omega
  · show (n : ℤ) + 2 ≤ ((n + 2 : ℕ) : ℤ)
    omega
  · intro x hx
    obtain ⟨t, ht, rfl⟩ := List.mem_map.mp hx
    have hlt := List.mem_range.mp ht
    refine ⟨⟨Int.natCast_nonneg t, ?_⟩, rfl, (zero_add _).symm⟩
    show (t : ℤ) < n + 2
    omega

/-- The pages of the record: four tokens to a page, those of the native tokens on channel 0. -/
theorem wideRecord_page {n : ℕ} (hn : n % 4 = 0) {x : CandidateEntry ℤ}
    (hx : x ∈ (wideRecord n).entries) :
    ∃ i : ℕ, (splitPages (n / 4)).get (x.offsetBytes / pageBytes) =
      some ⟨i, i, if x.token < n then 0 else 1, 0, 0, 0, 0, i⟩ := by
  obtain ⟨c, hc, rfl⟩ := List.mem_map.mp hx
  obtain ⟨t, ht, rfl⟩ := List.mem_map.mp hc
  have hlt := List.mem_range.mp ht
  have hpage : ((t : ℤ) * slotBytes) / pageBytes = ((t / 4 : ℕ) : ℤ) := by
    unfold slotBytes pageBytes
    omega
  refine ⟨t / 4, ?_⟩
  dsimp only
  rw [hpage]
  unfold DenseMapping.get splitPages
  have hpages : t / 4 < n / 4 + 1 := by omega
  have hside : t / 4 < n / 4 ↔ (t : ℤ) < n := by omega
  rw [if_neg (by rw [List.length_map, List.length_range]; omega), Int.toNat_natCast,
    List.getElem?_map, List.getElem?_range hpages, Option.map_some]
  simp only [hside]

/-- The resources of a channel, with one chip, die and plane. -/
def channelPath (c : ℕ) : List Resource := [[c], [c, 0], [c, 0, 0], [c, 0, 0, 0]]

theorem wideRecord_path {n : ℕ} (hn : n % 4 = 0) {info : Dict ℤ MappingRow}
    (hinfo : candidateInfo (wideRecord n).entries (splitPages (n / 4)) = some info)
    (score : Dict ℤ ℤ) {t : ℤ} (ht : t ∈ (wideRecord n).tokens) :
    SelectData.path ⟨score, info⟩ t = channelPath (if t < n then 0 else 1) := by
  have hfound : (info.lookup t).isSome := by
    rw [lookup_candidateInfo_isSome hinfo, OracleRecord.tokens_entries]
    exact ht
  obtain ⟨row, hrow⟩ := Option.isSome_iff_exists.mp hfound
  obtain ⟨pairs, rfl, -, hpairs⟩ := candidateInfo_pairs hinfo
  obtain ⟨x, hx, rfl, hget⟩ := hpairs _ (mem_of_lookup_dictOf hrow)
  obtain ⟨i, hpage⟩ := wideRecord_page hn hx
  obtain rfl := Option.some.inj (hpage.symm.trans hget)
  unfold SelectData.path
  rw [hrow]
  rfl

/-- A swap from a channel with load to one without lowers the sum of the squares. -/
theorem delta_channels {d : SelectData ℤ} {loads : Counter Resource} {old new : ℤ}
    (hold : d.path old = channelPath 0) (hnew : d.path new = channelPath 1)
    (hhot : ∀ k ∈ channelPath 0, 2 ≤ loads.get k) (hcold : ∀ k ∈ channelPath 1, loads.get k = 0) :
    (d.swapOf loads old new).delta < 0 := by
  have hchange : (((∅ : Counter Resource).addEach 1 (channelPath 1)).addEach (-1)
      (channelPath 0)).entries =
        (channelPath 0).reverse.map (fun k => ⟨k, -1⟩) ++
          (channelPath 1).reverse.map (fun k => ⟨k, 1⟩) := by decide
  unfold SelectData.swapOf
  dsimp only
  rw [hold, hnew, hchange]
  have h0 := hhot [0] (by decide)
  have h1 := hhot [0, 0] (by decide)
  have h2 := hhot [0, 0, 0] (by decide)
  have h3 := hhot [0, 0, 0, 0] (by decide)
  have g0 := hcold [1] (by decide)
  have g1 := hcold [1, 0] (by decide)
  have g2 := hcold [1, 0, 0] (by decide)
  have g3 := hcold [1, 0, 0, 0] (by decide)
  simp [channelPath, g0, g1, g2, g3]
  omega

theorem wideRecord_mapped {n : ℕ} (hn : n % 4 = 0) :
    ∀ x ∈ (wideRecord n).entries,
      ((splitPages (n / 4)).get (x.offsetBytes / pageBytes)).isSome := by
  intro x hx
  obtain ⟨i, hpage⟩ := wideRecord_page hn hx
  rw [hpage]
  rfl

theorem mem_scoredTokens_wide {n : ℕ} {t : ℤ} :
    t ∈ scoredTokens (wideRecord n).entries ↔ 0 ≤ t ∧ t < n + 2 := by
  rw [← mem_wideRecord_tokens, ← OracleRecord.tokens_entries, mem_scoredTokens, List.mem_map]
  refine exists_congr fun x => and_congr_right fun hx => and_iff_left ?_
  obtain ⟨c, hc, rfl⟩ := List.mem_map.mp hx
  obtain ⟨i, -, rfl⟩ := List.mem_map.mp hc
  rfl

/-- The first round already finds a swap. -/
theorem wideRecord_swaps {n : ℕ} (hn : n % 4 = 0) (hpos : 2 ≤ n) {s : Selection}
    (h : selectRow (fun a b : ℤ => a - b) ascending (wideRecord n) (splitPages (n / 4)) ∅ 4 0 =
      some s) : s.swaps ≠ [] := by
  have hrows : ((wideRecord n).entries.map (·.token)).Nodup := by
    rw [OracleRecord.tokens_entries, wideRecord_tokens]
    exact nodup_range_cast (n + 2)
  obtain ⟨info, hinfo⟩ := Option.isSome_iff_exists.mp
    (candidateInfo_isSome.mpr (wideRecord_mapped hn))
  have hnative : ∀ {t : ℤ}, t ∈ (wideRecord n).native.toFinset ↔ 0 ≤ t ∧ t < n := by
    intro t
    rw [List.mem_toFinset, mem_wideRecord_native]
  have hresident : ∀ {t : ℤ}, t ∈ (insert (wideRecord n).currentToken ∅ : Finset ℤ) ↔
      t = n + 1 := by
    intro t
    rw [Finset.mem_insert, or_iff_left (Finset.notMem_empty t)]
    rfl
  have havailable : ∀ {t : ℤ}, t ∈ selectAvailable (wideRecord n).native.toFinset
      (insert (wideRecord n).currentToken ∅) (wideRecord n).entries ↔ t = n := by
    intro t
    rw [mem_selectAvailable, mem_scoredTokens_wide, hnative, hresident]
    omega
  have hmisses : (wideRecord n).native.toFinset \ insert (wideRecord n).currentToken ∅ =
      (wideRecord n).native.toFinset := by
    refine Finset.sdiff_eq_self_of_disjoint (Finset.disjoint_left.mpr fun t ht hin => ?_)
    rw [hnative] at ht
    rw [hresident] at hin
    omega
  have hpath := @wideRecord_path n hn info hinfo (dictOf (scoredRows (wideRecord n).entries))
  refine select_swaps_ne_nil hinfo (by decide) ?_ ⟨n, havailable.mpr rfl⟩ ?_ h
  · have hzero : (0 : ℤ) ∈ scoredTokens (wideRecord n).entries :=
      mem_scoredTokens_wide.mpr ⟨le_rfl, by omega⟩
    obtain ⟨rank, hrank⟩ := List.mem_iff_getElem?.mp hzero
    refine ⟨0, (mem_selectRemovable hrows).mpr ⟨hnative.mpr ⟨le_rfl, by omega⟩, ?_, rank, hrank,
      Int.natCast_nonneg rank⟩⟩
    rw [hresident]
    omega
  · intro loads hloads old hold new hnew
    obtain rfl := havailable.mp hnew
    obtain ⟨hold0, holdn⟩ := hnative.mp (Finset.mem_filter.mp hold).1
    have hhot : ∀ t ∈ (wideRecord n).native.toFinset,
        SelectData.path ⟨dictOf (scoredRows (wideRecord n).entries), info⟩ t = channelPath 0 := by
      intro t ht
      obtain ⟨ht0, htn⟩ := hnative.mp ht
      rw [hpath (mem_wideRecord_tokens.mpr ⟨ht0, by omega⟩), if_pos htn]
    have hload : ∀ k, loads.get k = n * ((channelPath 0).count k : ℤ) := by
      intro k
      rw [hloads, hmisses, SelectData.load, Finset.sum_congr rfl fun t ht => by rw [hhot t ht],
        Finset.sum_const, nsmul_eq_mul]
      have hcard : (wideRecord n).native.toFinset.card = n := by
        unfold wideRecord
        rw [List.toFinset_card_of_nodup (nodup_range_cast n), List.length_map, List.length_range]
      rw [hcard]
    refine delta_channels (hhot old (hnative.mpr ⟨hold0, holdn⟩)) ?_ ?_ ?_
    · rw [hpath (mem_wideRecord_tokens.mpr ⟨by omega, by omega⟩), if_neg (by omega)]
    · intro k hk
      have hcount : (channelPath 0).count k = 1 :=
        List.count_eq_one_of_mem (by decide) hk
      rw [hload, hcount]
      omega
    · intro k hk
      have hcount : (channelPath 0).count k = 0 := by
        refine List.count_eq_zero.mpr fun hin => ?_
        exact absurd hk ((by decide : ∀ k ∈ channelPath 0, k ∉ channelPath 1) k hin)
      rw [hload, hcount]
      omega

theorem random_control_valid_wide :
    ∃ s plan, selectRow (fun a b => a - b) ascending (wideRecord 2048) (splitPages 512) ∅ 4 0 =
        some s ∧ 0 < s.swaps.length ∧
      planRow (fun a b => a - b) ascending drawFirst 0 (wideRecord 2048) (splitPages 512) ∅ ""
        .randomMatched 4 0 = .ok plan ∧
      plan.swaps.length = s.swaps.length ∧
      MissOnly (wideRecord 2048) ∅ plan.selected plan.swaps plan.emitted := by
  have hprotect : (0 : ℤ) ≤ 0 := le_rfl
  rcases random_control_valid (fun a b => a - b) ascending drawFirst 0 (splitPages 512) ∅ "" 4
    (wideRecord_valid rfl) List.mem_cons_self hprotect with
    ⟨⟨x, hx, hpage⟩, -⟩ | ⟨s, plan, hs, -, -, hplan, hlen, hcheck⟩
  · have hmapped := wideRecord_mapped (n := 2048) rfl x hx
    rw [hpage] at hmapped
    cases hmapped
  · have hswaps := wideRecord_swaps (n := 2048) rfl (by decide) hs
    exact ⟨s, plan, hs, List.length_pos_iff.mpr hswaps, hplan, hlen, hcheck⟩

end Control

end Umm
