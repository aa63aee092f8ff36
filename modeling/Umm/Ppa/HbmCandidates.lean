import Umm.Ppa.BatchLru
import Umm.Lib.Groups

/-! A dump directory as `simulate_hbm_candidates.py` reads it: the files of a layer step by step,
and the record in each of them. -/
namespace Umm
open Umm.Lib

/-- The fields of a record whose selection the online hook replaced. -/
structure AppliedFields where
  overridden : Bool
  selected : List ℤ
  swaps : List (ℤ × ℤ)
  cacheMode : Option String
  cacheStateSha256 : String
  deriving DecidableEq

/-- The contents of a record. A score that is not finite is `none`. -/
structure DumpRecord (σ : Type) where
  layer : String
  seqLensKey : List ℤ
  seqLensQuery : List ℤ
  hasReferenceCandidates : Bool
  indices : List ℤ
  candidateIndices : List ℤ
  candidateScores : List (Option σ)
  strideTokens : Option ℤ
  layerRank : Option ℤ
  applied : Option AppliedFields
  deriving DecidableEq

/-- A file `<group>_s<seq>.pt` or `.json`. -/
structure DumpFile (σ : Type) where
  group : String
  seq : ℕ
  path : String
  record : DumpRecord σ
  deriving DecidableEq

structure LoadedRecord (σ : Type) where
  name : String
  native : List ℤ
  ranked : List ℤ
  scores : List (ℤ × σ)

section

variable {σ : Type}

namespace DumpFile

/-- The native indices that are tokens of the context. -/
def nativeList (f : DumpFile σ) : List ℤ :=
  f.record.indices.filter fun t => 0 ≤ t ∧ t < f.seq

/-- The token is native or a candidate. -/
def Exports (f : DumpFile σ) (t : ℤ) : Prop := t ∈ f.nativeList ∨ t ∈ f.record.candidateIndices

end DumpFile

/-- The step numbers of a layer have no gap. -/
def consecutive (files : List (DumpFile σ)) : Bool :=
  (files.zip files.tail).all fun p => p.2.seq = p.1.seq + 1

def discover (dir : List (DumpFile σ)) :
    Except ValueError (List (String × List (DumpFile σ))) :=
  let groups := (dir.foldl (fun groups f => addTo f.group f groups) []).map fun g =>
    (g.1, g.2.insertionSort (fun a b => a.seq ≤ b.seq))
  let ranges := groups.map fun g =>
    (g.2.head?.map DumpFile.seq, g.2.getLast?.map DumpFile.seq, g.2.length)
  if groups = [] then .error ⟨"No <layer>_s<seq_len>.pt files; pass ONE sample directory"⟩
  else
    match groups.find? (fun g => !consecutive g.2) with
    | some g => .error ⟨g.1 ++ ": duplicate or missing decode steps"⟩
    | none =>
      if ranges.dedup.length ≠ 1 then .error ⟨"Layers do not cover the same decode steps"⟩
      else .ok groups

/-- The files of each layer are in the order of their steps. -/
theorem discover_sorted {dir : List (DumpFile σ)} {groups : List (String × List (DumpFile σ))}
    (h : discover dir = .ok groups) : ∀ g ∈ groups, g.2.Pairwise (fun a b => a.seq ≤ b.seq) := by
  unfold discover at h
  dsimp only at h
  split at h
  · cases h
  split at h
  · cases h
  split at h
  · cases h
  obtain rfl := Except.ok.inj h
  intro g hg
  obtain ⟨g', -, rfl⟩ := List.mem_map.mp hg
  have : Std.Total (fun a b : DumpFile σ => a.seq ≤ b.seq) := ⟨fun a b => Nat.le_total _ _⟩
  have : IsTrans (DumpFile σ) (fun a b => a.seq ≤ b.seq) := ⟨fun a b c => Nat.le_trans⟩
  exact List.pairwise_insertionSort _ _

variable [LinearOrder σ]

/-- The candidates by descending score. -/
def rankCandidates (scored : List (ℤ × σ)) : List ℤ :=
  (scored.insertionSort fun a b => b.2 < a.2 ∨ a.2 = b.2 ∧ a.1 ≤ b.1).map (·.1)

def loadRecord (f : DumpFile σ) : Except ValueError (LoadedRecord σ) :=
  let raw := f.record
  let native := f.nativeList.dedup
  let ids := raw.candidateIndices
  if raw.seqLensKey ≠ [(f.seq : ℤ)] ∨ raw.seqLensQuery ≠ [1] then
    .error ⟨f.path ++ ": requires a single query, single request decode"⟩
  else if !raw.hasReferenceCandidates then
    .error ⟨f.path ++ ": missing reference candidates; native-only traces are insufficient"⟩
  else if native.length ≠ min 2048 f.seq ∨ native.length ≠ f.nativeList.length then
    .error ⟨f.path ++ ": unexpected native count or duplicate native IDs"⟩
  else
    match raw.candidateScores.mapM id with
    | none => .error ⟨f.path ++ ": invalid top-2400 candidates/scores"⟩
    | some scores =>
      if ids.length ≠ min 2400 f.seq ∨ ids.length ≠ scores.length ∨
          ids.dedup.length ≠ ids.length ∨ ∃ t ∈ ids, t < 0 ∨ f.seq ≤ t then
        .error ⟨f.path ++ ": invalid top-2400 candidates/scores"⟩
      else .ok ⟨raw.layer, native, rankCandidates (ids.zip scores), ids.zip scores⟩

/-- A record that is read has its tokens in the context, and lists each of them. -/
theorem loadRecord_ok {f : DumpFile σ} {r : LoadedRecord σ} (h : loadRecord f = .ok r) :
    r.name = f.record.layer ∧ (∀ t, f.Exports t → 0 ≤ t ∧ t < f.seq) ∧
      ∀ t, (t ∈ r.native ∨ t ∈ r.ranked) ↔ f.Exports t := by
  unfold loadRecord at h
  dsimp only at h
  split_ifs at h with h1 h2 h3
  split at h
  · cases h
  next scores hs =>
    split_ifs at h with h4
    obtain rfl := Except.ok.inj h
    push Not at h4
    obtain ⟨-, hlen, -, hin⟩ := h4
    refine ⟨rfl, ?_, ?_⟩
    · rintro t (ht | ht)
      · exact of_decide_eq_true (List.mem_filter.mp ht).2
      · exact hin t ht
    · intro t
      have hranked : t ∈ rankCandidates (f.record.candidateIndices.zip scores) ↔
          t ∈ f.record.candidateIndices := by
        unfold rankCandidates
        rw [(List.perm_insertionSort _ _).map _ |>.mem_iff, List.map_fst_zip hlen.le]
      dsimp only
      rw [List.mem_dedup, hranked]
      rfl

/-- Every ranked token has a score. -/
theorem loadRecord_scores {f : DumpFile σ} {r : LoadedRecord σ} (h : loadRecord f = .ok r) {t : ℤ}
    (ht : t ∈ r.ranked) : (r.scores.lookup t).isSome := by
  unfold loadRecord at h
  dsimp only at h
  split_ifs at h with h1 h2 h3
  split at h
  · cases h
  next scores hs =>
    split_ifs at h with h4
    obtain rfl := Except.ok.inj h
    unfold rankCandidates at ht
    rw [(List.perm_insertionSort _ _).map _ |>.mem_iff] at ht
    obtain ⟨⟨t, s⟩, hin, rfl⟩ := List.mem_map.mp ht
    exact List.lookup_isSome_iff.mpr ⟨(t, s), hin, beq_self_eq_true t⟩

end

end Umm
