import Umm.Ppa.Hook
import Umm.Lib.Reach

/-! The caches of the hook and those of the offline replay. -/
namespace Umm
open Umm.Lib

namespace BatchLru

variable {α : Type*} [LinearOrder α]

theorem sorted_congr {l l' : List α} (h : l.toFinset = l'.toFinset) : sorted l = sorted l' := by
  rw [sorted_eq, sorted_eq, h]

theorem toFinset_sorted (l : List α) : (sorted l).toFinset = l.toFinset := by
  rw [sorted_eq, Finset.sort_toFinset]

/-- Only the set of the tokens counts. -/
theorem commit_sorted (selected : List α) (lru : BatchLru α) :
    lru.commit (sorted selected) = lru.commit selected := by
  unfold commit
  simp only [toFinset_sorted, sorted_congr (toFinset_sorted selected)]

theorem card_le_of_commit {selected : List α} {lru lru' : BatchLru α}
    (h : lru.commit selected = (.ok (), lru')) : (selected.toFinset.card : ℤ) ≤ lru.capacity := by
  unfold commit at h
  dsimp only at h
  split_ifs at h with hbig
  · cases h
  · exact not_lt.mp hbig

end BatchLru

section Calls

variable {δ : Type} {layerId : String → Option ℕ} {lruDigest : List ℤ → δ} {cfg : DumpConfig}
  {ocfg : OverrideConfig} {c : HookCall} {s : HookState δ}

/-- The call gets past the checks, to the selection. -/
def HookCall.Enters (cfg : DumpConfig) (s : HookState δ) (c : HookCall) : Prop :=
  c.skipped cfg = none ∧ c.unfit cfg (s.counters (.dumpsOf c.layerName)) = none

/-- The state in which the selection is made, where no step of the layer is on record. -/
def HookCall.entry (c : HookCall) (s : HookState δ) : HookState δ :=
  if c.marker ≠ s.sample then (s.bump .forwardCalls).rotateSample c.marker
  else s.bump .forwardCalls

/-- The selection is applied: the step does not fall back to native, and the ranks agree on it. -/
def HookCall.Applies (layerId : String → Option ℕ) (lruDigest : List ℤ → δ) (ocfg : OverrideConfig)
    (s : HookState δ) (c : HookCall) : Prop :=
  (∃ a, (applyOverride layerId lruDigest ocfg c (c.entry s)).1 = .ok (some a)) ∧
    (ocfg.verifyRanks = true → c.ranksAgree = true)

theorem counters_dumpsOf_bump (s : HookState δ) (layerName : String) :
    (s.bump .forwardCalls).counters (.dumpsOf layerName) = s.counters (.dumpsOf layerName) := by
  simp [HookState.bump]

/-- A call that does not get to the selection only counts. -/
theorem maybeDump_of_not_enters (hlast : s.lastSeq = fun _ => none) (h : ¬ c.Enters cfg s) :
    ∃ counters, (maybeDump layerId lruDigest cfg (some ocfg) c s).2 =
      { s with counters := counters } := by
  have hlast' : (s.bump .forwardCalls).lastSeq c.layerName = none := congrFun hlast c.layerName
  simp only [maybeDump, Option.isNone_some, Bool.false_and, Bool.false_eq_true, if_false, hlast',
    Option.any_none, counters_dumpsOf_bump]
  split
  · exact ⟨_, rfl⟩
  next hskip =>
    split
    · exact ⟨_, rfl⟩
    next hfit => exact absurd ⟨hskip, hfit⟩ h

/-- A call that applies its selection. -/
theorem maybeDump_of_applies (hlast : s.lastSeq = fun _ => none) (h : c.Enters cfg s)
    {a : AppliedSelection δ} {t : HookState δ}
    (ha : applyOverride layerId lruDigest ocfg c (c.entry s) = (.ok (some a), t))
    (hranks : ocfg.verifyRanks = true → c.ranksAgree = true) :
    (maybeDump layerId lruDigest cfg (some ocfg) c s).2 =
      (dumpStep cfg true (some c.marker) c (some a) t).2 := by
  have hlast' : (s.bump .forwardCalls).lastSeq c.layerName = none := congrFun hlast c.layerName
  have hentry : (if decide (c.marker ≠ (s.bump .forwardCalls).sample) = true then
      (s.bump .forwardCalls).rotateSample c.marker else s.bump .forwardCalls) = c.entry s := by
    unfold HookCall.entry
    simp only [decide_eq_true_eq]
    rfl
  have hverify : (ocfg.verifyRanks && !c.ranksAgree) = false := by
    cases hv : ocfg.verifyRanks with
    | false => rfl
    | true => rw [hranks hv]; rfl
  simp only [maybeDump, Option.isNone_some, Bool.false_and, Bool.false_eq_true, if_false, hlast',
    Option.any_none, Option.all_none, if_true, counters_dumpsOf_bump, h.1, h.2, hentry, ha,
    Option.isSome_some, Option.any_some, Bool.true_and, hverify]
  split
  next e u hu => rw [hu]
  next u hu => rw [hu]

/-- The step committed to the cache of its layer, which is then `lru`. -/
def HookState.withCommit (c : HookCall) (lru : BatchLru ℤ) (s : HookState δ) : HookState δ :=
  { s with
    lrus := Function.update s.lrus c.layerName (some lru)
    committed := s.committed ++ [⟨s.sample, c.layerName, c.seq⟩] }

theorem applyOverride_ok {a : AppliedSelection δ} {t : HookState δ}
    (h : applyOverride layerId lruDigest ocfg c s = (.ok (some a), t)) :
    ∃ lru', ((s.lrus c.layerName).getD (.new ocfg.capacity)).commit c.topkIndices = (.ok (), lru') ∧
      a.cacheState = lruDigest ((s.lrus c.layerName).getD (.new ocfg.capacity)).rows ∧
      t = s.withCommit c lru' := by
  unfold applyOverride at h
  dsimp only at h
  split at h
  · cases h
  · split at h
    · cases h
    · split at h
      · cases h
      · split at h
        · cases h
        · split at h
          · cases h
          next lru' hcommit =>
            cases h
            exact ⟨lru', hcommit, rfl, rfl⟩

/-- A file more. -/
def HookState.written (r : HookRecord δ) (s : HookState δ) : HookState δ :=
  { s with files := s.files ++ [r], ready := true }

theorem HookState.save_eq_written {r : HookRecord δ}
    (hnew : ∀ f ∈ s.files, ¬ (f.sample = r.sample ∧ f.layer = r.layer ∧ f.seq = r.seq)) :
    HookState.save r { s with ready := true } = s.written r := by
  unfold HookState.save HookState.written
  rw [List.filter_eq_self.mpr fun f hf => decide_eq_true (hnew f hf)]

/-- A step that is written for the first time. -/
theorem dumpStep_written (applied : Option (AppliedSelection δ)) (hrank : cfg.dumpRank = true)
    (hdir : cfg.dumpDir = true) {sample : String}
    (hnew : ∀ f ∈ s.files, ¬ (f.sample = sample ∧ f.layer = c.layerName ∧ f.seq = c.seq)) :
    ∃ counters, (dumpStep cfg true (some sample) c applied s).2 =
      { s.written ⟨sample, c.layerName, c.seq, BatchLru.sorted c.topkIndices, applied⟩ with
        counters := counters } := by
  unfold dumpStep
  simp only [hrank, hdir, Bool.not_true, Bool.and_false, Bool.false_eq_true, if_false, if_true]
  rw [HookState.save_eq_written hnew]
  exact ⟨_, rfl⟩

theorem dumpStep_silent (h : ¬ (cfg.dumpRank = true ∧ cfg.dumpDir = true))
    (hready : s.ready = true → cfg.dumpDir = true) (sample : String)
    (applied : Option (AppliedSelection δ)) :
    ∃ counters, (dumpStep cfg true (some sample) c applied s).2 = { s with counters := counters } := by
  unfold dumpStep
  dsimp only
  cases hrank : cfg.dumpRank with
  | false => exact ⟨_, rfl⟩
  | true =>
    have hdir : cfg.dumpDir = false := (Bool.not_eq_true _).mp fun hd => h ⟨hrank, hd⟩
    have hno : s.ready = false := (Bool.not_eq_true _).mp fun hr => by
      rw [hready hr] at hdir
      cases hdir
    rw [if_neg (by decide), if_pos (by rw [hdir, hno]; rfl)]
    exact ⟨_, rfl⟩

end Calls

namespace HookState

variable {δ : Type} {layerId : String → Option ℕ} {lruDigest : List ℤ → δ} {cfg : DumpConfig}
  {ocfg : OverrideConfig} {sample : String} {s : HookState δ}

/-- The files of a layer, as they were written. -/
def records (s : HookState δ) (sample layer : String) : List (HookRecord δ) :=
  s.files.filter fun f => f.sample = sample ∧ f.layer = layer

/-- The steps of the sample that were committed. -/
def commitsOf (s : HookState δ) (sample : String) : List HookCommit :=
  s.committed.filter fun k => k.sample = sample

/-- The cache of each layer holds the selections of its files, in the order of their steps, and
each file has the digest of the cache before it. -/
structure Agrees (lruDigest : List ℤ → δ) (cfg : DumpConfig) (capacity : ℤ) (sample : String)
    (s : HookState δ) : Prop where
  lastSeq : s.lastSeq = fun _ => none
  ready : s.ready = true → cfg.dumpDir = true
  away : s.sample ≠ sample → (∀ f ∈ s.files, f.sample ≠ sample) ∧ s.commitsOf sample = []
  silent : ¬ (cfg.dumpRank = true ∧ cfg.dumpDir = true) → ∀ f ∈ s.files, f.sample ≠ sample
  known : ∀ f ∈ s.files, f.sample = sample → ⟨sample, f.layer, f.seq⟩ ∈ s.commitsOf sample
  once : (s.commitsOf sample).Nodup
  lru : cfg.dumpRank = true ∧ cfg.dumpDir = true → s.sample = sample → ∀ layer,
    (s.lrus layer).getD (.new capacity) =
      BatchLru.commits capacity ((s.records sample layer).map (·.indices))
  increasing : ∀ layer, (s.records sample layer).Pairwise (·.seq < ·.seq)
  digest : ∀ layer pre r post, s.records sample layer = pre ++ r :: post →
    r.applied.map (·.cacheState) =
      some (lruDigest (BatchLru.commits capacity (pre.map (·.indices))).rows)
  fits : ∀ f ∈ s.files, f.sample = sample → (f.indices.toFinset.card : ℤ) ≤ capacity

theorem records_eq_nil (h : ∀ f ∈ s.files, f.sample ≠ sample) (layer : String) :
    s.records sample layer = [] :=
  List.filter_eq_nil_iff.mpr fun f hf hin => h f hf (of_decide_eq_true hin).1

theorem Agrees.counters {capacity : ℤ} (h : s.Agrees lruDigest cfg capacity sample)
    (counters : HookCounter → ℕ) :
    Agrees lruDigest cfg capacity sample { s with counters := counters } :=
  ⟨h.lastSeq, h.ready, h.away, h.silent, h.known, h.once, h.lru, h.increasing, h.digest, h.fits⟩

theorem Agrees.entry {capacity : ℤ} (h : s.Agrees lruDigest cfg capacity sample) {c : HookCall}
    (hmarker : c.marker = sample) :
    (c.entry s).Agrees lruDigest cfg capacity sample ∧ (c.entry s).sample = sample ∧
      (c.entry s).committed = s.committed := by
  unfold HookCall.entry
  split_ifs with hsample
  · rw [hmarker] at hsample
    obtain ⟨hfiles, hcommits⟩ := h.away (Ne.symm hsample)
    refine ⟨⟨rfl, fun hr => (by cases hr), fun hno => absurd hmarker hno, fun _ => hfiles,
      h.known, h.once, fun _ _ layer => ?_, h.increasing, h.digest, h.fits⟩, hmarker, rfl⟩
    show BatchLru.new capacity = BatchLru.commits capacity ((s.records sample layer).map _)
    rw [records_eq_nil hfiles]
    rfl
  · exact ⟨h.counters _, (not_not.mp hsample).symm.trans hmarker, rfl⟩

theorem records_concat {s t : HookState δ} {r : HookRecord δ} (h : t.files = s.files ++ [r])
    (sample layer : String) : t.records sample layer =
      s.records sample layer ++ if r.sample = sample ∧ r.layer = layer then [r] else [] := by
  rw [records, h, List.filter_append, List.filter_singleton]
  congr 1
  by_cases hr : r.sample = sample ∧ r.layer = layer
  · rw [if_pos hr, decide_eq_true hr]
    rfl
  · rw [if_neg hr, decide_eq_false hr]
    rfl

/-- The step comes after those of its layer that were committed. -/
def Later (s : HookState δ) (sample : String) (c : HookCall) : Prop :=
  ∀ k ∈ s.commitsOf sample, k.layer = c.layerName → k.seq < c.seq

theorem commitsOf_withCommit {c : HookCall} {lru : BatchLru ℤ} (hsample : s.sample = sample) :
    (s.withCommit c lru).commitsOf sample =
      s.commitsOf sample ++ [⟨sample, c.layerName, c.seq⟩] := by
  rw [commitsOf, withCommit, List.filter_append, List.filter_cons_of_pos (by simpa using hsample),
    hsample]
  rfl

theorem Agrees.nodup_withCommit {capacity : ℤ} (h : s.Agrees lruDigest cfg capacity sample)
    {c : HookCall} (lru : BatchLru ℤ) (hsample : s.sample = sample) (hlater : s.Later sample c) :
    ((s.withCommit c lru).commitsOf sample).Nodup := by
  rw [commitsOf_withCommit hsample]
  refine List.Nodup.append h.once (List.nodup_singleton _) fun k hk hnew => ?_
  obtain rfl := List.mem_singleton.mp hnew
  exact absurd (hlater _ hk rfl) (lt_irrefl _)

/-- A step that is committed and not written. -/
theorem Agrees.silentStep {capacity : ℤ} (h : s.Agrees lruDigest cfg capacity sample)
    {c : HookCall} (lru : BatchLru ℤ) (hsample : s.sample = sample) (hlater : s.Later sample c)
    (hdump : ¬ (cfg.dumpRank = true ∧ cfg.dumpDir = true)) :
    (s.withCommit c lru).Agrees lruDigest cfg capacity sample :=
  have hnone := h.silent hdump
  ⟨h.lastSeq, h.ready, fun hno => absurd hsample hno, fun _ => hnone,
    fun f hf hin => absurd hin (hnone f hf), h.nodup_withCommit lru hsample hlater,
    fun hyes => absurd hyes hdump, h.increasing, h.digest, h.fits⟩

/-- A step that is committed and written. -/
theorem Agrees.writtenStep {capacity : ℤ} (h : s.Agrees lruDigest cfg capacity sample)
    {c : HookCall} (hsample : s.sample = sample) (hlater : s.Later sample c)
    (hdump : cfg.dumpRank = true ∧ cfg.dumpDir = true) {lru : BatchLru ℤ}
    (hcommit : ((s.lrus c.layerName).getD (.new capacity)).commit c.topkIndices = (.ok (), lru))
    {a : AppliedSelection δ}
    (ha : a.cacheState = lruDigest ((s.lrus c.layerName).getD (.new capacity)).rows) :
    ((s.withCommit c lru).written ⟨sample, c.layerName, c.seq, BatchLru.sorted c.topkIndices,
      some a⟩).Agrees lruDigest cfg capacity sample := by
  generalize hr : (⟨sample, c.layerName, c.seq, BatchLru.sorted c.topkIndices, some a⟩ :
    HookRecord δ) = r
  have hrsample : r.sample = sample := by rw [← hr]
  have hrlayer : r.layer = c.layerName := by rw [← hr]
  have hrseq : r.seq = c.seq := by rw [← hr]
  have hrindices : r.indices = BatchLru.sorted c.topkIndices := by rw [← hr]
  have hrapplied : r.applied = some a := by rw [← hr]
  have hfiles : ((s.withCommit c lru).written r).files = s.files ++ [r] := rfl
  have hrecords : ∀ layer, ((s.withCommit c lru).written r).records sample layer =
      s.records sample layer ++ if c.layerName = layer then [r] else [] := by
    intro layer
    rw [records_concat hfiles, hrsample, hrlayer]
    simp only [true_and]
  have hbefore : ∀ f ∈ s.records sample c.layerName, f.seq < c.seq := by
    intro f hf
    obtain ⟨hmem, hin⟩ := List.mem_filter.mp hf
    obtain ⟨hfs, hfl⟩ := of_decide_eq_true hin
    exact hlater _ (h.known f hmem hfs) hfl
  refine ⟨h.lastSeq, fun _ => hdump.2, fun hno => absurd hsample hno, fun hno => absurd hdump hno,
    ?_, h.nodup_withCommit lru hsample hlater, ?_, ?_, ?_, ?_⟩
  · intro f hf hin
    show _ ∈ (s.withCommit c lru).commitsOf sample
    rw [commitsOf_withCommit hsample]
    rcases List.mem_append.mp (hfiles ▸ hf) with hf | hf
    · exact List.mem_append_left _ (h.known f hf hin)
    · obtain rfl := List.mem_singleton.mp hf
      rw [hrlayer, hrseq]
      exact List.mem_append_right _ (List.mem_singleton_self _)
  · intro _ _ layer
    rw [hrecords]
    show (Function.update s.lrus c.layerName (some lru) layer).getD _ = _
    split_ifs with hlayer
    · rw [← hlayer, Function.update_self, List.map_append, List.map_singleton,
        BatchLru.commits_concat, ← h.lru hdump hsample, hrindices, BatchLru.commit_sorted, hcommit]
      rfl
    · rw [Function.update_of_ne (Ne.symm hlayer), List.append_nil]
      exact h.lru hdump hsample layer
  · intro layer
    rw [hrecords]
    split_ifs with hlayer
    · refine List.pairwise_append.mpr ⟨h.increasing layer, List.pairwise_singleton _ _, ?_⟩
      intro f hf g hg
      obtain rfl := List.mem_singleton.mp hg
      rw [hrseq]
      exact hbefore f (hlayer ▸ hf)
    · rw [List.append_nil]
      exact h.increasing layer
  · intro layer pre r' post heq
    rw [hrecords] at heq
    split_ifs at heq with hlayer
    · rcases List.eq_nil_or_concat post with rfl | ⟨post', x, rfl⟩
      · obtain ⟨hpre, hlast⟩ := List.append_inj' heq rfl
        obtain rfl := (List.cons.inj hlast).1
        rw [hrapplied, ← hpre, ← hlayer, ← h.lru hdump hsample, ← ha]
        rfl
      · rw [List.concat_eq_append, ← List.cons_append, ← List.append_assoc] at heq
        exact h.digest layer pre r' post' (List.append_inj' heq rfl).1
    · rw [List.append_nil] at heq
      exact h.digest layer pre r' post heq
  · intro f hf hin
    rcases List.mem_append.mp (hfiles ▸ hf) with hf | hf
    · exact h.fits f hf hin
    · obtain rfl := List.mem_singleton.mp hf
      have hfit := BatchLru.card_le_of_commit hcommit
      rw [h.lru hdump hsample, BatchLru.capacity_commits] at hfit
      rw [hrindices, BatchLru.toFinset_sorted]
      exact hfit

theorem Agrees.applied {c : HookCall} (h : s.Agrees lruDigest cfg ocfg.capacity sample)
    (hsample : s.sample = sample) (hlater : s.Later sample c) {a : AppliedSelection δ}
    {t : HookState δ} (ha : applyOverride layerId lruDigest ocfg c s = (.ok (some a), t)) :
    (dumpStep cfg true (some sample) c (some a) t).2.Agrees lruDigest cfg ocfg.capacity sample := by
  obtain ⟨lru, hcommit, hdigest, rfl⟩ := applyOverride_ok ha
  by_cases hdump : cfg.dumpRank = true ∧ cfg.dumpDir = true
  · have hnew : ∀ f ∈ (s.withCommit c lru).files,
        ¬ (f.sample = sample ∧ f.layer = c.layerName ∧ f.seq = c.seq) := by
      rintro f hf ⟨hfs, hfl, hfq⟩
      exact absurd (hlater _ (h.known f hf hfs) hfl) (hfq ▸ lt_irrefl _)
    obtain ⟨counters, heq⟩ := dumpStep_written (some a) hdump.1 hdump.2 hnew
    rw [heq]
    exact (h.writtenStep hsample hlater hdump hcommit hdigest).counters counters
  · have hsilent := h.silentStep lru hsample hlater hdump
    obtain ⟨counters, heq⟩ := dumpStep_silent (c := c) hdump hsilent.ready sample (some a)
    rw [heq]
    exact hsilent.counters counters

/-- The call is one of the sample, and a step that gets to the selection applies it and comes after
the steps of its layer. -/
def Orderly (layerId : String → Option ℕ) (lruDigest : List ℤ → δ) (cfg : DumpConfig)
    (ocfg : OverrideConfig) (sample : String) (s : HookState δ) (c : HookCall) : Prop :=
  c.marker = sample ∧
    (c.Enters cfg s → c.Applies layerId lruDigest ocfg s ∧ s.Later sample c)

theorem Agrees.next {c : HookCall} (h : s.Agrees lruDigest cfg ocfg.capacity sample)
    (hc : s.Orderly layerId lruDigest cfg ocfg sample c) :
    (maybeDump layerId lruDigest cfg (some ocfg) c s).2.Agrees lruDigest cfg ocfg.capacity sample := by
  by_cases henter : c.Enters cfg s
  · obtain ⟨⟨⟨a, ha⟩, hranks⟩, hlater⟩ := hc.2 henter
    obtain ⟨hentry, hsample, hcommitted⟩ := h.entry hc.1
    have hpair : applyOverride layerId lruDigest ocfg c (c.entry s) =
        (.ok (some a), (applyOverride layerId lruDigest ocfg c (c.entry s)).2) := Prod.ext ha rfl
    have hlater' : (c.entry s).Later sample c := by
      unfold Later commitsOf
      rw [hcommitted]
      exact hlater
    rw [maybeDump_of_applies h.lastSeq henter hpair hranks, hc.1]
    exact hentry.applied hsample hlater' hpair
  · obtain ⟨counters, heq⟩ := maybeDump_of_not_enters h.lastSeq henter
    rw [heq]
    exact h.counters counters

/-- Nothing of the sample is there yet. -/
structure NewSample (cfg : DumpConfig) (sample : String) (s : HookState δ) : Prop where
  lastSeq : s.lastSeq = fun _ => none
  ready : s.ready = true → cfg.dumpDir = true
  files : ∀ f ∈ s.files, f.sample ≠ sample
  commits : s.commitsOf sample = []
  lrus : s.sample = sample → ∀ layer, s.lrus layer = none

theorem NewSample.agrees (h : s.NewSample cfg sample) (lruDigest : List ℤ → δ) (capacity : ℤ) :
    s.Agrees lruDigest cfg capacity sample := by
  have hrecords := fun layer => records_eq_nil h.files layer
  refine ⟨h.lastSeq, h.ready, fun _ => ⟨h.files, h.commits⟩, fun _ => h.files,
    fun f hf hin => absurd hin (h.files f hf), ?_, ?_, ?_, ?_, fun f hf hin => absurd hin (h.files f hf)⟩
  · rw [h.commits]
    exact List.nodup_nil
  · intro _ hsample layer
    rw [h.lrus hsample, hrecords]
    rfl
  · intro layer
    rw [hrecords]
    exact List.Pairwise.nil
  · intro layer pre r post heq
    rw [hrecords] at heq
    cases pre <;> cases heq

theorem agrees_of_reach
    (h : Reach (NewSample cfg sample) (Guarded (Orderly layerId lruDigest cfg ocfg sample)
      fun s c t => t = (maybeDump layerId lruDigest cfg (some ocfg) c s).2) s) :
    s.Agrees lruDigest cfg ocfg.capacity sample := by
  apply h.invariant (P := Agrees lruDigest cfg ocfg.capacity sample)
  · exact fun s hs => hs.agrees lruDigest ocfg.capacity
  · rintro s c _ hs ⟨hc, rfl⟩
    exact hs.next hc

end HookState

section Replay

variable {δ κ : Type} [DecidableEq κ] {layerId : String → Option ℕ} {lruDigest : List ℤ → δ}
  {cfg : DumpConfig} {ocfg : OverrideConfig} {sample : String} {s : HookState δ}

/-- The cache of a layer after the records. -/
def replayed (capacity : ℤ) (label : String → κ) (k : κ) (records : List (HookRecord δ)) :
    BatchLru ℤ :=
  BatchLru.commits capacity ((records.filter fun r => label r.layer = k).map (·.indices))

theorem replayed_concat_same (capacity : ℤ) (label : String → κ) (records : List (HookRecord δ))
    (r : HookRecord δ) : replayed capacity label (label r.layer) (records ++ [r]) =
      ((replayed capacity label (label r.layer) records).commit r.indices).2 := by
  rw [replayed, List.filter_append, List.filter_cons_of_pos (by simp), List.filter_nil,
    List.map_append, List.map_singleton, BatchLru.commits_concat]
  rfl

theorem replayed_concat_other (capacity : ℤ) {label : String → κ} {k : κ}
    (records : List (HookRecord δ)) {r : HookRecord δ} (h : label r.layer ≠ k) :
    replayed capacity label k (records ++ [r]) = replayed capacity label k records := by
  rw [replayed, List.filter_append, List.filter_cons_of_neg (by simpa using h), List.filter_nil,
    List.append_nil]
  rfl

/-- The replay of records, each with the digest of the cache after the records before it. -/
theorem baselineStates_eq {capacity : ℤ} (hcap : capacity ≠ 0) (label : String → κ)
    {caches : κ → Option (BatchLru ℤ)} {before rows : List (HookRecord δ)}
    (hcaches : ∀ k, (caches k).getD (.new capacity) = replayed capacity label k before)
    (hfits : ∀ r ∈ rows, (r.indices.toFinset.card : ℤ) ≤ capacity)
    (hdigest : ∀ pre r post, rows = pre ++ r :: post → r.applied.map (·.cacheState) =
      some (lruDigest (replayed capacity label (label r.layer) (before ++ pre)).rows)) :
    ∃ states, baselineStates lruDigest capacity caches
        (rows.map fun r => (label r.layer, r.indices)) = .ok states ∧
      states.map (fun st => some st.2) = rows.map fun r => r.applied.map (·.cacheState) := by
  induction rows generalizing caches before with
  | nil => exact ⟨[], rfl, rfl⟩
  | cons r rows ih =>
    have hcommit : ((caches (label r.layer)).getD (.new capacity)).commit r.indices =
        (.ok (), replayed capacity label (label r.layer) (before ++ [r])) := by
      have hfit : ¬ (replayed capacity label (label r.layer) before).capacity <
          r.indices.toFinset.card := by
        rw [replayed, BatchLru.capacity_commits]
        exact not_lt.mpr (hfits r List.mem_cons_self)
      rw [replayed_concat_same, hcaches]
      unfold BatchLru.commit
      rw [if_neg hfit]
    have hcaches' : ∀ k, (Function.update caches (label r.layer)
        (some (replayed capacity label (label r.layer) (before ++ [r]))) k).getD (.new capacity) =
          replayed capacity label k (before ++ [r]) := by
      intro k
      by_cases hk : k = label r.layer
      · rw [hk, Function.update_self]
        rfl
      · rw [Function.update_of_ne hk, hcaches, replayed_concat_other capacity before (Ne.symm hk)]
    obtain ⟨states, hstates, hsame⟩ := ih hcaches'
      (fun r' hr' => hfits r' (List.mem_cons_of_mem _ hr')) (fun pre r' post hrows => by
        rw [List.append_assoc]
        exact hdigest (r :: pre) r' post (by rw [hrows]; rfl))
    refine ⟨(((caches (label r.layer)).getD (.new capacity)).rows, lruDigest
      ((caches (label r.layer)).getD (.new capacity)).rows) :: states, ?_, ?_⟩
    · rw [List.map_cons, baselineStates]
      simp only [if_pos hcap, hcommit, hstates]
    · rw [List.map_cons, List.map_cons, hsame, hdigest [] r rows rfl, List.append_nil, hcaches]

theorem HookState.Agrees.filter_rows {capacity : ℤ} (h : s.Agrees lruDigest cfg capacity sample)
    {rows : List (HookRecord δ)} (hperm : rows.Perm (s.files.filter fun f => f.sample = sample))
    (hrows : rows.Pairwise fun r r' => r.layer = r'.layer → r.seq < r'.seq) (layer : String) :
    (rows.filter fun r => r.layer = layer) = s.records sample layer := by
  have hsame : s.records sample layer =
      (s.files.filter fun f => f.sample = sample).filter fun f => f.layer = layer := by
    rw [List.filter_filter, HookState.records]
    refine List.filter_congr fun f _ => ?_
    rw [Bool.decide_and, Bool.and_comm]
  have hincreasing : (rows.filter fun r => r.layer = layer).Pairwise (·.seq < ·.seq) := by
    refine List.Pairwise.imp_of_mem ?_ (hrows.filter _)
    intro r r' hr hr' himp
    have hl := of_decide_eq_true (List.mem_filter.mp hr).2
    have hl' := of_decide_eq_true (List.mem_filter.mp hr').2
    exact himp (hl.trans hl'.symm)
  refine List.Perm.eq_of_pairwise ?_ hincreasing (h.increasing layer) ?_
  · exact fun r r' _ _ hlt hgt => absurd (hlt.trans hgt) (lt_irrefl _)
  · rw [hsame]
    exact hperm.filter _

theorem HookState.Agrees.replay {capacity : ℤ} (h : s.Agrees lruDigest cfg capacity sample)
    (hcap : capacity ≠ 0) {label : String → κ}
    (hlabel : Set.InjOn label { layer | ∃ f ∈ s.files, f.sample = sample ∧ f.layer = layer })
    {rows : List (HookRecord δ)} (hperm : rows.Perm (s.files.filter fun f => f.sample = sample))
    (hrows : rows.Pairwise fun r r' => r.layer = r'.layer → r.seq < r'.seq) :
    ∃ states, baselineStates lruDigest capacity (fun _ => none)
        (rows.map fun r => (label r.layer, r.indices)) = .ok states ∧
      states.map (fun st => some st.2) = rows.map fun r => r.applied.map (·.cacheState) := by
  have hmem : ∀ r ∈ rows, r ∈ s.files ∧ r.sample = sample := by
    intro r hr
    obtain ⟨hfile, hin⟩ := List.mem_filter.mp (hperm.subset hr)
    exact ⟨hfile, of_decide_eq_true hin⟩
  have hcaches : ∀ k : κ, (none : Option (BatchLru ℤ)).getD (.new capacity) =
      replayed capacity label k ([] : List (HookRecord δ)) := fun k => rfl
  refine baselineStates_eq hcap label hcaches
    (fun r hr => h.fits r (hmem r hr).1 (hmem r hr).2) fun pre r post heq => ?_
  have hlayer := h.filter_rows hperm hrows r.layer
  rw [heq, List.filter_append, List.filter_cons_of_pos (by simp)] at hlayer
  have hsame : ((pre.filter fun r' => label r'.layer = label r.layer) : List (HookRecord δ)) =
      pre.filter fun r' => r'.layer = r.layer := by
    refine List.filter_congr fun r' hr' => ?_
    have hr₁ := hmem r (by rw [heq]; exact List.mem_append_right _ List.mem_cons_self)
    have hr₂ := hmem r' (by rw [heq]; exact List.mem_append_left _ hr')
    refine decide_eq_decide.mpr ⟨fun hl => ?_, fun hl => by rw [hl]⟩
    exact hlabel ⟨r', hr₂.1, hr₂.2, rfl⟩ ⟨r, hr₁.1, hr₁.2, rfl⟩ hl
  rw [List.nil_append, replayed, hsame]
  exact h.digest r.layer _ r _ hlayer.symm

theorem committed_dumpStep (overriding : Bool) (name : String) (c : HookCall)
    (applied : Option (AppliedSelection δ)) :
    (dumpStep cfg overriding (some name) c applied s).2.committed = s.committed := by
  unfold dumpStep
  dsimp only
  split_ifs <;> rfl

/-- A step that was committed is committed again when it comes again. -/
theorem HookState.Agrees.not_nodup (h : s.Agrees lruDigest cfg ocfg.capacity sample)
    {c : HookCall} (hmarker : c.marker = sample) (henter : c.Enters cfg s)
    (happly : c.Applies layerId lruDigest ocfg s)
    (hold : ⟨sample, c.layerName, c.seq⟩ ∈ s.commitsOf sample) :
    ¬ ((maybeDump layerId lruDigest cfg (some ocfg) c s).2.commitsOf sample).Nodup := by
  obtain ⟨⟨a, ha⟩, hranks⟩ := happly
  obtain ⟨-, hsample, hcommitted⟩ := h.entry hmarker
  have hpair : applyOverride layerId lruDigest ocfg c (c.entry s) =
      (.ok (some a), (applyOverride layerId lruDigest ocfg c (c.entry s)).2) := Prod.ext ha rfl
  obtain ⟨lru, -, -, ht⟩ := applyOverride_ok hpair
  have hcommits : (maybeDump layerId lruDigest cfg (some ocfg) c s).2.commitsOf sample =
      s.commitsOf sample ++ [⟨sample, c.layerName, c.seq⟩] := by
    rw [maybeDump_of_applies h.lastSeq henter hpair hranks, HookState.commitsOf,
      committed_dumpStep, ht, ← HookState.commitsOf, HookState.commitsOf_withCommit hsample]
    unfold HookState.commitsOf
    rw [hcommitted]
  rw [hcommits]
  intro hnodup
  exact (List.disjoint_of_nodup_append hnodup) hold (List.mem_singleton_self _)

/-- While each layer gets its steps in order, none twice, every step is committed once and its file
has the digest that the replay of the files finds; a step that comes again is committed again. -/
theorem hook_replay
    (h : Reach (HookState.NewSample cfg sample)
      (Guarded (HookState.Orderly layerId lruDigest cfg ocfg sample)
        fun s c t => t = (maybeDump layerId lruDigest cfg (some ocfg) c s).2) s) :
    (s.commitsOf sample).Nodup ∧
    (∀ label : String → κ,
      Set.InjOn label { layer | ∃ f ∈ s.files, f.sample = sample ∧ f.layer = layer } →
      ∀ rows : List (HookRecord δ), rows.Perm (s.files.filter fun f => f.sample = sample) →
      (rows.Pairwise fun r r' => r.layer = r'.layer → r.seq < r'.seq) →
      ∃ states, baselineStates lruDigest ocfg.capacity (fun _ => none)
          (rows.map fun r => (label r.layer, r.indices)) = .ok states ∧
        states.map (fun st => some st.2) = rows.map fun r => r.applied.map (·.cacheState)) ∧
    ∀ c : HookCall, c.marker = sample → c.Enters cfg s → c.Applies layerId lruDigest ocfg s →
      ⟨sample, c.layerName, c.seq⟩ ∈ s.commitsOf sample →
      ¬ ((maybeDump layerId lruDigest cfg (some ocfg) c s).2.commitsOf sample).Nodup := by
  have hs := HookState.agrees_of_reach h
  have hcap : ocfg.capacity ≠ 0 := by
    have := ocfg.capacity_ge
    omega
  exact ⟨hs.once, fun _ hlabel _ hperm hrows => hs.replay hcap hlabel hperm hrows,
    fun _ hmarker henter happly hold => hs.not_nodup hmarker henter happly hold⟩

end Replay

section Samples

def oneToken : DumpConfig := ⟨true, true, 1, 1, 0⟩

def smallOverride : OverrideConfig := ⟨2048, 4, false, none, 1, by decide, by decide⟩

/-- A decode step of the first layer whose only native token is the last one. -/
def decodeStep (seq : ℤ) : HookCall where
  layerName := "layers.0"
  decodeOnly := true
  enableDsaCp := false
  gotKvCache := true
  singleRequest := true
  seq := seq
  gotStash := true
  headShape := true
  weightShape := true
  topkIndices := [seq - 1]
  gotKeys := true
  finite := true
  marker := "_"
  decision := some [seq - 1]
  swaps := []
  ranksAgree := true

def newProcess : HookState (List ℤ) where
  lastSeq := fun _ => none
  counters := fun _ => 0
  sample := "_"
  ready := false
  lrus := fun _ => none
  files := []
  committed := []

/-- The new process after the calls. -/
def afterSteps (calls : List HookCall) : HookState (List ℤ) :=
  calls.foldl (fun s c => (maybeDump (fun _ => some 0) id oneToken (some smallOverride) c s).2)
    newProcess

/-- Two steps of a layer. -/
theorem hook_replay_twoSteps :
    ∃ s : HookState (List ℤ), s.commitsOf "_" = [⟨"_", "layers.0", 1⟩, ⟨"_", "layers.0", 2⟩] ∧
      s.files.map (fun f => f.applied.map (·.cacheState)) = [some [], some [0]] ∧
      ∃ states, baselineStates id 2048 (fun _ => none)
          (s.files.map fun r => (r.layer, r.indices)) = .ok states ∧
        states.map (fun st => some st.2) = s.files.map fun r => r.applied.map (·.cacheState) := by
  have hstart : Reach (HookState.NewSample oneToken "_")
      (Guarded (HookState.Orderly (fun _ => some 0) id oneToken smallOverride "_")
        fun s c t => t = (maybeDump (fun _ => some 0) id oneToken (some smallOverride) c s).2)
      newProcess := .start ⟨rfl, fun h => (by cases h), fun f hf => (by cases hf), rfl, fun _ _ => rfl⟩
  have hone := hstart.next (decodeStep 1)
    (And.intro ⟨rfl, fun _ => ⟨⟨⟨_, rfl⟩, fun _ => rfl⟩, by unfold HookState.Later; decide⟩⟩ rfl)
  have htwo := hone.next (decodeStep 2)
    (And.intro ⟨rfl, fun _ => ⟨⟨⟨_, rfl⟩, fun _ => rfl⟩, by unfold HookState.Later; decide⟩⟩ rfl)
  refine ⟨afterSteps [decodeStep 1, decodeStep 2], by decide +kernel, by decide +kernel,
    (hook_replay htwo).2.1 id (fun _ _ _ _ h => h) _ ?_ ?_⟩
  · decide +kernel
  · decide +kernel

/-- The first step comes twice: it is committed twice, and its file has the digest of a cache that
already holds its token, where the replay starts from an empty one. -/
theorem hook_replay_again :
    ∃ s : HookState (List ℤ), afterSteps [decodeStep 1, decodeStep 1] = s ∧
      s.commitsOf "_" = [⟨"_", "layers.0", 1⟩, ⟨"_", "layers.0", 1⟩] ∧
      s.files.map (fun f => (f.layer, f.indices, f.applied.map (·.cacheState))) =
        [("layers.0", [0], some [0])] ∧
      baselineStates id 2048 (fun _ => none) [("layers.0", [0])] = .ok [([], [])] := by
  refine ⟨_, rfl, ?_, ?_, ?_⟩
  · decide +kernel
  · decide +kernel
  · rfl

end Samples

end Umm
