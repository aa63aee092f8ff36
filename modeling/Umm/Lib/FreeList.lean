import Umm.Lib.Extent

/-! Lists of free runs: taking the first that is long enough, and giving a run back so that runs
that touch become one. -/
namespace Umm.Lib

/-- Runs in order, none of them empty, no two of them touching. -/
structure Coalesced (l : List Run) : Prop where
  pos : ∀ r ∈ l, 0 < r.len
  gap : l.Pairwise fun r r' => r.start + r.len < r'.start

def Covered (l : List Run) (p : ℕ) : Prop := ∃ r ∈ l, r.Covers p

instance (l : List Run) (p : ℕ) : Decidable (Covered l p) := by
  unfold Covered
  infer_instance

/-- `n` units from the first run that has as many. -/
def takeFirst (n : ℕ) : List Run → Option (ℕ × List Run)
  | [] => none
  | r :: rest =>
    if n ≤ r.len then
      if r.len = n then some (r.start, rest) else some (r.start, ⟨r.start + n, r.len - n⟩ :: rest)
    else (takeFirst n rest).map fun found => (found.1, r :: found.2)

/-- A run is added to runs before it: to the last one, where it touches that. -/
def addRun (merged : List Run) (r : Run) : List Run :=
  match merged.getLast? with
  | some m =>
    if m.start + m.len = r.start then merged.dropLast ++ [⟨m.start, m.len + r.len⟩]
    else merged ++ [r]
  | none => merged ++ [r]

def giveBack (r : Run) (l : List Run) : List Run :=
  ((l ++ [r]).mergeSort fun a b => a.start ≤ b.start).foldl addRun []

section

variable {l l' rest merged : List Run} {r : Run} {n o p : ℕ}

theorem covered_cons : Covered (r :: l) p ↔ r.Covers p ∨ Covered l p := by
  simp [Covered]

theorem covered_append : Covered (l ++ l') p ↔ Covered l p ∨ Covered l' p := by
  simp [Covered, or_and_right, exists_or]

theorem covered_singleton : Covered [r] p ↔ r.Covers p := by
  simp [Covered]

theorem Coalesced.tail (h : Coalesced (r :: l)) : Coalesced l :=
  ⟨fun s hs => h.pos s (List.mem_cons_of_mem _ hs), (List.pairwise_cons.mp h.gap).2⟩

theorem Coalesced.cons (h : Coalesced l) (hr : 0 < r.len)
    (hgap : ∀ s ∈ l, r.start + r.len < s.start) : Coalesced (r :: l) := by
  refine ⟨fun s hs => ?_, List.pairwise_cons.mpr ⟨hgap, h.gap⟩⟩
  rcases List.mem_cons.mp hs with rfl | hs
  · exact hr
  · exact h.pos s hs

/-- What is left lies in the runs there were. -/
theorem takeFirst_start (hl : Coalesced l) (h : takeFirst n l = some (o, l')) :
    ∀ s ∈ l', ∃ r ∈ l, r.start ≤ s.start := by
  induction l generalizing o l' with
  | nil => cases h
  | cons r rest ih =>
    unfold takeFirst at h
    split_ifs at h with hfit heq
    · obtain ⟨rfl, rfl⟩ := Prod.mk.inj (Option.some.inj h)
      exact fun s hs => ⟨s, List.mem_cons_of_mem _ hs, le_rfl⟩
    · obtain ⟨rfl, rfl⟩ := Prod.mk.inj (Option.some.inj h)
      intro s hs
      rcases List.mem_cons.mp hs with rfl | hs
      · exact ⟨r, List.mem_cons_self, Nat.le_add_right _ _⟩
      · exact ⟨s, List.mem_cons_of_mem _ hs, le_rfl⟩
    · obtain ⟨found, hfound, he⟩ := Option.map_eq_some_iff.mp h
      obtain ⟨rfl, rfl⟩ := Prod.mk.inj he
      intro s hs
      rcases List.mem_cons.mp hs with rfl | hs
      · exact ⟨s, List.mem_cons_self, le_rfl⟩
      · obtain ⟨r', hr', hle⟩ := ih hl.tail hfound s hs
        exact ⟨r', List.mem_cons_of_mem _ hr', hle⟩

theorem Coalesced.takeFirst (hl : Coalesced l) (hn : 0 < n)
    (h : takeFirst n l = some (o, l')) : Coalesced l' ∧
      (∀ p, Covered l p ↔ Run.Covers ⟨o, n⟩ p ∨ Covered l' p) ∧
      ∀ p, Run.Covers ⟨o, n⟩ p → ¬ Covered l' p := by
  induction l generalizing o l' with
  | nil => cases h
  | cons r rest ih =>
    have hgap := (List.pairwise_cons.mp hl.gap).1
    unfold Lib.takeFirst at h
    split_ifs at h with hfit heq
    · obtain ⟨rfl, rfl⟩ := Prod.mk.inj (Option.some.inj h)
      refine ⟨hl.tail, fun p => ?_, ?_⟩
      · rw [covered_cons, ← heq]
      · rintro p hp ⟨s, hs, hsp⟩
        have := hgap s hs
        unfold Run.Covers at hp hsp
        dsimp only at hp
        omega
    · obtain ⟨rfl, rfl⟩ := Prod.mk.inj (Option.some.inj h)
      have hlt : n < r.len := by omega
      refine ⟨hl.tail.cons (Nat.sub_pos_of_lt hlt) fun s hs => ?_, fun p => ?_, fun p hp => ?_⟩
      · have := hgap s hs
        change r.start + n + (r.len - n) < s.start
        omega
      · rw [covered_cons, covered_cons, ← or_assoc]
        refine or_congr_left ?_
        unfold Run.Covers
        dsimp only
        omega
      · rw [covered_cons]
        rintro (hsp | ⟨s, hs, hsp⟩)
        · unfold Run.Covers at hp hsp
          dsimp only at hp hsp
          omega
        · have := hgap s hs
          unfold Run.Covers at hp hsp
          dsimp only at hp hsp
          omega
    · obtain ⟨found, hfound, he⟩ := Option.map_eq_some_iff.mp h
      obtain ⟨rfl, rfl⟩ := Prod.mk.inj he
      obtain ⟨hco, hcov, hout⟩ := ih hl.tail hfound
      have hr := hl.pos r List.mem_cons_self
      refine ⟨hco.cons hr fun s hs => ?_, fun p => ?_, fun p hp => ?_⟩
      · obtain ⟨r', hr', hle⟩ := takeFirst_start hl.tail hfound s hs
        exact (hgap r' hr').trans_le hle
      · rw [covered_cons, covered_cons, hcov]
        exact or_left_comm
      · rw [covered_cons]
        rintro (hrp | hin)
        · obtain ⟨s, hs, hsp⟩ := (hcov p).mpr (.inl hp)
          have := hgap s hs
          unfold Run.Covers at hrp hsp
          omega
        · exact hout p hp hin

/-- Adding a run that lies behind all the others. -/
theorem Coalesced.addRun (hm : Coalesced merged) (hr : 0 < r.len)
    (hbehind : ∀ m ∈ merged, m.start + m.len ≤ r.start) :
    Coalesced (addRun merged r) ∧ (∀ p, Covered (addRun merged r) p ↔ Covered merged p ∨ r.Covers p) ∧
      ∀ m ∈ Lib.addRun merged r, m.start + m.len ≤ r.start + r.len := by
  have happend : (∀ m ∈ merged, m.start + m.len < r.start) → Coalesced (merged ++ [r]) := by
    intro hlt
    refine ⟨fun m hmem => ?_, List.pairwise_append.mpr ⟨hm.gap, List.pairwise_singleton _ _, ?_⟩⟩
    · rcases List.mem_append.mp hmem with hmem | hmem
      · exact hm.pos m hmem
      · rwa [List.mem_singleton.mp hmem]
    · intro m hmem r' hr'
      rw [List.mem_singleton.mp hr']
      exact hlt m hmem
  have hends : ∀ m ∈ merged ++ [r], m.start + m.len ≤ r.start + r.len := by
    intro m hmem
    rcases List.mem_append.mp hmem with hmem | hmem
    · exact (hbehind m hmem).trans (Nat.le_add_right _ _)
    · rw [List.mem_singleton.mp hmem]
  have hcover : ∀ p, Covered (merged ++ [r]) p ↔ Covered merged p ∨ r.Covers p := by
    intro p
    rw [covered_append, covered_singleton]
  unfold Lib.addRun
  cases hlast : merged.getLast? with
  | none =>
    have hnil : merged = [] := List.getLast?_eq_none_iff.mp hlast
    refine ⟨happend fun m hmem => ?_, hcover, hends⟩
    rw [hnil] at hmem
    cases hmem
  | some m =>
    obtain ⟨init, rfl⟩ := List.getLast?_eq_some_iff.mp hlast
    obtain ⟨hinit, -, hgap⟩ := List.pairwise_append.mp hm.gap
    have hgap' : ∀ a ∈ init, a.start + a.len < m.start :=
      fun a ha => hgap a ha m (List.mem_singleton.mpr rfl)
    have hlen : 0 < m.len := hm.pos m (List.mem_append_right _ (List.mem_singleton.mpr rfl))
    dsimp only
    split_ifs with htouch
    · rw [List.dropLast_concat]
      refine ⟨⟨fun a ha => ?_, List.pairwise_append.mpr ⟨hinit, List.pairwise_singleton _ _, ?_⟩⟩,
        fun p => ?_, fun a ha => ?_⟩
      · rcases List.mem_append.mp ha with ha | ha
        · exact hm.pos a (List.mem_append_left _ ha)
        · rw [List.mem_singleton.mp ha]
          exact Nat.add_pos_left hlen _
      · intro a ha b hb
        rw [List.mem_singleton.mp hb]
        exact hgap' a ha
      · rw [covered_append, covered_append, covered_singleton, covered_singleton, or_assoc]
        refine or_congr_right ?_
        unfold Run.Covers
        dsimp only
        omega
      · rcases List.mem_append.mp ha with ha | ha
        · have := hgap' a ha
          omega
        · rw [List.mem_singleton.mp ha]
          dsimp only
          omega
    · refine ⟨happend fun a ha => ?_, hcover, hends⟩
      have hm' := hbehind m (List.mem_append_right _ (List.mem_singleton.mpr rfl))
      rcases List.mem_append.mp ha with ha | ha
      · have := hgap' a ha
        omega
      · rw [List.mem_singleton.mp ha]
        omega

theorem Coalesced.foldl_addRun (hm : Coalesced merged) (hpos : ∀ r ∈ l, 0 < r.len)
    (hl : l.Pairwise fun r r' => r.start + r.len ≤ r'.start)
    (hbehind : ∀ m ∈ merged, ∀ r ∈ l, m.start + m.len ≤ r.start) :
    Coalesced (l.foldl Lib.addRun merged) ∧
      ∀ p, Covered (l.foldl Lib.addRun merged) p ↔ Covered merged p ∨ Covered l p := by
  induction l generalizing merged with
  | nil => exact ⟨hm, fun p => by simp [Covered]⟩
  | cons r rest ih =>
    rw [List.pairwise_cons] at hl
    obtain ⟨hco, hcov, hends⟩ := hm.addRun (hpos r List.mem_cons_self)
      fun m hmem => hbehind m hmem r List.mem_cons_self
    obtain ⟨hco', hcov'⟩ := ih hco (fun s hs => hpos s (List.mem_cons_of_mem _ hs)) hl.2
      fun m hmem s hs => (hends m hmem).trans (hl.1 s hs)
    refine ⟨hco', fun p => ?_⟩
    rw [List.foldl_cons, hcov', hcov, covered_cons, or_assoc]

/-- A run that was not free goes back to the free ones. -/
theorem Coalesced.giveBack (hl : Coalesced l) (hr : 0 < r.len)
    (hout : ∀ p, r.Covers p → ¬ Covered l p) :
    Coalesced (giveBack r l) ∧ ∀ p, Covered (giveBack r l) p ↔ Covered l p ∨ r.Covers p := by
  have hperm := List.mergeSort_perm (l ++ [r]) fun a b => decide (a.start ≤ b.start)
  have hsorted : ((l ++ [r]).mergeSort fun a b => decide (a.start ≤ b.start)).Pairwise
      fun a b => decide (a.start ≤ b.start) = true :=
    List.pairwise_mergeSort
      (fun a b c hab hbc => decide_eq_true ((of_decide_eq_true hab).trans (of_decide_eq_true hbc)))
      (fun a b => by simp [Nat.le_total]) (l ++ [r])
  have hpos : ∀ s ∈ l ++ [r], 0 < s.len := by
    intro s hs
    rcases List.mem_append.mp hs with hs | hs
    · exact hl.pos s hs
    · rwa [List.mem_singleton.mp hs]
  have hapart : (l ++ [r]).Pairwise Run.Apart := by
    refine List.pairwise_append.mpr ⟨?_, List.pairwise_singleton _ _, ?_⟩
    · refine hl.gap.imp fun {a b} hlt p ha hb => ?_
      unfold Run.Covers at ha hb
      omega
    · intro a ha b hb p hap hbp
      rw [List.mem_singleton.mp hb] at hbp
      exact hout p hbp ⟨a, ha, hap⟩
  unfold Lib.giveBack
  generalize (l ++ [r]).mergeSort (fun a b => decide (a.start ≤ b.start)) = sorted at hperm hsorted
  have hpos' : ∀ s ∈ sorted, 0 < s.len := fun s hs => hpos s (hperm.subset hs)
  have hapart' : sorted.Pairwise Run.Apart :=
    (hperm.pairwise_iff fun h => h.symm).mpr hapart
  -- in order of their starts, apart and not empty: each ends before the next one starts
  have hends : sorted.Pairwise fun a b => a.start + a.len ≤ b.start := by
    refine (hsorted.and hapart').imp_of_mem fun {a b} ha hb hab => ?_
    have hle := of_decide_eq_true hab.1
    have hb' := hpos' b hb
    by_contra hlt
    exact hab.2 b.start ⟨hle, by omega⟩ ⟨le_rfl, by omega⟩
  have hnil : Coalesced [] := ⟨fun s hs => (by cases hs), .nil⟩
  obtain ⟨hco, hcov⟩ := hnil.foldl_addRun hpos' hends fun m hm => by cases hm
  refine ⟨hco, fun p => ?_⟩
  rw [hcov, show Covered [] p ↔ False by simp [Covered], false_or, ← covered_singleton (r := r),
    ← covered_append]
  exact ⟨fun ⟨s, hs, hp⟩ => ⟨s, hperm.subset hs, hp⟩,
    fun ⟨s, hs, hp⟩ => ⟨s, hperm.symm.subset hs, hp⟩⟩

/-- Where everything is free there is one run. -/
theorem Coalesced.eq_single (hl : Coalesced l) {total : ℕ} (htotal : 0 < total)
    (h : ∀ p, Covered l p ↔ p < total) : l = [⟨0, total⟩] := by
  cases l with
  | nil =>
    obtain ⟨s, hs, -⟩ := (h 0).mpr htotal
    cases hs
  | cons r rest =>
    have hgap := (List.pairwise_cons.mp hl.gap).1
    have hpos := hl.pos r List.mem_cons_self
    have hstart : r.start = 0 := by
      obtain ⟨s, hs, hsp⟩ := (h 0).mpr htotal
      unfold Run.Covers at hsp
      rcases List.mem_cons.mp hs with rfl | hs
      · omega
      · have := hgap s hs
        omega
    have hle : r.len ≤ total := by
      have := (h (r.len - 1)).mp ⟨r, List.mem_cons_self, by omega, by omega⟩
      omega
    have hge : total ≤ r.len := by
      by_contra hlt
      obtain ⟨s, hs, hsp⟩ := (h r.len).mpr (by omega)
      unfold Run.Covers at hsp
      rcases List.mem_cons.mp hs with rfl | hs
      · omega
      · have := hgap s hs
        omega
    have hrest : rest = [] := by
      refine List.eq_nil_iff_forall_not_mem.mpr fun s hs => ?_
      have := hgap s hs
      have hs' := hl.pos s (List.mem_cons_of_mem _ hs)
      have := (h s.start).mp ⟨s, List.mem_cons_of_mem _ hs, le_rfl, by omega⟩
      omega
    have hr : r = ⟨0, total⟩ := by
      cases r
      dsimp only at hstart hle hge
      rw [hstart, le_antisymm hle hge]
    rw [hrest, hr]

/-- No run reaches beyond the end of the space. -/
def FitsIn (total : ℕ) (l : List Run) : Prop := ∀ r ∈ l, r.start + r.len ≤ total

theorem FitsIn.takeFirst {total : ℕ} (hl : FitsIn total l) (h : takeFirst n l = some (o, l')) :
    o + n ≤ total ∧ FitsIn total l' := by
  induction l generalizing o l' with
  | nil => cases h
  | cons r rest ih =>
    obtain ⟨hr, hrest⟩ := List.forall_mem_cons.mp hl
    unfold Lib.takeFirst at h
    split_ifs at h with hfit heq
    · obtain ⟨rfl, rfl⟩ := Prod.mk.inj (Option.some.inj h)
      exact ⟨by omega, hrest⟩
    · obtain ⟨rfl, rfl⟩ := Prod.mk.inj (Option.some.inj h)
      refine ⟨by omega, List.forall_mem_cons.mpr ⟨?_, hrest⟩⟩
      dsimp only
      omega
    · obtain ⟨⟨o', l''⟩, hfound, he⟩ := Option.map_eq_some_iff.mp h
      obtain ⟨rfl, rfl⟩ := Prod.mk.inj he
      obtain ⟨hle, hl''⟩ := ih hrest hfound
      exact ⟨hle, List.forall_mem_cons.mpr ⟨hr, hl''⟩⟩

theorem FitsIn.addRun {total : ℕ} (hm : FitsIn total merged) (hr : r.start + r.len ≤ total) :
    FitsIn total (addRun merged r) := by
  have happend : FitsIn total (merged ++ [r]) :=
    List.forall_mem_append.mpr ⟨hm, List.forall_mem_singleton.mpr hr⟩
  unfold Lib.addRun
  split
  next m hlast =>
    split_ifs with hend
    · have hdrop : ∀ s ∈ merged.dropLast, s.start + s.len ≤ total :=
        fun s hs => hm s (List.mem_of_mem_dropLast hs)
      refine List.forall_mem_append.mpr ⟨hdrop, List.forall_mem_singleton.mpr ?_⟩
      dsimp only
      omega
    · exact happend
  next => exact happend

theorem FitsIn.foldl_addRun {total : ℕ} (hl : FitsIn total l) (hm : FitsIn total merged) :
    FitsIn total (l.foldl Lib.addRun merged) := by
  induction l generalizing merged with
  | nil => exact hm
  | cons r rest ih =>
    obtain ⟨hr, hrest⟩ := List.forall_mem_cons.mp hl
    exact ih hrest (hm.addRun hr)

/-- Also a run that overlaps others can be given back. -/
theorem FitsIn.giveBack {total : ℕ} (hl : FitsIn total l) (hr : r.start + r.len ≤ total) :
    FitsIn total (giveBack r l) := by
  have happend : FitsIn total (l ++ [r]) :=
    List.forall_mem_append.mpr ⟨hl, List.forall_mem_singleton.mpr hr⟩
  refine FitsIn.foldl_addRun (fun s hs => ?_) (fun s hs => by cases hs)
  exact happend s (List.mem_mergeSort.mp hs)

end

end Umm.Lib
