import Umm.Lib.Reach

/-! Endless runs of parties that take turns, where whoever could act all the time does act at last,
and the rules by which something comes about in every such run. -/
namespace Umm.Lib

variable {σ ι α : Type*}

/-- `label n` is what happens after the state `n`: nothing, or a step, which may be somebody's. -/
structure FairRun (init : σ → Prop) (step : σ → ι → σ → Prop) (actor : ι → Option α)
    (enabled : α → σ → Prop) where
  state : ℕ → σ
  label : ℕ → Option ι
  start : init (state 0)
  idle : ∀ n, label n = none → state (n + 1) = state n
  move : ∀ n i, label n = some i → step (state n) i (state (n + 1))
  fair : ∀ n a, ∃ m, n ≤ m ∧ ((label m).bind actor = some a ∨ ¬ enabled a (state m))

namespace FairRun

variable {init : σ → Prop} {step : σ → ι → σ → Prop} {actor : ι → Option α}
  {enabled : α → σ → Prop} (r : FairRun init step actor enabled)

def Acts (a : α) (n : ℕ) : Prop :=
  (r.label n).bind actor = some a

theorem reach (n : ℕ) : Reach init step (r.state n) := by
  induction n with
  | zero => exact .start r.start
  | succ n ih =>
    cases hl : r.label n with
    | none =>
      rw [r.idle n hl]
      exact ih
    | some i => exact ih.next i (r.move n i hl)

/-- What the steps of some kind keep holds all through a run that takes no others. -/
theorem invariant_of_labels {P : σ → Prop} {A : ι → Prop} (hinit : ∀ s, init s → P s)
    (hstep : ∀ s i t, A i → P s → step s i t → P t)
    (hlabels : ∀ n i, r.label n = some i → A i) (n : ℕ) : P (r.state n) := by
  induction n with
  | zero => exact hinit _ r.start
  | succ n ih =>
    cases hl : r.label n with
    | none =>
      rw [r.idle n hl]
      exact ih
    | some i => exact hstep _ i _ (hlabels n i hl) ih (r.move n i hl)

/-- What every step keeps unless it reaches the goal, with a rank that never grows on the way. -/
theorem keeps_or {P Q : σ → Prop} {rank : σ → ℕ}
    (hstep : ∀ s i t, P s → step s i t → Q t ∨ P t ∧ rank t ≤ rank s) {m n : ℕ}
    (hP : P (r.state n)) (hnm : n ≤ m) :
    (∃ k, n ≤ k ∧ Q (r.state k)) ∨ P (r.state m) ∧ rank (r.state m) ≤ rank (r.state n) := by
  induction m, hnm using Nat.le_induction with
  | base => exact .inr ⟨hP, le_rfl⟩
  | succ m hnm ih =>
    obtain hQ | ⟨hPm, hle⟩ := ih
    · exact .inl hQ
    cases hl : r.label m with
    | none =>
      rw [r.idle m hl]
      exact .inr ⟨hPm, hle⟩
    | some i =>
      obtain hQ | ⟨hPs, hless⟩ := hstep _ i _ hPm (r.move m i hl)
      · exact .inl ⟨m + 1, Nat.le_succ_of_le hnm, hQ⟩
      · exact .inr ⟨hPs, hless.trans hle⟩

/-- What the others leave holds until the party acts. -/
theorem acts_or {P : σ → Prop} {a : α} (hother : ∀ s i t, P s → step s i t → actor i ≠ some a → P t)
    {m n : ℕ} (hP : P (r.state n)) (hnm : n ≤ m) : (∃ k, n ≤ k ∧ r.Acts a k) ∨ P (r.state m) := by
  induction m, hnm using Nat.le_induction with
  | base => exact .inr hP
  | succ m hnm ih =>
    obtain hacts | hPm := ih
    · exact .inl hacts
    cases hl : r.label m with
    | none =>
      rw [r.idle m hl]
      exact .inr hPm
    | some i =>
      by_cases hi : actor i = some a
      · refine .inl ⟨m, hnm, ?_⟩
        unfold Acts
        rw [hl]
        exact hi
      · exact .inr (hother _ i _ hPm (r.move m i hl) hi)

/-- A party that the others leave able to act acts. -/
theorem eventually_acts {P : σ → Prop} {a : α}
    (hother : ∀ s i t, P s → step s i t → actor i ≠ some a → P t)
    (henabled : ∀ s, P s → enabled a s) {n : ℕ} (hP : P (r.state n)) :
    ∃ m, n ≤ m ∧ r.Acts a m := by
  obtain ⟨m, hnm, hacts | hnot⟩ := r.fair n a
  · exact ⟨m, hnm, hacts⟩
  obtain hacts | hPm := r.acts_or hother hP hnm
  · exact hacts
  · exact absurd (henabled _ hPm) hnot

section Rank

variable {P Q : σ → Prop} {a : α} (rank : σ → ℕ)
  (hother : ∀ s i t, P s → step s i t → actor i ≠ some a → Q t ∨ P t ∧ rank t ≤ rank s)
  (hown : ∀ s i t, P s → step s i t → actor i = some a → Q t ∨ P t ∧ rank t < rank s)
include hother hown

theorem keeps_or_of_rank {m n : ℕ} (hP : P (r.state n)) (hnm : n ≤ m) :
    (∃ k, n ≤ k ∧ Q (r.state k)) ∨ P (r.state m) ∧ rank (r.state m) ≤ rank (r.state n) := by
  refine r.keeps_or (fun s i t hs ht => ?_) hP hnm
  by_cases hi : actor i = some a
  · obtain hQ | ⟨hPt, hlt⟩ := hown s i t hs ht hi
    · exact .inl hQ
    · exact .inr ⟨hPt, hlt.le⟩
  · exact hother s i t hs ht hi

/-- A party whose turns bring the goal nearer, and to which a turn always comes, reaches it. -/
theorem eventually_of_turns
    (hturn : ∀ n, P (r.state n) → ∃ m, n ≤ m ∧ (Q (r.state m) ∨ r.Acts a m)) {n : ℕ}
    (hP : P (r.state n)) : ∃ m, n ≤ m ∧ Q (r.state m) := by
  induction hk : rank (r.state n) using Nat.strong_induction_on generalizing n with
  | _ k ih =>
    obtain ⟨m, hnm, hQ | hacts⟩ := hturn n hP
    · exact ⟨m, hnm, hQ⟩
    obtain ⟨k', hk', hQ⟩ | ⟨hPm, hle⟩ := r.keeps_or_of_rank rank hother hown hP hnm
    · exact ⟨k', hk', hQ⟩
    obtain ⟨i, hl, hi⟩ := Option.bind_eq_some_iff.mp hacts
    obtain hQ | ⟨hPs, hlt⟩ := hown _ i _ hPm (r.move m i hl) hi
    · exact ⟨m + 1, Nat.le_succ_of_le hnm, hQ⟩
    obtain ⟨m', hm', hQ⟩ := ih _ (by omega) hPs rfl
    exact ⟨m', by omega, hQ⟩

/-- A party that can act until the goal is reached gets its turns. -/
theorem eventually_of_enabled (henabled : ∀ s, P s → enabled a s) {n : ℕ}
    (hP : P (r.state n)) : ∃ m, n ≤ m ∧ Q (r.state m) := by
  refine r.eventually_of_turns rank hother hown (fun n hP => ?_) hP
  obtain ⟨m, hnm, hacts | hnot⟩ := r.fair n a
  · exact ⟨m, hnm, .inr hacts⟩
  obtain ⟨k, hk, hQ⟩ | ⟨hPm, _⟩ := r.keeps_or_of_rank rank hother hown hP hnm
  · exact ⟨k, hk, .inl hQ⟩
  · exact absurd (henabled _ hPm) hnot

end Rank

/-- Labels that lead to where nobody can act are a run that stays there. -/
theorem exists_of_foldlM {next : σ → ι → Option σ} {s t : σ} {labels : List ι} (hs : init s)
    (ht : labels.foldlM next s = some t) (hstuck : ∀ a, ¬ enabled a t) :
    ∃ r : FairRun init (fun s i t => next s i = some t) actor enabled,
      ∀ m, labels.length ≤ m → r.state m = t := by
  have hend : ∀ m, labels.length ≤ m → ((labels.take m).foldlM next s).getD t = t := by
    intro m hm
    rw [List.take_of_length_le hm, ht, Option.getD_some]
  have hfront : ∀ n, ∃ u, (labels.take n).foldlM next s = some u := by
    intro n
    rw [← List.take_append_drop n labels, List.foldlM_append] at ht
    obtain ⟨u, hu, _⟩ := Option.bind_eq_some_iff.mp ht
    exact ⟨u, hu⟩
  refine ⟨⟨fun n => ((labels.take n).foldlM next s).getD t, fun n => labels[n]?, hs, ?_, ?_, ?_⟩, hend⟩
  · intro n hn
    have hle := List.getElem?_eq_none_iff.mp hn
    rw [hend n hle, hend (n + 1) (Nat.le_succ_of_le hle)]
  · intro n i hn
    obtain ⟨u, hu⟩ := hfront n
    obtain ⟨v, hv⟩ := hfront (n + 1)
    rw [hu, hv, Option.getD_some, Option.getD_some]
    rw [List.take_add_one, hn, Option.toList_some, List.foldlM_append, hu] at hv
    simpa using hv
  · intro n a
    refine ⟨max n labels.length, le_max_left _ _, .inr ?_⟩
    rw [hend _ (le_max_right _ _)]
    exact hstuck a

end FairRun

end Umm.Lib
