import Mathlib.Tactic

/-! Runs of a labelled transition system: the states reached from the initial ones, and
the same when every step has to meet a condition on the state before it. Loops whose rounds go on
with a state or return: a loop with a variant returns, and its invariants say what. -/
namespace Umm.Lib

variable {σ ι : Type*}

inductive Reach (init : σ → Prop) (step : σ → ι → σ → Prop) : σ → Prop
  | start {s : σ} : init s → Reach init step s
  | next {s t : σ} (i : ι) : Reach init step s → step s i t → Reach init step t

/-- The steps whose label meets the condition in the state before the step. -/
def Guarded (ok : σ → ι → Prop) (step : σ → ι → σ → Prop) (s : σ) (i : ι) (t : σ) : Prop :=
  ok s i ∧ step s i t

namespace Reach

variable {init : σ → Prop} {step : σ → ι → σ → Prop}

/-- What holds at the start and is kept by every step holds in every state reached. -/
theorem invariant {P : σ → Prop} (h0 : ∀ s, init s → P s)
    (hs : ∀ s i t, P s → step s i t → P t) {s : σ} (h : Reach init step s) : P s := by
  induction h with
  | start hi => exact h0 _ hi
  | next i _ ht ih => exact hs _ i _ ih ht

/-- The state after a list of labels, where every label has its next state. -/
theorem foldl {next : σ → ι → σ} {s : σ} (h : Reach init step s) {labels : List ι}
    (hstep : ∀ i ∈ labels, ∀ s, step s i (next s i)) :
    Reach init step (labels.foldl next s) := by
  induction labels generalizing s with
  | nil => exact h
  | cons i labels ih =>
    exact ih (h.next i (hstep i List.mem_cons_self s))
      fun j hj => hstep j (List.mem_cons_of_mem _ hj)

/-- The state after a list of labels, where every label has a next state or none. -/
theorem of_foldlM {next : σ → ι → Option σ} {s t : σ} (h : Reach init step s) {labels : List ι}
    (hstep : ∀ i ∈ labels, ∀ s t, next s i = some t → step s i t)
    (ht : labels.foldlM next s = some t) : Reach init step t := by
  induction labels generalizing s with
  | nil =>
    obtain rfl := Option.some.inj ht
    exact h
  | cons i labels ih =>
    rw [List.foldlM_cons] at ht
    obtain ⟨s', hs, ht⟩ := Option.bind_eq_some_iff.mp ht
    exact ih (h.next i (hstep i List.mem_cons_self s s' hs))
      (fun j hj => hstep j (List.mem_cons_of_mem _ hj)) ht

theorem foldlM {next : σ → ι → Option σ} {s t : σ}
    (h : Reach init (fun s i t => next s i = some t) s) {labels : List ι}
    (ht : labels.foldlM next s = some t) : Reach init (fun s i t => next s i = some t) t :=
  h.of_foldlM (fun _ _ _ _ hs => hs) ht

/-- The same for labels that meet the condition in every state. -/
theorem guarded_foldlM {ok : σ → ι → Prop} {next : σ → ι → Option σ} {s t : σ}
    (h : Reach init (Guarded ok fun s i t => next s i = some t) s) {labels : List ι}
    (hok : ∀ i ∈ labels, ∀ s, ok s i) (ht : labels.foldlM next s = some t) :
    Reach init (Guarded ok fun s i t => next s i = some t) t :=
  h.of_foldlM (fun i hi s _ hs => ⟨hok i hi s, hs⟩) ht

end Reach

/-- What every step keeps between two states is kept by the runs of the same labels. -/
theorem foldlM_related {next : σ → ι → Option σ} {R : σ → σ → Prop}
    (hstep : ∀ s t i s', R s t → next s i = some s' → ∃ t', next t i = some t' ∧ R s' t')
    {labels : List ι} {s t s' : σ} (h : R s t) (hrun : labels.foldlM next s = some s') :
    ∃ t', labels.foldlM next t = some t' ∧ R s' t' := by
  induction labels generalizing s t with
  | nil =>
    obtain rfl := Option.some.inj hrun
    exact ⟨t, rfl, h⟩
  | cons i labels ih =>
    rw [List.foldlM_cons] at hrun
    obtain ⟨s₁, hs, hrun⟩ := Option.bind_eq_some_iff.mp hrun
    obtain ⟨t₁, ht, h₁⟩ := hstep s t i s₁ h hs
    obtain ⟨t', hrun', h'⟩ := ih h₁ hrun
    refine ⟨t', ?_, h'⟩
    rw [List.foldlM_cons]
    exact Option.bind_eq_some_iff.mpr ⟨t₁, ht, hrun'⟩

section Loop

variable {β : Type*} {round : σ → σ ⊕ β}

/-- The loop, with `none` where it has not returned after `fuel` rounds. -/
def runRounds (round : σ → σ ⊕ β) : ℕ → σ → Option β
  | 0, _ => none
  | fuel + 1, s =>
    match round s with
    | .inl s' => runRounds round fuel s'
    | .inr b => some b

/-- A loop whose variant falls in every round returns, after at most one round more than the
variant counts. -/
theorem runRounds_returns (Inv : σ → Prop) (Post : β → Prop) (variant : σ → ℕ)
    (hgoes : ∀ s s', Inv s → round s = .inl s' → Inv s' ∧ variant s' < variant s)
    (hends : ∀ s b, Inv s → round s = .inr b → Post b) {fuel : ℕ} {s : σ} (hs : Inv s)
    (hfuel : variant s < fuel) : ∃ b, runRounds round fuel s = some b ∧ Post b := by
  induction fuel generalizing s with
  | zero => omega
  | succ fuel ih =>
    unfold runRounds
    cases hround : round s with
    | inl s' =>
      obtain ⟨hs', hlt⟩ := hgoes s s' hs hround
      exact ih hs' (by omega)
    | inr b => exact ⟨b, rfl, hends s b hs hround⟩

end Loop

end Umm.Lib
