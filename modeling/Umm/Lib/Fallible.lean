import Mathlib.Tactic

/-! Calls that read and write a state and may raise: what a sequence of them does, and how calls
that need something come out with it and without it, where the environment may make them fail for
reasons of its own. -/
namespace Umm.Lib

abbrev Fallible (ε σ α : Type) : Type := ExceptT ε (StateM σ) α

namespace Fallible

variable {ε σ α β : Type}

/-- The second call runs on what the first one left, unless that raised. -/
theorem bind_eq (x : Fallible ε σ α) (f : α → Fallible ε σ β) (s : σ) :
    (x >>= f) s = match x s with
      | (.ok a, s') => f a s'
      | (.error e, s') => (.error e, s') := by
  change (ExceptT.bindCont f (x s).1) (x s).2 = _
  cases hx : x s with
  | mk r s' => cases r <;> rfl

@[simp] theorem pure_eq (a : α) (s : σ) : (pure a : Fallible ε σ α) s = (.ok a, s) := rfl

@[simp] theorem throw_eq (e : ε) (s : σ) : (throw e : Fallible ε σ α) s = (.error e, s) := rfl

@[simp] theorem get_bind (f : σ → Fallible ε σ β) (s : σ) : (get >>= f) s = f s s := rfl

@[simp] theorem set_eq (s' s : σ) : (set s' : Fallible ε σ PUnit) s = (.ok ⟨⟩, s') := rfl

@[simp] theorem set_bind (s' : σ) (f : PUnit → Fallible ε σ β) (s : σ) :
    (set s' >>= f) s = f ⟨⟩ s' := rfl

/-- How a sequence of two calls can have come out. -/
theorem bind_cases {x : Fallible ε σ α} {f : α → Fallible ε σ β} {s t : σ} {r : Except ε β}
    (h : (x >>= f) s = (r, t)) :
    (∃ e, x s = (.error e, t) ∧ r = .error e) ∨ ∃ a s', x s = (.ok a, s') ∧ f a s' = (r, t) := by
  rw [bind_eq] at h
  cases hx : x s with
  | mk q s' =>
    rw [hx] at h
    cases q with
    | error e =>
      obtain ⟨rfl, rfl⟩ := Prod.mk.inj h
      exact .inl ⟨e, rfl, rfl⟩
    | ok a => exact .inr ⟨a, s', rfl, h⟩

/-- The call leaves a state that is related to the one before, also when it raises. -/
def Keeps (R : σ → σ → Prop) (x : Fallible ε σ α) : Prop := ∀ s r t, x s = (r, t) → R s t

section Keeps

variable {R : σ → σ → Prop}

theorem Keeps.pure (h : ∀ s, R s s) (a : α) : Keeps R (Pure.pure a : Fallible ε σ α) := by
  rintro s r t ht
  obtain ⟨-, rfl⟩ := Prod.mk.inj ht
  exact h _

theorem Keeps.bind (h : ∀ s t u, R s t → R t u → R s u) {x : Fallible ε σ α}
    {f : α → Fallible ε σ β} (hx : Keeps R x) (hf : ∀ a, Keeps R (f a)) : Keeps R (x >>= f) := by
  intro s r t ht
  rcases bind_cases ht with ⟨e, hs, -⟩ | ⟨a, s', hs, ht⟩
  · exact hx s _ t hs
  · exact h s s' t (hx s _ s' hs) (hf a s' r t ht)

theorem Keeps.get {f : σ → Fallible ε σ β} (hf : ∀ s r t, f s s = (r, t) → R s t) :
    Keeps R (MonadState.get >>= f) :=
  fun s r t ht => hf s r t ht

end Keeps

end Fallible

/-- Calls that all succeed. -/
theorem mapM_ok {ε α β : Type} {f : α → Except ε β} {g : α → β} {l : List α}
    (h : ∀ a ∈ l, f a = .ok (g a)) : l.mapM f = .ok (l.map g) := by
  induction l with
  | nil => rfl
  | cons a l ih =>
    rw [List.mapM_cons, h a List.mem_cons_self, ih fun b hb => h b (List.mem_cons_of_mem a hb)]
    rfl

/-- Both calls succeeded. -/
theorem except_bind_ok {ε α β : Type} {x : Except ε α} {f : α → Except ε β} {b : β}
    (h : (x >>= f) = .ok b) : ∃ a, x = .ok a ∧ f a = .ok b := by
  cases x with
  | error e => cases h
  | ok a => exact ⟨a, rfl, h⟩

/-- Every call succeeded. -/
theorem forall₂_of_mapM {ε α β : Type} {f : α → Except ε β} {l : List α} {r : List β}
    (h : l.mapM f = .ok r) : List.Forall₂ (fun a b => f a = .ok b) l r := by
  induction l generalizing r with
  | nil =>
    obtain rfl := Except.ok.inj h
    exact .nil
  | cons a l ih =>
    rw [List.mapM_cons] at h
    obtain ⟨b, hb, h⟩ := except_bind_ok h
    obtain ⟨r', hr, h⟩ := except_bind_ok h
    obtain rfl := Except.ok.inj h
    exact .cons hb (ih hr)

/-- Every call has a result. -/
theorem mapM_mem_ok {ε α β : Type} {f : α → Except ε β} {l : List α} {r : List β} {a : α}
    (h : l.mapM f = .ok r) (ha : a ∈ l) : ∃ b, f a = .ok b := by
  obtain ⟨i, hi, rfl⟩ := List.mem_iff_getElem.mp ha
  obtain ⟨hlen, hget⟩ := List.forall₂_iff_get.mp (forall₂_of_mapM h)
  exact ⟨_, hget i hi (hlen ▸ hi)⟩

theorem mapM_exists_ok {ε α β : Type} {f : α → Except ε β} {l : List α}
    (h : ∀ a ∈ l, ∃ b, f a = .ok b) : ∃ r, l.mapM f = .ok r := by
  induction l with
  | nil => exact ⟨[], rfl⟩
  | cons a l ih =>
    obtain ⟨⟨b, hb⟩, hl⟩ := List.forall_mem_cons.mp h
    obtain ⟨r, hr⟩ := ih hl
    rw [List.mapM_cons, hb, hr]
    exact ⟨b :: r, rfl⟩

/-- A result is the result of one of the calls. -/
theorem mem_of_mapM {ε α β : Type} {f : α → Except ε β} {l : List α} {r : List β} {b : β}
    (h : l.mapM f = .ok r) (hb : b ∈ r) : ∃ a ∈ l, f a = .ok b := by
  obtain ⟨i, hi⟩ := List.mem_iff_getElem?.mp hb
  have hall := forall₂_of_mapM h
  have hlt : i < r.length := (List.getElem?_eq_some_iff.mp hi).1
  have hlen := hall.length_eq
  refine ⟨l[i], List.getElem_mem _, ?_⟩
  obtain ⟨-, hget⟩ := List.forall₂_iff_get.mp hall
  have hcall := hget i (hlen ▸ hlt) hlt
  rw [List.getElem?_eq_getElem hlt, Option.some.injEq] at hi
  rw [← hi]
  exact hcall

/-- The call succeeded and what it needs was there, or it raised that it was not there, or it raised
something else, which does not happen in a calm environment. -/
inductive CallResult {ε σ α : Type} (missing : ε → Prop) (calm needs : Prop) (post : α → σ → Prop) :
    Except ε α × σ → Prop
  | fine {a : α} {s : σ} : needs → post a s → CallResult missing calm needs post (.ok a, s)
  | missing {e : ε} {s : σ} : missing e → ¬ needs → CallResult missing calm needs post (.error e, s)
  | failed {e : ε} {s : σ} : ¬ missing e → ¬ calm → CallResult missing calm needs post (.error e, s)

namespace CallResult

variable {ε σ α β : Type} {missing : ε → Prop} {calm needs needs' : Prop}
  {post post' : α → σ → Prop} {next : β → σ → Prop} {r : Except ε α × σ}

theorem imp (h : CallResult missing calm needs post r) (hneeds : needs ↔ needs')
    (hpost : ∀ a s, needs → post a s → post' a s) : CallResult missing calm needs' post' r := by
  cases h with
  | fine hn hp => exact .fine (hneeds.mp hn) (hpost _ _ hn hp)
  | missing he hn => exact .missing he fun hn' => hn (hneeds.mpr hn')
  | failed he hc => exact .failed he hc

/-- What the call left and returned is what the equation of it says. -/
theorem with_eq (h : CallResult missing calm needs post r) :
    CallResult missing calm needs (fun a s => post a s ∧ r = (.ok a, s)) r := by
  cases h with
  | fine hn hp => exact .fine hn ⟨hp, rfl⟩
  | missing he hn => exact .missing he hn
  | failed he hc => exact .failed he hc

/-- A sequence of two calls needs what both of them need. -/
theorem bind {x : Fallible ε σ α} {f : α → Fallible ε σ β} {s : σ}
    (hx : CallResult missing calm needs post (x s))
    (hf : ∀ a t, needs → post a t → CallResult missing calm needs' next (f a t)) :
    CallResult missing calm (needs ∧ needs') next ((x >>= f) s) := by
  rw [Fallible.bind_eq]
  generalize x s = q at hx
  cases hx with
  | @fine a t hn hp =>
    dsimp only
    generalize hq : f a t = q
    have hnext := hf a t hn hp
    rw [hq] at hnext
    cases hnext with
    | fine hn' hp' => exact .fine ⟨hn, hn'⟩ hp'
    | missing he hn' => exact .missing he fun h => hn' h.2
    | failed he hc => exact .failed he hc
  | missing he hn => exact .missing he fun h => hn h.1
  | failed he hc => exact .failed he hc

/-- With what it needs, the call does not raise that it is missing. -/
theorem not_missing {e : ε} {s : σ}
    (h : CallResult missing calm needs post ((.error e, s) : Except ε α × σ))
    (hn : needs) : ¬ missing e := by
  cases h with
  | missing he hn' => exact absurd hn hn'
  | failed he hc => exact he

/-- Without it, in a calm environment, the call raises that it is missing. -/
theorem raises (h : CallResult missing calm needs post r) (hn : ¬ needs) (hc : calm) :
    ∃ e s, r = (.error e, s) ∧ missing e := by
  cases h with
  | fine hn' hp => exact absurd hn' hn
  | missing he hn' => exact ⟨_, _, rfl, he⟩
  | failed he hc' => exact absurd hc hc'

end CallResult

end Umm.Lib
