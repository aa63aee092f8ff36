import Mathlib.Tactic

/-! Byte codecs: decoders that take bytes off the front of the input, the bytes that a decoder
turns into a value, and the number of bytes that it looks at. -/
namespace Umm.Lib

/-- The `k` low bytes of a number, the lowest first. -/
def leBytes : ℕ → ℕ → List UInt8
  | 0, _ => []
  | k + 1, n => UInt8.ofNat (n &&& 0xFF) :: leBytes k (n >>> 8)

def leValue : List UInt8 → ℕ
  | [] => 0
  | b :: bs => b.toNat ||| leValue bs <<< 8

@[simp] theorem length_leBytes (k n : ℕ) : (leBytes k n).length = k := by
  induction k generalizing n with
  | zero => rfl
  | succ k ih => rw [leBytes, List.length_cons, ih]

theorem leValue_leBytes (k n : ℕ) : leValue (leBytes k n) = n % 256 ^ k := by
  induction k generalizing n with
  | zero => simp [leBytes, leValue, Nat.mod_one]
  | succ k ih =>
    have hmask : n &&& 0xFF = n % 2 ^ 8 := Nat.and_two_pow_sub_one_eq_mod n 8
    have hbyte : (UInt8.ofNat (n % 2 ^ 8)).toNat = n % 2 ^ 8 :=
      UInt8.toNat_ofNat_of_lt (Nat.mod_lt _ (by norm_num))
    have hlt : n % 2 ^ 8 < 2 ^ 8 := Nat.mod_lt _ (by norm_num)
    have hsplit : n % 256 ^ (k + 1) = n % 256 + 256 * (n / 256 % 256 ^ k) := by
      rw [pow_succ', Nat.mod_mul]
    rw [leBytes, leValue, ih, hmask, hbyte, Nat.or_comm, Nat.shiftLeft_eq, Nat.mul_comm,
      ← Nat.two_pow_add_eq_or_of_lt hlt, Nat.shiftRight_eq_div_pow, hsplit]
    exact Nat.add_comm _ _

/-- A number tells all of its bytes. -/
theorem leBytes_leValue (bs : List UInt8) : leBytes bs.length (leValue bs) = bs := by
  induction bs with
  | nil => rfl
  | cons b bs ih =>
    have hb : b.toNat < 2 ^ 8 := b.toNat_lt
    have hor : b.toNat ||| leValue bs <<< 8 = 2 ^ 8 * leValue bs + b.toNat := by
      rw [Nat.or_comm, Nat.shiftLeft_eq, Nat.mul_comm, Nat.two_pow_add_eq_or_of_lt hb]
    have hmask : (2 ^ 8 * leValue bs + b.toNat) &&& 0xFF = b.toNat := by
      rw [show 0xFF = 2 ^ 8 - 1 by norm_num, Nat.and_two_pow_sub_one_eq_mod]
      omega
    have hshift : (2 ^ 8 * leValue bs + b.toNat) >>> 8 = leValue bs := by
      rw [Nat.shiftRight_eq_div_pow]
      omega
    rw [List.length_cons, leBytes, leValue, hor, hmask, hshift, ih, UInt8.ofNat_toNat]

theorem leValue_lt (bs : List UInt8) : leValue bs < 256 ^ bs.length := by
  have h := leValue_leBytes bs.length (leValue bs)
  rw [leBytes_leValue] at h
  rw [h]
  exact Nat.mod_lt _ (by positivity)

/-- A decoder takes bytes off the front of the input. -/
def Decoder (α : Type) : Type := List UInt8 → α × List UInt8

namespace Decoder

variable {α β : Type}

instance : Monad Decoder where
  pure a := fun l => (a, l)
  bind d f := fun l => f (d l).1 (d l).2

def byte : Decoder UInt8 := fun l => (l.headD 0, l.tail)

def bytes (n : ℕ) : Decoder (List UInt8) := fun l => (l.take n, l.drop n)

def le (k : ℕ) : Decoder ℕ := do
  let bs ← bytes k
  pure (leValue bs)

def many (d : Decoder α) : ℕ → Decoder (List α)
  | 0 => pure []
  | n + 1 => do
    let x ← d
    let xs ← many d n
    pure (x :: xs)

theorem length_many (d : Decoder α) (n : ℕ) (data : List UInt8) :
    (many d n data).1.length = n := by
  induction n generalizing data with
  | zero => rfl
  | succ n ih => exact congrArg (· + 1) (ih _)

/-- The decoder turns exactly these bytes into the value, whatever follows them. -/
def Decodes (d : Decoder α) (bs : List UInt8) (a : α) : Prop := ∀ rest, d (bs ++ rest) = (a, rest)

namespace Decodes

theorem pure (a : α) : Decodes (Pure.pure a) [] a := fun _ => rfl

theorem bind {d : Decoder α} {f : α → Decoder β} {bs cs : List UInt8} {a : α} {b : β}
    (h : Decodes d bs a) (hf : Decodes (f a) cs b) : Decodes (d >>= f) (bs ++ cs) b := by
  intro rest
  rw [List.append_assoc]
  change f (d (bs ++ (cs ++ rest))).1 (d (bs ++ (cs ++ rest))).2 = (b, rest)
  rw [h (cs ++ rest)]
  exact hf rest

/-- A decoder followed by a function on its value. -/
theorem map {d : Decoder α} {bs : List UInt8} {a : α} (h : Decodes d bs a) (f : α → β) :
    Decodes (do let x ← d; Pure.pure (f x)) bs (f a) := by
  have hb : Decodes (do let x ← d; Pure.pure (f x)) (bs ++ []) (f a) := h.bind (pure (f a))
  rwa [List.append_nil] at hb

theorem byte (b : UInt8) : Decodes Decoder.byte [b] b := fun _ => rfl

theorem bytes {bs : List UInt8} {n : ℕ} (h : bs.length = n) :
    Decodes (Decoder.bytes n) bs bs := by
  intro rest
  subst h
  simp [Decoder.bytes]

theorem le {k n : ℕ} (h : n < 256 ^ k) : Decodes (Decoder.le k) (leBytes k n) n := by
  have hv := (Decodes.bytes (length_leBytes k n)).map leValue
  rw [leValue_leBytes, Nat.mod_eq_of_lt h] at hv
  exact hv

theorem many {d : Decoder α} {enc : α → List UInt8} :
    ∀ xs : List α, (∀ x ∈ xs, Decodes d (enc x) x) →
      Decodes (Decoder.many d xs.length) (xs.flatMap enc) xs := by
  intro xs
  induction xs with
  | nil =>
    intro _
    exact pure []
  | cons x xs ih =>
    intro h
    have hxs := ih fun y hy => h y (List.mem_cons_of_mem x hy)
    exact (h x List.mem_cons_self).bind (hxs.map (x :: ·))

/-- The decoder reads the bytes off the front of a longer input. -/
theorem run {d : Decoder α} {bs : List UInt8} {a : α} (h : Decodes d bs a) (rest : List UInt8) :
    (d (bs ++ rest)).1 = a := by
  rw [h rest]

end Decodes

/-- The decoder takes `n` bytes, and its value depends on nothing else. -/
structure Reads (d : Decoder α) (n : ℕ) : Prop where
  value : ∀ l l' : List UInt8, l.take n = l'.take n → (d l).1 = (d l').1
  rest : ∀ l, (d l).2 = l.drop n

/-- Inputs that agree on a longer part agree on a shorter one. -/
theorem take_eq_of_le {l l' : List UInt8} {m n : ℕ} (hmn : m ≤ n) (h : l.take n = l'.take n) :
    l.take m = l'.take m := by
  have := congrArg (List.take m) h
  rwa [List.take_take, List.take_take, Nat.min_eq_left hmn] at this

theorem take_drop_eq {l l' : List UInt8} {m n : ℕ} (h : l.take (n + m) = l'.take (n + m)) :
    (l.drop n).take m = (l'.drop n).take m := by
  rw [List.take_drop, List.take_drop, h]

namespace Reads

theorem pure (a : α) : Reads (Pure.pure a) 0 := ⟨fun _ _ _ => rfl, fun _ => rfl⟩

theorem bind {d : Decoder α} {f : α → Decoder β} {m n : ℕ} (h : Reads d n)
    (hf : ∀ a, Reads (f a) m) : Reads (d >>= f) (n + m) := by
  constructor
  · intro l l' heq
    change (f (d l).1 (d l).2).1 = (f (d l').1 (d l').2).1
    rw [h.value l l' (take_eq_of_le (Nat.le_add_right n m) heq), h.rest, h.rest]
    exact (hf _).value _ _ (take_drop_eq heq)
  · intro l
    change (f (d l).1 (d l).2).2 = l.drop (n + m)
    rw [h.rest, (hf _).rest, List.drop_drop]

theorem map {d : Decoder α} {n : ℕ} (h : Reads d n) (f : α → β) :
    Reads (do let x ← d; Pure.pure (f x)) n := h.bind fun x => pure (f x)

theorem byte : Reads Decoder.byte 1 := by
  constructor
  · intro l l' h
    cases l <;> cases l' <;> simp_all [Decoder.byte]
  · intro l
    exact (List.drop_one).symm

theorem bytes (n : ℕ) : Reads (Decoder.bytes n) n := ⟨fun _ _ h => h, fun _ => rfl⟩

theorem le (k : ℕ) : Reads (Decoder.le k) k := (bytes k).map leValue

theorem many {d : Decoder α} {n : ℕ} (h : Reads d n) : ∀ k, Reads (Decoder.many d k) (k * n) := by
  intro k
  induction k with
  | zero =>
    rw [Nat.zero_mul]
    exact pure []
  | succ k ih =>
    rw [Nat.succ_mul, Nat.add_comm (k * n)]
    exact h.bind fun x => ih.map (x :: ·)

end Reads

end Decoder

end Umm.Lib
