import Umm.Client.ConfigParser

/-! Which entries of the list of devices are accepted, and with which size. -/
namespace Umm
open Umm.Lib

/-- An unsigned number: decimal, octal behind a zero, or hexadecimal behind `0x`. -/
inductive UnsignedNumber : List UInt8 → ℕ → Prop
  | decimal {b : UInt8} {bytes : List UInt8} : b ≠ 48 → (∀ d ∈ b :: bytes, digitValue d < 10) →
      UnsignedNumber (b :: bytes) (digitsIn 10 (b :: bytes))
  | octal {bytes : List UInt8} : (∀ d ∈ bytes, digitValue d < 8) →
      UnsignedNumber (48 :: bytes) (digitsIn 8 bytes)
  | hexadecimal {x b : UInt8} {bytes : List UInt8} : x = 120 ∨ x = 88 →
      (∀ d ∈ b :: bytes, digitValue d < 16) →
      UnsignedNumber (48 :: x :: b :: bytes) (digitsIn 16 (b :: bytes))

/-- The factor of a suffix of at most one letter. -/
def suffixFactor : List UInt8 → Option ℕ
  | [] => some 1
  | [b] => sizeFactor b
  | _ => none

/-- An unsigned number and at most one suffix, with a product that is positive and below 2^64. -/
def SizeToken (token : List UInt8) (size : ℕ) : Prop :=
  ∃ number suffix value factor, token = number ++ suffix ∧ UnsignedNumber number value ∧
    suffixFactor suffix = some factor ∧ size = value * factor ∧ 0 < size ∧ size < 2 ^ 64

section Numbers

variable {base : ℕ} {ds number suffix : List UInt8} {value factor : ℕ}

theorem digitValue_low {b : UInt8} (h : b.toNat < 48) : digitValue b = 36 := by
  have hdigit : isDigit b = false := by
    unfold isDigit
    rw [decide_eq_false (p := 48 ≤ b) (by rw [UInt8.le_iff_toNat_le]; intro hle; exact absurd h (not_lt.mpr hle)),
      Bool.false_and]
  have hlower : ¬ 97 ≤ b := by
    rw [UInt8.le_iff_toNat_le]
    intro hle
    have h97 : 97 ≤ b.toNat := hle
    omega
  have hupper : ¬ 65 ≤ b := by
    rw [UInt8.le_iff_toNat_le]
    intro hle
    have h65 : 65 ≤ b.toNat := hle
    omega
  unfold digitValue
  rw [hdigit, decide_eq_false hlower, decide_eq_false hupper]
  rfl

/-- Digits end where a byte is no digit of the base. -/
theorem digitsIn_append (hd : ∀ b ∈ ds, digitValue b < base)
    (hs : ∀ b ∈ suffix.head?, base ≤ digitValue b) :
    digitsIn base (ds ++ suffix) = digitsIn base ds ∧
      (ds ++ suffix).dropWhile (fun b => digitValue b < base) = suffix := by
  have hall : ∀ b ∈ ds, decide (digitValue b < base) = true := fun b hb => decide_eq_true (hd b hb)
  have hstop : suffix.takeWhile (fun b => digitValue b < base) = [] ∧
      suffix.dropWhile (fun b => digitValue b < base) = suffix := by
    cases suffix with
    | nil => exact ⟨rfl, rfl⟩
    | cons b suffix =>
      have hb : ¬ decide (digitValue b < base) = true := by
        rw [decide_eq_true_eq]
        exact not_lt.mpr (hs b rfl)
      exact ⟨List.takeWhile_cons_of_neg hb, List.dropWhile_cons_of_neg hb⟩
  unfold digitsIn
  rw [List.takeWhile_append_of_pos hall, hstop.1, List.append_nil, List.dropWhile_append_of_pos hall,
    hstop.2, List.takeWhile_eq_self_iff.mpr hall]
  exact ⟨rfl, rfl⟩

theorem sizeFactor_letter {b : UInt8} (h : sizeFactor b = some factor) :
    16 ≤ digitValue b ∧ b ≠ 120 ∧ b ≠ 88 ∧ 0 < factor ∧ factor < 2 ^ 64 := by
  unfold sizeFactor at h
  split_ifs at h with hg hm hk
  · rw [Bool.or_eq_true, decide_eq_true_eq, decide_eq_true_eq] at hg
    obtain rfl := Option.some.inj h
    obtain rfl | rfl := hg <;> decide
  · rw [Bool.or_eq_true, decide_eq_true_eq, decide_eq_true_eq] at hm
    obtain rfl := Option.some.inj h
    obtain rfl | rfl := hm <;> decide
  · rw [Bool.or_eq_true, decide_eq_true_eq, decide_eq_true_eq] at hk
    obtain rfl := Option.some.inj h
    obtain rfl | rfl := hk <;> decide

theorem suffixFactor_head (h : suffixFactor suffix = some factor) :
    suffix.length ≤ 1 ∧ (∀ b ∈ suffix.head?, 16 ≤ digitValue b) ∧ 0 < factor ∧ factor < 2 ^ 64 := by
  match suffix, h with
  | [], h =>
    obtain rfl := Option.some.inj h
    refine ⟨by decide, fun b hb => ?_, by decide, by decide⟩
    cases hb
  | [b], h =>
    obtain ⟨hb, -, -, hpos, hlt⟩ := sizeFactor_letter h
    exact ⟨le_rfl, fun c hc => Option.some.inj hc ▸ hb, hpos, hlt⟩

theorem prefixed_decimal {b : UInt8} (hb : b ≠ 48) (hd : digitValue b < 10) (rest : List UInt8) :
    prefixed (b :: rest) = digitsIn 10 (b :: rest) ∧
      prefixedEnd (b :: rest) = some ((b :: rest).dropWhile fun b => digitValue b < 10) := by
  have hdrop : (b :: rest).dropWhile (fun b => digitValue b < 10) =
      rest.dropWhile fun b => digitValue b < 10 := List.dropWhile_cons_of_pos (decide_eq_true hd)
  rw [hdrop]
  constructor
  · unfold prefixed
    split
    next he => exact absurd (List.cons.inj he).1 hb
    next he => exact absurd (List.cons.inj he).1 hb
    next => rfl
  · unfold prefixedEnd
    split
    next he => exact absurd (List.cons.inj he).1 hb
    next he => exact absurd (List.cons.inj he).1 hb
    next he => cases he
    next he =>
      obtain ⟨rfl, rfl⟩ := List.cons.inj he
      exact if_pos hd

theorem prefixed_octal {rest : List UInt8} (h : ∀ x ∈ rest.head?, x ≠ 120 ∧ x ≠ 88 ∨ rest.length ≤ 1) :
    prefixed (48 :: rest) = digitsIn 8 rest ∧
      prefixedEnd (48 :: rest) = some (rest.dropWhile fun b => digitValue b < 8) := by
  match rest, h with
  | [], _ => exact ⟨rfl, rfl⟩
  | [_], _ => exact ⟨rfl, rfl⟩
  | x :: d :: rest, h =>
    have hx : ((decide (x = 120) || decide (x = 88)) && decide (digitValue d < 16)) = false := by
      obtain ⟨h120, h88⟩ | hshort := h x rfl
      · rw [decide_eq_false h120, decide_eq_false h88]
        rfl
      · rw [List.length_cons, List.length_cons] at hshort
        omega
    constructor
    · exact if_neg (by rw [hx]; decide)
    · exact if_neg (by rw [hx]; decide)

theorem prefixed_hexadecimal {x d : UInt8} (hx : x = 120 ∨ x = 88) (hd : digitValue d < 16)
    (rest : List UInt8) : prefixed (48 :: x :: d :: rest) = digitsIn 16 (d :: rest) ∧
      prefixedEnd (48 :: x :: d :: rest) = some ((d :: rest).dropWhile fun b => digitValue b < 16) := by
  have hcond : ((decide (x = 120) || decide (x = 88)) && decide (digitValue d < 16)) = true := by
    simpa [hd] using hx
  exact ⟨if_pos hcond, if_pos hcond⟩

/-- A number is read up to its suffix. -/
theorem prefixed_number (hn : UnsignedNumber number value) (hs : suffixFactor suffix = some factor) :
    prefixed (number ++ suffix) = value ∧ prefixedEnd (number ++ suffix) = some suffix := by
  obtain ⟨hlen, hhead, -, -⟩ := suffixFactor_head hs
  cases hn with
  | @decimal b bytes hb hd =>
    obtain ⟨hvalue, hend⟩ := digitsIn_append hd fun c hc => le_trans (by norm_num) (hhead c hc)
    obtain ⟨hread, hrest⟩ := prefixed_decimal hb (hd b List.mem_cons_self) (bytes ++ suffix)
    rw [← List.cons_append] at hread hrest
    exact ⟨hread.trans hvalue, hrest.trans (congrArg some hend)⟩
  | @octal bytes hd =>
    obtain ⟨hvalue, hend⟩ := digitsIn_append hd fun c hc => le_trans (by norm_num) (hhead c hc)
    have hoctal : ∀ x ∈ (bytes ++ suffix).head?, x ≠ 120 ∧ x ≠ 88 ∨ (bytes ++ suffix).length ≤ 1 := by
      intro x hx
      cases bytes with
      | nil => exact Or.inr hlen
      | cons b bytes =>
        obtain rfl := Option.some.inj hx
        have hb := hd b List.mem_cons_self
        refine Or.inl ⟨?_, ?_⟩
        · rintro rfl
          exact absurd hb (by decide)
        · rintro rfl
          exact absurd hb (by decide)
    obtain ⟨hread, hrest⟩ := prefixed_octal hoctal
    exact ⟨hread.trans hvalue, hrest.trans (congrArg some hend)⟩
  | @hexadecimal x b bytes hx hd =>
    obtain ⟨hvalue, hend⟩ := digitsIn_append hd fun c hc => hhead c hc
    obtain ⟨hread, hrest⟩ := prefixed_hexadecimal hx (hd b List.mem_cons_self) (bytes ++ suffix)
    rw [← List.cons_append] at hread hrest
    exact ⟨hread.trans hvalue, hrest.trans (congrArg some hend)⟩

theorem UnsignedNumber.head (hn : UnsignedNumber number value) :
    ∃ b rest, number = b :: rest ∧ digitValue b < 16 := by
  cases hn with
  | @decimal b bytes hb hd => exact ⟨b, bytes, rfl, by have := hd b List.mem_cons_self; omega⟩
  | @octal bytes hd => exact ⟨48, bytes, rfl, by decide⟩
  | @hexadecimal x b bytes hx hd => exact ⟨48, x :: b :: bytes, rfl, by decide⟩

/-- The last byte of a number is no suffix. -/
theorem UnsignedNumber.last (hn : UnsignedNumber number value) :
    ∃ b, number.getLast? = some b ∧ digitValue b < 16 := by
  have hlast : ∀ {bytes : List UInt8} {b : UInt8}, (∀ d ∈ b :: bytes, digitValue d < 16) →
      ∃ c, (b :: bytes).getLast? = some c ∧ digitValue c < 16 := by
    intro bytes b hd
    have hne : b :: bytes ≠ [] := List.cons_ne_nil _ _
    exact ⟨_, List.getLast?_eq_some_getLast hne, hd _ (List.getLast_mem hne)⟩
  cases hn with
  | @decimal b bytes hb hd => exact hlast fun d hd' => lt_of_lt_of_le (hd d hd') (by norm_num)
  | @octal bytes hd =>
    apply hlast
    intro d hd'
    obtain rfl | hd' := List.mem_cons.mp hd'
    · decide
    · exact lt_of_lt_of_le (hd d hd') (by norm_num)
  | @hexadecimal x b bytes hx hd =>
    obtain ⟨c, hc, hlt⟩ := hlast hd
    exact ⟨c, by rw [List.getLast?_cons_cons, List.getLast?_cons_cons, hc], hlt⟩

/-- `strtoull` reads a number up to its suffix. -/
theorem strtoull_number (hn : UnsignedNumber number value) (hs : suffixFactor suffix = some factor)
    (hlt : value < 2 ^ 64) : strtoull prefixed (number ++ suffix) = UInt64.ofNat value ∧
      strtoullEnd (number ++ suffix) = suffix := by
  obtain ⟨hvalue, hend⟩ := prefixed_number hn hs
  obtain ⟨b, rest, hnumber, hb⟩ := hn.head
  have hhigh : 48 ≤ b.toNat := by
    by_contra hlow
    rw [digitValue_low (by omega)] at hb
    omega
  have hspace : isSpace b = false := by
    unfold isSpace
    rw [Bool.or_eq_false_iff, Bool.and_eq_false_iff, decide_eq_false_iff_not,
      decide_eq_false_iff_not, decide_eq_false_iff_not, UInt8.le_iff_toNat_le (b := 13)]
    refine ⟨?_, Or.inr ?_⟩
    · rintro rfl
      exact absurd hhigh (by decide)
    · intro hle
      have h13 : b.toNat ≤ 13 := hle
      omega
  have hskip : (number ++ suffix).dropWhile isSpace = number ++ suffix := by
    rw [hnumber, List.cons_append, List.dropWhile_cons_of_neg (by rw [hspace]; decide)]
  have hsign : ∀ (c : UInt8) (tail : List UInt8), number ++ suffix = c :: tail → 48 ≤ c.toNat := by
    intro c tail he
    rw [hnumber, List.cons_append] at he
    exact (List.cons.inj he).1 ▸ hhigh
  constructor
  · unfold strtoull
    rw [hskip]
    split
    next he => exact absurd (hsign _ _ he) (by decide)
    next he => exact absurd (hsign _ _ he) (by decide)
    next => rw [hvalue, min_eq_left (by omega)]
  · unfold strtoullEnd
    rw [hskip]
    split
    next he => exact absurd (hsign _ _ he) (by decide)
    next he => exact absurd (hsign _ _ he) (by decide)
    next => rw [hend, Option.getD_some]

/-- A well-formed size is recorded exactly. -/
theorem sizeBytes_token {token : List UInt8} {size : ℕ} (h : SizeToken token size) :
    sizeBytes token = UInt64.ofNat size := by
  obtain ⟨number, suffix, value, factor, rfl, hn, hs, rfl, hpos, hlt⟩ := h
  obtain ⟨hlen, -, hfactor, hfactorLt⟩ := suffixFactor_head hs
  have hvalue : value < 2 ^ 64 := lt_of_le_of_lt (Nat.le_mul_of_pos_right value hfactor) hlt
  obtain ⟨hnum, hrest⟩ := strtoull_number hn hs hvalue
  unfold sizeBytes
  match suffix, hs, hlen with
  | [], hs, _ =>
    obtain rfl := Option.some.inj hs
    obtain ⟨b, hb, hdigit⟩ := hn.last
    have hnone : sizeFactor b = none := by
      cases hf : sizeFactor b with
      | none => rfl
      | some f =>
        have hletter := (sizeFactor_letter hf).1
        omega
    rw [List.append_nil] at hnum hrest ⊢
    rw [hb]
    dsimp only
    rw [hrest, if_pos (by decide), hnone, hnum, Nat.mul_one]
  | [b], hs, _ =>
    have hfactor' : sizeFactor b = some factor := hs
    rw [List.getLast?_append_cons, List.getLast?_singleton]
    dsimp only
    have hone : [b].length ≤ 1 := le_rfl
    rw [hrest, if_pos hone, hfactor', hnum]
    dsimp only
    rw [UInt64.ofNat_mul]

theorem sizeBytes_token_pos {token : List UInt8} {size : ℕ} (h : SizeToken token size) :
    (sizeBytes token).toNat = size ∧ sizeBytes token ≠ 0 := by
  have hread : (sizeBytes token).toNat = size := by
    rw [sizeBytes_token h]
    obtain ⟨_, _, _, _, -, -, -, -, -, hlt⟩ := h
    exact UInt64.toNat_ofNat_of_lt' hlt
  obtain ⟨_, _, _, _, -, -, -, -, hpos, -⟩ := h
  refine ⟨hread, fun he => ?_⟩
  rw [he, UInt64.toNat_zero] at hread
  omega

/-- The number has one suffix, and the product is a multiple of 2^64. -/
def Wraps (token : List UInt8) : Prop :=
  (strtoullEnd token).length ≤ 1 ∧ ∃ b factor, token.getLast? = some b ∧ sizeFactor b = some factor ∧
    2 ^ 64 ∣ (strtoull prefixed token).toNat * factor

/-- The sizes that are not accepted. -/
theorem sizeBytes_eq_zero (token : List UInt8) :
    sizeBytes token = 0 ↔ strtoull prefixed token = 0 ∨ Wraps token := by
  unfold sizeBytes Wraps
  cases hlast : token.getLast? with
  | none =>
    obtain rfl := List.getLast?_eq_none_iff.mp hlast
    exact ⟨fun _ => Or.inl rfl, fun _ => rfl⟩
  | some b =>
    dsimp only
    by_cases hend : (strtoullEnd token).length ≤ 1
    · rw [if_pos hend]
      cases hfactor : sizeFactor b with
      | none =>
        constructor
        · intro h
          exact Or.inl h
        · rintro (h | ⟨-, c, factor, hc, hf, -⟩)
          · exact h
          · obtain rfl := Option.some.inj hc
            rw [hfactor] at hf
            cases hf
      | some factor =>
        obtain ⟨-, -, -, -, hlt⟩ := sizeFactor_letter hfactor
        have hproduct : (strtoull prefixed token * UInt64.ofNat factor).toNat =
            (strtoull prefixed token).toNat * factor % 2 ^ 64 := by
          rw [UInt64.toNat_mul, UInt64.toNat_ofNat_of_lt' (by norm_num; omega)]
        dsimp only
        rw [← UInt64.toNat_inj, hproduct, UInt64.toNat_zero]
        constructor
        · intro h
          exact Or.inr ⟨hend, b, factor, rfl, hfactor, Nat.dvd_of_mod_eq_zero h⟩
        · rintro (h | ⟨-, c, factor', hc, hf, hdvd⟩)
          · rw [h, UInt64.toNat_zero, Nat.zero_mul, Nat.zero_mod]
          · obtain rfl := Option.some.inj hc
            rw [hfactor] at hf
            obtain rfl := Option.some.inj hf
            exact Nat.mod_eq_zero_of_dvd hdvd
    · rw [if_neg hend]
      constructor
      · intro h
        exact Or.inl h
      · rintro (h | ⟨h, -⟩)
        · exact h
        · exact absurd h hend

end Numbers

/-- The entry is `<path>:<size>`, with blanks around both and quotes around the path. -/
def NamesDevice (token : List UInt8) (device : SsdDevicePath) : Prop :=
  ∃ front back, token.dropWhile isSpace = front ++ colon :: back ∧ colon ∉ back ∧
    device.path.bytes = stripQuotes (trim front) ∧ device.path.bytes ≠ [] ∧
    SizeToken (trim back) device.size.toNat

/-- A well-formed entry has a path that fits its buffer, and from any other size with a path
`strtoull` makes 0 or a product that wraps to 0. -/
def DeviceReadable (token : List UInt8) : Prop :=
  ∀ front back, token.dropWhile isSpace = front ++ colon :: back → colon ∉ back →
    stripQuotes (trim front) ≠ [] →
    (∀ size, SizeToken (trim back) size → (stripQuotes (trim front)).length ≤ 255) ∧
    ((∀ size, ¬ SizeToken (trim back) size) →
      strtoull prefixed (trim back) = 0 ∨ Wraps (trim back))

/-- The devices are those that the entries name, in their order. -/
inductive NamedDevices : List (List UInt8) → List SsdDevicePath → Prop
  | nil : NamedDevices [] []
  | named {token : List UInt8} {tokens : List (List UInt8)} {device : SsdDevicePath}
      {devices : List SsdDevicePath} : NamesDevice token device → NamedDevices tokens devices →
      NamedDevices (token :: tokens) (device :: devices)
  | other {token : List UInt8} {tokens : List (List UInt8)} {devices : List SsdDevicePath} :
      (∀ device, ¬ NamesDevice token device) → NamedDevices tokens devices →
      NamedDevices (token :: tokens) devices

section Entries

variable {token : List UInt8} {tokens : List (List UInt8)} {device : SsdDevicePath}
  {devices : List SsdDevicePath}

theorem NamesDevice.unique {device' : SsdDevicePath} (h : NamesDevice token device)
    (h' : NamesDevice token device') : device = device' := by
  obtain ⟨front, back, hcut, hno, hpath, -, hsize⟩ := h
  obtain ⟨front', back', hcut', hno', hpath', -, hsize'⟩ := h'
  obtain ⟨rfl, rfl⟩ := cutLast_unique hno hno' (hcut.symm.trans hcut')
  have hread := (sizeBytes_token_pos hsize).1
  rw [(sizeBytes_token_pos hsize').1] at hread
  obtain ⟨path, size⟩ := device
  obtain ⟨path', size'⟩ := device'
  rw [SsdDevicePath.mk.injEq]
  exact ⟨CString.ext (hpath.trans hpath'.symm), UInt64.toNat_inj.mp hread.symm⟩

theorem path_clean {front back : List UInt8} (h0 : (0 : UInt8) ∉ token)
    (hcut : token.dropWhile isSpace = front ++ colon :: back) :
    (0 : UInt8) ∉ stripQuotes (trim front) := by
  have hfront : (0 : UInt8) ∉ front :=
    fun hmem => h0 ((List.dropWhile_subset _) (hcut ▸ List.mem_append_left _ hmem))
  have htrim : (0 : UInt8) ∉ trim front := fun hmem =>
    hfront ((List.rdropWhile_prefix _ _).subset (List.dropWhile_subset _ hmem))
  unfold stripQuotes
  split_ifs
  · intro hmem
    exact htrim (List.drop_subset _ _ (List.dropLast_subset _ hmem))
  · exact htrim

theorem ofBytes_clean {bytes : List UInt8} (h : (0 : UInt8) ∉ bytes) :
    (CString.ofBytes bytes).bytes = bytes :=
  List.takeWhile_eq_self_iff.mpr fun _ hb => decide_eq_true fun he => h (he ▸ hb)

theorem parseSsdDevice_cut {front back : List UInt8} (h0 : (0 : UInt8) ∉ token)
    (hcut : token.dropWhile isSpace = front ++ colon :: back) (hno : colon ∉ back) :
    parseSsdDevice token = some device ↔ stripQuotes (trim front) ≠ [] ∧ sizeBytes (trim back) ≠ 0 ∧
      device.path.bytes = (stripQuotes (trim front)).take 255 ∧ device.size = sizeBytes (trim back) := by
  have hclean : (0 : UInt8) ∉ (stripQuotes (trim front)).take 255 := fun hmem =>
    path_clean h0 hcut (List.take_subset _ _ hmem)
  have hpos : 0 < sizeBytes (trim back) ↔ sizeBytes (trim back) ≠ 0 := by
    rw [UInt64.lt_iff_toNat_lt, ← UInt64.toNat_inj.ne]
    exact Nat.pos_iff_ne_zero
  unfold parseSsdDevice
  rw [cutLast_eq_some.mpr ⟨hcut, hno⟩]
  dsimp only
  simp only [hpos]
  by_cases hok : stripQuotes (trim front) ≠ [] ∧ sizeBytes (trim back) ≠ 0
  · rw [if_pos hok, Option.some.injEq]
    constructor
    · rintro rfl
      exact ⟨hok.1, hok.2, ofBytes_clean hclean, rfl⟩
    · rintro ⟨-, -, hpath, hsize⟩
      obtain ⟨path, size⟩ := device
      obtain rfl : size = sizeBytes (trim back) := hsize
      rw [SsdDevicePath.mk.injEq]
      exact ⟨CString.ext ((ofBytes_clean hclean).trans hpath.symm), rfl⟩
  · rw [if_neg hok]
    constructor
    · intro h
      cases h
    · rintro ⟨hpath, hsize, -⟩
      exact absurd ⟨hpath, hsize⟩ hok

theorem parseSsdDevice_uncut (h : colon ∉ token.dropWhile isSpace) : parseSsdDevice token = none := by
  unfold parseSsdDevice
  rw [cutLast_eq_none.mpr h]

/-- A well-formed entry is accepted, though its path may be cut. -/
theorem parseSsdDevice_named (h0 : (0 : UInt8) ∉ token) (h : NamesDevice token device) :
    ∃ device', parseSsdDevice token = some device' := by
  obtain ⟨front, back, hcut, hno, hpath, hne, hsize⟩ := h
  obtain ⟨-, hpos⟩ := sizeBytes_token_pos hsize
  rw [hpath] at hne
  have hclean : (0 : UInt8) ∉ (stripQuotes (trim front)).take 255 := fun hmem =>
    path_clean h0 hcut (List.take_subset _ _ hmem)
  exact ⟨⟨.ofBytes ((stripQuotes (trim front)).take 255), sizeBytes (trim back)⟩,
    (parseSsdDevice_cut h0 hcut hno).mpr ⟨hne, hpos, ofBytes_clean hclean, rfl⟩⟩

theorem parseSsdDevice_readable (h0 : (0 : UInt8) ∉ token) (hread : DeviceReadable token) :
    parseSsdDevice token = some device ↔ NamesDevice token device := by
  cases hcut : cutLast colon (token.dropWhile isSpace) with
  | none =>
    have hno := cutLast_eq_none.mp hcut
    rw [parseSsdDevice_uncut hno]
    constructor
    · intro h
      cases h
    · rintro ⟨front, back, he, -⟩
      exact absurd (he ▸ List.mem_append_right _ List.mem_cons_self) hno
  | some cut =>
    obtain ⟨front, back⟩ := cut
    obtain ⟨hcut, hno⟩ := cutLast_eq_some.mp hcut
    rw [parseSsdDevice_cut h0 hcut hno]
    constructor
    · rintro ⟨hpath, hsize, hdevice, hbytes⟩
      obtain ⟨hshort, hother⟩ := hread front back hcut hno hpath
      by_cases hwell : ∃ size, SizeToken (trim back) size
      · obtain ⟨size, hsize⟩ := hwell
        rw [List.take_of_length_le (hshort size hsize)] at hdevice
        refine ⟨front, back, hcut, hno, hdevice, hdevice ▸ hpath, ?_⟩
        rw [hbytes, (sizeBytes_token_pos hsize).1]
        exact hsize
      · have hzero := hother fun size hs => hwell ⟨size, hs⟩
        exact absurd ((sizeBytes_eq_zero _).mpr hzero) hsize
    · rintro ⟨front', back', hcut', hno', hpath, hne, hsize⟩
      obtain ⟨rfl, rfl⟩ := cutLast_unique hno hno' (hcut.symm.trans hcut')
      obtain ⟨hbytes, hpos⟩ := sizeBytes_token_pos hsize
      rw [hpath] at hne
      have hshort := (hread front back hcut hno hne).1 _ hsize
      refine ⟨hne, hpos, ?_, UInt64.toNat_inj.mp hbytes.symm⟩
      rw [List.take_of_length_le hshort]
      exact hpath

/-- An entry is read as it is written exactly when the condition holds. -/
theorem deviceReadable_iff (h0 : (0 : UInt8) ∉ token) :
    DeviceReadable token ↔ ∀ device, parseSsdDevice token = some device ↔ NamesDevice token device := by
  constructor
  · intro hread device
    exact parseSsdDevice_readable h0 hread
  · intro h front back hcut hno hpath
    constructor
    · intro size hsize
      have hlt : size < 2 ^ 64 := by
        obtain ⟨_, _, _, _, -, -, -, -, -, hlt⟩ := hsize
        exact hlt
      have hbytes := ofBytes_clean (path_clean h0 hcut)
      have hnamed : NamesDevice token ⟨.ofBytes (stripQuotes (trim front)), UInt64.ofNat size⟩ := by
        refine ⟨front, back, hcut, hno, hbytes, hbytes.symm ▸ hpath, ?_⟩
        rw [UInt64.toNat_ofNat_of_lt' hlt]
        exact hsize
      obtain ⟨-, -, hcutPath, -⟩ := (parseSsdDevice_cut h0 hcut hno).mp ((h _).mpr hnamed)
      have hlen := congrArg List.length (hbytes.symm.trans hcutPath)
      rw [List.length_take] at hlen
      omega
    · intro hnone
      rw [← sizeBytes_eq_zero]
      by_contra hpos
      have hclean : (0 : UInt8) ∉ (stripQuotes (trim front)).take 255 := fun hmem =>
        path_clean h0 hcut (List.take_subset _ _ hmem)
      obtain ⟨front', back', hcut', hno', -, -, hsize⟩ :=
        (h ⟨.ofBytes ((stripQuotes (trim front)).take 255), sizeBytes (trim back)⟩).mp
          ((parseSsdDevice_cut h0 hcut hno).mpr ⟨hpath, hpos, ofBytes_clean hclean, rfl⟩)
      obtain ⟨rfl, rfl⟩ := cutLast_unique hno hno' (hcut.symm.trans hcut')
      exact hnone _ hsize

/-- The loop takes the entries one by one, while the table has room for all of them. -/
theorem addSsdDevices_eq (hroom : devices.length + tokens.length ≤ maxSsdDevices) :
    addSsdDevices tokens devices = devices ++ tokens.filterMap parseSsdDevice := by
  induction tokens generalizing devices with
  | nil => rw [List.filterMap_nil, List.append_nil, addSsdDevices]
  | cons token tokens ih =>
    rw [List.length_cons] at hroom
    unfold addSsdDevices
    rw [if_neg (by omega)]
    cases hparse : parseSsdDevice token with
    | none =>
      rw [List.filterMap_cons_none hparse, Option.toList_none, List.append_nil]
      exact ih (by omega)
    | some device =>
      rw [List.filterMap_cons_some hparse, Option.toList_some,
        ih (by rw [List.length_append, List.length_singleton]; omega), List.append_assoc,
        List.singleton_append]

/-- Every entry that names a device adds one. -/
theorem NamedDevices.length_le (h : NamedDevices tokens devices)
    (h0 : ∀ token ∈ tokens, (0 : UInt8) ∉ token) :
    devices.length ≤ (tokens.filterMap parseSsdDevice).length := by
  induction h with
  | nil => exact le_rfl
  | @named token tokens device devices hnamed _ ih =>
    have htail := ih fun t ht => h0 t (List.mem_cons_of_mem _ ht)
    obtain ⟨device', hparse⟩ := parseSsdDevice_named (h0 token List.mem_cons_self) hnamed
    rw [List.filterMap_cons_some hparse, List.length_cons, List.length_cons]
    omega
  | @other token tokens devices _ _ ih =>
    have htail := ih fun t ht => h0 t (List.mem_cons_of_mem _ ht)
    cases hparse : parseSsdDevice token with
    | none =>
      rw [List.filterMap_cons_none hparse]
      exact htail
    | some device =>
      rw [List.filterMap_cons_some hparse, List.length_cons]
      omega

/-- A list of accepted devices that is right as a whole has every entry read right. -/
theorem NamedDevices.reads {devices : List SsdDevicePath} (h : NamedDevices tokens devices)
    (h0 : ∀ token ∈ tokens, (0 : UInt8) ∉ token)
    (hdevices : tokens.filterMap parseSsdDevice = devices) :
    ∀ token ∈ tokens, ∀ device, parseSsdDevice token = some device ↔ NamesDevice token device := by
  induction h with
  | nil =>
    intro token htoken
    cases htoken
  | @named token tokens device devices hnamed htail ih =>
    obtain ⟨device', hparse⟩ := parseSsdDevice_named (h0 token List.mem_cons_self) hnamed
    rw [List.filterMap_cons_some hparse] at hdevices
    obtain ⟨rfl, htokens⟩ := List.cons.inj hdevices
    intro t ht d
    obtain rfl | ht := List.mem_cons.mp ht
    · rw [hparse, Option.some.injEq]
      constructor
      · rintro rfl
        exact hnamed
      · intro hd
        exact hnamed.unique hd
    · exact ih (fun t ht => h0 t (List.mem_cons_of_mem _ ht)) htokens t ht d
  | @other token tokens devices hno htail ih =>
    cases hparse : parseSsdDevice token with
    | none =>
      rw [List.filterMap_cons_none hparse] at hdevices
      intro t ht d
      obtain rfl | ht := List.mem_cons.mp ht
      · rw [hparse]
        constructor
        · intro he
          cases he
        · intro hd
          exact absurd hd (hno d)
      · exact ih (fun t ht => h0 t (List.mem_cons_of_mem _ ht)) hdevices t ht d
    | some device =>
      -- One device more than entries that name one.
      have hle := htail.length_le fun t ht => h0 t (List.mem_cons_of_mem _ ht)
      rw [List.filterMap_cons_some hparse] at hdevices
      rw [← hdevices, List.length_cons] at hle
      omega

theorem namedDevices_of_reads
    (h : ∀ token ∈ tokens, ∀ device,
      parseSsdDevice token = some device ↔ NamesDevice token device) :
    NamedDevices tokens (tokens.filterMap parseSsdDevice) := by
  induction tokens with
  | nil => exact .nil
  | cons token tokens ih =>
    have htail := ih fun t ht => h t (List.mem_cons_of_mem _ ht)
    cases hparse : parseSsdDevice token with
    | none =>
      rw [List.filterMap_cons_none hparse]
      refine .other (fun d hd => ?_) htail
      rw [(h token List.mem_cons_self d).mpr hd] at hparse
      cases hparse
    | some device =>
      rw [List.filterMap_cons_some hparse]
      exact .named ((h token List.mem_cons_self device).mp hparse) htail

/-- The list of accepted devices is right as a whole exactly when every entry is read right. -/
theorem namedDevices_iff (h0 : ∀ token ∈ tokens, (0 : UInt8) ∉ token) :
    NamedDevices tokens (tokens.filterMap parseSsdDevice) ↔
      ∀ token ∈ tokens, ∀ device, parseSsdDevice token = some device ↔ NamesDevice token device :=
  ⟨fun h => h.reads h0 rfl, namedDevices_of_reads⟩

end Entries

/-- The list of devices is exact exactly when every entry meets the condition. -/
theorem parseSsdDevices_exact_iff (value : CString)
    (hfew : (strtok comma value.bytes).length ≤ maxSsdDevices) :
    NamedDevices (strtok comma value.bytes) (parseSsdDevices value []) ↔
      ∀ token ∈ strtok comma value.bytes, DeviceReadable token := by
  have h0 : ∀ token ∈ strtok comma value.bytes, (0 : UInt8) ∉ token := by
    intro token htoken hmem
    exact value.property (mem_of_mem_splitOn (List.mem_of_mem_filter htoken) hmem)
  have hlist : parseSsdDevices value [] = (strtok comma value.bytes).filterMap parseSsdDevice := by
    rw [parseSsdDevices, addSsdDevices_eq (by rw [List.length_nil]; omega), List.nil_append]
  rw [hlist, namedDevices_iff h0]
  constructor
  · intro h token htoken
    exact (deviceReadable_iff (h0 token htoken)).mpr (h token htoken)
  · intro h token htoken
    exact (deviceReadable_iff (h0 token htoken)).mp (h token htoken)

theorem deviceReadable_of_named {token : List UInt8} {device : SsdDevicePath}
    (h0 : (0 : UInt8) ∉ token) (hparse : parseSsdDevice token = some device)
    (hnamed : NamesDevice token device) : DeviceReadable token := by
  refine (deviceReadable_iff h0).mpr fun d => ⟨fun hd => ?_, fun hd => ?_⟩
  · obtain rfl := Option.some.inj (hparse.symm.trans hd)
    exact hnamed
  · rw [hparse, hnamed.unique hd]

/-- `a:1K,b:2M` names two devices. -/
theorem parseSsdDevices_exact_two :
    let value : CString := .ofBytes [97, 58, 49, 75, 44, 98, 58, 50, 77]
    NamedDevices (strtok comma value.bytes) (parseSsdDevices value []) ∧
      parseSsdDevices value [] = [⟨.ofBytes [97], 1024⟩, ⟨.ofBytes [98], 2097152⟩] := by
  intro value
  have hkilo : SizeToken [49, 75] 1024 :=
    ⟨[49], [75], 1, 1024, rfl, .decimal (by decide) (List.forall_mem_singleton.mpr (by decide)), rfl,
      rfl, by decide, by decide⟩
  have hmega : SizeToken [50, 77] 2097152 :=
    ⟨[50], [77], 2, 1048576, rfl, .decimal (by decide) (List.forall_mem_singleton.mpr (by decide)),
      rfl, rfl, by decide, by decide⟩
  have hsplit : strtok comma value.bytes = [[97, 58, 49, 75], [98, 58, 50, 77]] := by decide
  refine ⟨(parseSsdDevices_exact_iff value (by rw [hsplit]; decide)).mpr ?_, by decide +kernel⟩
  rw [hsplit]
  intro token htoken
  simp only [List.mem_cons, List.not_mem_nil, or_false] at htoken
  obtain rfl | rfl := htoken
  · exact deviceReadable_of_named (by decide)
      (by decide : parseSsdDevice [97, 58, 49, 75] = some ⟨.ofBytes [97], 1024⟩)
      ⟨[97], [49, 75], rfl, by decide, by decide, by decide, hkilo⟩
  · exact deviceReadable_of_named (by decide)
      (by decide : parseSsdDevice [98, 58, 50, 77] = some ⟨.ofBytes [98], 2097152⟩)
      ⟨[98], [50, 77], rfl, by decide, by decide, by decide, hmega⟩

/-- `1T` is no size. -/
theorem terabyte_not_size (size : ℕ) : ¬ SizeToken [49, 84] size := by
  rintro ⟨number, suffix, value, factor, he, hn, hs, -⟩
  match suffix, hs, (suffixFactor_head hs).1 with
  | [], _, _ =>
    rw [List.append_nil] at he
    obtain ⟨b, hb, hlt⟩ := hn.last
    rw [← he] at hb
    obtain rfl := Option.some.inj hb
    exact absurd hlt (by decide)
  | [b], hs, _ =>
    have hsplit : ([49] : List UInt8) ++ [84] = number ++ [b] := he
    obtain ⟨-, hlast⟩ := List.append_inj' hsplit rfl
    obtain rfl := (List.cons.inj hlast).1
    cases hs

/-- `a:1T` is accepted, as a device of one byte. -/
theorem parseSsdDevices_misread : ¬ NamedDevices (strtok comma (CString.ofBytes [97, 58, 49, 84]).bytes)
    (parseSsdDevices (.ofBytes [97, 58, 49, 84]) []) := by
  have hone : parseSsdDevices (.ofBytes [97, 58, 49, 84]) [] = [⟨.ofBytes [97], 1⟩] := by decide
  have htoken : strtok comma (CString.ofBytes [97, 58, 49, 84]).bytes = [[97, 58, 49, 84]] := by decide
  rw [hone, htoken]
  intro h
  cases h with
  | named hnamed _ =>
    obtain ⟨front, back, hcut, hno, -, -, hsize⟩ := hnamed
    have hsplit : ([97] : List UInt8) ++ colon :: [49, 84] = front ++ colon :: back := hcut
    obtain ⟨-, rfl⟩ := cutLast_unique (by decide) hno hsplit
    exact terabyte_not_size _ hsize
  | other _ htail => cases htail

end Umm
