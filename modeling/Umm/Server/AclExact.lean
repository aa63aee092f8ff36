import Umm.Server.Acl
import Umm.Lib.Cut

/-! What the allow list admits: the entries as the parser reads them against the entries as they
are written. -/
namespace Umm
open Umm.Lib

/-- The entry `a.b.c.d` or `a.b.c.d/n` names the first `n` bits of an address. -/
def NamesNetwork (entry : List UInt8) (net : UInt32) (n : ℕ) : Prop :=
  inetPton entry = some net ∧ n = 32 ∨
    ∃ quad number, entry = quad ++ slash :: number ∧ inetPton quad = some net ∧ Decimal number ∧
      digits number = n ∧ n ≤ 32

/-- What stands behind the slash is no decimal number up to 32, and `atoi` makes one of it. -/
def Misread (entry : List UInt8) (net : UInt32) (n : ℕ) : Prop :=
  ∃ quad number, entry = quad ++ slash :: number ∧ inetPton quad = some net ∧
    ¬ (Decimal number ∧ digits number ≤ 32) ∧ atoi number = n ∧ n ≤ 32 ∧ entry.length < 64

/-- Two addresses agree on their first `n` bits. -/
def SamePrefix (n : ℕ) (a b : UInt32) : Prop := a.toNat / 2 ^ (32 - n) = b.toNat / 2 ^ (32 - n)

/-- The entry, after leading blanks, is read as a network with the address in it. -/
def Covers (reads : List UInt8 → UInt32 → ℕ → Prop) (addr : UInt32) (entry : List UInt8) : Prop :=
  ∃ net n, reads (entry.dropWhile isBlank) net n ∧ SamePrefix n addr net

/-- One turn of the loop over the entries. -/
def entryMatch (addr : UInt32) (entry : List UInt8) : Bool :=
  match parseCidrEntry (entry.dropWhile isBlank) with
  | .error _ => false
  | .ok (net, length) => addr &&& cidrMask length = net &&& cidrMask length

theorem netAclMatch_entries {cidrList ip : CString} (hne : cidrList.bytes ≠ []) {addr : UInt32}
    (hip : inetPton ip.bytes = some addr) :
    netAclMatch cidrList ip = (cidrList.bytes.splitOn comma).any (entryMatch addr) := by
  have hempty : cidrList.isEmpty = false := decide_eq_false hne
  unfold netAclMatch
  rw [if_neg (by rw [hempty]; decide), hip]
  rfl

section Masks

theorem cidrMask_testBit {n : ℕ} (hn : n ≤ 32) (i : ℕ) :
    (cidrMask n).toNat.testBit i = (decide (32 - n ≤ i) && decide (i < 32)) := by
  unfold cidrMask
  by_cases h0 : n = 0
  · rw [if_pos h0, UInt32.toNat_zero, Nat.zero_testBit]
    subst h0
    by_cases hi : i < 32
    · rw [decide_eq_false (p := 32 - 0 ≤ i) (by omega), Bool.false_and]
    · rw [decide_eq_false hi, Bool.and_false]
  · have hshift : ((32 - n).toUInt32).toNat % 32 = 32 - n := by
      have hsmall : (32 - n).toUInt32.toNat = 32 - n := UInt32.toNat_ofNat_of_lt' (by norm_num; omega)
      omega
    have hones : (0xFFFFFFFF : UInt32).toNat = 2 ^ 32 - 1 := rfl
    rw [if_neg h0, UInt32.toNat_shiftLeft, hshift, hones, Nat.testBit_mod_two_pow,
      Nat.testBit_shiftLeft, Nat.testBit_two_pow_sub_one]
    by_cases hi : i < 32
    · by_cases hk : 32 - n ≤ i
      · simp [hi, hk]
        omega
      · simp [hk]
    · simp [hi]

/-- Equal under the mask means equal in the first `n` bits. -/
theorem cidrMask_iff {n : ℕ} (hn : n ≤ 32) (a b : UInt32) :
    a &&& cidrMask n = b &&& cidrMask n ↔ SamePrefix n a b := by
  have hbit : ∀ (x : UInt32) (i : ℕ), (x &&& cidrMask n).toNat.testBit i =
      (decide (32 - n ≤ i) && x.toNat.testBit i) := by
    intro x i
    rw [UInt32.toNat_and, Nat.testBit_and, cidrMask_testBit hn]
    by_cases hi : i < 32
    · rw [decide_eq_true hi, Bool.and_true, Bool.and_comm]
    · have hx : x.toNat.testBit i = false :=
        Nat.testBit_lt_two_pow (lt_of_lt_of_le x.toNat_lt (Nat.pow_le_pow_right (by norm_num) (by omega)))
      rw [hx, Bool.false_and, Bool.and_false]
  unfold SamePrefix
  constructor
  · intro h
    apply Nat.eq_of_testBit_eq
    intro i
    have hi := congrArg (fun x : UInt32 => x.toNat.testBit (i + (32 - n))) h
    rw [hbit, hbit, decide_eq_true (by omega), Bool.true_and, Bool.true_and] at hi
    rw [Nat.testBit_div_two_pow, Nat.testBit_div_two_pow, hi]
  · intro h
    apply UInt32.toNat_inj.mp
    apply Nat.eq_of_testBit_eq
    intro i
    rw [hbit, hbit]
    by_cases hi : 32 - n ≤ i
    · obtain ⟨j, rfl⟩ := Nat.exists_eq_add_of_le' hi
      have hj := congrArg (fun x : ℕ => x.testBit j) h
      rw [Nat.testBit_div_two_pow, Nat.testBit_div_two_pow] at hj
      rw [hj]
    · rw [decide_eq_false hi, Bool.false_and, Bool.false_and]

end Masks

section Entries

theorem atoi_decimal {number : List UInt8} (h : Decimal number) (hsmall : digits number ≤ 32) :
    atoi number = digits number := by
  have hread := strtol_decimal [] h (fun b hb => by cases hb)
  rw [List.append_nil, min_eq_left (by omega)] at hread
  rw [atoi, hread, Int.bmod_eq_of_le (by omega) (by omega)]

theorem parseOctet_digits {bytes : List UInt8} {v : UInt32} (h : parseOctet bytes = some v) :
    ∀ b ∈ bytes, isDigit b = true := by
  unfold parseOctet at h
  split at h
  next => cases h
  next hbad =>
    rw [Bool.or_eq_true, not_or, Bool.not_eq_true, Bool.not_eq_true, Bool.not_eq_false',
      List.all_eq_true] at hbad
    exact hbad.2

/-- A dotted quad is digits and dots. -/
theorem inetPton_chars {bytes : List UInt8} {net : UInt32} (h : inetPton bytes = some net) :
    ∀ b ∈ bytes, isDigit b = true ∨ b = dot := by
  unfold inetPton at h
  split at h
  next a b c d hsplit =>
    have hpieces : ∀ piece ∈ bytes.splitOn dot, ∀ b ∈ piece, isDigit b = true := by
      intro piece hmem
      have hsome := List.mem_map_of_mem (f := parseOctet) hmem
      rw [hsplit] at hsome
      have hoctet : ∃ v, parseOctet piece = some v := by
        simp only [List.mem_cons, List.not_mem_nil, or_false] at hsome
        obtain h1 | h2 | h3 | h4 := hsome
        · exact ⟨a, h1⟩
        · exact ⟨b, h2⟩
        · exact ⟨c, h3⟩
        · exact ⟨d, h4⟩
      obtain ⟨v, hv⟩ := hoctet
      exact parseOctet_digits hv
    intro x hx
    obtain hdot | ⟨piece, hpiece, hmem⟩ := mem_splitOn hx
    · exact Or.inr hdot
    · exact Or.inl (hpieces piece hpiece x hmem)
  next => cases h

theorem inetPton_no_slash {bytes : List UInt8} {net : UInt32} (h : inetPton bytes = some net) :
    slash ∉ bytes := by
  intro hmem
  obtain hd | hd := inetPton_chars h slash hmem
  · exact absurd hd (by decide)
  · exact absurd hd (by decide)

theorem namesNetwork_slash {quad number : List UInt8} (h : slash ∉ quad) {net : UInt32} {n : ℕ} :
    NamesNetwork (quad ++ slash :: number) net n ↔
      inetPton quad = some net ∧ Decimal number ∧ digits number = n ∧ n ≤ 32 := by
  constructor
  · rintro (⟨hplain, -⟩ | ⟨quad', number', he, hquad, hrest⟩)
    · exact absurd (List.mem_append_right _ List.mem_cons_self) (inetPton_no_slash hplain)
    · obtain ⟨rfl, rfl⟩ := cut_unique h (inetPton_no_slash hquad) he
      exact ⟨hquad, hrest⟩
  · rintro ⟨hquad, hrest⟩
    exact Or.inr ⟨quad, number, rfl, hquad, hrest⟩

theorem misread_slash {quad number : List UInt8} (h : slash ∉ quad) {net : UInt32} {n : ℕ} :
    Misread (quad ++ slash :: number) net n ↔
      inetPton quad = some net ∧ ¬ (Decimal number ∧ digits number ≤ 32) ∧ atoi number = n ∧
        n ≤ 32 ∧ (quad ++ slash :: number).length < 64 := by
  constructor
  · rintro ⟨quad', number', he, hquad, hrest⟩
    obtain ⟨rfl, rfl⟩ := cut_unique h (inetPton_no_slash hquad) he
    exact ⟨hquad, hrest⟩
  · rintro ⟨hquad, hrest⟩
    exact ⟨quad, number, rfl, hquad, hrest⟩

theorem parseCidrEntry_slash {quad number : List UInt8} (h : slash ∉ quad) {net : UInt32} {n : ℕ} :
    parseCidrEntry (quad ++ slash :: number) = .ok (net, n) ↔
      (quad ++ slash :: number).length < 64 ∧ atoi number = n ∧ n ≤ 32 ∧ inetPton quad = some net := by
  have hne : quad ++ slash :: number ≠ [] := List.append_ne_nil_of_right_ne_nil _ (List.cons_ne_nil _ _)
  unfold parseCidrEntry
  rw [takeWhile_cut h, dropWhile_cut h]
  dsimp only
  by_cases hlong : 64 ≤ (quad ++ slash :: number).length
  · rw [if_pos (by rw [decide_eq_true hlong, Bool.or_true])]
    constructor
    · intro he
      cases he
    · intro hshort
      omega
  · rw [if_neg (by rw [decide_eq_false hlong, decide_eq_false hne]; decide)]
    by_cases hrange : atoi number < 0 ∨ 32 < atoi number
    · rw [if_pos (by simpa using hrange)]
      constructor
      · intro he
        cases he
      · rintro ⟨-, hn, hle, -⟩
        omega
    · rw [if_neg (by simpa using hrange)]
      cases hquad : inetPton quad with
      | none =>
        constructor
        · intro he
          cases he
        · rintro ⟨-, -, -, hsome⟩
          cases hsome
      | some net' =>
        constructor
        · intro he
          obtain ⟨rfl, rfl⟩ := Prod.mk.inj (Except.ok.inj he)
          exact ⟨by omega, by omega, by omega, rfl⟩
        · rintro ⟨-, hn, hle, hsome⟩
          obtain rfl := Option.some.inj hsome
          have hnat : (atoi number).toNat = n := by omega
          rw [hnat]

theorem parseCidrEntry_plain {entry : List UInt8} (h : slash ∉ entry) {net : UInt32} {n : ℕ} :
    parseCidrEntry entry = .ok (net, n) ↔ entry.length < 64 ∧ inetPton entry = some net ∧ n = 32 := by
  unfold parseCidrEntry
  rw [takeWhile_uncut h, dropWhile_uncut h]
  dsimp only
  by_cases hbad : entry = [] ∨ 64 ≤ entry.length
  · rw [if_pos (by simpa using hbad)]
    constructor
    · intro he
      cases he
    · rintro ⟨hshort, hquad, -⟩
      obtain rfl | hlong := hbad
      · cases hquad
      · omega
  · rw [if_neg (by simpa using hbad), if_neg (by decide)]
    cases hquad : inetPton entry with
    | none =>
      constructor
      · intro he
        cases he
      · rintro ⟨-, hsome, -⟩
        cases hsome
    | some net' =>
      constructor
      · intro he
        obtain ⟨rfl, rfl⟩ := Prod.mk.inj (Except.ok.inj he)
        exact ⟨by omega, rfl, rfl⟩
      · rintro ⟨-, hsome, rfl⟩
        obtain rfl := Option.some.inj hsome
        rfl

/-- The parser in terms of the form of the entry. -/
theorem parseCidrEntry_iff (entry : List UInt8) (net : UInt32) (n : ℕ) :
    parseCidrEntry entry = .ok (net, n) ↔
      entry.length < 64 ∧ NamesNetwork entry net n ∨ Misread entry net n := by
  by_cases hs : slash ∈ entry
  · obtain ⟨quad, number, rfl, hq⟩ := List.eq_append_cons_of_mem hs
    rw [parseCidrEntry_slash hq, namesNetwork_slash hq, misread_slash hq]
    constructor
    · rintro ⟨hlen, hn, hle, hquad⟩
      by_cases hnumber : Decimal number ∧ digits number ≤ 32
      · have hread := atoi_decimal hnumber.1 hnumber.2
        exact Or.inl ⟨hlen, hquad, hnumber.1, by omega, hle⟩
      · exact Or.inr ⟨hquad, hnumber, hn, hle, hlen⟩
    · rintro (⟨hlen, hquad, hnumber, rfl, hle⟩ | ⟨hquad, -, hn, hle, hlen⟩)
      · exact ⟨hlen, atoi_decimal hnumber hle, hle, hquad⟩
      · exact ⟨hlen, hn, hle, hquad⟩
  · rw [parseCidrEntry_plain hs]
    constructor
    · rintro ⟨hlen, hquad⟩
      exact Or.inl ⟨hlen, Or.inl hquad⟩
    · rintro (⟨hlen, hquad | ⟨quad, number, rfl, -⟩⟩ | ⟨quad, number, rfl, -⟩)
      · exact ⟨hlen, hquad⟩
      · exact absurd (List.mem_append_right _ List.mem_cons_self) hs
      · exact absurd (List.mem_append_right _ List.mem_cons_self) hs

theorem Misread.not_named {entry : List UInt8} {net net' : UInt32} {n n' : ℕ}
    (h : Misread entry net n) : ¬ NamesNetwork entry net' n' := by
  obtain ⟨quad, number, rfl, hquad, hnumber, -⟩ := h
  rw [namesNetwork_slash (inetPton_no_slash hquad)]
  rintro ⟨-, hdec, rfl, hle⟩
  exact hnumber ⟨hdec, hle⟩

theorem NamesNetwork.le {entry : List UInt8} {net : UInt32} {n : ℕ} (h : NamesNetwork entry net n) :
    n ≤ 32 := by
  obtain ⟨-, rfl⟩ | ⟨_, _, -, -, -, -, hle⟩ := h
  · exact le_rfl
  · exact hle

theorem entryMatch_iff (addr : UInt32) (entry : List UInt8) :
    entryMatch addr entry = true ↔
      (entry.dropWhile isBlank).length < 64 ∧ Covers NamesNetwork addr entry ∨
        Covers Misread addr entry := by
  have hread := parseCidrEntry_iff (entry.dropWhile isBlank)
  unfold entryMatch
  constructor
  · intro h
    split at h
    next => cases h
    next net n hparse =>
      have hmask := of_decide_eq_true h
      obtain ⟨hlen, hnames⟩ | hmis := (hread net n).mp hparse
      · exact Or.inl ⟨hlen, net, n, hnames, (cidrMask_iff hnames.le addr net).mp hmask⟩
      · obtain ⟨_, _, -, -, -, -, hle, -⟩ := id hmis
        exact Or.inr ⟨net, n, hmis, (cidrMask_iff hle addr net).mp hmask⟩
  · rintro (⟨hlen, net, n, hnames, hsame⟩ | ⟨net, n, hmis, hsame⟩)
    · rw [(hread net n).mpr (Or.inl ⟨hlen, hnames⟩)]
      exact decide_eq_true ((cidrMask_iff hnames.le addr net).mpr hsame)
    · rw [(hread net n).mpr (Or.inr hmis)]
      obtain ⟨_, _, -, -, -, -, hle, -⟩ := hmis
      exact decide_eq_true ((cidrMask_iff hle addr net).mpr hsame)

end Entries

/-- The list admits the address that its well-formed entries name, and its other entries admit
nobody. -/
def NetAclExact (cidrList ip : CString) : Prop :=
  (netAclMatch cidrList ip = true ↔ cidrList.bytes = [] ∨ ∃ addr, inetPton ip.bytes = some addr ∧
    ∃ entry ∈ cidrList.bytes.splitOn comma, Covers NamesNetwork addr entry) ∧
  ∀ addr, inetPton ip.bytes = some addr → ∀ entry ∈ cidrList.bytes.splitOn comma,
    (∀ net n, ¬ NamesNetwork (entry.dropWhile isBlank) net n) → entryMatch addr entry = false

/-- No entry is misread as a network of the address, and an entry that is too long for the buffer
of the parser is not the only one that names it. -/
def AclReadable (cidrList ip : CString) : Prop :=
  ∀ addr, inetPton ip.bytes = some addr →
    (∀ entry ∈ cidrList.bytes.splitOn comma, ¬ Covers Misread addr entry) ∧
    ((∃ entry ∈ cidrList.bytes.splitOn comma, Covers NamesNetwork addr entry) →
      ∃ entry ∈ cidrList.bytes.splitOn comma, (entry.dropWhile isBlank).length < 64 ∧
        Covers NamesNetwork addr entry)

theorem netAclMatch_iff {cidrList ip : CString} (hne : cidrList.bytes ≠ []) {addr : UInt32}
    (hip : inetPton ip.bytes = some addr) :
    netAclMatch cidrList ip = true ↔ ∃ entry ∈ cidrList.bytes.splitOn comma,
      (entry.dropWhile isBlank).length < 64 ∧ Covers NamesNetwork addr entry ∨
        Covers Misread addr entry := by
  rw [netAclMatch_entries hne hip, List.any_eq_true]
  simp only [entryMatch_iff]

/-- The allow list is exact for an address exactly when none of its entries is misread for it. -/
theorem netAclMatch_exact_iff (cidrList ip : CString) :
    NetAclExact cidrList ip ↔ AclReadable cidrList ip := by
  constructor
  · rintro ⟨hmatch, hmalformed⟩ addr hip
    have hread : ∀ entry ∈ cidrList.bytes.splitOn comma, ¬ Covers Misread addr entry := by
      intro entry hentry hcovers
      obtain ⟨net, n, hmis, -⟩ := id hcovers
      have hno := hmalformed addr hip entry hentry fun _ _ => hmis.not_named
      rw [(entryMatch_iff addr entry).mpr (Or.inr hcovers)] at hno
      cases hno
    refine ⟨hread, fun hnames => ?_⟩
    have hyes := hmatch.mpr (Or.inr ⟨addr, hip, hnames⟩)
    have hne : cidrList.bytes ≠ [] := by
      intro hempty
      obtain ⟨entry, hentry, net, n, hn, -⟩ := hnames
      rw [hempty, List.splitOn_nil, List.mem_singleton] at hentry
      subst hentry
      obtain ⟨hplain, -⟩ | ⟨quad, number, he, -⟩ := hn
      · cases hplain
      · exact absurd he.symm (List.append_ne_nil_of_right_ne_nil _ (List.cons_ne_nil _ _))
    obtain ⟨entry, hentry, hshort | hmis⟩ := (netAclMatch_iff hne hip).mp hyes
    · exact ⟨entry, hentry, hshort⟩
    · exact absurd hmis (hread entry hentry)
  · intro hreadable
    constructor
    · by_cases hempty : cidrList.bytes = []
      · have hopen : netAclMatch cidrList ip = true := if_pos (decide_eq_true hempty)
        exact ⟨fun _ => Or.inl hempty, fun _ => hopen⟩
      · cases hip : inetPton ip.bytes with
        | none =>
          have hclosed : netAclMatch cidrList ip = false := by
            unfold netAclMatch
            rw [if_neg (by rw [CString.isEmpty, decide_eq_false hempty]; decide), hip]
          rw [hclosed]
          constructor
          · intro h
            cases h
          · rintro (h | ⟨addr, h, -⟩)
            · exact absurd h hempty
            · cases h
        | some addr =>
          obtain ⟨hread, hshort⟩ := hreadable addr hip
          rw [netAclMatch_iff hempty hip]
          constructor
          · rintro ⟨entry, hentry, ⟨-, hnames⟩ | hmis⟩
            · exact Or.inr ⟨addr, rfl, entry, hentry, hnames⟩
            · exact absurd hmis (hread entry hentry)
          · rintro (h | ⟨_, hsame, hnames⟩)
            · exact absurd h hempty
            · obtain rfl := Option.some.inj hsame
              obtain ⟨entry, hentry, hfits⟩ := hshort hnames
              exact ⟨entry, hentry, Or.inl hfits⟩
    · intro addr hip entry hentry hmalformed
      rw [← Bool.not_eq_true, entryMatch_iff]
      rintro (⟨-, net, n, hnames, -⟩ | hmis)
      · exact hmalformed net n hnames
      · exact (hreadable addr hip).1 entry hentry hmis

/-- `10.0.0.0/x` lets `8.8.8.8` in. -/
theorem netAclMatch_typo : ¬ NetAclExact (.ofBytes [49, 48, 46, 48, 46, 48, 46, 48, 47, 120])
    (.ofBytes [56, 46, 56, 46, 56, 46, 56]) := by
  rintro ⟨hmatch, -⟩
  obtain hempty | ⟨addr, -, entry, hentry, net, n, hnames, -⟩ := hmatch.mp (by decide)
  · cases hempty
  · have hone : entry = [49, 48, 46, 48, 46, 48, 46, 48] ++ slash :: [120] :=
      List.mem_singleton.mp hentry
    rw [hone] at hnames
    have hquad : slash ∉ ([49, 48, 46, 48, 46, 48, 46, 48] : List UInt8) := by decide
    obtain ⟨-, ⟨-, hdigits⟩, -⟩ := (namesNetwork_slash hquad).mp hnames
    exact absurd (hdigits 120 List.mem_cons_self) (by decide)

end Umm
