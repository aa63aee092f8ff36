import Umm.Client.CisRouter
import Umm.Lib.Cut

/-! What the configuration names as peers, against the table that the router builds from it. -/
namespace Umm
open Umm.Lib

/-- The entry is `<decimal digits for node>:<addr>`, of a node up to 254. -/
def NamesPeer (entry : List UInt8) (node : UInt8) (addr : List UInt8) : Prop :=
  ∃ number, entry = number ++ colon :: addr ∧ Decimal number ∧ digits number = node.toNat ∧
    node ≠ 255 ∧ addr ≠ [] ∧ addr.length < 256

/-- What stands before the colon is no decimal number, and `strtol` makes a node of it. -/
def MisreadPeer (entry : List UInt8) (node : UInt8) (addr : List UInt8) : Prop :=
  ∃ text, entry = text ++ colon :: addr ∧ colon ∉ text ∧ text ≠ [] ∧ ¬ Decimal text ∧
    strtol entry = node.toNat ∧ node ≠ 255 ∧ addr ≠ [] ∧ addr.length < 256

theorem decimal_no_colon {number : List UInt8} (h : Decimal number) : colon ∉ number := by
  intro hmem
  exact absurd (h.2 colon hmem) (by decide)

theorem NamesPeer.unique {entry addr addr' : List UInt8} {node node' : UInt8}
    (h : NamesPeer entry node addr) (h' : NamesPeer entry node' addr') :
    node = node' ∧ addr = addr' := by
  obtain ⟨number, rfl, hdec, hvalue, -⟩ := h
  obtain ⟨number', he, hdec', hvalue', -⟩ := h'
  obtain ⟨rfl, rfl⟩ := cut_unique (decimal_no_colon hdec) (decimal_no_colon hdec') he
  exact ⟨UInt8.toNat_inj.mp (hvalue.symm.trans hvalue'), rfl⟩

namespace CisRouterState

/-- The last entry of the node has this address. -/
def LastPeer (toks : List (List UInt8)) (node : UInt8) (addr : List UInt8) : Prop :=
  ∃ before tok after, toks = before ++ tok :: after ∧ NamesPeer (tok.dropWhile isBlank) node addr ∧
    ∀ t ∈ after, ∀ addr', ¬ NamesPeer (t.dropWhile isBlank) node addr'

/-- The entry of the table for a node. -/
def addrOf (r : CisRouterState) (node : UInt8) : Option (List UInt8) :=
  (r.entries.find? fun e => e.node = node).map CisNodeEntry.addr

section Parse

variable {tok : List UInt8} {node : UInt8} {addr : List UInt8}

theorem node_of_range {value : ℤ} (h0 : 0 ≤ value) (h : value < 255) :
    value.toNat.toUInt8 = node ↔ value = node.toNat ∧ node ≠ 255 := by
  have hread : value.toNat.toUInt8.toNat = value.toNat := UInt8.toNat_ofNat_of_lt' (by norm_num; omega)
  constructor
  · rintro rfl
    refine ⟨by omega, fun he => ?_⟩
    rw [he] at hread
    have h255 : (255 : UInt8).toNat = 255 := rfl
    omega
  · rintro ⟨he, -⟩
    apply UInt8.toNat_inj.mp
    omega

theorem parsePeer_cut {text addr : List UInt8} (hcut : tok.dropWhile isBlank = text ++ colon :: addr)
    (hno : colon ∉ text) {addr' : List UInt8} :
    parsePeer tok = some (node, addr') ↔ addr = addr' ∧ text ≠ [] ∧
      strtol (tok.dropWhile isBlank) = node.toNat ∧ node ≠ 255 ∧ addr ≠ [] ∧ addr.length < 256 := by
  have hhead : (tok.dropWhile isBlank).head? = some colon ↔ text = [] := by
    rw [hcut]
    cases text with
    | nil => exact ⟨fun _ => rfl, fun _ => rfl⟩
    | cons b text =>
      constructor
      · intro he
        exact absurd (Option.some.inj he ▸ List.mem_cons_self) hno
      · intro he
        cases he
  have hlt := node.toNat_lt
  unfold parsePeer
  dsimp only
  rw [hcut, dropWhile_cut hno, ← hcut]
  dsimp only
  by_cases hform : text = [] ∨ addr = []
  · rw [if_pos (by simpa [hhead] using hform)]
    constructor
    · intro h
      cases h
    · rintro ⟨-, htext, -, -, haddr, -⟩
      exact absurd hform (not_or.mpr ⟨htext, haddr⟩)
  obtain ⟨htext, haddr⟩ := not_or.mp hform
  rw [if_neg (by simpa [hhead] using hform)]
  by_cases hrange : 0 ≤ strtol (tok.dropWhile isBlank) ∧ strtol (tok.dropWhile isBlank) < 255
  · rw [if_neg (by simp only [Bool.or_eq_true, decide_eq_true_eq]; omega)]
    by_cases hlong : 256 ≤ addr.length
    · rw [if_pos hlong]
      constructor
      · intro h
        cases h
      · rintro ⟨-, -, -, -, -, hfits⟩
        omega
    · rw [if_neg hlong, Option.some.injEq, Prod.mk.injEq, node_of_range hrange.1 hrange.2]
      constructor
      · rintro ⟨⟨hvalue, hne⟩, rfl⟩
        exact ⟨rfl, htext, hvalue, hne, haddr, by omega⟩
      · rintro ⟨rfl, -, hvalue, hne, -, -⟩
        exact ⟨⟨hvalue, hne⟩, rfl⟩
  · rw [if_pos (by simp only [Bool.or_eq_true, decide_eq_true_eq]; omega)]
    constructor
    · intro h
      cases h
    · rintro ⟨-, -, hvalue, hne, -, -⟩
      have hsmall : node.toNat ≠ 255 := fun he => hne (UInt8.toNat_inj.mp he)
      omega

theorem parsePeer_uncut (h : colon ∉ tok.dropWhile isBlank) : parsePeer tok = none := by
  unfold parsePeer
  dsimp only
  rw [dropWhile_uncut h]

/-- What the parser takes: the entries that name a peer, and those it misreads. -/
theorem parsePeer_iff : parsePeer tok = some (node, addr) ↔
    NamesPeer (tok.dropWhile isBlank) node addr ∨ MisreadPeer (tok.dropWhile isBlank) node addr := by
  by_cases hcolon : colon ∈ tok.dropWhile isBlank
  · obtain ⟨text, rest, hcut, hno⟩ := List.eq_append_cons_of_mem hcolon
    rw [parsePeer_cut hcut hno]
    constructor
    · rintro ⟨rfl, htext, hvalue, hne, haddr, hfits⟩
      by_cases hdec : Decimal text
      · have hread := strtol_decimal (colon :: rest) hdec (fun b hb => by
          rw [← Option.some.inj hb]
          decide)
        have hlt := node.toNat_lt
        rw [← hcut] at hread
        exact Or.inl ⟨text, hcut, hdec, by omega, hne, haddr, hfits⟩
      · exact Or.inr ⟨text, hcut, hno, htext, hdec, hvalue, hne, haddr, hfits⟩
    · rintro (⟨number, he, hdec, hvalue, hne, haddr, hfits⟩ | ⟨text', he, hno', htext, -, hrest⟩)
      · obtain ⟨rfl, rfl⟩ := cut_unique hno (decimal_no_colon hdec) (hcut.symm.trans he)
        have hread := strtol_decimal (colon :: rest) hdec (fun b hb => by
          rw [← Option.some.inj hb]
          decide)
        have hlt := node.toNat_lt
        rw [← hcut] at hread
        exact ⟨rfl, hdec.1, by omega, hne, haddr, hfits⟩
      · obtain ⟨rfl, rfl⟩ := cut_unique hno hno' (hcut.symm.trans he)
        exact ⟨rfl, htext, hrest⟩
  · rw [parsePeer_uncut hcolon]
    constructor
    · intro h
      cases h
    · rintro (⟨number, he, -⟩ | ⟨text, he, -⟩)
      · exact absurd (he ▸ List.mem_append_right _ List.mem_cons_self) hcolon
      · exact absurd (he ▸ List.mem_append_right _ List.mem_cons_self) hcolon

end Parse

/-- A table of the nodes of a list, one entry for each, with addresses that fit. -/
structure TableOf (nodes : List UInt8) (r : CisRouterState) : Prop where
  initialized : r.initialized = true
  nodup : (r.entries.map CisNodeEntry.node).Nodup
  known : ∀ e ∈ r.entries, e.node ∈ nodes
  fits : ∀ e ∈ r.entries, e.addr.length < 256

section Register

variable {r : CisRouterState} {nodes : List UInt8} {node : UInt8} {addr : List UInt8}

theorem getNodeAddr_iff (h : TableOf nodes r) :
    r.getNodeAddr node 256 = .ok addr ↔ r.addrOf node = some addr := by
  unfold getNodeAddr addrOf
  rw [h.initialized, if_neg (by decide), if_neg (by decide)]
  cases hf : r.entries.find? fun e => e.node = node with
  | none =>
    constructor
    · intro he
      cases he
    · intro he
      cases he
  | some e =>
    have hfits := h.fits e (List.mem_of_find?_eq_some hf)
    dsimp only
    rw [List.take_of_length_le (by omega), Except.ok.injEq, Option.map_some, Option.some.injEq]

/-- The entries around the one that a search for the node finds. -/
theorem findIdx_node {i : ℕ} (h : r.entries.findIdx? (fun e => e.node = node) = some i) :
    ∃ before old after, r.entries = before ++ old :: after ∧ old.node = node ∧
      (∀ e ∈ before, e.node ≠ node) ∧ ∀ e, r.entries.set i e = before ++ e :: after := by
  obtain ⟨hi, hnode, hbefore⟩ := List.findIdx?_eq_some_iff_getElem.mp h
  refine ⟨r.entries.take i, r.entries[i], r.entries.drop (i + 1), ?_, of_decide_eq_true hnode, ?_, ?_⟩
  · rw [← List.drop_eq_getElem_cons hi, List.take_append_drop]
  · intro e he
    obtain ⟨j, hj, rfl⟩ := List.mem_take_iff_getElem.mp he
    have hji := hbefore j (by omega)
    exact fun hsame => hji (decide_eq_true hsame)
  · intro e
    rw [List.set_eq_take_append_cons_drop, if_pos hi]

theorem find?_own {n : UInt8} (hn : node = n) (rest : List CisNodeEntry) :
    List.find? (fun e : CisNodeEntry => e.node = n) (⟨node, addr⟩ :: rest) = some ⟨node, addr⟩ :=
  List.find?_cons_of_pos (decide_eq_true hn)

/-- Registering a node changes its own address only. -/
theorem registerNode_table (h : TableOf nodes r) (hnode : node ∈ nodes) (hfew : nodes.length ≤ 64)
    (haddr : addr ≠ []) (hfits : addr.length < 256) :
    TableOf nodes (r.registerNode node addr).2 ∧
      ∀ n, (r.registerNode node addr).2.addrOf n = if n = node then some addr else r.addrOf n := by
  have htake : addr.take 255 = addr := List.take_of_length_le (by omega)
  unfold registerNode
  rw [h.initialized, if_neg (by decide), if_neg haddr, htake]
  dsimp only
  cases hidx : r.entries.findIdx? fun e => e.node = node with
  | some i =>
    obtain ⟨before, old, after, hentries, hold, hbefore, hset⟩ := findIdx_node hidx
    dsimp only
    rw [hset]
    have hnodes : (before ++ (⟨node, addr⟩ : CisNodeEntry) :: after).map CisNodeEntry.node =
        r.entries.map CisNodeEntry.node := by
      rw [hentries, List.map_append, List.map_append, List.map_cons, List.map_cons, hold]
    have hreplace : ∀ {P : CisNodeEntry → Prop}, (∀ e ∈ r.entries, P e) → P ⟨node, addr⟩ →
        ∀ e ∈ before ++ ⟨node, addr⟩ :: after, P e := by
      intro P hall hnew
      rw [hentries, List.forall_mem_append, List.forall_mem_cons] at hall
      exact List.forall_mem_append.mpr ⟨hall.1, List.forall_mem_cons.mpr ⟨hnew, hall.2.2⟩⟩
    refine ⟨⟨rfl, hnodes ▸ h.nodup, ?_, ?_⟩, ?_⟩
    · exact hreplace h.known hnode
    · exact hreplace h.fits hfits
    · intro n
      unfold addrOf
      dsimp only
      rw [hentries, List.find?_append, List.find?_append]
      by_cases hn : n = node
      · have hnone : before.find? (fun e => e.node = n) = none :=
          List.find?_eq_none.mpr fun e he hsame => hbefore e he (hn ▸ of_decide_eq_true hsame)
        rw [if_pos hn, hnone, Option.none_or, find?_own hn.symm, Option.map_some]
      · rw [if_neg hn, List.find?_cons_of_neg (by simpa using Ne.symm hn),
          List.find?_cons_of_neg (by rw [hold]; simpa using Ne.symm hn)]
  | none =>
    have hnew : ∀ e ∈ r.entries, e.node ≠ node := by
      intro e he hsame
      have hno := List.findIdx?_eq_none_iff.mp hidx e he
      rw [decide_eq_true hsame] at hno
      cases hno
    have hnotin : node ∉ r.entries.map CisNodeEntry.node := by
      intro hmem
      obtain ⟨e, he, hsame⟩ := List.mem_map.mp hmem
      exact hnew e he hsame
    have hroom : r.entries.length < 64 := by
      have hsub : (node :: r.entries.map CisNodeEntry.node) ⊆ nodes := by
        intro n hn
        obtain rfl | hn := List.mem_cons.mp hn
        · exact hnode
        · obtain ⟨e, he, rfl⟩ := List.mem_map.mp hn
          exact h.known e he
      have hnodup : (node :: r.entries.map CisNodeEntry.node).Nodup :=
        List.nodup_cons.mpr ⟨hnotin, h.nodup⟩
      have hle := (hnodup.subperm hsub).length_le
      rw [List.length_cons, List.length_map] at hle
      omega
    dsimp only
    rw [if_neg (by unfold maxNodes; omega)]
    refine ⟨⟨rfl, ?_, ?_, ?_⟩, ?_⟩
    · rw [List.map_append, List.map_singleton, ← List.concat_eq_append]
      exact h.nodup.concat hnotin
    · exact List.forall_mem_append.mpr ⟨h.known, List.forall_mem_singleton.mpr hnode⟩
    · exact List.forall_mem_append.mpr ⟨h.fits, List.forall_mem_singleton.mpr hfits⟩
    · intro n
      unfold addrOf
      dsimp only
      rw [List.find?_append]
      by_cases hn : n = node
      · have hnone : r.entries.find? (fun e => e.node = n) = none :=
          List.find?_eq_none.mpr fun e he hsame => hnew e he (hn ▸ of_decide_eq_true hsame)
        rw [if_pos hn, hnone, Option.none_or, find?_own hn.symm, Option.map_some]
      · rw [if_neg hn, List.find?_cons_of_neg (by simpa using Ne.symm hn), List.find?_nil, Option.or_none]

end Register

section Peers

variable {toks : List (List UInt8)} {tok : List UInt8} {node : UInt8} {addr : List UInt8}

/-- One turn of the loop over the entries. -/
def addPeer (r : CisRouterState) (tok : List UInt8) : CisRouterState :=
  match parsePeer tok with
  | none => r
  | some (node, addr) => (r.registerNode node addr).2

theorem lastPeer_nil : ¬ LastPeer [] node addr := by
  rintro ⟨before, tok, after, he, -⟩
  exact absurd he.symm (List.append_ne_nil_of_right_ne_nil _ (List.cons_ne_nil _ _))

theorem lastPeer_concat : LastPeer (toks ++ [tok]) node addr ↔
    NamesPeer (tok.dropWhile isBlank) node addr ∨
      (∀ addr', ¬ NamesPeer (tok.dropWhile isBlank) node addr') ∧ LastPeer toks node addr := by
  constructor
  · rintro ⟨before, t, after, he, hpeer, hlast⟩
    rcases List.eq_nil_or_concat after with rfl | ⟨after', t', rfl⟩
    · obtain ⟨-, hone⟩ := List.append_inj' he rfl
      rw [← (List.cons.inj hone).1] at hpeer
      exact Or.inl hpeer
    · rw [List.concat_eq_append, ← List.cons_append, ← List.append_assoc] at he
      obtain ⟨hinit, hone⟩ := List.append_inj' he rfl
      obtain rfl := (List.cons.inj hone).1
      rw [List.concat_eq_append] at hlast
      exact Or.inr ⟨hlast tok (List.mem_append_right _ List.mem_cons_self), before, t, after', hinit,
        hpeer, fun t ht => hlast t (List.mem_append_left _ ht)⟩
  · rintro (hpeer | ⟨hno, before, t, after, rfl, hpeer, hlast⟩)
    · exact ⟨toks, tok, [], rfl, hpeer, fun t ht => absurd ht List.not_mem_nil⟩
    · refine ⟨before, t, after ++ [tok], by rw [List.append_assoc, List.cons_append], hpeer, ?_⟩
      intro t' ht
      obtain ht | ht := List.mem_append.mp ht
      · exact hlast t' ht
      · rw [List.mem_singleton.mp ht]
        exact hno

theorem exists_lastPeer (hmem : tok ∈ toks) (h : NamesPeer (tok.dropWhile isBlank) node addr) :
    ∃ addr', LastPeer toks node addr' := by
  induction toks using List.reverseRecOn with
  | nil => cases hmem
  | append_singleton toks last ih =>
    by_cases hlast : ∃ addr', NamesPeer (last.dropWhile isBlank) node addr'
    · obtain ⟨addr', hpeer⟩ := hlast
      exact ⟨addr', lastPeer_concat.mpr (Or.inl hpeer)⟩
    · obtain hmem | hmem := List.mem_append.mp hmem
      · obtain ⟨addr', hprev⟩ := ih hmem
        exact ⟨addr', lastPeer_concat.mpr (Or.inr ⟨fun a ha => hlast ⟨a, ha⟩, hprev⟩)⟩
      · rw [List.mem_singleton.mp hmem] at h
        exact absurd ⟨addr, h⟩ hlast

/-- Without misread entries the loop leaves the last address of every node in the table. -/
theorem addPeer_table {nodes : List UInt8} (hfew : nodes.length ≤ 64) (myNodeId : UInt8)
    (hnames : ∀ tok ∈ toks, ∀ n a, NamesPeer (tok.dropWhile isBlank) n a → n ∈ nodes)
    (hread : ∀ tok ∈ toks, ∀ n a, ¬ MisreadPeer (tok.dropWhile isBlank) n a) :
    TableOf nodes (toks.foldl addPeer ⟨true, myNodeId, []⟩) ∧
      ∀ n a, (toks.foldl addPeer ⟨true, myNodeId, []⟩).addrOf n = some a ↔ LastPeer toks n a := by
  induction toks using List.reverseRecOn with
  | nil =>
    refine ⟨⟨rfl, List.nodup_nil, ?_, ?_⟩, ?_⟩
    · intro e he
      cases he
    · intro e he
      cases he
    · intro n a
      constructor
      · intro he
        cases he
      · intro hlast
        exact absurd hlast lastPeer_nil
  | append_singleton toks tok ih =>
    obtain ⟨htable, haddr⟩ := ih (fun t ht => hnames t (List.mem_append_left _ ht))
      fun t ht => hread t (List.mem_append_left _ ht)
    have hmem : tok ∈ toks ++ [tok] := List.mem_append_right _ List.mem_cons_self
    rw [List.foldl_append, List.foldl_cons, List.foldl_nil, addPeer]
    cases hparse : parsePeer tok with
    | none =>
      refine ⟨htable, fun n a => ?_⟩
      have hno : ∀ a', ¬ NamesPeer (tok.dropWhile isBlank) n a' := by
        intro a' hpeer
        rw [parsePeer_iff.mpr (Or.inl hpeer)] at hparse
        cases hparse
      dsimp only
      rw [haddr, lastPeer_concat]
      constructor
      · intro hlast
        exact Or.inr ⟨hno, hlast⟩
      · rintro (hpeer | ⟨-, hlast⟩)
        · exact absurd hpeer (hno a)
        · exact hlast
    | some peer =>
      obtain ⟨m, b⟩ := peer
      have hpeer : NamesPeer (tok.dropWhile isBlank) m b :=
        (parsePeer_iff.mp hparse).resolve_right (hread tok hmem m b)
      obtain ⟨number, -, -, -, -, hb, hfits⟩ := id hpeer
      obtain ⟨htable', haddr'⟩ := registerNode_table htable (hnames tok hmem m b hpeer) hfew hb hfits
      refine ⟨htable', fun n a => ?_⟩
      dsimp only
      rw [haddr', lastPeer_concat]
      by_cases hn : n = m
      · subst hn
        rw [if_pos rfl, Option.some.injEq]
        constructor
        · rintro rfl
          exact Or.inl hpeer
        · rintro (hsame | ⟨hno, -⟩)
          · exact (hpeer.unique hsame).2
          · exact absurd hpeer (hno b)
      · have hno : ∀ a', ¬ NamesPeer (tok.dropWhile isBlank) n a' := fun a' hother =>
          hn (hother.unique hpeer).1
        rw [if_neg hn, haddr]
        constructor
        · intro hlast
          exact Or.inr ⟨hno, hlast⟩
        · rintro (hother | ⟨-, hlast⟩)
          · exact absurd hother (hno a)
          · exact hlast

end Peers

/-- The router maps a node to the address of its last well-formed entry, and the entries whose
node part is no decimal number register no node. -/
def PeersExact (peerNodes : CString) (r : CisRouterState) : Prop :=
  (∀ node addr, r.getNodeAddr node 256 = .ok addr ↔
    LastPeer (peerNodes.bytes.splitOn comma) node addr) ∧
  ∀ tok ∈ peerNodes.bytes.splitOn comma, ∀ text addr, tok.dropWhile isBlank = text ++ colon :: addr →
    colon ∉ text → ¬ Decimal text → parsePeer tok = none

/-- No entry is misread as a node, and `strdup` gets the memory for the list unless it names no
peer. -/
def PeersReadable (peerNodes : CString) (dup : Bool) : Prop :=
  (∀ tok ∈ peerNodes.bytes.splitOn comma, ∀ node addr,
    ¬ MisreadPeer (tok.dropWhile isBlank) node addr) ∧
  (dup = true ∨ ∀ tok ∈ peerNodes.bytes.splitOn comma, ∀ node addr,
    ¬ NamesPeer (tok.dropWhile isBlank) node addr)

theorem getNodeAddr_empty (myNodeId node : UInt8) (addr : List UInt8) :
    ¬ (⟨true, myNodeId, []⟩ : CisRouterState).getNodeAddr node 256 = .ok addr := by
  intro h
  cases h

/-- The table of the peers is exact exactly when no entry of the configuration is misread. -/
theorem cisRouterInit_exact_iff (myNodeId : UInt8) (peerNodes : CString) (dup : Bool)
    {r : CisRouterState} (hr : r.initialized = false)
    (hfew : ∃ nodes : List UInt8, nodes.length ≤ 64 ∧ ∀ tok ∈ peerNodes.bytes.splitOn comma,
      ∀ node addr, NamesPeer (tok.dropWhile isBlank) node addr → node ∈ nodes) :
    PeersExact peerNodes (r.init myNodeId peerNodes dup).2 ↔ PeersReadable peerNodes dup := by
  obtain ⟨nodes, hfew, hnames⟩ := hfew
  have hinit : (r.init myNodeId peerNodes dup).2 = parsePeerNodes peerNodes dup ⟨true, myNodeId, []⟩ := by
    unfold init
    rw [hr]
    rfl
  rw [hinit]
  unfold PeersExact PeersReadable
  constructor
  · rintro ⟨hmaps, hignored⟩
    constructor
    · intro tok htok node addr hmis
      obtain ⟨text, hcut, hno, -, hdec, -⟩ := id hmis
      have hnone := hignored tok htok text addr hcut hno hdec
      rw [parsePeer_iff.mpr (Or.inr hmis)] at hnone
      cases hnone
    · cases dup with
      | true => exact Or.inl rfl
      | false =>
        refine Or.inr fun tok htok node addr hpeer => ?_
        obtain ⟨addr', hlast⟩ := exists_lastPeer htok hpeer
        exact getNodeAddr_empty myNodeId node addr' ((hmaps node addr').mpr hlast)
  · rintro ⟨hread, hdup⟩
    constructor
    · cases dup with
      | true =>
        obtain ⟨htable, haddr⟩ := addPeer_table hfew myNodeId hnames hread
        intro node addr
        exact (getNodeAddr_iff htable).trans (haddr node addr)
      | false =>
        intro node addr
        constructor
        · intro h
          exact absurd h (getNodeAddr_empty myNodeId node addr)
        · rintro ⟨before, tok, after, he, hpeer, -⟩
          obtain hdup | hno := hdup
          · cases hdup
          · exact absurd hpeer (hno tok (he ▸ List.mem_append_right _ List.mem_cons_self) node addr)
    · intro tok htok text addr hcut hno hdec
      by_contra hsome
      obtain ⟨⟨node, addr'⟩, hparse⟩ := Option.ne_none_iff_exists'.mp hsome
      obtain ⟨number, he, hnumber, -⟩ | hmis := parsePeer_iff.mp hparse
      · obtain ⟨rfl, -⟩ := cut_unique hno (decimal_no_colon hnumber) (hcut.symm.trans he)
        exact hdec hnumber
      · exact hread tok htok node addr' hmis

theorem not_misread {number addr addr' : List UInt8} {node : UInt8} (hdec : Decimal number) :
    ¬ MisreadPeer (number ++ colon :: addr) node addr' := by
  rintro ⟨text, he, hno, -, hnot, -⟩
  obtain ⟨rfl, -⟩ := cut_unique (decimal_no_colon hdec) hno he
  exact hnot hdec

theorem namesPeer_node {number addr addr' : List UInt8} {node : UInt8} (hdec : Decimal number)
    (h : NamesPeer (number ++ colon :: addr) node addr') : node.toNat = digits number := by
  obtain ⟨number', he, hdec', hvalue, -⟩ := h
  obtain ⟨rfl, -⟩ := cut_unique (decimal_no_colon hdec) (decimal_no_colon hdec') he
  exact hvalue.symm

/-- `1:h,2:k,1:g` names node 1 twice. -/
theorem cisRouterInit_exact_twice :
    let peers : CString := .ofBytes [49, 58, 104, 44, 50, 58, 107, 44, 49, 58, 103]
    PeersExact peers (zero.init 0 peers true).2 ∧
      (zero.init 0 peers true).2.getNodeAddr 1 256 = .ok [103] := by
  intro peers
  have hsplit : peers.bytes.splitOn comma = [[49] ++ colon :: [104], [50] ++ colon :: [107],
      [49] ++ colon :: [103]] := by decide
  have hone : Decimal [49] := by decide
  have htwo : Decimal [50] := by decide
  refine ⟨(cisRouterInit_exact_iff 0 peers true rfl ⟨[1, 2], by decide, ?_⟩).mpr
    ⟨?_, Or.inl rfl⟩, rfl⟩
  · rw [hsplit]
    intro tok htok node addr hpeer
    simp only [List.mem_cons, List.not_mem_nil, or_false] at htok ⊢
    obtain rfl | rfl | rfl := htok
    · exact Or.inl (UInt8.toNat_inj.mp (namesPeer_node hone hpeer))
    · exact Or.inr (UInt8.toNat_inj.mp (namesPeer_node htwo hpeer))
    · exact Or.inl (UInt8.toNat_inj.mp (namesPeer_node hone hpeer))
  · rw [hsplit]
    intro tok htok node addr
    simp only [List.mem_cons, List.not_mem_nil, or_false] at htok
    obtain rfl | rfl | rfl := htok
    · exact not_misread hone
    · exact not_misread htwo
    · exact not_misread hone

/-- `x:h` registers node 0 at `h`. -/
theorem cisRouterInit_misreads :
    ¬ PeersExact (.ofBytes [120, 58, 104]) (zero.init 1 (.ofBytes [120, 58, 104]) true).2 := by
  rintro ⟨hmaps, -⟩
  obtain ⟨before, tok, after, he, ⟨number, hcut, hdec, -⟩, -⟩ := (hmaps 0 [104]).mp rfl
  have hmem : tok ∈ (CString.ofBytes [120, 58, 104]).bytes.splitOn comma :=
    he ▸ List.mem_append_right _ List.mem_cons_self
  rw [List.mem_singleton.mp hmem] at hcut
  have hx : ([120] : List UInt8) ++ colon :: [104] = number ++ colon :: [104] := hcut
  obtain ⟨rfl, -⟩ := cut_unique (by decide) (decimal_no_colon hdec) hx
  exact absurd hdec (by decide)

end CisRouterState

end Umm
