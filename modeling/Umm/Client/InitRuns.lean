import Umm.Client.Init
import Umm.Lib.Reach

/-! What a failed `umm_init` leaves behind. -/
namespace Umm
open Umm.Lib

namespace CisRouterState

variable {r : CisRouterState}

theorem initialized_registerNode (node : UInt8) (addr : List UInt8) :
    (r.registerNode node addr).2.initialized = r.initialized := by
  unfold registerNode
  split
  · rfl
  · split
    · rfl
    · dsimp only
      split
      · rfl
      · split <;> rfl

theorem registerNode_of_not (h : r.initialized = false) (node : UInt8) (addr : List UInt8) :
    (r.registerNode node addr).2 = r := by
  unfold registerNode
  rw [h]
  rfl

theorem initialized_parsePeerNodes (peerNodes : CString) (dup : Bool) :
    (parsePeerNodes peerNodes dup r).initialized = r.initialized := by
  unfold parsePeerNodes
  split_ifs
  · induction peerNodes.bytes.splitOn comma generalizing r with
    | nil => rfl
    | cons tok toks ih =>
      rw [List.foldl_cons, ih]
      split
      · rfl
      · exact initialized_registerNode _ _
  · rfl

theorem initialized_init (myNodeId : UInt8) (peerNodes : CString) (dup : Bool) :
    (r.init myNodeId peerNodes dup).2.initialized = true := by
  unfold init
  split_ifs with h
  · exact h
  · exact initialized_parsePeerNodes peerNodes dup

end CisRouterState

namespace UmmState

variable {s t : UmmState} {cfg : InitConfig} {env : InitEnv}

/-- The stages of `umm_init` leave the peer nodes as they are and the library not initialised. -/
def Late (s t : UmmState) : Prop :=
  t.cis = s.cis ∧ t.initialized = false

theorem late_cleared (s : UmmState) : s.Late s.cleared := ⟨rfl, rfl⟩

theorem Late.trans {u : UmmState} (h : s.Late t) (h' : t.Late u) : s.Late u :=
  ⟨h'.1.trans h.1, h'.2⟩

theorem late_createServices (h : s.initialized = false) :
    s.Late (createServices cfg env s).2 := by
  unfold createServices
  split
  · exact ⟨rfl, h⟩
  · split
    · exact late_cleared s
    · split
      · exact late_cleared s
      · exact ⟨rfl, h⟩

theorem late_configureTransports (h : s.initialized = false) (topo : Option InitTopology)
    (tenv : TransportEnv) : s.Late (configureTransports cfg topo tenv s).2 := by
  unfold configureTransports
  dsimp only
  split
  · exact ⟨rfl, h⟩
  · split
    · exact ⟨rfl, h⟩
    · split <;> exact ⟨rfl, h⟩

theorem late_initTransport (h : s.initialized = false) (topo : Option InitTopology) :
    s.Late (initTransport cfg topo env s).2 := by
  have hr : s.Late (if cfg.isTierAware then configureTransports cfg topo env.transports s
      else initTransportLegacy cfg env s).2 := by
    split_ifs
    · exact late_configureTransports h topo _
    · unfold initTransportLegacy
      split <;> exact ⟨rfl, h⟩
  unfold initTransport
  dsimp only
  split
  · exact hr.trans (late_cleared _)
  · exact hr

theorem late_reconfigure (h : s.initialized = false) : s.Late (reconfigure cfg env s).2 := by
  unfold reconfigure
  split
  · exact ⟨rfl, h⟩
  · next topo _ =>
      have hcleared : s.Late { (if s.tierRouter.isSome then
          { s with tierRouter := none, transport := none } else s) with ssdTransport := none } := by
        split_ifs <;> exact ⟨rfl, h⟩
      exact hcleared.trans (late_configureTransports hcleared.2 (some topo) env.reconfigured)

theorem late_initMetaClient (h : s.initialized = false) : s.Late (initMetaClient cfg env s).2 := by
  unfold initMetaClient
  split
  · exact ⟨rfl, h⟩
  · split
    · exact ⟨rfl, h⟩
    · split
      · exact ⟨rfl, h⟩
      · split
        · exact ⟨rfl, h⟩
        · exact late_reconfigure h

theorem late_initMemClient (h : s.initialized = false) : s.Late (initMemClient cfg env s).2 := by
  unfold initMemClient
  split
  · exact ⟨rfl, h⟩
  · split
    · exact ⟨rfl, h⟩
    · split
      · exact ⟨rfl, h⟩
      · split <;> exact ⟨rfl, h⟩

theorem deinit_of_not (h : s.initialized = false) : s.deinit = s := by
  unfold deinit
  rw [h]
  rfl

theorem late_initClients (h : s.initialized = false) : s.Late (initClients cfg env s).2 := by
  have hmeta : s.Late (initMetaClient cfg env s).2 := late_initMetaClient h
  unfold initClients
  split_ifs
  · exact ⟨rfl, h⟩
  · split
    next e s₁ he =>
      rw [he] at hmeta
      rw [deinit_of_not hmeta.2]
      exact hmeta
    next s₁ he =>
      rw [he] at hmeta
      have hmem : s₁.Late (initMemClient cfg env s₁).2 := late_initMemClient hmeta.2
      split
      next e s₂ he₂ =>
        rw [he₂] at hmem
        rw [deinit_of_not hmem.2]
        exact hmeta.trans hmem
      next s₂ he₂ =>
        rw [he₂] at hmem
        exact hmeta.trans hmem

theorem initialized_deinit (s : UmmState) : s.deinit.initialized = false := by
  unfold deinit
  split_ifs with h
  · rfl
  · exact Bool.not_eq_true _ ▸ h

/-- The peer nodes after a call with a configuration are those of `cis_router_init`, whether the
call fails or not; where it fails the library is not initialised. -/
theorem ummInit_cis (cfg : InitConfig) (env : InitEnv) (s : UmmState) :
    (ummInit (some cfg) env s).2.cis =
        (s.deinit.cis.init cfg.myNodeId cfg.peerNodes env.peerDup).2 ∧
      ∀ e, (ummInit (some cfg) env s).1 = .error e →
        (ummInit (some cfg) env s).2.initialized = false := by
  have hlegacy : (!cfg.isTierAware && cfg.transport.isEmpty) = false := by
    unfold InitConfig.isTierAware
    cases cfg.transport.isEmpty <;> rfl
  unfold ummInit
  dsimp only
  rw [hlegacy]
  generalize hs : ({ s.deinit with
    config := cfg
    memServerNode := cfg.ssdOwnerNode
    cis := (s.deinit.cis.init cfg.myNodeId cfg.peerNodes env.peerDup).2 } : UmmState) = s₀
  have hinit : s₀.initialized = false := by
    rw [← hs]
    exact initialized_deinit s
  have hcis : s₀.cis = (s.deinit.cis.init cfg.myNodeId cfg.peerNodes env.peerDup).2 := by
    rw [← hs]
  have hservices : s₀.Late (createServices cfg env s₀).2 := late_createServices hinit
  rw [← hcis]
  simp only [Bool.false_eq_true, if_false]
  split
  next e s₁ he =>
    rw [he] at hservices
    exact ⟨hservices.1, fun _ _ => hservices.2⟩
  next topo s₁ he =>
    rw [he] at hservices
    have htransport : s₁.Late (initTransport cfg topo env s₁).2 := late_initTransport hservices.2 topo
    split
    next e s₂ he₂ =>
      rw [he₂] at htransport
      exact ⟨(hservices.trans htransport).1, fun _ _ => htransport.2⟩
    next s₂ he₂ =>
      rw [he₂] at htransport
      have hclients : s₂.Late (initClients cfg env s₂).2 := late_initClients htransport.2
      split
      next e s₃ he₃ =>
        rw [he₃] at hclients
        exact ⟨((hservices.trans htransport).trans hclients).1, fun _ _ => hclients.2⟩
      next s₃ he₃ =>
        rw [he₃] at hclients
        exact ⟨((hservices.trans htransport).trans hclients).1, fun e he => by cases he⟩

end UmmState

inductive InitEvent
  | init (cfg : Option InitConfig) (env : InitEnv)
  | deinit
  | registerNode (node : UInt8) (addr : List UInt8)
  | call (t : UmmState)

namespace UmmState

variable {s t : UmmState}

/-- Any other call needs the library initialised and leaves it so, with whatever else it changes
of `g_state`. -/
def next (s : UmmState) : InitEvent → UmmState
  | .init cfg env => (ummInit cfg env s).2
  | .deinit => s.deinit
  | .registerNode node addr => { s with cis := (s.cis.registerNode node addr).2 }
  | .call t => if s.initialized then { t with initialized := true, cis := s.cis } else s

/-- Every later `umm_init` does what it does in a new process: the same status, and the same
services, transports and peer nodes after it. -/
def ActsFresh (s : UmmState) : Prop :=
  ∀ cfg env, ummInit (some cfg) env s = ummInit (some cfg) env fresh

/-- Nothing is left of a call that failed. -/
def Settled (s : UmmState) : Prop :=
  s.initialized = true ∨ s = fresh

structure Tidy (s : UmmState) : Prop where
  cis : s.cis.initialized = false → s.cis = .zero
  state : s.initialized = false → s.cis.initialized = false → s = fresh

theorem Tidy.deinit (h : s.Tidy) : s.deinit.Tidy := by
  unfold UmmState.deinit CisRouterState.deinit
  split_ifs with hinit hcis
  · exact ⟨fun _ => rfl, fun _ _ => rfl⟩
  · rw [Bool.not_eq_true] at hcis
    rw [h.cis hcis]
    exact ⟨fun _ => rfl, fun _ _ => rfl⟩
  · exact h

theorem Tidy.next (h : s.Tidy) (e : InitEvent) : (s.next e).Tidy := by
  cases e with
  | init cfg env =>
    cases cfg with
    | none => exact h
    | some cfg =>
      have hcis : (ummInit (some cfg) env s).2.cis.initialized = true := by
        rw [(ummInit_cis cfg env s).1]
        exact CisRouterState.initialized_init _ _ _
      refine ⟨fun hno => ?_, fun _ hno => ?_⟩
      · rw [show (s.next (.init (some cfg) env)).cis.initialized = true from hcis] at hno
        cases hno
      · rw [show (s.next (.init (some cfg) env)).cis.initialized = true from hcis] at hno
        cases hno
  | deinit => exact h.deinit
  | registerNode node addr =>
    cases hcis : s.cis.initialized with
    | false =>
      have hsame : s.next (.registerNode node addr) = s := by
        show { s with cis := (s.cis.registerNode node addr).2 } = s
        rw [CisRouterState.registerNode_of_not hcis]
      rw [hsame]
      exact h
    | true =>
      have hinit : (s.next (.registerNode node addr)).cis.initialized = true :=
        (CisRouterState.initialized_registerNode node addr).trans hcis
      refine ⟨fun hno => ?_, fun _ hno => ?_⟩
      · rw [hinit] at hno
        cases hno
      · rw [hinit] at hno
        cases hno
  | call u =>
    unfold UmmState.next
    dsimp only
    split_ifs
    · exact ⟨h.cis, fun hno => by cases hno⟩
    · exact h

/-- One peer, node 1. -/
def onePeer : CString := CString.ofBytes [49, 58, 104, 58, 49]

theorem entries_onePeer (node : UInt8) :
    (CisRouterState.zero.init node onePeer true).2.entries = [⟨1, [104, 58, 49]⟩] := by
  rfl

theorem entries_noPeer (node : UInt8) :
    (CisRouterState.zero.init node emptyString true).2.entries = [] := by
  rfl

/-- Peer nodes of an earlier call shadow those of the next one. -/
theorem not_actsFresh_of_stale (hinit : s.initialized = false) (hcis : s.cis.initialized = true)
    (env : InitEnv) : ¬ s.ActsFresh := by
  intro hfresh
  have hsame : ∀ peerNodes : CString,
      s.cis = (CisRouterState.zero.init 0 peerNodes true).2 := by
    intro peerNodes
    have hleft := (ummInit_cis { InitConfig.zero with peerNodes := peerNodes }
      { env with peerDup := true } s).1
    rw [hfresh, (ummInit_cis _ _ fresh).1, deinit_of_not hinit] at hleft
    unfold CisRouterState.init at hleft
    rw [hcis] at hleft
    exact hleft.symm
  have hone := (congrArg CisRouterState.entries (hsame onePeer)).trans (entries_onePeer 0)
  have hno := (congrArg CisRouterState.entries (hsame emptyString)).trans (entries_noPeer 0)
  rw [hone] at hno
  cases hno

theorem Tidy.deinit_eq (h : s.Tidy) (hinit : s.initialized = true) : s.deinit = fresh := by
  unfold UmmState.deinit CisRouterState.deinit
  rw [if_pos hinit]
  split_ifs with hcis
  · rfl
  · rw [h.cis ((Bool.not_eq_true _).mp hcis)]
    rfl

theorem Tidy.actsFresh (h : s.Tidy) (hsettled : s.Settled) : s.ActsFresh := by
  rcases hsettled with hinit | rfl
  · intro cfg env
    unfold ummInit
    rw [h.deinit_eq hinit]
    rfl
  · exact fun cfg env => rfl

theorem Tidy.settled (h : s.Tidy) (env : InitEnv) (hfresh : s.ActsFresh) : s.Settled := by
  cases hinit : s.initialized with
  | true => exact .inl hinit
  | false =>
    cases hcis : s.cis.initialized with
    | true => exact (not_actsFresh_of_stale hinit hcis env hfresh).elim
    | false => exact .inr (h.state hinit hcis)

theorem tidy_of_reach (h : Reach (· = fresh) (fun s e t => t = UmmState.next s e) s) : s.Tidy := by
  apply h.invariant (P := Tidy)
  · rintro _ rfl
    exact ⟨fun _ => rfl, fun _ _ => rfl⟩
  · rintro s e _ hs rfl
    exact hs.next e

/-- After a call that fails the library acts as in a new process exactly where the call had no
configuration and nothing was left of an earlier one; and it is initialised only where a call
without a configuration found it so. -/
theorem ummInit_failed {cfg : Option InitConfig} {env : InitEnv} {e : Error}
    (h : Reach (· = fresh) (fun s e t => t = UmmState.next s e) s)
    (hfail : ummInit cfg env s = (.error e, t)) :
    (t.ActsFresh ↔ cfg = none ∧ s.Settled) ∧
      (t.initialized = true ↔ cfg = none ∧ s.initialized = true) := by
  have hs : s.Tidy := tidy_of_reach h
  cases cfg with
  | none =>
    obtain rfl : s = t := congrArg Prod.snd hfail
    exact ⟨⟨fun hfresh => ⟨rfl, hs.settled env hfresh⟩, fun hset => hs.actsFresh hset.2⟩,
      ⟨fun hinit => ⟨rfl, hinit⟩, fun hinit => hinit.2⟩⟩
  | some cfg =>
    have hcall := ummInit_cis cfg env s
    rw [hfail] at hcall
    have hinit : t.initialized = false := hcall.2 e rfl
    have hcis : t.cis.initialized = true := by
      rw [hcall.1]
      exact CisRouterState.initialized_init _ _ _
    refine ⟨⟨fun hfresh => (not_actsFresh_of_stale hinit hcis env hfresh).elim,
      fun hnone => by cases hnone.1⟩, ⟨fun ht => ?_, fun hnone => by cases hnone.1⟩⟩
    rw [hinit] at ht
    cases ht

/-- The parts all answer, except the memory service. -/
def noMemService : InitEnv where
  peerDup := true
  memService := false
  metaService := true
  localTopology := none
  transports := ⟨true, true, true, true, true, true⟩
  legacy := .ok ()
  metaBuf := true
  metaClient := .ok ()
  rpcTopology := none
  reconfigured := ⟨true, true, true, true, true, true⟩
  memBuf := true
  memClient := .ok ()

/-- The library is initialised. A call without a configuration fails and leaves it so; a call with
one fails and does not. -/
theorem ummInit_failed_initialised :
    ∃ s t, s = (ummInit (some .zero) { noMemService with memService := true } fresh).2 ∧
      ummInit none noMemService s = (.error .invalidArg, s) ∧ s.ActsFresh ∧
      s.initialized = true ∧ ummInit (some .zero) noMemService s = (.error .noMemory, t) ∧
      ¬ t.ActsFresh ∧ ¬ t.initialized = true := by
  let s := (ummInit (some .zero) { noMemService with memService := true } fresh).2
  let t := (ummInit (some .zero) noMemService s).2
  have hs : Reach (· = fresh) (fun s e t => t = UmmState.next s e) s :=
    .next (.init (some .zero) { noMemService with memService := true }) (.start rfl) rfl
  have hnull := ummInit_failed hs (show ummInit none noMemService s =
    (.error .invalidArg, s) from rfl)
  have hcfg := ummInit_failed hs (show ummInit (some .zero) noMemService s =
    (.error .noMemory, t) from rfl)
  have hinit : s.initialized = true := hnull.2.mpr ⟨rfl, rfl⟩
  refine ⟨s, t, rfl, rfl, hnull.1.mpr ⟨rfl, .inl hinit⟩, hinit, rfl, fun hfresh => ?_,
    fun ht => ?_⟩
  · cases (hcfg.1.mp hfresh).1
  · cases (hcfg.2.mp ht).1

/-- A call with one peer fails; the next one has none, succeeds, and has the peer of the first. -/
theorem ummInit_failed_stale :
    ∃ t, ummInit (some { InitConfig.zero with peerNodes := onePeer }) noMemService fresh =
        (.error .noMemory, t) ∧
      (ummInit (some .zero) { noMemService with memService := true } t).2.cis.entries =
        [⟨1, [104, 58, 49]⟩] ∧
      (ummInit (some .zero) { noMemService with memService := true } fresh).2.cis.entries = [] ∧
      ¬ t.ActsFresh := by
  refine ⟨_, rfl, rfl, rfl, fun hfresh => ?_⟩
  have hpeers := congrArg (fun r => r.2.cis.entries) (hfresh .zero noMemService)
  cases hpeers

end UmmState

end Umm
