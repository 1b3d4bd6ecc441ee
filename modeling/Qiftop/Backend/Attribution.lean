import Qiftop.Backend.Connection
import Qiftop.Lib.Hash

/-!
# Backend — attribution of a snapshot

`backend/Attribution.cpp` and `backend/DeepAttribution.h`.  `attributeFlows` walks a snapshot once,
asks the resolver for the pid of every flow, and remembers per (pid, start time) what it was told
about the process and its containers.

A resolver's answers may change while the walk goes on, so the resolver of a walk is a sequence:
its answers at the moment of the first flow, of the second, and so on.
-/

namespace Qiftop.Backend
open Qt Lib

/-- What a `ProcessResolver` and the start-time probe answer at one moment. -/
structure ProcessResolver where
  resolvePid : Connection → Int32
  startTimeForPid : Int32 → UInt64
  enrichPid : Int32 → Option ProcessInfo
  resolveContainerForPid : Int32 → Option ContainerInfo
  resolveContainerChainForPid : Int32 → List ContainerInfo

/-- A process by its pid and start time. -/
abbrev PidKey := Int32 × UInt64

/-- The answers of one walk so far. -/
structure AttributionMemo where
  processByPid : Hash PidKey ProcessInfo := ∅
  containerByPid : Hash PidKey ContainerInfo := ∅
  chainByPid : Hash PidKey (List ContainerInfo) := ∅

/-- A remembered answer, or a new one that is remembered. -/
def memoised {V : Type} (memo : Hash PidKey V) (key : PidKey) (ask : V) : V × Hash PidKey V :=
  match memo.lookup key with
  | some v => (v, memo)
  | none => (ask, memo.insert key ask)

/-- The process of a pid, the empty one when the resolver knows none. -/
def ProcessResolver.processOf (R : ProcessResolver) (pid : Int32) : ProcessInfo :=
  match R.enrichPid pid with
  | some info => if info.valid then info else {}
  | none => {}

def ProcessResolver.containerOf (R : ProcessResolver) (pid : Int32) : ContainerInfo :=
  (R.resolveContainerForPid pid).getD {}

/-- One flow of the walk. -/
def attributeFlow (R : ProcessResolver) (wantContainerChain : Bool) (memo : AttributionMemo)
    (c : Connection) : Connection × AttributionMemo :=
  let pid := R.resolvePid c
  if pid ≤ 0 then (c, memo)
  else
    let key := (pid, R.startTimeForPid pid)
    let p := memoised memo.processByPid key (R.processOf pid)
    let c := { c with process := p.1 }
    let memo := { memo with processByPid := p.2 }
    if !c.process.valid then (c, memo)
    else
      let ci := memoised memo.containerByPid key (R.containerOf pid)
      let c := { c with container := ci.1 }
      let memo := { memo with containerByPid := ci.2 }
      if wantContainerChain then
        let ch := memoised memo.chainByPid key (R.resolveContainerChainForPid pid)
        ({ c with containerChain := ch.1 }, { memo with chainByPid := ch.2 })
      else (c, memo)

/-- The walk from the `i`-th moment on. -/
def attributeFrom (R : ℕ → ProcessResolver) (wantContainerChain : Bool) :
    ℕ → AttributionMemo → List Connection → List Connection
  | _, _, [] => []
  | i, memo, c :: flows =>
      let r := attributeFlow (R i) wantContainerChain memo c
      r.1 :: attributeFrom R wantContainerChain (i + 1) r.2 flows

/-- The walk over a snapshot; nothing without a resolver. -/
def attributeFlows (resolver : Option (ℕ → ProcessResolver)) (wantContainerChain : Bool)
    (flows : List Connection) : List Connection :=
  match resolver with
  | none => flows
  | some R => attributeFrom R wantContainerChain 0 {} flows

/-! ### What the walk may change -/

/-- `c'` is `c` but for its attribution, and its process is the one it had, a valid one, or none. -/
structure Attributed (c c' : Connection) : Prop where
  eq : c' = { c with process := c'.process, container := c'.container,
                     containerChain := c'.containerChain, reason := c'.reason }
  process : c'.process = c.process ∨ c'.process.valid = true ∨ c'.process = {}

theorem Attributed.refl (c : Connection) : Attributed c c := ⟨rfl, .inl rfl⟩

/-- Every remembered process is valid or empty. -/
def AttributionMemo.Sound (memo : AttributionMemo) : Prop :=
  ∀ key info, memo.processByPid.lookup key = some info → info.valid = true ∨ info = {}

theorem ProcessResolver.processOf_sound (R : ProcessResolver) (pid : Int32) :
    (R.processOf pid).valid = true ∨ R.processOf pid = {} := by
  unfold processOf
  cases R.enrichPid pid with
  | none => exact .inr rfl
  | some info =>
      by_cases h : info.valid = true
      · simp [h]
      · simp [h]

theorem memoised_sound {memo : Hash PidKey ProcessInfo} (key : PidKey) {ask : ProcessInfo}
    (hm : ∀ k info, memo.lookup k = some info → info.valid = true ∨ info = {})
    (ha : ask.valid = true ∨ ask = {}) :
    ((memoised memo key ask).1.valid = true ∨ (memoised memo key ask).1 = {}) ∧
      ∀ k info, (memoised memo key ask).2.lookup k = some info → info.valid = true ∨ info = {} := by
  unfold memoised
  cases h : memo.lookup key with
  | some v => exact ⟨hm key v h, hm⟩
  | none =>
      refine ⟨ha, fun k info hk => ?_⟩
      rw [Hash.lookup_insert_ite] at hk
      split at hk
      · rw [← Option.some.inj hk]
        exact ha
      · exact hm k info hk

/-- One flow's attribution changes nothing else, and keeps the memory sound. -/
theorem attributeFlow_spec (R : ProcessResolver) (wantContainerChain : Bool)
    {memo : AttributionMemo} (hm : memo.Sound) (c : Connection) :
    Attributed c (attributeFlow R wantContainerChain memo c).1 ∧
      (attributeFlow R wantContainerChain memo c).2.Sound := by
  have hp := memoised_sound (R.resolvePid c, R.startTimeForPid (R.resolvePid c)) hm
    (R.processOf_sound (R.resolvePid c))
  simp only [attributeFlow]
  split
  · exact ⟨.refl c, hm⟩
  · split
    · exact ⟨⟨rfl, .inr hp.1⟩, hp.2⟩
    · split
      · exact ⟨⟨rfl, .inr hp.1⟩, hp.2⟩
      · exact ⟨⟨rfl, .inr hp.1⟩, hp.2⟩

theorem mem_attributeFrom {R : ℕ → ProcessResolver} {wantContainerChain : Bool} {i : ℕ}
    {memo : AttributionMemo} (hm : memo.Sound) {flows : List Connection} {c' : Connection}
    (hc : c' ∈ attributeFrom R wantContainerChain i memo flows) : ∃ c ∈ flows, Attributed c c' := by
  induction flows generalizing i memo with
  | nil => cases hc
  | cons c flows ih =>
      obtain ⟨hatt, hm'⟩ := attributeFlow_spec (R i) wantContainerChain hm c
      rcases List.mem_cons.mp hc with rfl | hc
      · exact ⟨c, List.mem_cons_self, hatt⟩
      · obtain ⟨d, hd, h⟩ := ih hm' hc
        exact ⟨d, List.mem_cons_of_mem _ hd, h⟩

/-- **Every attributed flow comes from a flow of the snapshot.** -/
theorem mem_attributeFlows {resolver : Option (ℕ → ProcessResolver)} {wantContainerChain : Bool}
    {flows : List Connection} {c' : Connection}
    (hc : c' ∈ attributeFlows resolver wantContainerChain flows) :
    ∃ c ∈ flows, Attributed c c' := by
  cases resolver with
  | none => exact ⟨c', hc, .refl c'⟩
  | some R => exact mem_attributeFrom (fun k info h => by simp at h) hc

theorem length_attributeFrom (R : ℕ → ProcessResolver) (wantContainerChain : Bool) (i : ℕ)
    (memo : AttributionMemo) (flows : List Connection) :
    (attributeFrom R wantContainerChain i memo flows).length = flows.length := by
  induction flows generalizing i memo with
  | nil => rfl
  | cons c flows ih => exact congrArg (· + 1) (ih _ _)

/-- The walk keeps the number of flows. -/
theorem length_attributeFlows (resolver : Option (ℕ → ProcessResolver)) (wantContainerChain : Bool)
    (flows : List Connection) :
    (attributeFlows resolver wantContainerChain flows).length = flows.length := by
  cases resolver with
  | none => rfl
  | some R => exact length_attributeFrom R wantContainerChain 0 {} flows

/-! ### Deferred attribution -/

/-- `AttributionFlowKey`: a flow as a refinement names it. -/
structure AttributionFlowKey where
  proto : L4Proto := .Unknown
  localAddress : QHostAddress := .null
  localPort : UInt16 := 0
  remoteAddress : QHostAddress := .null
  remotePort : UInt16 := 0
  ifIndex : UInt32 := 0
  direction : Direction := .Unknown
  deriving DecidableEq, Repr

def keyOf (c : Connection) : AttributionFlowKey :=
  { proto := c.proto, localAddress := c.local.address, localPort := c.local.port
    remoteAddress := c.remote.address, remotePort := c.remote.port, ifIndex := c.ifIndex
    direction := c.direction }

/-- Flows with one `keyOf` have one `key`. -/
theorem key_eq_of_keyOf {c d : Connection} (h : keyOf c = keyOf d) : c.key = d.key := by
  simp only [keyOf, AttributionFlowKey.mk.injEq] at h
  obtain ⟨hp, hla, hlp, hra, hrp, -, hd⟩ := h
  simp only [Connection.key, hp, hd, hla, hlp, hra, hrp]

structure DeepAttributionRequest where
  key : AttributionFlowKey
  flow : Connection
  generation : UInt64 := 0
  monotonicMsQueued : UInt64 := 0
  wantContainerChain : Bool := false
  attempts : Int := 0

structure DeepAttributionUpdate where
  key : AttributionFlowKey
  generation : UInt64 := 0
  process : ProcessInfo := {}
  container : ContainerInfo := {}
  containerChain : List ContainerInfo := []
  reason : AttributionReason := .NoLocalSocket

end Qiftop.Backend
