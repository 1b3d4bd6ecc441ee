import Qiftop.Agent.ConnectionsService
import Qiftop.Aggregate.Patch

/-!
# Agent — the client follows the agent

Agent and client as one system.  A poll of the agent reaches the client as `ConnectionsChanged`, a
refinement as `AttributionChanged`, in the order sent and through the wire form; in between the
client may make any other call of its own (`Event`, `System.step`).

The two merge attributions by different rules: the agent fills in only what is missing, the client
overwrites whatever is valid and different.  They agree because a row the agent sends holds what the
client already has or more: applied to what arrived of a flow before a refinement, what arrives of
it afterwards gives exactly the latter (`patch_arrived`).  So each flow of the agent's copy has a
client row showing what arrives of it (`Mirrors`), after every event of every run
(`client_follows_agent`).
-/

namespace Qiftop.Agent
open Qt Lib Backend Heuristics Dbus Aggregate

/-! ### Refinements -/

namespace ConnectionsService

theorem refine_eq (u : DeepAttributionUpdate) (c : Connection) :
    refine u c = { c with
      process := if u.process.valid ∧ !c.process.valid then u.process else c.process
      reason := if u.process.valid ∧ !c.process.valid then u.reason else c.reason
      container := if u.container.valid ∧ !c.container.valid then u.container else c.container
      containerChain := if !u.containerChain.isEmpty ∧ c.containerChain.isEmpty then
        u.containerChain else c.containerChain } := by
  by_cases h₁ : u.process.valid ∧ !c.process.valid <;>
  by_cases h₂ : u.container.valid ∧ !c.container.valid <;>
  by_cases h₃ : !u.containerChain.isEmpty ∧ c.containerChain.isEmpty <;>
  simp only [refine, h₁, h₂, h₃, if_true, if_false, and_self]

theorem keyOf_refine (u : DeepAttributionUpdate) (c : Connection) :
    keyOf (refine u c) = keyOf c := by
  rw [refine_eq]
  rfl

theorem key_refine (u : DeepAttributionUpdate) (c : Connection) : (refine u c).key = c.key :=
  key_eq_of_keyOf (keyOf_refine u c)

/-- A refinement does not make a pid negative. -/
theorem pid_refine (u : DeepAttributionUpdate) {c : Connection} (h : 0 ≤ c.process.pid) :
    0 ≤ (refine u c).process.pid := by
  rw [refine_eq]
  dsimp only
  split
  · next hv => exact Int32.le_of_lt (of_decide_eq_true hv.1)
  · exact h

end ConnectionsService

/-! ### What arrives -/

section
variable (parse : QString → QHostAddress)

/-- A connection after the wire. -/
def arrived (c : Connection) : Connection := fromDto parse (toDto c)

variable {parse}

theorem key_arrived {c : Connection} (hc : ReadsBack parse c) : (arrived parse c).key = c.key := by
  simp only [arrived, fromDto, toDto, Connection.key, fromIanaProto_toIanaProto,
    fromQuint8Direction_toQuint8, hc.1, hc.2]

theorem valid_wireProcess (p : ProcessInfo) : (wireProcess p).valid = p.valid := rfl

/-- A process that was filled in differs from the one it replaces. -/
theorem wireProcess_ne {p p' : ProcessInfo} (hp : p.valid = false) (hp' : p'.valid = true) :
    wireProcess p ≠ wireProcess p' := fun e => by
  rw [← valid_wireProcess, e, valid_wireProcess, hp'] at hp
  cases hp

/-- A patch entry takes a connection over whole when it lacks nothing the connection has. -/
theorem patchConnection_eq_entry {cur p : Connection} (hflow : flow cur = flow p)
    (hproc : p.process.valid = false → cur.process = p.process)
    (hreason : cur.process = p.process → cur.reason = p.reason)
    (hcont : p.container.valid = false → cur.container = p.container)
    (hchain : p.containerChain = [] → cur.containerChain = p.containerChain) :
    Aggregator.patchConnection cur p = p := by
  have e : ∀ c : Connection, c = { flow c with
      process := c.process, reason := c.reason, container := c.container
      containerChain := c.containerChain } := fun _ => rfl
  rw [e (Aggregator.patchConnection cur p), Aggregator.flow_patchConnection, hflow,
    Aggregator.patchConnection_eq]
  conv_rhs => rw [e p]
  have h₁ : (if p.process.valid then p.process else cur.process) = p.process := by
    cases hv : p.process.valid
    · exact hproc hv
    · rfl
  have h₂ : (if p.process.valid ∧ cur.process ≠ p.process then p.reason else cur.reason) =
      p.reason := by
    by_cases he : cur.process = p.process
    · rw [if_neg fun h => h.2 he, hreason he]
    · have hv : p.process.valid = true := by
        by_contra hv
        exact he (hproc (Bool.not_eq_true _ ▸ hv))
      rw [if_pos ⟨hv, he⟩]
  have h₃ : (if p.container.valid then p.container else cur.container) = p.container := by
    cases hv : p.container.valid
    · exact hcont hv
    · rfl
  have h₄ : (if p.containerChain.isEmpty then cur.containerChain else p.containerChain) =
      p.containerChain := by
    cases hp : p.containerChain with
    | nil => exact (hchain hp).trans hp
    | cons ci chain => rfl
  dsimp only
  rw [h₁, h₂, h₃, h₄]

theorem readsBack_refine {c : Connection} (hc : ReadsBack parse c) (u : DeepAttributionUpdate) :
    ReadsBack parse (ConnectionsService.refine u c) := by
  rw [ConnectionsService.refine_eq]
  exact hc

/-- **The client's merge of what arrives is what arrives.** -/
theorem patch_arrived {c : Connection} (hc : ReadsBack parse c) (hp : 0 ≤ c.process.pid)
    (u : DeepAttributionUpdate) :
    Aggregator.patchConnection (arrived parse c) (arrived parse (ConnectionsService.refine u c)) =
      arrived parse (ConnectionsService.refine u c) := by
  have hc' := readsBack_refine hc u
  have hp' := ConnectionsService.pid_refine u hp
  rw [arrived, arrived, fromDto_toDto parse hc hp, fromDto_toDto parse hc' hp']
  rw [ConnectionsService.refine_eq]
  refine patchConnection_eq_entry rfl ?_ ?_ ?_ ?_
  · dsimp only
    by_cases h : u.process.valid ∧ !c.process.valid
    · rw [if_pos h, valid_wireProcess, h.1]
      exact nofun
    · rw [if_neg h]
      exact fun _ => rfl
  · dsimp only
    by_cases h : u.process.valid ∧ !c.process.valid
    · rw [if_pos h]
      exact fun e => absurd e (wireProcess_ne (by simpa using h.2) h.1)
    · rw [if_neg h, if_neg h]
      exact fun _ => rfl
  · dsimp only
    by_cases h : u.container.valid ∧ !c.container.valid
    · rw [if_pos h, h.1]
      exact nofun
    · rw [if_neg h]
      exact fun _ => rfl
  · dsimp only
    by_cases h : !u.containerChain.isEmpty ∧ c.containerChain.isEmpty
    · rw [if_pos h]
      intro hnil
      rw [hnil, List.isEmpty_iff.mp h.2]
      rfl
    · rw [if_neg h]
      exact fun _ => rfl

end

/-! ### The system -/

/-- Agent and client. -/
structure System (F : Type) where
  agent : ConnectionsService
  client : Aggregator F

inductive Event where
  /-- The agent polls, and the client applies `ConnectionsChanged`. -/
  | polled (host : HostContext) (w : Wiring) (nowMs : UInt64) (conns : List Connection)
      (clientMs : Int)
  /-- The agent refines, and the client applies `AttributionChanged`. -/
  | refined (updates : List DeepAttributionUpdate)
  /-- The client makes another call. -/
  | call (op : Op)

section
variable {F : Type} [Double F] (S : StdSort) (parse : QString → QHostAddress)

def System.step (sys : System F) : Event → System F
  | .polled host w nowMs conns clientMs =>
      let r := sys.agent.onConnectionsUpdated S host w nowMs conns
      ⟨r.1, sys.client.updateConnections clientMs (fromDtos parse r.2.1)⟩
  | .refined updates =>
      let r := sys.agent.onDeepRefined updates
      ⟨r.1, if r.2.isEmpty then sys.client
        else sys.client.applyAttributionPatch (fromDtos parse r.2)⟩
  | .call op => { sys with client := op.apply sys.client }

/-- What the events of a run are assumed to be.  A snapshot has no repeated key and a direction for
every flow with ports; its addresses read back and no pid is negative.  The client makes no other
call that changes connections, and keeps aggregation off. -/
def Event.Ok : Event → Prop
  | .polled host w _ conns _ =>
      ((snapshot S host w conns).map Connection.key).Nodup ∧
      (∀ c ∈ snapshot S host w conns, c.proto = .Tcp ∨ c.proto = .Udp → c.direction ≠ .Unknown) ∧
      ∀ c ∈ conns, ReadsBack parse c ∧ 0 ≤ c.process.pid
  | .refined _ => True
  | .call op => (∀ nowMs conns, op ≠ .updateConnections nowMs conns) ∧
      (∀ patch, op ≠ .applyAttributionPatch patch) ∧ op ≠ .setUdpAggregateByPeer true

/-- Every flow of the agent's copy has a client row that shows what arrives of it. -/
structure Mirrors (sys : System F) : Prop where
  table : ∃ polls, HistoryInv sys.client polls
  off : sys.client.udpAggregateByPeer = false
  keys_nodup : (sys.agent.lastConns.map Connection.key).Nodup
  index : sys.agent.keyIndex = Hash.positions keyOf sys.agent.lastConns
  wire : ∀ c ∈ sys.agent.lastConns, ReadsBack parse c ∧ 0 ≤ c.process.pid
  row : ∀ c ∈ sys.agent.lastConns, ∃ r ∈ sys.client.rows, r.current = arrived parse c

variable {S parse}

/-! ### A snapshot -/

/-- What a snapshot emits comes from the monitor's connections. -/
theorem mem_snapshot {host : HostContext} {w : Wiring} {conns : List Connection} {c' : Connection}
    (hc : c' ∈ snapshot S host w conns) :
    ∃ c ∈ conns, c'.local = c.local ∧ c'.remote = c.remote ∧
      (c'.process = c.process ∨ c'.process.valid = true ∨ c'.process = {}) := by
  obtain ⟨c₂, hc₂, rfl⟩ := List.mem_map.mp hc
  obtain ⟨c₁, hc₁, hatt⟩ := mem_attributeFlows hc₂
  obtain ⟨c, hcap, rfl⟩ := List.mem_map.mp hc₁
  have hmem : c ∈ conns := by
    unfold capped at hcap
    split at hcap
    · exact (S.perm _ _).mem_iff.mp (List.mem_of_mem_take hcap)
    · exact hcap
  refine ⟨c, hmem, ?_, ?_, hatt.process⟩
  · exact (congrArg Connection.local hatt.eq :)
  · exact (congrArg Connection.remote hatt.eq :)

omit [Double F] in
/-- What arrives keeps its direction on the client: known directions are kept, and flows without
ports have none to infer. -/
theorem direct_arrived (s : Aggregator F) {c : Connection}
    (hd : c.proto = .Tcp ∨ c.proto = .Udp → c.direction ≠ .Unknown) :
    s.direct (arrived parse c) = arrived parse c := by
  have hdir : (arrived parse c).direction = c.direction := fromQuint8Direction_toQuint8 c.direction
  have hproto : (arrived parse c).proto = c.proto := fromIanaProto_toIanaProto c.proto
  unfold Aggregator.direct
  by_cases hu : c.direction = .Unknown
  · have hports : (arrived parse c).proto ≠ .Tcp ∧ (arrived parse c).proto ≠ .Udp := by
      rw [hproto]
      exact ⟨fun h => hd (.inl h) hu, fun h => hd (.inr h) hu⟩
    rw [if_neg (not_not.mpr (hdir.trans hu)), inferDirection_of_portless hports]
    conv_rhs => rw [← show ({ arrived parse c with
      direction := (arrived parse c).direction } : Connection) = arrived parse c from rfl]
    rw [hdir, hu]
  · rw [if_pos (hdir ▸ hu)]

/-- What a snapshot holds survives the wire if what was polled does: attribution leaves the process
alone, or puts in one it resolved, or none. -/
theorem wire_snapshot {host : HostContext} {w : Wiring} {conns : List Connection}
    (h : ∀ c ∈ conns, ReadsBack parse c ∧ 0 ≤ c.process.pid) :
    ∀ c ∈ snapshot S host w conns, ReadsBack parse c ∧ 0 ≤ c.process.pid := by
  intro c' hc'
  obtain ⟨c, hc, hl, hr, hp⟩ := mem_snapshot hc'
  obtain ⟨hread, hpid⟩ := h c hc
  refine ⟨by rw [ReadsBack, hl, hr]; exact hread, ?_⟩
  rcases hp with hp | hp | hp
  · rw [hp]
    exact hpid
  · exact Int32.le_of_lt (of_decide_eq_true hp)
  · rw [hp]
    exact Int32.le_refl 0

theorem Mirrors.polled {sys : System F} (h : Mirrors parse sys) {host : HostContext} {w : Wiring}
    {nowMs : UInt64} {conns : List Connection} {clientMs : Int}
    (hok : Event.Ok S parse (.polled host w nowMs conns clientMs)) :
    Mirrors parse (sys.step S parse (.polled host w nowMs conns clientMs)) := by
  obtain ⟨hnd, hdir, hwire⟩ := hok
  obtain ⟨polls, hinv⟩ := h.table
  have hwire' : ∀ c ∈ snapshot S host w conns, ReadsBack parse c ∧ 0 ≤ c.process.pid :=
    wire_snapshot hwire
  have hlist : fromDtos parse (toDtos (snapshot S host w conns)) =
      (snapshot S host w conns).map (arrived parse) := by
    rw [fromDtos, toDtos, List.map_map]
    rfl
  -- the client keeps the directions that arrive, and the keys are the same
  have hdirect : ((snapshot S host w conns).map (arrived parse)).map sys.client.direct =
      (snapshot S host w conns).map (arrived parse) := by
    rw [List.map_map]
    exact List.map_congr_left fun c hc => direct_arrived sys.client (hdir c hc)
  have hkeys : ((snapshot S host w conns).map (arrived parse)).map Connection.key =
      (snapshot S host w conns).map Connection.key := by
    rw [List.map_map]
    exact List.map_congr_left fun c hc => key_arrived (hwire' c hc).1
  refine {
    table := ⟨_, hinv.updateConnections clientMs _⟩
    off := h.off
    keys_nodup := hnd
    index := rfl
    wire := hwire'
    row := fun c hc => ?_ }
  have hrow : ∃ r ∈ (sys.client.updateConnections clientMs
      ((snapshot S host w conns).map (arrived parse))).rows,
      r.current = sys.client.direct (arrived parse c) := Aggregator.exists_row_of_mem h.off
    (by rw [hdirect, hkeys]; exact hnd) (List.mem_map_of_mem hc)
  rw [direct_arrived sys.client (hdir c hc)] at hrow
  change ∃ r ∈ (sys.client.updateConnections clientMs
    (fromDtos parse (toDtos (snapshot S host w conns)))).rows, _
  rw [hlist]
  exact hrow

/-! ### A refinement -/

/-- Replacing an element by one with the same image. -/
theorem map_set_of_eq {α β : Type} {l : List α} {i : Nat} {a b : α} {f : α → β}
    (ha : l[i]? = some a) (hf : f b = f a) : (l.set i b).map f = l.map f := by
  obtain ⟨hlt, rfl⟩ := List.getElem?_eq_some_iff.mp ha
  rw [List.map_set, hf, ← List.map_set, List.set_getElem_self]

/-- The refined flow: its row is patched. -/
theorem Mirrors.row_refined {sys : System F} (h : Mirrors parse sys) (u : DeepAttributionUpdate)
    {c : Connection} (hc : c ∈ sys.agent.lastConns) :
    ∃ r ∈ (sys.client.patchRow (arrived parse (ConnectionsService.refine u c))).rows,
      r.current = arrived parse (ConnectionsService.refine u c) := by
  obtain ⟨polls, hinv⟩ := h.table
  obtain ⟨hread, hpid⟩ := h.wire c hc
  obtain ⟨r, hr, hcur⟩ := h.row c hc
  have hk : (arrived parse (ConnectionsService.refine u c)).key = r.key := by
    rw [key_arrived (readsBack_refine hread u), ConnectionsService.key_refine, Row.key, hcur,
      key_arrived hread]
  rw [rows_patchRow hinv]
  refine ⟨_, List.mem_map_of_mem hr, ?_⟩
  rw [Row.patched_singleton, if_pos hk]
  dsimp only
  rw [hcur]
  exact patch_arrived hread hpid u

/-- Any other flow: its row has another key and stays. -/
theorem Mirrors.row_kept {sys : System F} (h : Mirrors parse sys) {entry d : Connection}
    (hd : d ∈ sys.agent.lastConns) (hne : entry.key ≠ d.key) :
    ∃ r ∈ (sys.client.patchRow entry).rows, r.current = arrived parse d := by
  obtain ⟨polls, hinv⟩ := h.table
  obtain ⟨r, hr, hcur⟩ := h.row d hd
  have hk : ¬ entry.key = r.key := by
    rw [Row.key, hcur, key_arrived (h.wire d hd).1]
    exact hne
  rw [rows_patchRow hinv]
  refine ⟨_, List.mem_map_of_mem hr, ?_⟩
  rw [Row.patched_singleton, if_neg hk]
  exact hcur

/-- One refinement: the row it touches, if any, is sent and patched. -/
theorem Mirrors.patchRow {sys : System F} (h : Mirrors parse sys) (u : DeepAttributionUpdate)
    {idx : Nat} {c : Connection} (hidx : sys.agent.lastConns[idx]? = some c)
    (last : List ConnectionDto) :
    Mirrors parse ⟨{ sys.agent with
      lastConns := sys.agent.lastConns.set idx (ConnectionsService.refine u c), last },
      sys.client.patchRow (arrived parse (ConnectionsService.refine u c))⟩ := by
  obtain ⟨polls, hinv⟩ := h.table
  have hmem : c ∈ sys.agent.lastConns := List.mem_of_getElem? hidx
  obtain ⟨hread, hpid⟩ := h.wire c hmem
  have hread' := readsBack_refine hread u
  -- the copy keeps its keys, so the index stays that of the copy
  have hset {β : Type} (f : Connection → β) (hf : f (ConnectionsService.refine u c) = f c) :
      (sys.agent.lastConns.set idx (ConnectionsService.refine u c)).map f =
        sys.agent.lastConns.map f := map_set_of_eq hidx hf
  refine {
    table := ⟨polls, hinv.congr (sys.client.sameTable_patchRow _)⟩
    off := ?_
    keys_nodup := ?_
    index := ?_
    wire := fun d hd => ?_
    row := fun d hd => ?_ }
  · unfold Aggregator.patchRow
    split <;> exact h.off
  · rw [hset _ (ConnectionsService.key_refine u c)]
    exact h.keys_nodup
  · exact h.index.trans (Hash.positions_congr (hset _ (ConnectionsService.keyOf_refine u c)).symm)
  · rcases List.mem_or_eq_of_mem_set hd with hd | rfl
    · exact h.wire d hd
    · exact ⟨hread', ConnectionsService.pid_refine u hpid⟩
  · obtain ⟨j, hj⟩ := List.mem_iff_getElem?.mp hd
    obtain ⟨hlt, -⟩ := List.getElem?_eq_some_iff.mp hidx
    rw [List.getElem?_set] at hj
    by_cases hij : idx = j
    · rw [if_pos hij, if_pos hlt] at hj
      obtain rfl := Option.some.inj hj
      exact h.row_refined u hmem
    · rw [if_neg hij] at hj
      refine h.row_kept (List.mem_of_getElem? hj) fun hkey => ?_
      rw [key_arrived hread', ConnectionsService.key_refine] at hkey
      refine hij ((List.getElem?_inj (by rwa [List.length_map]) h.keys_nodup).mp ?_)
      rw [List.getElem?_map, List.getElem?_map, hidx, hj, Option.map_some, Option.map_some, hkey]

/-- A batch of refinements. -/
theorem Mirrors.refined {sys : System F} (h : Mirrors parse sys)
    (updates : List DeepAttributionUpdate) :
    Mirrors parse (sys.step S parse (.refined updates)) := by
  -- the client after the rows sent so far mirrors the agent after the refinements so far
  have hfold : ∀ st : ConnectionsService × List ConnectionDto,
      Mirrors parse ⟨st.1, sys.client.applyAttributionPatch (fromDtos parse st.2)⟩ →
      Mirrors parse ⟨(updates.foldl ConnectionsService.refineStep st).1,
        sys.client.applyAttributionPatch
          (fromDtos parse (updates.foldl ConnectionsService.refineStep st).2)⟩ := by
    induction updates with
    | nil => exact fun st hst => hst
    | cons u updates ih =>
        intro st hst
        rw [List.foldl_cons]
        refine ih _ ?_
        unfold ConnectionsService.refineStep
        split
        · exact hst
        · split
          · exact hst
          · next idx _ c hc =>
            split
            · have e : fromDtos parse (st.2 ++ [toDto (ConnectionsService.refine u c)]) =
                  fromDtos parse st.2 ++ [arrived parse (ConnectionsService.refine u c)] := by
                simp [fromDtos, arrived]
              rw [e, Aggregator.applyAttributionPatch, List.foldl_append]
              exact hst.patchRow u hc _
            · exact hst
  have hrun := hfold (sys.agent, []) h
  rw [System.step, ConnectionsService.onDeepRefined]
  by_cases hempty : (updates.foldl ConnectionsService.refineStep (sys.agent, [])).2.isEmpty
  · rw [List.isEmpty_iff.mp hempty] at hrun
    simp only [hempty, if_true]
    exact hrun
  · simp only [hempty]
    exact hrun

/-! ### Another call of the client -/

theorem Mirrors.call {sys : System F} (h : Mirrors parse sys) {op : Op}
    (hok : Event.Ok S parse (.call op)) : Mirrors parse (sys.step S parse (.call op)) := by
  obtain ⟨hpoll, hpatch, hagg⟩ := hok
  obtain ⟨polls, hinv⟩ := h.table
  refine {
    table := ⟨polls, hinv.congr (Op.sameTable sys.client hpoll)⟩
    off := ?_
    keys_nodup := h.keys_nodup
    index := h.index
    wire := h.wire
    row := fun c hc => ?_ }
  · exact Op.udpAggregateByPeer_off h.off hagg
  · obtain ⟨r, hr, hcur⟩ := h.row c hc
    have hshown : r.current ∈ (op.apply sys.client).rows.map Row.current := by
      rw [Op.map_current sys.client hpoll hpatch]
      exact List.mem_map_of_mem hr
    obtain ⟨r', hr', e⟩ := List.mem_map.mp hshown
    exact ⟨r', hr', e.trans hcur⟩

/-! ### Runs -/

theorem Mirrors.step {sys : System F} (h : Mirrors parse sys) {e : Event} (hok : e.Ok S parse) :
    Mirrors parse (sys.step S parse e) := by
  cases e with
  | polled => exact h.polled hok
  | refined updates => exact h.refined updates
  | call => exact h.call hok

theorem Mirrors.run {sys : System F} (h : Mirrors parse sys) {events : List Event}
    (hok : ∀ e ∈ events, e.Ok S parse) :
    Mirrors parse (events.foldl (System.step S parse) sys) := by
  induction events generalizing sys with
  | nil => exact h
  | cons e events ih =>
      exact ih (h.step (hok e List.mem_cons_self)) fun e' he' => hok e' (List.mem_cons_of_mem _ he')

/-- The row shows the flow as the agent has it: process, reason, container and counters, and the
chain as far as the wire carries one. -/
structure Shows (r : Row F) (c : Connection) : Prop where
  pid : r.current.process.pid = c.process.pid
  uid : r.current.process.uid = c.process.uid
  comm : r.current.process.comm = c.process.comm
  reason : r.current.reason = c.reason
  container : r.current.container = c.container
  chain : r.current.containerChain = c.containerChain.take kMaxContainerChainDepth
  chain_eq : c.containerChain.length ≤ kMaxContainerChainDepth →
    r.current.containerChain = c.containerChain
  rxBytes : r.current.rxBytes = c.rxBytes
  txBytes : r.current.txBytes = c.txBytes
  rxPackets : r.current.rxPackets = c.rxPackets
  txPackets : r.current.txPackets = c.txPackets

omit [Double F] in
theorem Shows.of_arrived {r : Row F} {c : Connection} (hc : ReadsBack parse c)
    (hp : 0 ≤ c.process.pid) (h : r.current = arrived parse c) : Shows r c := by
  rw [arrived, fromDto_toDto parse hc hp] at h
  constructor
  case chain_eq =>
    intro hlen
    rw [h]
    exact List.take_of_length_le hlen
  all_goals rw [h]
  all_goals rfl

end

/-- **The client's table follows the agent.**  Whatever the client did before with aggregation off,
and after every event: each flow of the agent's copy has a row, every row with its key shows it as
the agent has it, and a patch changes no row beyond its attribution. -/
theorem client_follows_agent {F : Type} [Double F] (S : StdSort) (parse : QString → QHostAddress)
    (range : UInt16 × UInt16) (ops : List Op)
    (hoff : (Aggregate.run (F := F) range ops).agg.udpAggregateByPeer = false)
    (events : List Event) (hok : ∀ e ∈ events, e.Ok S parse) :
    let sys : System F := events.foldl (System.step S parse) ⟨{}, (Aggregate.run range ops).agg⟩
    (∀ c ∈ sys.agent.lastConns, (∃ r ∈ sys.client.rows, r.key = c.key) ∧
      ∀ r ∈ sys.client.rows, r.key = c.key → Shows r c) ∧
    ∀ patch, (sys.client.applyAttributionPatch patch).rows.map Row.unattributed =
      sys.client.rows.map Row.unattributed := by
  intro sys
  have hstart : Mirrors parse (⟨{}, (Aggregate.run range ops).agg⟩ : System F) := {
    table := ⟨_, historyInv_run range ops⟩
    off := hoff
    keys_nodup := List.nodup_nil
    index := rfl
    wire := fun c hc => absurd hc List.not_mem_nil
    row := fun c hc => absurd hc List.not_mem_nil }
  have h : Mirrors parse sys := hstart.run hok
  refine ⟨fun c hc => ?_, unattributed_applyAttributionPatch sys.client⟩
  obtain ⟨r, hr, hcur⟩ := h.row c hc
  obtain ⟨hread, hpid⟩ := h.wire c hc
  have hkey : r.key = c.key := by rw [Row.key, hcur, key_arrived hread]
  refine ⟨⟨r, hr, hkey⟩, fun r' hr' hkey' => ?_⟩
  obtain ⟨polls, hinv⟩ := h.table
  obtain rfl : r' = r := List.inj_on_of_nodup_map hinv.keys_nodup hr' hr (hkey'.trans hkey.symm)
  exact .of_arrived hread hpid hcur

/-- An address read by whether it has a colon. -/
def readAddress (text : QString) : QHostAddress :=
  if text.isEmpty then .null
  else if ':' ∈ text then ⟨.IPv6Protocol, text⟩ else ⟨.IPv4Protocol, text⟩

/-- A poll with a web request, then the refinement that finds its process. -/
def browserFound : List Event :=
  [.polled { localAddrs := {⟨.IPv4Protocol, "192.0.2.1".toList⟩} } {} 1000
      [httpsFlow .Unknown {}] 1000,
    .refined [{ key := keyOf (httpsFlow .Outbound {}), process := browser, reason := .Resolved }]]

/-- The refined flow is on the client, with the process that was found. -/
theorem client_follows_agent_browser :
    let sys : System ℚ := browserFound.foldl (System.step .stable readAddress)
      ⟨{}, (Aggregate.run (32768, 60999) [.setUdpAggregateByPeer false]).agg⟩
    ∃ c ∈ sys.agent.lastConns, c.process = browser ∧
      (∃ r ∈ sys.client.rows, r.key = c.key) ∧ ∀ r ∈ sys.client.rows, r.key = c.key → Shows r c := by
  intro sys
  have hok : ∀ e ∈ browserFound, e.Ok .stable readAddress := by
    intro e he
    rcases List.mem_cons.mp he with rfl | he
    · refine ⟨?_, ?_, ?_⟩
      · decide +kernel
      · decide +kernel
      · unfold ReadsBack
        decide +kernel
    · rw [List.mem_singleton.mp he]
      trivial
  have hall := (client_follows_agent (F := ℚ) .stable readAddress (32768, 60999)
    [.setUdpAggregateByPeer false] rfl browserFound hok).1
  have hfound : ∃ c ∈ sys.agent.lastConns, c.process = browser := by decide +kernel
  obtain ⟨c, hc, hp⟩ := hfound
  exact ⟨c, hc, hp, hall c hc⟩

end Qiftop.Agent
