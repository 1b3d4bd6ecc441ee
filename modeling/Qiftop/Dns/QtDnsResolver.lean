import Qiftop.Lib.KeyOrder
import Qiftop.Lib.Run
import Qiftop.Qt.Prelude

/-!
# Dns — the cache of names

`dns/QtDnsResolver.cpp`: names of addresses, looked up by Qt one address at a time and kept in a bounded
cache.  When a store makes the cache too large, the addresses first in `order` go, 128 at once.

The ages are what `m_clock.msecsSinceReference()` reads, a function of the time; nothing below depends on
it.  `World` is the resolver with what is around it: the time, the lookups Qt has under way, and when
each address was last stored.
-/

namespace Qiftop.Dns
open Qt Lib

def kMaxEntries : ℕ := 4096
def kNegativeTtlMs : Int := 5 * 60 * 1000

structure Entry where
  name : QString := []
  ageMs : Int := 0
  negative : Bool := false
  deriving DecidableEq, Repr

/-- `QHostInfo::HostInfoError`. -/
inductive HostInfoError where
  | NoError | HostNotFound | UnknownError
  deriving DecidableEq, Repr

structure QHostInfo where
  lookupId : Int
  error : HostInfoError
  hostName : QString
  deriving DecidableEq, Repr

structure QtDnsResolver where
  cache : Hash QHostAddress Entry := ∅
  order : List QHostAddress := []
  pendingById : Hash Int QHostAddress := ∅
  pendingAddrs : Finset QHostAddress := ∅

namespace QtDnsResolver

def cachedName (r : QtDnsResolver) (addr : QHostAddress) : QString :=
  ((r.cache.lookup addr).getD {}).name

/-- Whether `resolve` starts a lookup; `age` is the reading of the clock. -/
def wanted (r : QtDnsResolver) (age : Int) (addr : QHostAddress) : Bool :=
  if addr = .null then false
  else if addr ∈ r.pendingAddrs then false
  else
    match r.cache.lookup addr with
    | none => true
    | some entry => entry.negative && !decide (age - entry.ageMs < kNegativeTtlMs)

/-- `resolve`, where Qt gives the lookup `id` if one is started. -/
def resolve (r : QtDnsResolver) (age : Int) (id : Int) (addr : QHostAddress) : QtDnsResolver :=
  if r.wanted age addr then
    { r with
      pendingAddrs := insert addr r.pendingAddrs
      pendingById := r.pendingById.insert id addr }
  else r

def clearCache (r : QtDnsResolver) : QtDnsResolver := { r with cache := ∅, order := [] }

/-- The batch eviction: up to `toDrop` addresses go, from the front. -/
def evict : ℕ → QtDnsResolver → QtDnsResolver
  | 0, r => r
  | toDrop + 1, r =>
      match r.order with
      | [] => r
      | first :: rest => evict toDrop { r with cache := r.cache.erase first, order := rest }

/-- The store, without regard to the bound. -/
def put (r : QtDnsResolver) (age : Int) (addr : QHostAddress) (name : QString) (negative : Bool) :
    QtDnsResolver :=
  { r with
    order := if addr ∈ r.cache then r.order else r.order ++ [addr]
    cache := r.cache.insert addr ⟨name, age, negative⟩ }

def store (r : QtDnsResolver) (age : Int) (addr : QHostAddress) (name : QString) (negative : Bool) :
    QtDnsResolver :=
  let r := r.put age addr name negative
  if r.cache.keys.length > kMaxEntries then evict (max 1 (kMaxEntries / 32)) r else r

/-- Whether a lookup came to nothing. -/
def failed (info : QHostInfo) (addr : QHostAddress) : Bool :=
  decide (info.error ≠ .NoError) || info.hostName.isEmpty || decide (info.hostName = addr.toString)

/-- `onLookupFinished`, with the signal `resolved`. -/
def onLookupFinished (r : QtDnsResolver) (age : Int) (info : QHostInfo) :
    QtDnsResolver × Option (QHostAddress × QString) :=
  match r.pendingById.lookup info.lookupId with
  | none => (r, none)
  | some addr =>
      let r := { r with
        pendingById := r.pendingById.erase info.lookupId
        pendingAddrs := r.pendingAddrs.erase addr }
      let name := if failed info addr then addr.toString else info.hostName
      (r.store age addr name (failed info addr), some (addr, name))

end QtDnsResolver

/-! ### The cache and its order -/

/-- The order has the addresses of the cache, each once, and no more than the maximum. -/
structure Kept (r : QtDnsResolver) : Prop where
  orders : Orders r.order r.cache
  bounded : r.cache.keys.length ≤ kMaxEntries

/-- What a store can do to the order: an address that is there keeps its place. -/
inductive Filed (order : List QHostAddress) (addr : QHostAddress) : List QHostAddress → Prop where
  | again (hmem : addr ∈ order) : Filed order addr order
  | new (hnew : addr ∉ order) (hroom : order.length < kMaxEntries) :
      Filed order addr (order ++ [addr])
  | evict (hnew : addr ∉ order) (hfull : order.length = kMaxEntries) :
      Filed order addr ((order ++ [addr]).drop (kMaxEntries / 32))

namespace QtDnsResolver
variable {r : QtDnsResolver}

theorem evict_spec (n : ℕ) (ho : Orders r.order r.cache) :
    Orders (evict n r).order (evict n r).cache ∧ (evict n r).order = r.order.drop n := by
  induction n generalizing r with
  | zero => exact ⟨ho, rfl⟩
  | succ n ih =>
      rw [evict]
      cases horder : r.order with
      | nil => exact ⟨ho, horder.trans List.drop_nil.symm⟩
      | cons first rest =>
          rw [horder] at ho
          exact ih (r := { r with cache := r.cache.erase first, order := rest }) ho.tail

/-- Evictions have nothing to do with lookups. -/
theorem pending_evict (n : ℕ) (r : QtDnsResolver) :
    (evict n r).pendingById = r.pendingById ∧ (evict n r).pendingAddrs = r.pendingAddrs := by
  induction n generalizing r with
  | zero => exact ⟨rfl, rfl⟩
  | succ n ih =>
      rw [evict]
      cases r.order with
      | nil => exact ⟨rfl, rfl⟩
      | cons first rest => exact ih _

theorem pending_store (r : QtDnsResolver) (age : Int) (addr : QHostAddress) (name : QString)
    (negative : Bool) :
    (r.store age addr name negative).pendingById = r.pendingById ∧
      (r.store age addr name negative).pendingAddrs = r.pendingAddrs := by
  rw [store]
  split
  · exact pending_evict _ _
  · exact ⟨rfl, rfl⟩

end QtDnsResolver

namespace Kept
variable {r : QtDnsResolver}

theorem empty : Kept {} := ⟨.empty, Nat.zero_le _⟩

/-- An entry is replaced. -/
theorem store_of_mem (h : Kept r) {addr : QHostAddress} (hmem : addr ∈ r.cache) (age : Int)
    (name : QString) (negative : Bool) :
    Kept (r.store age addr name negative) ∧
      Filed r.order addr (r.store age addr name negative).order := by
  have hput : r.put age addr name negative =
      { r with cache := r.cache.insert addr ⟨name, age, negative⟩ } := by
    rw [QtDnsResolver.put, if_pos hmem]
  have hsize := Hash.length_keys_insert r.cache addr ⟨name, age, negative⟩
  rw [if_pos hmem] at hsize
  have hbounded := h.bounded
  rw [QtDnsResolver.store, hput]
  dsimp only
  rw [if_neg (by omega)]
  exact ⟨⟨h.orders.insert_of_mem hmem _, hsize.le.trans hbounded⟩,
    .again ((h.orders.mem_iff addr).mpr hmem)⟩

/-- A new entry, with the oldest ones evicted if it is one too many. -/
theorem store_of_notMem (h : Kept r) {addr : QHostAddress} (hnew : addr ∉ r.cache) (age : Int)
    (name : QString) (negative : Bool) :
    Kept (r.store age addr name negative) ∧
      Filed r.order addr (r.store age addr name negative).order := by
  have hput : r.put age addr name negative =
      { r with
        order := r.order ++ [addr]
        cache := r.cache.insert addr ⟨name, age, negative⟩ } := by
    rw [QtDnsResolver.put, if_neg hnew]
  have hsize := Hash.length_keys_insert r.cache addr ⟨name, age, negative⟩
  rw [if_neg hnew] at hsize
  have hlength := h.orders.length_eq
  have hbounded := h.bounded
  have hnot : addr ∉ r.order := fun hmem => hnew ((h.orders.mem_iff addr).mp hmem)
  have horders := h.orders.concat hnew ⟨name, age, negative⟩
  rw [QtDnsResolver.store, hput]
  dsimp only
  split
  · obtain ⟨hevicted, hdrop⟩ := QtDnsResolver.evict_spec (max 1 (kMaxEntries / 32))
      (r := { r with
        order := r.order ++ [addr]
        cache := r.cache.insert addr ⟨name, age, negative⟩ }) horders
    have hdrop' := congrArg List.length hdrop
    rw [List.length_drop, List.length_append, List.length_singleton, hevicted.length_eq] at hdrop'
    refine ⟨⟨hevicted, ?_⟩, ?_⟩
    · rw [hdrop']
      have hbatch : 1 ≤ max 1 (kMaxEntries / 32) := le_max_left _ _
      omega
    · rw [hdrop]
      exact .evict hnot (by omega)
  · rename_i hle
    have hroom : r.cache.keys.length + 1 ≤ kMaxEntries := by
      rw [← hsize]
      exact not_lt.mp hle
    exact ⟨⟨horders, not_lt.mp hle⟩, .new hnot (by omega)⟩

theorem store (h : Kept r) (age : Int) (addr : QHostAddress) (name : QString) (negative : Bool) :
    Kept (r.store age addr name negative) ∧
      Filed r.order addr (r.store age addr name negative).order := by
  by_cases hmem : addr ∈ r.cache
  · exact h.store_of_mem hmem age name negative
  · exact h.store_of_notMem hmem age name negative

end Kept

/-! ### Runs -/

inductive Event where
  | resolve (addr : QHostAddress)
  | lookupFinished (info : QHostInfo)
  | store (addr : QHostAddress) (name : QString) (negative : Bool)
  | clearCache

/-- An event, so many milliseconds after the one before it. -/
structure Timed where
  elapsed : ℕ
  event : Event

structure World where
  resolver : QtDnsResolver := {}
  now : ℕ := 0
  /-- How many lookups have been started. -/
  started : ℕ := 0
  /-- The lookups Qt has under way. -/
  inFlight : List (Int × QHostAddress) := []
  /-- When each address was last stored. -/
  lastStore : QHostAddress → ℕ := fun _ => 0

section
-- what `m_clock.msecsSinceReference()` reads at a time, and the id of the lookup started in its turn
variable (msecsSinceReference : ℕ → Int) (lookupId : ℕ → Int)

/-- The address that an event stores, if it stores one. -/
def World.stored (w : World) : Event → Option QHostAddress
  | .resolve _ | .clearCache => none
  | .lookupFinished info => w.resolver.pendingById.lookup info.lookupId
  | .store addr _ _ => some addr

/-- What an event does to the resolver. -/
def World.react (w : World) (now : ℕ) : Event → QtDnsResolver
  | .resolve addr => w.resolver.resolve (msecsSinceReference now) (lookupId w.started) addr
  | .lookupFinished info => (w.resolver.onLookupFinished (msecsSinceReference now) info).1
  | .store addr name negative => w.resolver.store (msecsSinceReference now) addr name negative
  | .clearCache => w.resolver.clearCache

/-- The lookup that an event starts, if it starts one. -/
def World.starts (w : World) (now : ℕ) : Event → Option QHostAddress
  | .resolve addr => if w.resolver.wanted (msecsSinceReference now) addr then some addr else none
  | .lookupFinished _ | .store _ _ _ | .clearCache => none

def World.step (w : World) (e : Timed) : World :=
  let now := w.now + e.elapsed
  { resolver := w.react msecsSinceReference lookupId now e.event
    now
    started := w.started + if (w.starts msecsSinceReference now e.event).isSome then 1 else 0
    inFlight :=
      match e.event with
      | .lookupFinished info => w.inFlight.filter fun l => l.1 ≠ info.lookupId
      | event => w.inFlight ++ ((w.starts msecsSinceReference now event).map fun addr =>
          (lookupId w.started, addr)).toList
    lastStore :=
      match w.stored e.event with
      | some addr => Function.update w.lastStore addr now
      | none => w.lastStore }

/-! ### Lookups under way -/

/-- The resolver knows what Qt has under way, and no address has two lookups. -/
structure Tracked (w : World) : Prop where
  byId : ∀ id addr, w.resolver.pendingById.lookup id = some addr ↔ (id, addr) ∈ w.inFlight
  pending : ∀ addr, addr ∈ w.resolver.pendingAddrs ↔ addr ∈ w.inFlight.map Prod.snd
  once : (w.inFlight.map Prod.snd).Nodup
  given : ∀ l ∈ w.inFlight, ∃ n < w.started, l.1 = lookupId n

variable {lookupId} {w : World}

theorem tracked_empty : Tracked lookupId {} where
  byId _ _ := ⟨(nomatch ·), (nomatch ·)⟩
  pending _ := ⟨fun h => absurd h (Finset.notMem_empty _), (nomatch ·)⟩
  once := List.nodup_nil
  given _ hl := nomatch hl

/-- A lookup is started for an address that has none. -/
theorem Tracked.start (h : Tracked lookupId w) (hids : Function.Injective lookupId)
    {addr : QHostAddress} (hfree : addr ∉ w.resolver.pendingAddrs) {w' : World}
    (hpending : w'.resolver.pendingAddrs = insert addr w.resolver.pendingAddrs)
    (hbyId : w'.resolver.pendingById = w.resolver.pendingById.insert (lookupId w.started) addr)
    (hinFlight : w'.inFlight = w.inFlight ++ [(lookupId w.started, addr)])
    (hstarted : w'.started = w.started + 1) : Tracked lookupId w' where
  byId id a := by
    rw [hbyId, hinFlight, Hash.lookup_insert_ite, List.mem_append, List.mem_singleton, ← h.byId]
    split
    · rename_i hid
      -- the new id is none of those given out before
      have hnone : w.resolver.pendingById.lookup (lookupId w.started) = none := by
        by_contra hsome
        obtain ⟨b, hb⟩ := Option.ne_none_iff_exists'.mp hsome
        obtain ⟨n, hn, heq⟩ := h.given _ ((h.byId _ _).mp hb)
        exact hn.ne' (hids heq)
      rw [hid, hnone]
      simp [eq_comm]
    · rename_i hid
      simp [hid]
  pending a := by
    rw [hpending, hinFlight, Finset.mem_insert, h.pending, List.map_append, List.mem_append,
      List.map_singleton, List.mem_singleton]
    exact or_comm
  once := by
    rw [hinFlight, List.map_append, List.map_singleton]
    refine List.nodup_append.mpr ⟨h.once, List.nodup_singleton _, fun a ha b hb e => hfree ?_⟩
    have hb : b = addr := List.mem_singleton.mp hb
    rw [h.pending, ← hb, ← e]
    exact ha
  given l hl := by
    rw [hinFlight, List.mem_append, List.mem_singleton] at hl
    rw [hstarted]
    rcases hl with hl | rfl
    · obtain ⟨n, hn, heq⟩ := h.given l hl
      exact ⟨n, hn.trans (Nat.lt_succ_self _), heq⟩
    · exact ⟨w.started, Nat.lt_succ_self _, rfl⟩

/-- A lookup that the resolver waits for finishes. -/
theorem Tracked.finish (h : Tracked lookupId w) {id : Int} {addr : QHostAddress}
    (hlookup : w.resolver.pendingById.lookup id = some addr) {w' : World}
    (hpending : w'.resolver.pendingAddrs = w.resolver.pendingAddrs.erase addr)
    (hbyId : w'.resolver.pendingById = w.resolver.pendingById.erase id)
    (hinFlight : w'.inFlight = w.inFlight.filter fun l => l.1 ≠ id)
    (hstarted : w'.started = w.started) : Tracked lookupId w' where
  byId id' a := by
    rw [hbyId, hinFlight, List.mem_filter, ← h.byId, decide_eq_true_iff]
    by_cases hid : id' = id
    · rw [hid, AList.lookup_erase]
      simp
    · rw [AList.lookup_erase_ne hid]
      simp [hid]
  pending a := by
    have hown := (h.byId id addr).mp hlookup
    rw [hpending, hinFlight, Finset.mem_erase, h.pending, List.mem_map, List.mem_map]
    constructor
    · rintro ⟨hne, l, hl, rfl⟩
      refine ⟨l, List.mem_filter.mpr ⟨hl, decide_eq_true fun e => hne ?_⟩, rfl⟩
      -- an id stands for one address
      have hsame := (h.byId l.1 l.2).mpr hl
      rw [e, hlookup] at hsame
      exact (Option.some.inj hsame).symm
    · rintro ⟨l, hl, rfl⟩
      obtain ⟨hl, hid⟩ := List.mem_filter.mp hl
      refine ⟨fun e => of_decide_eq_true hid ?_, l, hl, rfl⟩
      rw [List.inj_on_of_nodup_map h.once hl hown e]
  once := by
    rw [hinFlight]
    exact h.once.sublist (List.filter_sublist.map _)
  given l hl := by
    rw [hinFlight] at hl
    rw [hstarted]
    exact h.given l (List.mem_filter.mp hl).1

/-- Nothing happens to the lookups. -/
theorem Tracked.same (h : Tracked lookupId w) {w' : World}
    (hpending : w'.resolver.pendingAddrs = w.resolver.pendingAddrs)
    (hbyId : w'.resolver.pendingById = w.resolver.pendingById)
    (hinFlight : w'.inFlight = w.inFlight) (hstarted : w'.started = w.started) :
    Tracked lookupId w' := by
  refine ⟨?_, ?_, ?_, ?_⟩
  · rw [hbyId, hinFlight]
    exact h.byId
  · rw [hpending, hinFlight]
    exact h.pending
  · rw [hinFlight]
    exact h.once
  · rw [hinFlight, hstarted]
    exact h.given

theorem Tracked.step (h : Tracked lookupId w) (hids : Function.Injective lookupId) (e : Timed) :
    Tracked lookupId (w.step msecsSinceReference lookupId e) := by
  obtain ⟨elapsed, event⟩ := e
  cases event with
  | resolve addr =>
      cases hwanted : w.resolver.wanted (msecsSinceReference (w.now + elapsed)) addr with
      | false =>
          refine h.same ?_ ?_ ?_ ?_ <;>
            simp [World.step, World.react, World.starts, QtDnsResolver.resolve, hwanted]
      | true =>
          have hfree : addr ∉ w.resolver.pendingAddrs := by
            intro hmem
            rw [QtDnsResolver.wanted, if_pos hmem] at hwanted
            split at hwanted <;> cases hwanted
          refine h.start hids hfree ?_ ?_ ?_ ?_ <;>
            simp [World.step, World.react, World.starts, QtDnsResolver.resolve, hwanted]
  | store addr name negative =>
      obtain ⟨hbyId, hpending⟩ := QtDnsResolver.pending_store w.resolver
        (msecsSinceReference (w.now + elapsed)) addr name negative
      exact h.same hpending hbyId (List.append_nil _) rfl
  | clearCache => exact h.same rfl rfl (List.append_nil _) rfl
  | lookupFinished info =>
      cases hlookup : w.resolver.pendingById.lookup info.lookupId with
      | none =>
          have hnone : (w.inFlight.filter fun l => l.1 ≠ info.lookupId) = w.inFlight := by
            refine List.filter_eq_self.mpr fun l hl => decide_eq_true fun e => ?_
            have hsome := (h.byId l.1 l.2).mpr hl
            rw [e, hlookup] at hsome
            cases hsome
          refine h.same ?_ ?_ hnone rfl <;>
            simp [World.step, World.react, QtDnsResolver.onLookupFinished, hlookup]
      | some addr =>
          refine h.finish hlookup ?_ ?_ rfl rfl <;>
            simp [World.step, World.react, QtDnsResolver.onLookupFinished, hlookup,
              QtDnsResolver.pending_store]

variable (lookupId) in
/-- What an event does to the cache. -/
theorem Kept.react (h : Kept w.resolver) (now : ℕ) (event : Event) :
    Kept (w.react msecsSinceReference lookupId now event) ∧
      match w.stored event with
      | some addr => Filed w.resolver.order addr (w.react msecsSinceReference lookupId now event).order
      | none => (w.react msecsSinceReference lookupId now event).order = w.resolver.order ∨
          event = .clearCache ∧ (w.react msecsSinceReference lookupId now event).order = [] := by
  cases event with
  | resolve addr =>
      have hsame : (w.react msecsSinceReference lookupId now (.resolve addr)).cache =
          w.resolver.cache ∧
          (w.react msecsSinceReference lookupId now (.resolve addr)).order = w.resolver.order := by
        rw [World.react, QtDnsResolver.resolve]
        split <;> exact ⟨rfl, rfl⟩
      refine ⟨⟨?_, ?_⟩, ?_⟩
      · rw [hsame.1, hsame.2]
        exact h.orders
      · rw [hsame.1]
        exact h.bounded
      · exact .inl hsame.2
  | clearCache => exact ⟨⟨.empty, Nat.zero_le _⟩, .inr ⟨rfl, rfl⟩⟩
  | store addr name negative => exact h.store _ addr name negative
  | lookupFinished info =>
      rw [World.react, World.stored, QtDnsResolver.onLookupFinished]
      cases hlookup : w.resolver.pendingById.lookup info.lookupId with
      | none => exact ⟨h, .inl rfl⟩
      | some addr =>
          exact Kept.store (r := { w.resolver with
            pendingById := w.resolver.pendingById.erase info.lookupId
            pendingAddrs := w.resolver.pendingAddrs.erase addr }) ⟨h.orders, h.bounded⟩ _ addr _ _

end

end Qiftop.Dns
