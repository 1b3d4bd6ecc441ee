import Qiftop.Backend.ConnectionKeys
import Qiftop.Dns.QtDnsResolver

/-!
# Dns — what an eviction takes

Evictions take what is first in `order`.  An address that is stored again keeps its place there, so the
order is that of the last stores only as long as nothing is refreshed out of turn.

* `byLastStore_iff`: the addresses stay in the order of their last stores exactly as long as no store of
  a cached address leaves one behind it that was stored earlier.
* `cache_bookkeeping`: what holds in all runs, and of evictions in those.
* `refreshed_evicted`: an address goes, which has just been stored.
-/

namespace Qiftop.Dns
open Qt Lib Backend

variable (msecsSinceReference : ℕ → Int) {lookupId : ℕ → Int}

/-- The addresses come in the order of their last stores. -/
def ByLastStore (w : World) : Prop := Stamped (· ≤ ·) w.lastStore w.resolver.order

/-- If an event stores an address of the cache, no address behind it was stored before now. -/
def InTurn (w : World) (e : Timed) : Prop :=
  ∀ addr, w.stored e.event = some addr → addr ∈ w.resolver.cache →
    ∀ b ∈ behind addr w.resolver.order, w.now + e.elapsed ≤ w.lastStore b

/-- What an event evicts, of the cache and of what it stores, was last stored no later than what
stays. -/
def EvictsOldest (msecsSinceReference : ℕ → Int) (lookupId : ℕ → Int) (w : World) (e : Timed) : Prop :=
  let w' := w.step msecsSinceReference lookupId e
  e.event ≠ .clearCache → ∀ a, a ∈ w.resolver.cache ∨ w.stored e.event = some a →
    a ∉ w'.resolver.cache → ∀ b ∈ w'.resolver.cache, w'.lastStore a ≤ w'.lastStore b

/-- What holds after any events. -/
structure Bookkept (lookupId : ℕ → Int) (w : World) : Prop where
  kept : Kept w.resolver
  tracked : Tracked lookupId w
  past : ∀ addr, w.lastStore addr ≤ w.now

theorem bookkept_empty : Bookkept lookupId {} := ⟨.empty, tracked_empty, fun _ => le_rfl⟩

section
variable {w : World}

theorem Bookkept.step (h : Bookkept lookupId w) (hids : Function.Injective lookupId) (e : Timed) :
    Bookkept lookupId (w.step msecsSinceReference lookupId e) := by
  refine ⟨(h.kept.react msecsSinceReference lookupId (w.now + e.elapsed) e.event).1,
    h.tracked.step msecsSinceReference hids e, fun addr => ?_⟩
  have hpast := (h.past addr).trans (Nat.le_add_right w.now e.elapsed)
  rw [World.step]
  cases w.stored e.event with
  | none => exact hpast
  | some stored =>
      dsimp only
      rw [Function.update_apply]
      split
      · exact le_rfl
      · exact hpast

/-- A new address goes to the end. -/
theorem Bookkept.stamped_concat (h : Bookkept lookupId w) (hstamped : ByLastStore w)
    {addr : QHostAddress} (hnew : addr ∉ w.resolver.order) (elapsed : ℕ) :
    Stamped (· ≤ ·) (Function.update w.lastStore addr (w.now + elapsed))
      (w.resolver.order ++ [addr]) :=
  hstamped.concat hnew fun b _ => (h.past b).trans (Nat.le_add_right w.now elapsed)

/-- **One event** keeps the order of the last stores exactly when it is in turn. -/
theorem Bookkept.byLastStore_step (h : Bookkept lookupId w) (hstamped : ByLastStore w) (e : Timed) :
    ByLastStore (w.step msecsSinceReference lookupId e) ↔ InTurn w e := by
  have hreact := (h.kept.react msecsSinceReference lookupId (w.now + e.elapsed) e.event).2
  rw [ByLastStore, World.step, InTurn]
  cases hstored : w.stored e.event with
  | none =>
      rw [hstored] at hreact
      have horder : Stamped (· ≤ ·) w.lastStore
          (w.react msecsSinceReference lookupId (w.now + e.elapsed) e.event).order := by
        rcases hreact with horder | ⟨-, horder⟩
        · rw [horder]
          exact hstamped
        · rw [horder]
          exact .nil
      refine iff_of_true horder ?_
      rintro addr ⟨⟩
  | some addr =>
      rw [hstored] at hreact
      dsimp only at hreact ⊢
      have hturn : (∀ a, some addr = some a → a ∈ w.resolver.cache →
          ∀ b ∈ behind a w.resolver.order, w.now + e.elapsed ≤ w.lastStore b) ↔
          (addr ∈ w.resolver.order →
            ∀ b ∈ behind addr w.resolver.order, w.now + e.elapsed ≤ w.lastStore b) := by
        rw [h.kept.orders.mem_iff]
        exact ⟨fun hall => hall addr rfl, fun hall a ha => Option.some.inj ha ▸ hall⟩
      rw [hturn]
      generalize (w.react msecsSinceReference lookupId (w.now + e.elapsed) e.event).order = order'
        at hreact ⊢
      cases hreact with
      | again hmem =>
          rw [hstamped.update_iff h.kept.orders.nodup hmem
            fun b _ => (h.past b).trans (Nat.le_add_right w.now e.elapsed)]
          exact ⟨fun hall _ => hall, fun hall => hall hmem⟩
      | new hnew hroom =>
          exact iff_of_true (h.stamped_concat hstamped hnew e.elapsed) fun hmem => absurd hmem hnew
      | evict hnew hfull =>
          exact iff_of_true ((h.stamped_concat hstamped hnew e.elapsed).sublist (List.drop_sublist _ _))
            fun hmem => absurd hmem hnew

theorem Bookkept.filed (h : Bookkept lookupId w) (e : Timed) {addr : QHostAddress}
    (hstored : w.stored e.event = some addr) :
    Filed w.resolver.order addr (w.step msecsSinceReference lookupId e).resolver.order := by
  have hreact := (h.kept.react msecsSinceReference lookupId (w.now + e.elapsed) e.event).2
  rwa [hstored] at hreact

/-- **From the order of the last stores** an eviction takes the oldest. -/
theorem Bookkept.evictsOldest (h : Bookkept lookupId w) (hstamped : ByLastStore w) (e : Timed) :
    EvictsOldest msecsSinceReference lookupId w e := by
  obtain ⟨hkept, hreact⟩ := h.kept.react msecsSinceReference lookupId
    (w.now + e.elapsed) e.event
  unfold EvictsOldest
  intro w' hclear a ha hgone b hb
  have hb : b ∈ w'.resolver.order := (hkept.orders.mem_iff b).mpr hb
  have hgone : a ∉ w'.resolver.order := fun hmem => hgone ((hkept.orders.mem_iff a).mp hmem)
  rw [← h.kept.orders.mem_iff] at ha
  cases hstored : w.stored e.event with
  | none =>
      rw [hstored] at hreact ha
      have horder : w'.resolver.order = w.resolver.order := hreact.resolve_right fun hc => hclear hc.1
      rw [horder] at hgone
      exact absurd (ha.resolve_right (nomatch ·)) hgone
  | some addr =>
      have hlast : w'.lastStore = Function.update w.lastStore addr (w.now + e.elapsed) := by
        dsimp only [w', World.step]
        rw [hstored]
      rw [hstored] at hreact ha
      change Filed w.resolver.order addr w'.resolver.order at hreact
      have ha : a ∈ w.resolver.order ++ [addr] := by
        rw [List.mem_append, List.mem_singleton]
        exact ha.imp_right fun e => (Option.some.inj e).symm
      rw [hlast]
      generalize w'.resolver.order = order' at hreact hgone hb
      cases hreact with
      | again hmem =>
          refine absurd ?_ hgone
          rcases List.mem_append.mp ha with ha | ha
          · exact ha
          · exact List.mem_singleton.mp ha ▸ hmem
      | new hnew hroom => exact absurd ha hgone
      | evict hnew hfull =>
          -- `a` is among the first ones, `b` is not
          have hall := h.stamped_concat hstamped hnew e.elapsed
          rw [Stamped, ← List.take_append_drop (kMaxEntries / 32) (w.resolver.order ++ [addr]),
            List.pairwise_append] at hall
          rw [← List.take_append_drop (kMaxEntries / 32) (w.resolver.order ++ [addr])] at ha
          exact hall.2.2 a ((List.mem_append.mp ha).resolve_right hgone) b hb

end

/-! ### Runs -/

/-- The world after some events. -/
def World.run (msecsSinceReference : ℕ → Int) (lookupId : ℕ → Int) (es : List Timed) : World :=
  es.foldl (World.step msecsSinceReference lookupId) {}

theorem bookkept_run (hids : Function.Injective lookupId) (es : List Timed) :
    Bookkept lookupId (World.run msecsSinceReference lookupId es) :=
  foldl_invariant (fun _ e hw => hw.step msecsSinceReference hids e) bookkept_empty es

/-- The order is that of the last stores all along a run exactly when all its events are in turn. -/
theorem byLastStore_iff (hids : Function.Injective lookupId) (es : List Timed) :
    (∀ pre, pre <+: es → ByLastStore (World.run msecsSinceReference lookupId pre)) ↔
      ∀ pre e, pre ++ [e] <+: es → InTurn (World.run msecsSinceReference lookupId pre) e :=
  forall_states_iff (I := Bookkept lookupId) (P := ByLastStore) (C := InTurn)
    (fun _ e hw => hw.step msecsSinceReference hids e)
    (fun _ e hw hstamped => hw.byLastStore_step msecsSinceReference hstamped e)
    bookkept_empty .nil es

/-- **The bookkeeping of the cache**, whatever the clock reads and as long as Qt gives every lookup an id
of its own: after any events the order has the addresses of the cache, each once; the cache is no larger
than its maximum; and no address has two lookups under way.  In a run whose events are all in turn, what
an eviction takes was last stored no later than what it leaves; and the events are all in turn exactly
when the order is that of the last stores all along. -/
theorem cache_bookkeeping (msecsSinceReference : ℕ → Int) (lookupId : ℕ → Int)
    (hids : Function.Injective lookupId) (es : List Timed) :
    let world := World.run msecsSinceReference lookupId
    ((world es).resolver.order.Nodup ∧
        (∀ a, a ∈ (world es).resolver.order ↔ a ∈ (world es).resolver.cache) ∧
        (world es).resolver.cache.keys.length ≤ kMaxEntries ∧
        ((world es).inFlight.map Prod.snd).Nodup) ∧
      ((∀ pre e, pre ++ [e] <+: es → InTurn (world pre) e) →
        ∀ pre e, pre ++ [e] <+: es → EvictsOldest msecsSinceReference lookupId (world pre) e) ∧
      ((∀ pre, pre <+: es → ByLastStore (world pre)) ↔
        ∀ pre e, pre ++ [e] <+: es → InTurn (world pre) e) := by
  intro world
  have h : Bookkept lookupId (world es) := bookkept_run msecsSinceReference hids es
  have hiff := byLastStore_iff msecsSinceReference hids es
  refine ⟨⟨h.kept.orders.nodup, h.kept.orders.mem_iff, h.kept.bounded, h.tracked.once⟩,
    fun hturn pre e hpre => ?_, hiff⟩
  have hstamped := hiff.mpr hturn pre ((List.prefix_append pre [e]).trans hpre)
  exact (bookkept_run msecsSinceReference hids pre).evictsOldest msecsSinceReference hstamped e

/-- The peers 10.0.0.0, 10.0.0.1 and so on. -/
def peer (i : ℕ) : QHostAddress :=
  ⟨.IPv4Protocol, "10.0.".toList ++ number (i / 256) ++ '.' :: number (i % 256)⟩

theorem peer_injective : Function.Injective peer := by
  intro i j h
  have htext := congrArg QHostAddress.toString h
  dsimp only [peer] at htext
  obtain ⟨hfront, hlast⟩ := split_last htext (notMem_number _).2.2 (notMem_number _).2.2
  have hdiv := number_injective (List.append_cancel_left hfront)
  have hmod := number_injective hlast
  rw [← Nat.div_add_mod i 256, hdiv, hmod, Nat.div_add_mod]

/-- A name that is not found, and a second lookup when the entry of the first has become old. -/
def lookedUpAgain : List Timed :=
  [⟨0, .resolve (peer 0)⟩, ⟨20, .lookupFinished ⟨0, .HostNotFound, []⟩⟩, ⟨300000, .resolve (peer 0)⟩]

theorem lookedUpAgain_kept :
    let w := World.run Int.ofNat Int.ofNat lookedUpAgain
    w.resolver.order.Nodup ∧ (∀ a, a ∈ w.resolver.order ↔ a ∈ w.resolver.cache) ∧
      w.resolver.cache.keys.length ≤ kMaxEntries ∧ (w.inFlight.map Prod.snd).Nodup :=
  (cache_bookkeeping Int.ofNat Int.ofNat (fun _ _ => Int.ofNat.inj) lookedUpAgain).1

example : (World.run Int.ofNat Int.ofNat lookedUpAgain).inFlight = [(1, peer 0)] := by decide

/-! ### A refreshed address -/

/-- A store at the time of the event before it. -/
def prime (addr : QHostAddress) : Timed := ⟨0, .store addr addr.toString true⟩

section
variable {order order' : List QHostAddress} {addr : QHostAddress}

theorem Filed.of_mem (h : Filed order addr order') (hmem : addr ∈ order) : order' = order := by
  cases h with
  | again _ => rfl
  | new hnew _ | evict hnew _ => exact absurd hmem hnew

theorem Filed.of_room (h : Filed order addr order') (hnew : addr ∉ order)
    (hroom : order.length ≠ kMaxEntries) : order' = order ++ [addr] := by
  cases h with
  | again hmem => exact absurd hmem hnew
  | new _ _ => rfl
  | evict _ hfull => exact absurd hfull hroom

theorem Filed.of_full (h : Filed order addr order') (hnew : addr ∉ order)
    (hfull : order.length = kMaxEntries) : order' = (order ++ [addr]).drop (kMaxEntries / 32) := by
  cases h with
  | again hmem => exact absurd hmem hnew
  | new _ hroom => exact absurd hfull hroom.ne
  | evict _ _ => rfl

end

/-- One after the other, new addresses fill the cache. -/
theorem Bookkept.fill (hids : Function.Injective lookupId) (l : List QHostAddress) {w : World}
    (h : Bookkept lookupId w) (hnodup : (w.resolver.order ++ l).Nodup)
    (hlength : (w.resolver.order ++ l).length ≤ kMaxEntries) :
    let w' := (l.map prime).foldl (World.step msecsSinceReference lookupId) w
    w'.resolver.order = w.resolver.order ++ l ∧ w'.now = w.now ∧
      ∀ a ∉ l, w'.lastStore a = w.lastStore a := by
  induction l generalizing w with
  | nil => exact ⟨(List.append_nil _).symm, rfl, fun _ _ => rfl⟩
  | cons addr l ih =>
      have hsplit : w.resolver.order ++ addr :: l = (w.resolver.order ++ [addr]) ++ l := by simp
      have horder : (w.step msecsSinceReference lookupId (prime addr)).resolver.order =
          w.resolver.order ++ [addr] := by
        have hnew : addr ∉ w.resolver.order := by
          rw [hsplit, List.nodup_append, List.nodup_append] at hnodup
          exact fun hmem => hnodup.1.2.2 addr hmem addr (List.mem_singleton_self _) rfl
        have hroom : w.resolver.order.length ≠ kMaxEntries := by
          rw [List.length_append, List.length_cons] at hlength
          omega
        exact (h.filed msecsSinceReference (prime addr) rfl).of_room hnew hroom
      obtain ⟨horder', hnow, hlast⟩ := ih (h.step msecsSinceReference hids (prime addr))
        (by rw [horder, ← hsplit]; exact hnodup) (by rw [horder, ← hsplit]; exact hlength)
      refine ⟨by rw [List.map_cons, List.foldl_cons, horder', horder, hsplit], hnow, fun a ha => ?_⟩
      rw [List.mem_cons, not_or] at ha
      exact (hlast a ha.2).trans (Function.update_of_ne ha.1 _ _)

/-- The cache full of peers, and the first one stored again. -/
def refreshing : List Timed :=
  ((List.range kMaxEntries).map peer).map prime ++ [⟨1, .store (peer 0) "gateway".toList false⟩]

section
variable {w : World}

/-- A full cache, after its first peer is stored again: the peer keeps its place. -/
theorem Bookkept.refresh (h : Bookkept lookupId w)
    (horder : w.resolver.order = (List.range kMaxEntries).map peer) (hnow : w.now = 0) :
    let w' := w.step msecsSinceReference lookupId ⟨1, .store (peer 0) "gateway".toList false⟩
    w'.resolver.order = (List.range kMaxEntries).map peer ∧ w'.lastStore (peer 0) = 1 ∧
      w'.lastStore (peer 200) = 0 := by
  have hfirst : peer 0 ∈ w.resolver.order := by
    rw [horder]
    exact List.mem_map_of_mem (List.mem_range.mpr (by decide))
  have hlast : (w.step msecsSinceReference lookupId
      ⟨1, .store (peer 0) "gateway".toList false⟩).lastStore =
        Function.update w.lastStore (peer 0) 1 := by
    dsimp only [World.step, World.stored]
    rw [hnow]
  have hne : peer 200 ≠ peer 0 := fun e => absurd (peer_injective e) (by decide)
  have hpast := h.past (peer 200)
  dsimp only
  rw [hlast, Function.update_self, Function.update_of_ne hne]
  exact ⟨((h.filed msecsSinceReference _ rfl).of_mem hfirst).trans horder, rfl, by omega⟩

/-- Then one more peer evicts it, and leaves others that were stored before. -/
theorem Bookkept.not_evictsOldest (h : Bookkept lookupId w) (hids : Function.Injective lookupId)
    (horder : w.resolver.order = (List.range kMaxEntries).map peer)
    (hfirst : w.lastStore (peer 0) = 1) (hother : w.lastStore (peer 200) = 0) :
    ¬ EvictsOldest msecsSinceReference lookupId w (prime (peer kMaxEntries)) := by
  intro hevicts
  have h' : Bookkept lookupId (w.step msecsSinceReference lookupId (prime (peer kMaxEntries))) :=
    h.step msecsSinceReference hids _
  have hnew : peer kMaxEntries ∉ w.resolver.order := by
    rw [horder, List.mem_map]
    rintro ⟨i, hi, heq⟩
    exact (List.mem_range.mp hi).ne (peer_injective heq)
  have horder' : (w.step msecsSinceReference lookupId (prime (peer kMaxEntries))).resolver.order =
      ((List.range (kMaxEntries + 1)).map peer).drop 128 := by
    refine ((h.filed msecsSinceReference _ rfl).of_full hnew (by simp [horder])).trans ?_
    rw [horder, List.range_succ, List.map_append]
    rfl
  have hgone : peer 0 ∉ ((List.range (kMaxEntries + 1)).map peer).drop 128 := by
    rw [List.mem_drop_iff_getElem]
    rintro ⟨j, hj, heq⟩
    rw [List.getElem_map, List.getElem_range] at heq
    exact absurd (peer_injective heq) (by omega)
  have hkept : peer 200 ∈ ((List.range (kMaxEntries + 1)).map peer).drop 128 := by
    rw [List.mem_drop_iff_getElem]
    exact ⟨72, by simp [kMaxEntries], by simp⟩
  have hcached : peer 0 ∈ w.resolver.cache := by
    rw [← h.kept.orders.mem_iff, horder]
    exact List.mem_map_of_mem (List.mem_range.mpr (by decide))
  have hlast : ∀ i, i ≠ kMaxEntries →
      (w.step msecsSinceReference lookupId (prime (peer kMaxEntries))).lastStore (peer i) =
        w.lastStore (peer i) := fun i hi =>
    Function.update_of_ne (fun e => hi (peer_injective e)) _ _
  rw [← horder', h'.kept.orders.mem_iff] at hgone hkept
  have hle := hevicts nofun (peer 0) (.inl hcached) hgone (peer 200) hkept
  rw [hlast 0 (by decide), hlast 200 (by decide), hfirst, hother] at hle
  exact absurd hle (by decide)

end

/-- **An address goes that has just been stored.** -/
theorem refreshed_evicted :
    ¬ ∀ es pre e, pre ++ [e] <+: es →
      EvictsOldest Int.ofNat Int.ofNat (World.run Int.ofNat Int.ofNat pre) e := by
  intro hall
  have hids : Function.Injective Int.ofNat := fun _ _ => Int.ofNat.inj
  have hnodup : (({} : World).resolver.order ++ (List.range kMaxEntries).map peer).Nodup := by
    rw [List.nil_append]
    exact List.nodup_range.map peer_injective
  obtain ⟨horder, hnow, -⟩ := Bookkept.fill Int.ofNat hids
    ((List.range kMaxEntries).map peer) bookkept_empty hnodup (by simp)
  rw [List.nil_append] at horder
  have hfull := bookkept_run Int.ofNat hids
    (((List.range kMaxEntries).map peer).map prime)
  rw [World.run] at hfull
  obtain ⟨horder', hfirst, hother⟩ := hfull.refresh Int.ofNat horder hnow
  have hrefreshed := hfull.step Int.ofNat hids
    ⟨1, .store (peer 0) "gateway".toList false⟩
  refine hrefreshed.not_evictsOldest Int.ofNat hids horder' hfirst hother ?_
  have hevicts := hall _ refreshing (prime (peer kMaxEntries)) (List.prefix_refl _)
  rw [World.run, refreshing, List.foldl_append] at hevicts
  exact hevicts

end Qiftop.Dns
