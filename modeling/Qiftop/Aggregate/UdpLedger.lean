import Qiftop.Aggregate.UdpMonotone

/-!
# Aggregate — UDP totals against a ledger

What an aggregate *should* count is said by a ledger kept beside the run (`Book`): for every member
flow seen since the aggregate's row appeared, each counter's latest value, and the sum of its
values before each decrease.  The ledger never forgets a member while the row is there and treats
each counter on its own.

The aggregator keeps less.  It forgets a member when it expires, it decides on a reset from the two
byte counters only, and then retires all four.  So its totals are the ledger's as long as a known
member flow either moves forward in every counter while it is remembered, or falls back in every
counter (`CountsOnce`): `udp_counted_once`.  Elsewhere they are not: `udp_counted_twice`.
-/

namespace Qiftop.Aggregate
open Qt Lib Backend Heuristics

/-! ### The ledger -/

/-- What one member flow has sent and received. -/
structure Account where
  latest : Counter → UInt64 := fun _ => 0
  retired : Counter → ℕ := fun _ => 0

namespace Account

/-- The flow is seen again: a counter that decreased retires its last value. -/
def observe (acc : Account) (c : Connection) : Account where
  latest q := q.ofConnection c
  retired q := acc.retired q +
    if q.ofConnection c < acc.latest q then (acc.latest q).toNat else 0

/-- The flow's total: last values before each decrease, plus the latest. -/
def total (q : Counter) (acc : Account) : ℕ := acc.retired q + (acc.latest q).toNat

theorem total_observe (q : Counter) (acc : Account) (c : Connection) :
    (acc.observe c).total q = acc.retired q +
      (if q.ofConnection c < acc.latest q then (acc.latest q).toNat else 0) +
      (q.ofConnection c).toNat := rfl

/-- A counter that fell back adds to the total. -/
theorem total_observe_of_back {q : Counter} {acc : Account} {c : Connection}
    (h : q.ofConnection c < acc.latest q ∨ acc.latest q = 0) :
    (acc.observe c).total q = acc.total q + (q.ofConnection c).toNat := by
  rw [total_observe, total]
  rcases h with hlt | hz
  · rw [if_pos hlt]
  · simp [hz]

/-- A counter that moved forward replaces its last value. -/
theorem total_observe_of_forward {q : Counter} {acc : Account} {c : Connection}
    (h : acc.latest q ≤ q.ofConnection c) :
    (acc.observe c).total q = acc.retired q + (q.ofConnection c).toNat := by
  rw [total_observe, if_neg (UInt64.not_lt.mpr h), Nat.add_zero]

/-- No observation lowers the total. -/
theorem total_le_total_observe (q : Counter) (acc : Account) (c : Connection) :
    acc.total q ≤ (acc.observe c).total q := by
  by_cases h : q.ofConnection c < acc.latest q
  · rw [total_observe_of_back (.inl h)]
    exact Nat.le_add_right _ _
  · have h' : acc.latest q ≤ q.ofConnection c := UInt64.not_lt.mp h
    rw [total_observe_of_forward h', total]
    exact Nat.add_le_add_left (UInt64.le_iff_toNat_le.mp h') _

end Account

/-- The accounts of each aggregate's member flows. -/
abbrev Book := QString → Hash QString Account

/-- An aggregate's total over its accounts. -/
def Book.total (b : Book) (q : Counter) (a : QString) : ℕ := Hash.sum (Account.total q) (b a)

/-- An aggregator with its ledger. -/
structure Booked (F : Type) where
  agg : Aggregator F
  book : Book

section Spec
variable {F : Type} [Double F]

/-- A snapshot enters the ledger; aggregates whose row is gone are closed. -/
def Book.enter (b : Book) (s : Aggregator F) (nowMs : Int) (conns : List Connection) : Book :=
  fun a =>
    if a ∈ (s.updateConnections nowMs conns).rows.map Row.key then
      Hash.upsertAll Connection.key Account.observe {} (s.group conns a) (b a)
    else ∅

def Booked.step (b : Booked F) (op : Op) : Booked F where
  agg := op.apply b.agg
  book := match op with
    | .updateConnections nowMs conns => b.book.enter b.agg nowMs conns
    | _ => b.book

/-- A run from construction, with its ledger. -/
def bookedRun (range : UInt16 × UInt16) (ops : List Op) : Booked F :=
  ops.foldl Booked.step ⟨Aggregator.init range, fun _ => ∅⟩

theorem bookedRun_concat (range : UInt16 × UInt16) (ops : List Op) (op : Op) :
    bookedRun (F := F) range (ops ++ [op]) = (bookedRun range ops).step op := by
  simp [bookedRun]

/-! ### When the aggregator agrees -/

/-- A known flow the aggregate still remembers, whose byte counters have not decreased, has no
decreased counter; any other known flow has decreased in every counter that was not zero. -/
def Account.Consistent (acc : Account) (m : Option UdpAggMember) (c : Connection) : Prop :=
  if m = none ∨ c.rxBytes < acc.latest .rxBytes ∨ c.txBytes < acc.latest .txBytes then
    ∀ q : Counter, q.ofConnection c < acc.latest q ∨ acc.latest q = 0
  else ∀ q : Counter, acc.latest q ≤ q.ofConnection c

instance (acc : Account) (m : Option UdpAggMember) (c : Connection) :
    Decidable (acc.Consistent m c) :=
  inferInstanceAs (Decidable (ite (m = none ∨ c.rxBytes < acc.latest .rxBytes ∨
    c.txBytes < acc.latest .txBytes) _ _))

/-- The snapshot has distinct keys, and each of its UDP flows is consistent with its account. -/
def CountsOnce (b : Booked F) : Op → Prop
  | .updateConnections _ conns =>
      ((conns.map b.agg.direct).map Connection.key).Nodup ∧
      ∀ c ∈ b.agg.aggregated conns, ∀ acc ∈ (b.book (udpPeer c).key).lookup c.key,
        acc.Consistent (((b.agg.udpAgg.lookup (udpPeer c).key).getD {}).members.lookup c.key) c
  | .setUdpAggregateByPeer v => v = true
  | _ => True

end Spec

/-! ### One aggregate, one snapshot -/

/-- The aggregate's totals are those of the accounts, and what it remembers of a member is the
account's latest value. -/
structure Agrees (st : UdpAggState) (h : Hash QString Account) : Prop where
  total_eq : ∀ q : Counter, q.total st = UInt64.ofNat (Hash.sum (Account.total q) h)
  latest_eq : ∀ k m, st.members.lookup k = some m →
    ∃ acc, h.lookup k = some acc ∧ ∀ q : Counter, acc.latest q = q.ofMember m

theorem agrees_empty : Agrees {} ∅ where
  total_eq q := by cases q <;> rfl
  latest_eq k m hm := by simp at hm

theorem ofNat_sum {α : Type} (g : α → ℕ) (l : List α) :
    UInt64.ofNat (l.map g).sum = (l.map fun a => UInt64.ofNat (g a)).sum := by
  induction l with
  | nil => rfl
  | cons a l ih => rw [List.map_cons, List.sum_cons, UInt64.ofNat_add, ih, List.map_cons,
      List.sum_cons]

namespace Agrees
variable {st : UdpAggState} {h : Hash QString Account} {nowMs retentionMs : Int}
  {cs : List Connection}

/-- The account of a connection, a new one if the flow is unknown. -/
def account (h : Hash QString Account) (c : Connection) : Account := (h.lookup c.key).getD {}

theorem consistent_account (hag : Agrees st h) {c : Connection}
    (hc : ∀ acc, h.lookup c.key = some acc → acc.Consistent (st.members.lookup c.key) c) :
    (account h c).Consistent (st.members.lookup c.key) c := by
  unfold account
  cases hl : h.lookup c.key with
  | some acc => exact hc acc hl
  | none =>
      have hm : st.members.lookup c.key = none := by
        by_contra hm
        obtain ⟨m, hm⟩ := Option.ne_none_iff_exists'.mp hm
        obtain ⟨acc, hacc, -⟩ := hag.latest_eq c.key m hm
        rw [hl] at hacc
        cases hacc
      rw [hm, Account.Consistent, if_pos (.inl rfl)]
      exact fun q => .inr rfl

/-- **A consistent flow moves the totals as it moves its account.** -/
theorem observe_eq (hag : Agrees st h) {c : Connection}
    (hc : (account h c).Consistent (st.members.lookup c.key) c) (q : Counter) :
    q.ofConnection c + st.retired q c + UInt64.ofNat ((account h c).total q) =
      UInt64.ofNat (((account h c).observe c).total q) + q.ofMember (st.member c) := by
  -- in the account a counter that fell back retires its last value
  have hback : q.ofConnection c < (account h c).latest q ∨ (account h c).latest q = 0 →
      UInt64.ofNat (((account h c).observe c).total q) =
        q.ofConnection c + UInt64.ofNat ((account h c).total q) := by
    intro hq
    rw [Account.total_observe_of_back hq, UInt64.ofNat_add, UInt64.ofNat_toNat, add_comm]
  cases hm : st.members.lookup c.key with
  | none =>
      rw [hm, Account.Consistent, if_pos (.inl rfl)] at hc
      have hmem : st.member c = {} := by rw [UdpAggState.member, hm]; rfl
      have hret : st.retired q c = 0 := by
        unfold UdpAggState.retired
        split
        · rw [hmem, Counter.ofMember_default]
        · rfl
      rw [hback (hc q), hret, hmem, Counter.ofMember_default, add_zero, add_zero]
  | some m =>
      have hmem : st.member c = m := by rw [UdpAggState.member, hm]; rfl
      have hlat : ∀ q : Counter, (account h c).latest q = q.ofMember m := by
        obtain ⟨acc, hacc, hq⟩ := hag.latest_eq c.key m hm
        rw [account, hacc]
        exact hq
      have hiff : (some m = none ∨ c.rxBytes < (account h c).latest .rxBytes ∨
          c.txBytes < (account h c).latest .txBytes) ↔ UdpAggState.Resets m c := by
        rw [hlat, hlat]
        exact ⟨fun h' => h'.resolve_left (Option.some_ne_none m), .inr⟩
      rw [hm, Account.Consistent] at hc
      rw [UdpAggState.retired, hmem]
      by_cases hr : UdpAggState.Resets m c
      · rw [if_pos (hiff.mpr hr)] at hc
        rw [if_pos hr, hback (hc q)]
        ac_rfl
      · rw [if_neg (mt hiff.mp hr)] at hc
        rw [if_neg hr, add_zero, Account.total_observe_of_forward (hc q), Account.total,
          UInt64.ofNat_add, UInt64.ofNat_add, UInt64.ofNat_toNat, UInt64.ofNat_toNat, hlat]
        ac_rfl

/-- The accounts after a snapshot's connections. -/
theorem total_accounts (q : Counter) (h : Hash QString Account)
    (hnd : (cs.map Connection.key).Nodup) :
    Hash.sum (Account.total q) (Hash.upsertAll Connection.key Account.observe {} cs h) +
        (cs.map fun c => (account h c).total q).sum =
      Hash.sum (Account.total q) h + (cs.map fun c => ((account h c).observe c).total q).sum := by
  have hins := Hash.sum_insertAll (Account.total q)
    (v := fun c => (account h c).observe c) hnd h
  have hat : ∀ c : Connection,
      Hash.at' (Account.total q) h c.key = (account h c).total q := by
    intro c
    unfold Hash.at' account
    cases h.lookup c.key with
    | none => rfl
    | some acc => rfl
  simp only [hat] at hins
  rw [Hash.upsertAll_eq_insertAll hnd]
  exact hins

/-- **Consistent connections keep the agreement.** -/
theorem observeAll (hag : Agrees st h) (nowMs : Int) (hnd : (cs.map Connection.key).Nodup)
    (hcs : ∀ c ∈ cs, ∀ acc, h.lookup c.key = some acc →
      acc.Consistent (st.members.lookup c.key) c) :
    Agrees (st.observeAll nowMs cs) (Hash.upsertAll Connection.key Account.observe {} cs h) where
  total_eq q := by
    have hst := UdpAggState.total_observeAll q nowMs st hnd
    have hacc := congrArg UInt64.ofNat (total_accounts q h hnd)
    rw [UInt64.ofNat_add, UInt64.ofNat_add, ofNat_sum, ofNat_sum, ← hag.total_eq q] at hacc
    have hsum : (cs.map fun c => q.ofConnection c + st.retired q c).sum +
        (cs.map fun c => UInt64.ofNat ((account h c).total q)).sum =
        (cs.map fun c => UInt64.ofNat (((account h c).observe c).total q)).sum +
          (cs.map fun c => q.ofMember (st.member c)).sum := by
      rw [← List.sum_map_add, ← List.sum_map_add]
      exact congrArg List.sum (List.map_congr_left fun c hc =>
        hag.observe_eq (hag.consistent_account (hcs c hc)) q)
    refine add_right_cancel (b := (cs.map fun c => q.ofMember (st.member c)).sum +
      (cs.map fun c => UInt64.ofNat ((account h c).total q)).sum) ?_
    calc _ = (q.total (st.observeAll nowMs cs) + (cs.map fun c => q.ofMember (st.member c)).sum) +
          (cs.map fun c => UInt64.ofNat ((account h c).total q)).sum := by rw [add_assoc]
      _ = (q.total st + (cs.map fun c => UInt64.ofNat (((account h c).observe c).total q)).sum) +
          (cs.map fun c => q.ofMember (st.member c)).sum := by
            rw [hst, add_assoc, hsum, ← add_assoc]
      _ = _ := by rw [← hacc]; ac_rfl
  latest_eq k m hm := by
    rw [UdpAggState.members_observeAll] at hm
    rw [Hash.upsertAll_eq_insertAll hnd]
    by_cases hk : k ∈ cs.map Connection.key
    · obtain ⟨c, hc, rfl⟩ := List.mem_map.mp hk
      rw [Hash.lookup_insertAll_of_mem hnd hc, Option.some.injEq] at hm
      refine ⟨_, Hash.lookup_insertAll_of_mem hnd hc, fun q => ?_⟩
      rw [← hm, Counter.ofMember_seen]
      rfl
    · rw [Hash.lookup_insertAll_of_notMem hk] at hm
      rw [Hash.lookup_insertAll_of_notMem hk]
      exact hag.latest_eq k m hm

/-- Expiry keeps the agreement: it only forgets members. -/
theorem expireMembers (hag : Agrees st h) (nowMs retentionMs : Int) :
    Agrees (st.expireMembers nowMs retentionMs) h where
  total_eq q := by rw [UdpAggState.total_expireMembers, hag.total_eq]
  latest_eq k m hm := by
    rw [UdpAggState.lookup_members_expireMembers, Option.bind_eq_some_iff] at hm
    obtain ⟨m', hm', he⟩ := hm
    split at he
    · cases he
    · obtain rfl := Option.some.inj he
      exact hag.latest_eq k m' hm'

end Agrees

/-! ### Runs -/

section Run
variable {F : Type} [Double F]

/-- Aggregates and accounts agree. -/
structure BookInv (b : Booked F) : Prop where
  udp : UdpInv b.agg
  agrees : ∀ a, Agrees ((b.agg.udpAgg.lookup a).getD {}) (b.book a)

omit [Double F] in
/-- A kept aggregate is the one that observed the snapshot's flows, less its expired members. -/
theorem observeAll_of_lookup_nextUdpAgg {s : Aggregator F} (hon : s.udpAggregateByPeer = true)
    {nowMs : Int} {conns : List Connection} {a : QString} {st : UdpAggState}
    (h : (s.nextUdpAgg nowMs conns).lookup a = some st) :
    st = (((s.udpAgg.lookup a).getD {}).observeAll nowMs (s.group conns a)).expireMembers nowMs
      s.staleRetentionMsUdp := by
  rw [Aggregator.lookup_nextUdpAgg hon, Option.bind_eq_some_iff] at h
  obtain ⟨st', hst', he⟩ := h
  have hobs : ((s.udpAgg.lookup a).getD {}).observeAll nowMs (s.group conns a) = st' := by
    split at hst'
    · next hnil =>
      rw [hnil, hst']
      rfl
    · exact Option.some.inj hst'
  split at he
  · cases he
  · rw [hobs, Option.some.inj he]

/-- A row without an aggregate is not an aggregate row, so its key has none and gets no flow. -/
theorem direct_of_row {s : Aggregator F} (h : UdpInv s) {nowMs : Int} {conns : List Connection}
    {a : QString} (hnone : (s.nextUdpAgg nowMs conns).lookup a = none)
    (hrow : a ∈ (s.updateConnections nowMs conns).rows.map Row.key) :
    s.group conns a = [] ∧ s.udpAgg.lookup a = none := by
  obtain ⟨r', hr', hk'⟩ := List.mem_map.mp hrow
  have hna : ¬ r'.isAggregate := fun ha => by
    obtain ⟨st, hst, -⟩ := (h.updateConnections nowMs conns).row_state r' hr' ha
    rw [hk'] at hst
    exact absurd (hnone.symm.trans hst) (nomatch ·)
  constructor
  · by_contra hg
    rw [Aggregator.lookup_nextUdpAgg_of_group _ h.udpAggregateByPeer_eq
      h.staleRetentionMsUdp_nonneg hg] at hnone
    cases hnone
  · by_contra hold
    obtain ⟨r, -, hk, ha⟩ := h.state_row a (AList.lookup_isSome.mp
      (Option.isSome_iff_ne_none.mpr hold))
    exact hna ((passesThrough_congr (hk'.trans hk.symm)).trans ha)

/-- A snapshot of consistent flows keeps the agreement. -/
theorem BookInv.updateConnections {b : Booked F} (h : BookInv b) {nowMs : Int}
    {conns : List Connection} (hop : CountsOnce b (.updateConnections nowMs conns)) :
    BookInv (b.step (.updateConnections nowMs conns)) := by
  obtain ⟨hnd, hcons⟩ := hop
  have hudp : UdpInv (b.agg.updateConnections nowMs conns) := h.udp.updateConnections nowMs conns
  refine ⟨hudp, fun a => ?_⟩
  have hagree : Agrees (((b.agg.udpAgg.lookup a).getD {}).observeAll nowMs (b.agg.group conns a))
      (Hash.upsertAll Connection.key Account.observe {} (b.agg.group conns a) (b.book a)) :=
    (h.agrees a).observeAll nowMs (Aggregator.nodup_group hnd a) fun c hc acc hacc => by
      obtain ⟨hm, hp, rfl⟩ := Aggregator.mem_group.mp hc
      exact hcons c (List.mem_filter.mpr ⟨hm, by simp [hp]⟩) acc hacc
  change Agrees (((b.agg.nextUdpAgg nowMs conns).lookup a).getD {})
    (b.book.enter b.agg nowMs conns a)
  unfold Book.enter
  cases hl : (b.agg.nextUdpAgg nowMs conns).lookup a with
  | some st' =>
      obtain ⟨r, hr, hk, -⟩ := hudp.state_row a (Hash.mem_of_lookup hl)
      rw [if_pos (List.mem_map.mpr ⟨r, hr, hk⟩), Option.getD_some,
        observeAll_of_lookup_nextUdpAgg h.udp.udpAggregateByPeer_eq hl]
      exact hagree.expireMembers _ _
  | none =>
      by_cases hrow : a ∈ (b.agg.updateConnections nowMs conns).rows.map Row.key
      · -- a row that aggregates nothing never had an account
        obtain ⟨hg, hold⟩ := direct_of_row h.udp hl hrow
        have hag := h.agrees a
        rw [hold] at hag
        rw [if_pos hrow, hg]
        exact hag
      · rw [if_neg hrow]
        exact agrees_empty

/-- **One call keeps the agreement**, given that it counts once. -/
theorem BookInv.step {b : Booked F} (h : BookInv b) {op : Op} (hop : CountsOnce b op) :
    BookInv (b.step op) := by
  rcases op.cases_poll with ⟨nowMs, conns, rfl⟩ | hpoll
  · exact h.updateConnections hop
  · have hon : op ≠ .setUdpAggregateByPeer false := by
      rintro rfl
      cases hop
    refine ⟨h.udp.step hon, fun a => ?_⟩
    have hbook : (b.step op).book = b.book := by
      cases op with
      | updateConnections nowMs conns => exact absurd rfl (hpoll nowMs conns)
      | _ => rfl
    have hagg : (b.step op).agg.udpAgg = b.agg.udpAgg :=
      (op.udp_apply hpoll hon h.udp.udpAggregateByPeer_eq).2
    rw [hbook, hagg]
    exact h.agrees a

/-- In a run from construction, every call counts once. -/
def RunCountsOnce (F : Type) [Double F] (range : UInt16 × UInt16) (ops : List Op) : Prop :=
  ∀ pre op, pre ++ [op] <+: ops → CountsOnce (bookedRun (F := F) range pre) op

theorem runCountsOnce_nil (range : UInt16 × UInt16) : RunCountsOnce F range [] := by
  intro pre op hp
  simp at hp

theorem runCountsOnce_concat {range : UInt16 × UInt16} {ops : List Op} {op : Op} :
    RunCountsOnce F range (ops ++ [op]) ↔
      RunCountsOnce F range ops ∧ CountsOnce (bookedRun (F := F) range ops) op := by
  constructor
  · intro h
    exact ⟨fun pre o hp => h pre o (hp.trans (List.prefix_append ops [op])),
      h ops op (List.prefix_refl _)⟩
  · rintro ⟨hops, hop⟩ pre o hp
    rcases List.prefix_concat_iff.mp hp with he | hp'
    · obtain ⟨rfl, he'⟩ := List.append_inj' he rfl
      obtain rfl : o = op := by simpa using he'
      exact hop
    · exact hops pre o hp'

theorem bookInv_run {range : UInt16 × UInt16} {ops : List Op} (h : RunCountsOnce F range ops) :
    BookInv (bookedRun (F := F) range ops) := by
  induction ops using List.reverseRecOn with
  | nil => exact ⟨@udpInv_run F _ range [] (by simp), fun a => agrees_empty⟩
  | append_singleton ops op ih =>
      obtain ⟨hops, hop⟩ := runCountsOnce_concat.mp h
      rw [bookedRun_concat]
      exact (ih hops).step hop

/-- The ledger's totals do not go down while the row is there. -/
theorem book_total_le {b : Booked F} {op : Op} (hop : CountsOnce b op) (q : Counter) {a : QString}
    (ha : a ∈ (b.step op).agg.rows.map Row.key) :
    b.book.total q a ≤ (b.step op).book.total q a := by
  rcases op.cases_poll with ⟨nowMs, conns, rfl⟩ | hpoll
  · have hbook : (b.step (.updateConnections nowMs conns)).book a =
        Hash.upsertAll Connection.key Account.observe {} (b.agg.group conns a) (b.book a) :=
      if_pos ha
    have hsum := Agrees.total_accounts q (b.book a) (Aggregator.nodup_group hop.1 a)
    have hle : ((b.agg.group conns a).map fun c => (Agrees.account (b.book a) c).total q).sum ≤
        ((b.agg.group conns a).map fun c =>
          ((Agrees.account (b.book a) c).observe c).total q).sum :=
      List.sum_le_sum fun c _ => Account.total_le_total_observe q _ c
    rw [Book.total, Book.total, hbook]
    omega
  · have hbook : (b.step op).book = b.book := by
      cases op with
      | updateConnections nowMs conns => exact absurd rfl (hpoll nowMs conns)
      | _ => rfl
    rw [hbook]

/-- **UDP totals count every byte and packet once**, in every run whose calls all count once: each
aggregate row shows the ledger's totals, and while these fit the counters no total goes down from
one call to the next. -/
theorem udp_counted_once (range : UInt16 × UInt16) (ops : List Op)
    (h : RunCountsOnce F range ops) :
    (∀ r ∈ (bookedRun (F := F) range ops).agg.rows, r.isAggregate → ∀ q : Counter,
      q.ofConnection r.current =
        UInt64.ofNat ((bookedRun (F := F) range ops).book.total q r.key)) ∧
    ∀ pre op, pre ++ [op] <+: ops →
      ∀ r ∈ (bookedRun (F := F) range pre).agg.rows,
      ∀ r' ∈ (bookedRun (F := F) range (pre ++ [op])).agg.rows,
      r.isAggregate → r'.key = r.key → ∀ q : Counter,
      (bookedRun (F := F) range (pre ++ [op])).book.total q r.key < 2 ^ 64 →
        q.ofConnection r.current ≤ q.ofConnection r'.current := by
  have shows : ∀ ops', RunCountsOnce F range ops' →
      ∀ r ∈ (bookedRun (F := F) range ops').agg.rows, r.isAggregate → ∀ q : Counter,
      q.ofConnection r.current =
        UInt64.ofNat ((bookedRun (F := F) range ops').book.total q r.key) := by
    intro ops' h' r hr ha q
    have hinv := bookInv_run h'
    obtain ⟨st, hst, -, hq⟩ := hinv.udp.row_state r hr ha
    have hag := (hinv.agrees r.key).total_eq q
    rw [hst, Option.getD_some] at hag
    rw [hq q, hag]
    rfl
  refine ⟨shows ops h, fun pre op hpre r hr r' hr' ha hk q hlt => ?_⟩
  have hrun : RunCountsOnce F range (pre ++ [op]) := fun p o hp => h p o (hp.trans hpre)
  obtain ⟨hrun', hop⟩ := runCountsOnce_concat.mp hrun
  have ha' : r'.isAggregate := (passesThrough_congr hk).trans ha
  have hle : (bookedRun (F := F) range pre).book.total q r.key ≤
      (bookedRun (F := F) range (pre ++ [op])).book.total q r.key := by
    rw [bookedRun_concat] at hr' ⊢
    exact book_total_le hop q (List.mem_map.mpr ⟨r', hr', hk⟩)
  rw [shows pre hrun' r hr ha q, shows _ hrun r' hr' ha' q, hk, UInt64.le_iff_toNat_le,
    UInt64.toNat_ofNat_of_lt' hlt, UInt64.toNat_ofNat_of_lt' (hle.trans_lt hlt)]
  exact hle

end Run

/-- A flow whose counters all fell back to a fresh start. -/
theorem udp_counted_once_reset :
    let ops := [Op.updateConnections 1000 [dnsFlow 40000 100 50],
      Op.updateConnections 2000 [dnsFlow 40000 10 5]]
    let b := bookedRun (F := ℚ) (32768, 60999) ops
    b.agg.rows.map (·.current.rxBytes) = [110] ∧
      ∀ r ∈ b.agg.rows, r.isAggregate → ∀ q : Counter,
        q.ofConnection r.current = UInt64.ofNat (b.book.total q r.key) := by
  refine ⟨by decide +kernel, (udp_counted_once (32768, 60999) ([] ++ [_] ++ [_]) ?_).1⟩
  refine runCountsOnce_concat.mpr ⟨runCountsOnce_concat.mpr ⟨runCountsOnce_nil _, ?_⟩, ?_⟩
  · exact ⟨by decide +kernel, by decide +kernel⟩
  · exact ⟨by decide +kernel, by decide +kernel⟩

/-- Flows with known directions keep them, so their keys are distinct if they are on the wire. -/
theorem distinctKeys_of_known {F : Type} (s : Aggregator F) (nowMs : Int)
    {conns : List Connection} (hd : ∀ c ∈ conns, c.direction ≠ .Unknown)
    (hnd : (conns.map Connection.key).Nodup) :
    DistinctKeys s (.updateConnections nowMs conns) := by
  have hdirect : conns.map s.direct = conns := by
    conv_rhs => rw [← List.map_id conns]
    exact List.map_congr_left fun c hc => if_pos (hd c hc)
  rw [DistinctKeys, hdirect]
  exact hnd

/-- One of two flows to a name server is away for more than a minute. -/
def awayTooLong : List Op :=
  [.updateConnections 1000 [dnsFlow 40000 100 50, dnsFlow 40001 1 1],
    .updateConnections 70000 [dnsFlow 40001 1 1],
    .updateConnections 71000 [dnsFlow 40000 100 50, dnsFlow 40001 1 1]]

/-- **Not every run counts once.**  One flow of a peer stays away for longer than the retention
while another keeps the aggregate alive; when it returns with its old counters they are counted
again. -/
theorem udp_counted_twice :
    ¬ ∀ (range : UInt16 × UInt16) (ops : List Op),
      (∀ op ∈ ops, op ≠ .setUdpAggregateByPeer false) →
      (∀ pre op, pre ++ [op] <+: ops → DistinctKeys (run (F := ℚ) range pre).agg op) →
      ∀ r ∈ (bookedRun (F := ℚ) range ops).agg.rows, r.isAggregate → ∀ q : Counter,
        q.ofConnection r.current =
          UInt64.ofNat ((bookedRun (F := ℚ) range ops).book.total q r.key) := by
  intro h
  have hkeys : ∀ op ∈ awayTooLong, ∃ nowMs conns, op = .updateConnections nowMs conns ∧
      (∀ c ∈ conns, c.direction ≠ .Unknown) ∧ (conns.map Connection.key).Nodup := by
    simp only [awayTooLong, List.forall_mem_cons]
    refine ⟨⟨_, _, rfl, ?_⟩, ⟨_, _, rfl, ?_⟩, ⟨_, _, rfl, ?_⟩, by simp⟩
    all_goals decide +kernel
  have hrun := h (32768, 60999) awayTooLong
    (fun op hop => by obtain ⟨_, _, rfl, -⟩ := hkeys op hop; simp)
    (fun pre op hp => by
      obtain ⟨nowMs, conns, rfl, hd, hnd⟩ := hkeys op (hp.subset (by simp))
      exact distinctKeys_of_known _ nowMs hd hnd)
  revert hrun
  decide +kernel

end Qiftop.Aggregate
