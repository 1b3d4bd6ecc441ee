import Mathlib.Data.UInt
import Qiftop.Lib.KeyOrder
import Qiftop.Lib.Run

/-!
# Backend — the cache of the conntrack monitor

`LruCache` of `backend/linux/ConntrackMonitor.cpp`: a hash of values and a list of its keys, the one
used last in front.  Each entry of the hash has an iterator to its key's node of the list, and moves the
node through it.

An iterator is the number of a node, given out by a counter; splicing a node keeps its number.  The
bound is a `size_t`, compared as a signed number: from 2⁶³ on it is below zero, so that what is inserted
is evicted at once.

`lru_sound`: after any operations list and hash have the same keys, every entry has its own node, the
bound holds, and what an operation evicts was used before all that stays.
-/

namespace Qiftop.Backend
open Lib

/-- A node of the list, by its number. -/
structure Node (K : Type) where
  id : ℕ
  key : K
  deriving DecidableEq, Repr

structure LruCache.Entry (V : Type) where
  value : V
  recentIt : ℕ
  deriving DecidableEq, Repr

structure LruCache (K V : Type) where
  maxEntries : UInt64
  recent : List (Node K) := []
  items : Hash K (LruCache.Entry V) := ∅
  nextId : ℕ := 0

namespace LruCache
variable {K V : Type} [DecidableEq K]

/-- `splice` of one node to the front. -/
def splice (l : List (Node K)) (it : ℕ) : List (Node K) :=
  match l.find? (·.id = it) with
  | some n => n :: l.eraseP (·.id = it)
  | none => l

def touch (c : LruCache K V) (entry : Entry V) : LruCache K V :=
  { c with recent := splice c.recent entry.recentIt }

def find (c : LruCache K V) (key : K) : LruCache K V × Option V :=
  match c.items.lookup key with
  | none => (c, none)
  | some entry => (c.touch entry, some entry.value)

def evictLeastRecent (c : LruCache K V) : LruCache K V :=
  match c.recent.getLast? with
  | none => c
  | some last => { c with items := c.items.erase last.key, recent := c.recent.dropLast }

/-- `m_items.size()`. -/
def size (c : LruCache K V) : ℕ := c.items.keys.length

/-- `qsizetype(m_maxEntries)`. -/
def limit (c : LruCache K V) : Int := c.maxEntries.toInt64.toInt

/-- A new entry, without regard to the bound. -/
def push (c : LruCache K V) (key : K) (value : V) : LruCache K V :=
  { c with
    recent := ⟨c.nextId, key⟩ :: c.recent
    items := c.items.insert key ⟨value, c.nextId⟩
    nextId := c.nextId + 1 }

def insert (c : LruCache K V) (key : K) (value : V) : LruCache K V :=
  match c.items.lookup key with
  | some entry =>
      { c with items := c.items.insert key { entry with value } }.touch { entry with value }
  | none =>
      if c.maxEntries = 0 then c
      else
        let c := c.push key value
        if c.size > c.limit then c.evictLeastRecent else c

/-! ### Operations -/

inductive Op (K V : Type) where
  | find (key : K)
  | insert (key : K) (value : V)

def Op.key : Op K V → K
  | .find key | .insert key _ => key

def step (c : LruCache K V) : Op K V → LruCache K V
  | .find key => (c.find key).1
  | .insert key value => c.insert key value

/-- An operation makes a key of the cache, or the one it inserts, go. -/
def Evicts (c : LruCache K V) (op : Op K V) (k : K) : Prop :=
  (k ∈ c.items ∨ ∃ value, op = .insert k value) ∧ k ∉ (c.step op).items

/-- The keys of the list. -/
def keys (c : LruCache K V) : List K := c.recent.map Node.key

/-- The number of the last operation on a key.  That is the last use of a key that is in the cache: a
lookup that misses comes before its insertion. -/
def lastUse (ops : List (Op K V)) : K → ℕ := Lib.lastUse (ops.map Op.key)

/-! ### The invariant -/

/-- List and hash belong together. -/
structure Linked (c : LruCache K V) : Prop where
  orders : Orders c.keys c.items
  /-- No two nodes have one number. -/
  ids : (c.recent.map Node.id).Nodup
  /-- The numbers have been given out. -/
  given : ∀ n ∈ c.recent, n.id < c.nextId
  /-- An entry's iterator is at the node of its key. -/
  own : ∀ k entry, c.items.lookup k = some entry → ⟨entry.recentIt, k⟩ ∈ c.recent

structure Sound (c : LruCache K V) : Prop extends Linked c where
  bounded : c.size ≤ c.maxEntries.toNat

/-- The list has the keys in the order of their last use, the newest in front. -/
def Recent (uses : K → ℕ) (c : LruCache K V) : Prop := Stamped (· > ·) uses c.keys

theorem sound_empty (maxEntries : UInt64) : Sound (K := K) (V := V) { maxEntries } where
  orders := .empty
  ids := List.nodup_nil
  given _ hn := nomatch hn
  own _ _ h := nomatch h
  bounded := Nat.zero_le _

/-! ### Moving a node -/

omit [DecidableEq K] in
/-- Where numbers are distinct, the node with the number goes to the front. -/
theorem splice_append {before after : List (Node K)} {n : Node K}
    (hids : ((before ++ n :: after).map Node.id).Nodup) :
    splice (before ++ n :: after) n.id = n :: (before ++ after) := by
  have hbefore : ∀ m ∈ before, ¬ decide (m.id = n.id) = true := by
    intro m hm hid
    rw [List.map_append, List.map_cons, List.nodup_append] at hids
    exact hids.2.2 m.id (List.mem_map_of_mem hm) n.id (by simp) (of_decide_eq_true hid)
  have hfind : (before ++ n :: after).find? (·.id = n.id) = some n := by
    rw [List.find?_append, List.find?_eq_none.mpr hbefore]
    simp
  rw [splice, hfind]
  dsimp only
  rw [List.eraseP_append_right _ hbefore]
  simp

variable {c : LruCache K V} {k : K} {entry : Entry V}

/-- A node moved to the front: its key comes first. -/
theorem Linked.touch (h : Linked c) (hentry : c.items.lookup k = some entry) :
    Linked (c.touch entry) ∧ (c.touch entry).keys = k :: c.keys.erase k := by
  obtain ⟨before, after, hsplit⟩ := List.append_of_mem (h.own k entry hentry)
  have hids := h.ids
  rw [hsplit] at hids
  have hsplice : (c.touch entry).recent = ⟨entry.recentIt, k⟩ :: (before ++ after) := by
    rw [LruCache.touch, hsplit]
    exact splice_append hids
  have hperm : (c.touch entry).recent.Perm c.recent := by
    rw [hsplice, hsplit]
    exact List.perm_middle.symm
  have hkeys : c.keys = before.map Node.key ++ k :: after.map Node.key := by
    rw [keys, hsplit, List.map_append, List.map_cons]
  have hnodup := h.orders.nodup
  refine ⟨⟨h.orders.perm (hperm.map _), (hperm.map _).nodup_iff.mpr h.ids,
    fun n hn => h.given n (hperm.mem_iff.mp hn),
    fun k' entry' hk' => hperm.mem_iff.mpr (h.own k' entry' hk')⟩, ?_⟩
  rw [hkeys, List.nodup_append] at hnodup
  rw [keys, hsplice, hkeys, List.erase_append_right _ fun hk => hnodup.2.2 k hk k (by simp) rfl,
    List.erase_cons_head, List.map_cons, List.map_append]

/-- A value replaced. -/
theorem Linked.replace (h : Linked c) (hentry : c.items.lookup k = some entry) (value : V) :
    Linked { c with items := c.items.insert k { entry with value } } where
  orders := h.orders.insert_of_mem (Hash.mem_of_lookup hentry) _
  ids := h.ids
  given := h.given
  own k' entry' hk' := by
    dsimp only at hk'
    rw [Hash.lookup_insert_ite] at hk'
    split at hk'
    · rename_i heq
      cases hk'
      rw [heq]
      exact h.own k entry hentry
    · exact h.own k' entry' hk'

/-! ### A new node -/

theorem Linked.push (h : Linked c) (hk : k ∉ c.items) (value : V) : Linked (c.push k value) where
  orders := h.orders.cons hk _
  ids := by
    refine List.nodup_cons.mpr ⟨fun hmem => ?_, h.ids⟩
    obtain ⟨n, hn, hid⟩ := List.mem_map.mp hmem
    exact (h.given n hn).ne hid
  given n hn := by
    rcases List.mem_cons.mp hn with rfl | hn
    · exact Nat.lt_succ_self _
    · exact (h.given n hn).trans (Nat.lt_succ_self _)
  own k' entry' hk' := by
    change (c.items.insert k _).lookup k' = _ at hk'
    rw [Hash.lookup_insert_ite] at hk'
    split at hk'
    · rename_i heq
      cases hk'
      rw [heq]
      exact List.mem_cons_self
    · exact List.mem_cons_of_mem _ (h.own k' entry' hk')

theorem maxEntries_evictLeastRecent (c : LruCache K V) :
    c.evictLeastRecent.maxEntries = c.maxEntries := by
  unfold LruCache.evictLeastRecent
  split <;> rfl

/-- The last node goes, with its entry. -/
theorem Linked.evictLeastRecent (h : Linked c) {front : List (Node K)} {last : Node K}
    (hrecent : c.recent = front ++ [last]) :
    Linked c.evictLeastRecent ∧ c.evictLeastRecent.recent = front := by
  have hevict : c.evictLeastRecent =
      { c with items := c.items.erase last.key, recent := front } := by
    rw [LruCache.evictLeastRecent, hrecent, List.getLast?_concat, List.dropLast_concat]
  have horders := h.orders
  have hids := h.ids
  rw [keys, hrecent, List.map_append, List.map_singleton] at horders
  rw [hrecent, List.map_append] at hids
  rw [hevict]
  refine ⟨⟨horders.dropLast, (List.nodup_append.mp hids).1, fun n hn => ?_, fun k' entry' hk' => ?_⟩,
    rfl⟩
  · exact h.given n (hrecent ▸ List.mem_append_left _ hn)
  · have hne : k' ≠ last.key := by
      rintro rfl
      rw [AList.lookup_erase] at hk'
      cases hk'
    rw [AList.lookup_erase_ne hne] at hk'
    have hmem := h.own k' entry' hk'
    rw [hrecent, List.mem_append, List.mem_singleton] at hmem
    exact hmem.resolve_right fun e => hne (congrArg Node.key e)

/-! ### One operation -/

/-- What an operation can do to the order of the keys. -/
inductive Moved (order : List K) : Op K V → List K → Prop where
  | miss {k : K} (hk : k ∉ order) : Moved order (.find k) order
  | off {k : K} {value : V} (hnil : order = []) : Moved order (.insert k value) []
  | hit {op : Op K V} (hk : op.key ∈ order) : Moved order op (op.key :: order.erase op.key)
  | new {k : K} {value : V} (hk : k ∉ order) : Moved order (.insert k value) (k :: order)
  | evict {k last : K} {value : V} {order' : List K} (hk : k ∉ order)
      (hlast : k :: order = order' ++ [last]) : Moved order (.insert k value) order'

omit [DecidableEq K] in
/-- The signed bound is no more than the bound. -/
theorem limit_le (c : LruCache K V) : c.limit ≤ c.maxEntries.toNat := by
  have hbits : c.limit = c.maxEntries.toBitVec.toInt := rfl
  have hnat : c.maxEntries.toBitVec.toNat = c.maxEntries.toNat := rfl
  rw [hbits, BitVec.toInt_eq_toNat_cond, hnat]
  split <;> omega

theorem Sound.keys_eq_nil (h : Sound c) (hmax : c.maxEntries = 0) : c.keys = [] := by
  have hbounded := h.bounded
  rw [hmax] at hbounded
  exact List.eq_nil_of_length_eq_zero (h.orders.length_eq.trans (Nat.le_zero.mp hbounded))

theorem Sound.find (h : Sound c) (k : K) :
    Sound (c.find k).1 ∧ Moved c.keys (Op.find (V := V) k) (c.find k).1.keys := by
  rw [LruCache.find]
  cases hk : c.items.lookup k with
  | none => exact ⟨h, .miss fun hmem => AList.lookup_eq_none.mp hk ((h.orders.mem_iff k).mp hmem)⟩
  | some entry =>
      obtain ⟨hlinked, hkeys⟩ := h.toLinked.touch hk
      have hkey : (Op.find (V := V) k).key ∈ c.keys := (h.orders.mem_iff k).mpr (Hash.mem_of_lookup hk)
      refine ⟨⟨hlinked, h.bounded⟩, ?_⟩
      dsimp only
      rw [hkeys]
      exact .hit hkey

theorem Sound.insert_of_mem (h : Sound c) (hk : c.items.lookup k = some entry) (value : V) :
    Sound (c.insert k value) ∧ Moved c.keys (.insert k value) (c.insert k value).keys := by
  have hmem := Hash.mem_of_lookup hk
  obtain ⟨hlinked, hkeys⟩ := (h.toLinked.replace hk value).touch (AList.lookup_insert _)
  have hsize := Hash.length_keys_insert c.items k { entry with value }
  rw [if_pos hmem] at hsize
  rw [LruCache.insert, hk]
  have hkey : (Op.insert k value).key ∈ c.keys := (h.orders.mem_iff k).mpr hmem
  refine ⟨⟨hlinked, hsize.le.trans h.bounded⟩, ?_⟩
  dsimp only
  rw [hkeys]
  exact .hit hkey

theorem Sound.insert_of_notMem (h : Sound c) (hk : k ∉ c.items) (value : V) :
    Sound (c.insert k value) ∧ Moved c.keys (.insert k value) (c.insert k value).keys := by
  have hlookup : c.items.lookup k = none := AList.lookup_eq_none.mpr hk
  have hnot : k ∉ c.keys := fun hmem => hk ((h.orders.mem_iff k).mp hmem)
  have hsize : (c.push k value).size = c.size + 1 :=
    (Hash.length_keys_insert c.items k _).trans (if_neg hk)
  rw [LruCache.insert, hlookup]
  dsimp only
  by_cases hmax : c.maxEntries = 0
  · rw [if_pos hmax]
    have hnil := h.keys_eq_nil hmax
    refine ⟨h, ?_⟩
    rw [hnil]
    exact .off rfl
  rw [if_neg hmax]
  have hlinked := h.toLinked.push hk value
  split
  · -- one key too many: the last node goes
    obtain ⟨front, last, hrecent⟩ := (List.eq_nil_or_concat' (c.push k value).recent).resolve_left
      (List.cons_ne_nil _ _)
    obtain ⟨hevicted, hfront⟩ := hlinked.evictLeastRecent hrecent
    have hkeys : k :: c.keys = front.map Node.key ++ [last.key] := by
      have hmap := congrArg (List.map Node.key) hrecent
      rwa [List.map_append, List.map_singleton] at hmap
    have hlength : (c.push k value).evictLeastRecent.size = c.size := by
      have hcount := congrArg List.length hkeys
      rw [List.length_cons, List.length_append, List.length_singleton, h.orders.length_eq] at hcount
      rw [size, ← hevicted.orders.length_eq, keys, hfront]
      exact (Nat.succ.inj hcount).symm
    refine ⟨⟨hevicted, ?_⟩, ?_⟩
    · rw [hlength, maxEntries_evictLeastRecent]
      exact h.bounded
    · have hkeys' : (c.push k value).evictLeastRecent.keys = front.map Node.key :=
        congrArg (List.map Node.key) hfront
      rw [hkeys']
      exact .evict hnot hkeys
  · rename_i hle
    have hlimit := limit_le c
    have hpush : (c.push k value).limit = c.limit := rfl
    refine ⟨⟨hlinked, ?_⟩, .new hnot⟩
    change (c.push k value).size ≤ c.maxEntries.toNat
    omega

/-- **One operation** keeps the cache sound, and moves the keys as `Moved` says. -/
theorem Sound.step (h : Sound c) (op : Op K V) :
    Sound (c.step op) ∧ Moved c.keys op (c.step op).keys := by
  cases op with
  | find k => exact h.find k
  | insert k value =>
      cases hk : c.items.lookup k with
      | none => exact h.insert_of_notMem (AList.lookup_eq_none.mp hk) value
      | some entry => exact h.insert_of_mem hk value

/-! ### Last uses -/

section
variable {order order' : List K} {op : Op K V} {uses : K → ℕ} {now : ℕ}

/-- The keys stay in the order of their last use. -/
theorem Moved.stamped (hmoved : Moved order op order') (hnodup : order.Nodup)
    (h : Stamped (· > ·) uses order) (hnow : ∀ k, uses k < now) :
    Stamped (· > ·) (Function.update uses op.key now) order' := by
  have hfront : Stamped (· > ·) (Function.update uses op.key now) (op.key :: order.erase op.key) :=
    h.front hnodup fun k _ => hnow k
  cases hmoved with
  | miss hk => exact (Stamped.update_of_notMem hk).mpr h
  | off hnil => exact .nil
  | hit hk => exact hfront
  | new hk => rwa [Op.key, List.erase_of_not_mem hk] at hfront
  | evict hk hlast =>
      rw [Op.key, List.erase_of_not_mem hk, hlast] at hfront
      exact hfront.sublist (List.sublist_append_left _ _)

/-- What goes was used before all that stays. -/
theorem Moved.oldest (hmoved : Moved order op order') (hnodup : order.Nodup)
    (h : Stamped (· > ·) uses order) (hnow : ∀ k, uses k < now) {k : K}
    (hk : k ∈ order ∨ ∃ value, op = .insert k value) (hgone : k ∉ order') {k' : K} (hk' : k' ∈ order') :
    Function.update uses op.key now k < Function.update uses op.key now k' := by
  have hfront : Stamped (· > ·) (Function.update uses op.key now) (op.key :: order.erase op.key) :=
    h.front hnodup fun k _ => hnow k
  have hmem : k = op.key ∨ k ∈ order := hk.symm.imp_left fun ⟨value, e⟩ => by rw [e]; rfl
  cases hmoved with
  | miss _ => exact absurd (hk.resolve_right fun ⟨_, e⟩ => nomatch e) hgone
  | off _ => cases hk'
  | hit hkey =>
      refine absurd ?_ hgone
      rcases hmem with rfl | hmem
      · exact List.mem_cons_self
      · exact (List.perm_cons_erase hkey).mem_iff.mp hmem
  | new _ => exact absurd (List.mem_cons.mpr hmem) hgone
  | evict hnot hlast =>
      rw [Op.key, List.erase_of_not_mem hnot, hlast] at hfront
      -- the key that goes is the last one
      have hgone' := List.mem_cons.mpr hmem
      rw [Op.key, hlast, List.mem_append, List.mem_singleton] at hgone'
      obtain rfl := hgone'.resolve_left hgone
      exact (List.pairwise_append.mp hfront).2.2 k' hk' _ (List.mem_singleton_self _)

end

/-! ### Runs -/

/-- What holds after some operations. -/
structure AfterOps (ops : List (Op K V)) (c : LruCache K V) : Prop where
  sound : Sound c
  recent : Recent (lastUse ops) c

theorem lastUse_concat (ops : List (Op K V)) (op : Op K V) :
    lastUse (ops ++ [op]) = Function.update (lastUse ops) op.key (ops.length + 1) := by
  rw [lastUse, List.map_append, List.map_singleton, Lib.lastUse_concat, List.length_map]
  rfl

theorem lastUse_lt (ops : List (Op K V)) (k : K) : lastUse ops k < ops.length + 1 := by
  have hle := Lib.lastUse_le (ops.map Op.key) k
  rw [List.length_map] at hle
  exact Nat.lt_succ_of_le hle

theorem AfterOps.step {ops : List (Op K V)} (h : AfterOps ops c) (op : Op K V) :
    AfterOps (ops ++ [op]) (c.step op) := by
  obtain ⟨hsound, hmoved⟩ := h.sound.step op
  refine ⟨hsound, ?_⟩
  rw [Recent, lastUse_concat]
  exact hmoved.stamped h.sound.orders.nodup h.recent (lastUse_lt ops)

theorem afterOps_foldl (maxEntries : UInt64) (ops : List (Op K V)) :
    AfterOps ops (ops.foldl LruCache.step { maxEntries }) := by
  induction ops using List.reverseRecOn with
  | nil => exact ⟨sound_empty maxEntries, .nil⟩
  | append_singleton ops op ih =>
      rw [List.foldl_append]
      exact ih.step op

theorem AfterOps.oldest {ops : List (Op K V)} (h : AfterOps ops c) {op : Op K V} {k k' : K}
    (hk : Evicts c op k) (hk' : k' ∈ (c.step op).items) :
    lastUse (ops ++ [op]) k < lastUse (ops ++ [op]) k' := by
  obtain ⟨hsound, hmoved⟩ := h.sound.step op
  rw [lastUse_concat]
  refine hmoved.oldest h.sound.orders.nodup h.recent (lastUse_lt ops) ?_ ?_ ?_
  · rw [h.sound.orders.mem_iff]
    exact hk.1
  · rw [hsound.orders.mem_iff]
    exact hk.2
  · exact (hsound.orders.mem_iff k').mpr hk'

theorem maxEntries_step (c : LruCache K V) (op : Op K V) : (c.step op).maxEntries = c.maxEntries := by
  cases op with
  | find k =>
      rw [step, LruCache.find]
      split <;> rfl
  | insert k value =>
      rw [step, LruCache.insert]
      split
      · rfl
      · dsimp only
        split
        · rfl
        · split
          · exact maxEntries_evictLeastRecent _
          · rfl

/-- **The cache after any operations**, whatever the maximum: the list has the keys of the hash, each
once; the iterator of an entry is at one node, that of its key; there are no more entries than the
maximum; and what the next operation evicts was last used before everything that stays. -/
theorem lru_sound (maxEntries : UInt64) (ops : List (Op K V)) :
    let c := ops.foldl step { maxEntries }
    c.keys.Nodup ∧ (∀ k, k ∈ c.keys ↔ k ∈ c.items) ∧
      (∀ k entry, c.items.lookup k = some entry →
        ∃ n ∈ c.recent, n.key = k ∧ ∀ m ∈ c.recent, m.id = entry.recentIt ↔ m = n) ∧
      c.size ≤ maxEntries.toNat ∧
      ∀ op k, Evicts c op k → ∀ k' ∈ (c.step op).items,
        lastUse (ops ++ [op]) k < lastUse (ops ++ [op]) k' := by
  intro c
  have h : AfterOps ops c := afterOps_foldl maxEntries ops
  have hmax : c.maxEntries = maxEntries :=
    foldl_invariant (I := fun c => c.maxEntries = maxEntries)
      (fun c op hc => (maxEntries_step c op).trans hc) rfl ops
  refine ⟨h.sound.orders.nodup, h.sound.orders.mem_iff, ?_, hmax ▸ h.sound.bounded,
    fun op k hk k' hk' => h.oldest hk hk'⟩
  intro k entry hentry
  have hown := h.sound.own k entry hentry
  refine ⟨_, hown, rfl, fun m hm => ⟨fun hid => ?_, fun e => e ▸ rfl⟩⟩
  exact List.inj_on_of_nodup_map h.sound.ids hm hown hid

end LruCache

example : (([.insert 1 'a', .insert 2 'b', .find 1, .insert 3 'c'] : List (LruCache.Op ℕ Char)).foldl
    LruCache.step { maxEntries := 2 }).keys = [3, 1] := by
  decide

end Qiftop.Backend
