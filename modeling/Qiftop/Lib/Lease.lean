import Mathlib.Data.Finset.Card
import Mathlib.Data.Finset.Dedup
import Qiftop.Lib.Hash

/-!
# Lib — tables of leases

A lease is a value with the time at which it ends.  A table of leases forgets an ended lease when it
is next pruned, which may be late; the book of the same grants and removals is never pruned.  A table
`Tracks` a book from a time on when both show the same leases that have not ended by then.  Granting,
removing and pruning keep this, and later times need less (`Tracks.mono`), so along a run whose clock
does not go back the live leases of the table are those of the history (`Tracks.live_iff`).

A bounded table admits a new key while it has room.  `full_of_live_iff`: a full table that tracks a
book shows `cap` live leases of other keys exactly when nothing in it has ended, so refusals are
justified exactly then (`refusal_justified_iff`).
-/

namespace Qiftop.Lib

/-- A value that counts until a time. -/
structure Lease (V : Type) where
  value : V
  expiresAtMs : Int
  deriving DecidableEq, Repr

namespace Lease
variable {K V : Type} [DecidableEq K]

/-- The grants and removals so far: the last lease granted under a key, unless removed since. -/
abbrev Book (K V : Type) := K → Option (Lease V)

/-- A grant, or a removal, entered in the book. -/
def Book.enter (b : Book K V) (e : K × Option (Lease V)) : Book K V := Function.update b e.1 e.2

/-- The book of a history. -/
def book (history : List (K × Option (Lease V))) : Book K V :=
  history.foldl Book.enter fun _ => none

theorem book_append (history entries : List (K × Option (Lease V))) :
    book (history ++ entries) = entries.foldl Book.enter (book history) :=
  List.foldl_append

/-- Some key holds `l` at `now`. -/
def LiveAt (b : Book K V) (now : Int) (k : K) (l : Lease V) : Prop :=
  b k = some l ∧ now < l.expiresAtMs

/-- The table without the leases that have ended. -/
def prune (now : Int) (t : Hash K (Lease V)) : Hash K (Lease V) :=
  Hash.filterMap (fun _ l => if l.expiresAtMs ≤ now then none else some l) t

theorem lookup_prune {now : Int} {t : Hash K (Lease V)} {k : K} {l : Lease V} :
    (prune now t).lookup k = some l ↔ t.lookup k = some l ∧ now < l.expiresAtMs := by
  rw [prune, Hash.lookup_filterMap, Option.bind_eq_some_iff]
  constructor
  · rintro ⟨l', hl', h⟩
    split at h
    · cases h
    · next hlt =>
        cases h
        exact ⟨hl', by omega⟩
  · rintro ⟨hl, hlt⟩
    exact ⟨l, hl, if_neg (by omega)⟩

omit [DecidableEq K] in
theorem size_prune_le (now : Int) (t : Hash K (Lease V)) :
    (prune now t).keys.length ≤ t.keys.length := by
  simp only [AList.keys, List.keys, List.length_map]
  exact List.length_filterMap_le _ _

/-- From `now` on, the table and the book show the same leases. -/
def Tracks (now : Int) (t : Hash K (Lease V)) (b : Book K V) : Prop :=
  ∀ k l, now < l.expiresAtMs → (t.lookup k = some l ↔ b k = some l)

namespace Tracks
variable {now : Int} {t : Hash K (Lease V)} {b : Book K V}

theorem empty (now : Int) : Tracks now (∅ : Hash K (Lease V)) fun _ => none :=
  fun k l _ => by simp

theorem mono (h : Tracks now t b) {later : Int} (hle : now ≤ later) : Tracks later t b :=
  fun k l hl => h k l (by omega)

theorem live_iff (h : Tracks now t b) {k : K} {l : Lease V} :
    LiveAt b now k l ↔ t.lookup k = some l ∧ now < l.expiresAtMs :=
  ⟨fun ⟨hb, hl⟩ => ⟨(h k l hl).mpr hb, hl⟩, fun ⟨ht, hl⟩ => ⟨(h k l hl).mp ht, hl⟩⟩

/-- The live entries of a pruned table are those of the book. -/
theorem lookup_prune_iff (h : Tracks now t b) {k : K} {l : Lease V} :
    (prune now t).lookup k = some l ↔ LiveAt b now k l := by
  rw [lookup_prune, h.live_iff]

theorem insert (h : Tracks now t b) (k : K) (l : Lease V) :
    Tracks now (t.insert k l) (b.enter (k, some l)) := by
  intro k' l' hl'
  rw [Hash.lookup_insert_ite, Book.enter, Function.update_apply]
  split
  · exact Iff.rfl
  · exact h k' l' hl'

theorem erase (h : Tracks now t b) (k : K) : Tracks now (t.erase k) (b.enter (k, none)) := by
  intro k' l' hl'
  rw [Book.enter, Function.update_apply]
  split
  · next e => subst e; simp
  · next e => rw [AList.lookup_erase_ne e]; exact h k' l' hl'

/-- Removing what is not there. -/
theorem enter_none (h : Tracks now t b) {k : K} (hk : k ∉ t) : Tracks now t (b.enter (k, none)) := by
  intro k' l' hl'
  rw [Book.enter, Function.update_apply]
  split
  · next e => subst e; simp [AList.lookup_eq_none.mpr hk]
  · exact h k' l' hl'

theorem prune (h : Tracks now t b) {earlier : Int} (hle : earlier ≤ now) :
    Tracks now (prune earlier t) b := by
  intro k l hl
  rw [lookup_prune, ← h k l hl]
  exact ⟨And.left, fun ht => ⟨ht, by omega⟩⟩

end Tracks

/-! ### Bounded tables -/

/-- Whether a lease may be granted to `k` in a table of at most `cap` entries. -/
def admits (cap : ℕ) (t : Hash K (Lease V)) (k : K) : Bool :=
  decide (k ∈ t) || decide (t.keys.length < cap)

theorem size_insert_le {cap : ℕ} {t : Hash K (Lease V)} {k : K} (hcap : t.keys.length ≤ cap)
    (h : admits cap t k = true) (l : Lease V) : (t.insert k l).keys.length ≤ cap := by
  rw [Hash.length_keys_insert]
  split
  · exact hcap
  · next hk =>
      simp only [admits, hk, decide_false, Bool.false_or, decide_eq_true_eq] at h
      omega

theorem size_erase_le (t : Hash K (Lease V)) (k : K) : (t.erase k).keys.length ≤ t.keys.length := by
  rw [AList.keys_erase]
  exact List.erase_sublist.length_le

/-- `cap` keys other than `k` hold live leases. -/
def FullOfLive (cap : ℕ) (b : Book K V) (now : Int) (k : K) : Prop :=
  ∃ others : Finset K, others.card = cap ∧ k ∉ others ∧ ∀ k' ∈ others, ∃ l, LiveAt b now k' l

/-- **A table that refuses is full of live leases exactly when none of its leases has ended.** -/
theorem full_of_live_iff {cap : ℕ} {now : Int} {t : Hash K (Lease V)} {b : Book K V} {k : K}
    (h : Tracks now t b) (hcap : t.keys.length ≤ cap) (hk : admits cap t k = false) :
    FullOfLive cap b now k ↔ ∀ k' l, t.lookup k' = some l → now < l.expiresAtMs := by
  simp only [admits, Bool.or_eq_false_iff, decide_eq_false_iff_not, not_lt] at hk
  obtain ⟨hnew, hfull⟩ := hk
  have hkeys : t.keys.toFinset.card = cap := by
    rw [List.toFinset_card_of_nodup t.keys_nodup]
    omega
  constructor
  · rintro ⟨others, hcard, -, hlive⟩ k' l hl
    -- the live keys are among the table's, and there are as many of them
    have hsub : others ⊆ t.keys.toFinset := by
      intro x hx
      obtain ⟨l', hl'⟩ := hlive x hx
      exact List.mem_toFinset.mpr (Hash.mem_of_lookup (h.live_iff.mp hl').1)
    have heq : others = t.keys.toFinset := Finset.eq_of_subset_of_card_le hsub (by omega)
    have hx : k' ∈ others := by
      rw [heq]
      exact List.mem_toFinset.mpr (Hash.mem_of_lookup hl)
    obtain ⟨l', hl'⟩ := hlive k' hx
    obtain ⟨ht, hlt⟩ := h.live_iff.mp hl'
    rw [ht] at hl
    cases hl
    exact hlt
  · intro hall
    refine ⟨t.keys.toFinset, hkeys, fun hmem => hnew (List.mem_toFinset.mp hmem), ?_⟩
    intro k' hk'
    obtain ⟨l, hl⟩ := Hash.exists_lookup (List.mem_toFinset.mp hk')
    exact ⟨l, h.live_iff.mpr ⟨hl, hall k' l hl⟩⟩

/-- A new key is refused exactly when the table has reached its bound. -/
theorem admits_eq_false_iff {cap : ℕ} {t : Hash K (Lease V)} {k : K} (hcap : t.keys.length ≤ cap)
    (hnew : k ∉ t) : admits cap t k = false ↔ t.keys.length = cap := by
  simp only [admits, hnew, decide_false, Bool.false_or, decide_eq_false_iff_not, not_lt]
  exact ⟨fun hge => le_antisymm hcap hge, fun heq => heq.ge⟩

/-- **Refusing a new key is justified exactly when nothing has ended in a full table.** -/
theorem refusal_justified_iff {cap : ℕ} {now : Int} {t : Hash K (Lease V)} {b : Book K V} {k : K}
    (h : Tracks now t b) (hcap : t.keys.length ≤ cap) (hnew : k ∉ t) :
    (admits cap t k = false → FullOfLive cap b now k) ↔
      (t.keys.length = cap → ∀ k' l, t.lookup k' = some l → now < l.expiresAtMs) := by
  rw [← admits_eq_false_iff hcap hnew]
  exact forall_congr' fun hk => full_of_live_iff h hcap hk

/-! ### Tables of leases that end together -/

/-- The table holds leases of `ks`, which all end at `e`. -/
structure Holds (t : Hash K (Lease V)) (ks : List K) (e : Int) : Prop where
  keys : ∀ k, k ∈ t ↔ k ∈ ks
  ends : ∀ k l, t.lookup k = some l → l.expiresAtMs = e

namespace Holds
variable {t : Hash K (Lease V)} {ks : List K} {e : Int}

theorem empty (e : Int) : Holds (∅ : Hash K (Lease V)) [] e where
  keys k := by simp
  ends k l h := by simp at h

/-- A further lease, granted and pruned before the others end. -/
theorem grant (h : Holds t ks e) {now : Int} (hnow : now < e) (k : K) (v : V) :
    Holds (Lease.prune now (t.insert k ⟨v, e⟩)) (ks ++ [k]) e := by
  have hends : ∀ k' l, (t.insert k ⟨v, e⟩).lookup k' = some l → l.expiresAtMs = e := by
    intro k' l hl
    rw [Hash.lookup_insert_ite] at hl
    split at hl
    · cases hl
      rfl
    · exact h.ends k' l hl
  refine ⟨fun k' => ?_, fun k' l hl => hends k' l (lookup_prune.mp hl).1⟩
  have hins : k' ∈ t.insert k (⟨v, e⟩ : Lease V) ↔ k' = k ∨ k' ∈ t := AList.mem_insert t
  rw [List.mem_append, List.mem_singleton, ← h.keys, or_comm, ← hins]
  constructor
  · intro hk
    obtain ⟨l, hl⟩ := Hash.exists_lookup hk
    exact Hash.mem_of_lookup (lookup_prune.mp hl).1
  · intro hk
    obtain ⟨l, hl⟩ := Hash.exists_lookup hk
    exact Hash.mem_of_lookup (lookup_prune.mpr ⟨hl, by rw [hends k' l hl]; exact hnow⟩)

theorem size (h : Holds t ks e) (hnd : ks.Nodup) : t.keys.length = ks.length :=
  ((List.perm_ext_iff_of_nodup t.keys_nodup hnd).mpr h.keys).length_eq

end Holds

end Lease

end Qiftop.Lib
