import Qiftop.Aggregate.Relabel

/-!
# Aggregate — the order of the rows

`updateConnections` appends the rows of new flows in the order in which it goes through its hash, which is
another in each process.  `updateConnectionsIn` has that order as an argument.

* `Reordered`: two tables that differ in the order of their rows only, and so in the index of the rows.
* `Reordered.apply`: every call but a patch keeps two such tables so.
* `apply_reordered`: an order of its own leads to the same table, reordered.
-/

namespace Qiftop.Aggregate
open Qt Lib Backend Heuristics

section
variable {F : Type}

/-- One table is the other with its rows in another order. -/
def Reordered (s t : Aggregator F) : Prop :=
  ∃ (rows : List (Row F)) (keyToIdx : Hash QString Nat), t = { s with rows, keyToIdx } ∧ s.rows.Perm rows

namespace Reordered
variable {s t u : Aggregator F}

theorem refl (s : Aggregator F) : Reordered s s := ⟨_, _, rfl, .rfl⟩

theorem symm (h : Reordered s t) : Reordered t s := by
  obtain ⟨rows, keyToIdx, rfl, hperm⟩ := h
  exact ⟨s.rows, s.keyToIdx, rfl, hperm.symm⟩

theorem trans (h : Reordered s t) (h' : Reordered t u) : Reordered s u := by
  obtain ⟨rows, keyToIdx, rfl, hperm⟩ := h
  obtain ⟨rows', keyToIdx', rfl, hperm'⟩ := h'
  exact ⟨rows', keyToIdx', rfl, hperm.trans hperm'⟩

theorem rows (h : Reordered s t) : s.rows.Perm t.rows := by
  obtain ⟨rows, keyToIdx, rfl, hperm⟩ := h
  exact hperm

theorem relabel (h : Reordered s t) (g : Attribution → Attribution) :
    Reordered (s.relabel g) (t.relabel g) := by
  obtain ⟨rows, keyToIdx, rfl, hperm⟩ := h
  exact ⟨_, _, rfl, hperm.map _⟩

/-- A function of the rows one by one. -/
theorem map (h : Reordered s t) (f : Row F → Row F) :
    Reordered { s with rows := s.rows.map f } { t with rows := t.rows.map f } := by
  obtain ⟨rows, keyToIdx, rfl, hperm⟩ := h
  exact ⟨_, _, rfl, hperm.map f⟩

end Reordered

variable [Double F]

/-! ### A snapshot -/

/-- `updateConnections` in a process with that order: the new rows, which come last, are in it. -/
def Aggregator.updateConnectionsIn (order : Hash.Iteration Connection) (s : Aggregator F) (nowMs : Int)
    (conns : List Connection) : Aggregator F :=
  let rows := s.survivors nowMs (s.incoming nowMs conns) ++
    (order.order (s.fresh nowMs conns)).map (newRow nowMs)
  { s.updateConnections nowMs conns with rows, keyToIdx := indexRows rows }

theorem Aggregator.updateConnectionsIn_reordered (order : Hash.Iteration Connection) (s : Aggregator F)
    (nowMs : Int) (conns : List Connection) :
    Reordered (s.updateConnections nowMs conns) (s.updateConnectionsIn order nowMs conns) := by
  refine ⟨_, _, rfl, ?_⟩
  rw [rows_updateConnections]
  exact ((order.perm _).symm.map _).append_left _

/-- The new flows are those whose keys no row has, wherever it stands. -/
theorem Aggregator.additions_congr {incoming : Hash QString Connection} {idx idx' : Hash QString Nat}
    (h : ∀ k, k ∈ idx ↔ k ∈ idx') : additions incoming idx = additions incoming idx' := by
  simp only [additions, h]

/-- **A snapshot on two tables with their rows in different orders.** -/
theorem Reordered.updateConnections {s t : Aggregator F} (h : Reordered s t) (nowMs : Int)
    (conns : List Connection) :
    Reordered (s.updateConnections nowMs conns) (t.updateConnections nowMs conns) := by
  obtain ⟨rows, keyToIdx, rfl, hperm⟩ := h
  let t : Aggregator F := { s with rows, keyToIdx }
  have hincoming : t.incoming nowMs conns = s.incoming nowMs conns := rfl
  -- each row is updated, and pruned, for itself
  have hsurvivors : (s.survivors nowMs (s.incoming nowMs conns)).Perm
      (t.survivors nowMs (s.incoming nowMs conns)) := (hperm.map _).filter _
  have hfresh : t.fresh nowMs conns = s.fresh nowMs conns := by
    rw [Aggregator.fresh, Aggregator.fresh, hincoming]
    refine Aggregator.additions_congr fun k => ?_
    rw [Aggregator.indexRows, Aggregator.indexRows, Hash.mem_positions, Hash.mem_positions]
    exact (hsurvivors.map Row.key).mem_iff.symm
  refine ⟨(t.updateConnections nowMs conns).rows, (t.updateConnections nowMs conns).keyToIdx, rfl, ?_⟩
  rw [Aggregator.rows_updateConnections, Aggregator.rows_updateConnections, hincoming, hfresh]
  exact hsurvivors.append_right _

/-! ### Calls -/

/-- A call in a process with that order. -/
def Op.applyIn (order : Hash.Iteration Connection) (s : Aggregator F) : Op → Aggregator F
  | .updateConnections nowMs conns => s.updateConnectionsIn order nowMs conns
  | op => op.apply s

theorem Op.apply_reordered (order : Hash.Iteration Connection) (s : Aggregator F) (op : Op) :
    Reordered (op.apply s) (op.applyIn order s) := by
  cases op with
  | updateConnections nowMs conns => exact s.updateConnectionsIn_reordered order nowMs conns
  | _ => exact .refl _

/-- **A call keeps two tables alike but for the order of their rows**; a patch goes by the index. -/
theorem Reordered.apply {s t : Aggregator F} (h : Reordered s t) {op : Op}
    (hop : ∀ patch, op ≠ .applyAttributionPatch patch) : Reordered (op.apply s) (op.apply t) := by
  cases op with
  | updateConnections nowMs conns => exact h.updateConnections nowMs conns
  | applyAttributionPatch patch => exact absurd rfl (hop patch)
  | advanceSmoothing nowMs =>
      have hmap := h.map (Aggregator.advanceRow nowMs)
      obtain ⟨rows, keyToIdx, rfl, hperm⟩ := h
      simp only [Op.apply, Aggregator.advanceSmoothing]
      split
      · exact ⟨rows, keyToIdx, rfl, hperm⟩
      · exact hmap
  | setThroughputWindowMs ms =>
      obtain ⟨rows, keyToIdx, rfl, hperm⟩ := h
      simp only [Op.apply, Aggregator.setThroughputWindowMs]
      generalize (if ms < 1000 then (1000 : Int) else ms) = w
      split
      · exact ⟨rows, keyToIdx, rfl, hperm⟩
      · split
        · exact ⟨_, _, rfl, hperm.map _⟩
        · exact ⟨_, _, rfl, hperm⟩
  | _ =>
      obtain ⟨rows, keyToIdx, rfl, hperm⟩ := h
      exact ⟨rows, keyToIdx, rfl, hperm⟩

end
end Qiftop.Aggregate
