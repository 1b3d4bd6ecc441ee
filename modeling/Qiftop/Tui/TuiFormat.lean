import Qiftop.Aggregate.ConnectionAggregator
import Qiftop.Qt.Text

/-!
# Tui — sorting and grouping

The parts of `tui/TuiFormat.h` the Connections view arranges its rows with: the order of the rows by a
column, the bucket a connection goes to and what the bucket is called, and the order of the buckets.

A row or a bucket is given by its index, which is in range by its type.  `std::stable_sort` is
`StdSort.stable`: under a strict weak order there is only one stable arrangement.

* `pairwise_sortedConnectionIndices`: the rows come in the order of the column.
* `pairwise_minSrc`: with `sortWithinGroups` the buckets come by their first row.
-/

namespace Qiftop.Tui
open Qt Backend Aggregate

inductive ColumnId where
  | Flow | RxRate | TxRate | RxTotal | TxTotal | Process | Container | Interface | Mtu | State
  | ErrDrop
  deriving DecidableEq, Repr

inductive GroupBy where
  | None | Interface | Process | Container | Count
  deriving DecidableEq, Repr

variable {F : Type} [Double F]

/-! ### Rows -/

def containerSortKey (c : Connection) : QString :=
  if !c.container.name.isEmpty then c.container.name
  else if !c.container.id.isEmpty then c.container.id
  else "\x01(host)".toList

/-- What a numeric column compares. -/
def sortNumber (field : ColumnId) (r : Row F) : F :=
  match field with
  | .RxRate => r.rxRate
  | .TxRate => r.txRate
  | .RxTotal => Double.ofInt r.current.rxBytes.toNat
  | .TxTotal => Double.ofInt r.current.txBytes.toNat
  | .Process => Double.ofInt r.current.process.pid.toInt
  | _ => Double.ofInt 0

/-- The comparator of the sort. -/
def rowLess (field : ColumnId) (a b : Row F) : Bool :=
  if field = .Flow then textLess a.current.remote.address.toString b.current.remote.address.toString
  else if field = .Container then
    textLess (containerSortKey a.current) (containerSortKey b.current)
  else Double.lt (sortNumber field a) (sortNumber field b)

def sortedConnectionIndices (rows : List (Row F)) (field : ColumnId) (descending : Bool) :
    List (Fin rows.length) :=
  let idx := StdSort.stable.sort (fun a b => rowLess field (rows.get a) (rows.get b))
    (List.finRange rows.length)
  if descending then idx.reverse else idx

/-- `b` may stand behind `a`. -/
def InOrder (field : ColumnId) (descending : Bool) (a b : Row F) : Prop :=
  if descending then rowLess field a b = false else rowLess field b a = false

theorem sortedConnectionIndices_perm (rows : List (Row F)) (field : ColumnId) (descending : Bool) :
    (sortedConnectionIndices rows field descending).Perm (List.finRange rows.length) := by
  unfold sortedConnectionIndices
  dsimp only
  split
  · exact (List.reverse_perm _).trans (StdSort.stable.perm _ _)
  · exact StdSort.stable.perm _ _

/-- Comparing two rows by a column is a strict weak order as long as comparing doubles is. -/
theorem rowLess_weak (h : StrictWeak (Double.lt : F → F → Bool)) (field : ColumnId) :
    StrictWeak (rowLess (F := F) field) := by
  unfold rowLess
  split
  · exact textLess_weak.comap fun r : Row F => r.current.remote.address.toString
  split
  · exact textLess_weak.comap fun r : Row F => containerSortKey r.current
  · exact h.comap (sortNumber field)

/-- **The rows come in the order of the column.** -/
theorem pairwise_sortedConnectionIndices (h : StrictWeak (Double.lt : F → F → Bool))
    (rows : List (Row F)) (field : ColumnId) (descending : Bool) :
    (sortedConnectionIndices rows field descending).Pairwise fun i j =>
      InOrder field descending (rows.get i) (rows.get j) := by
  have hsort := StdSort.stable.ordered (List.finRange rows.length)
    ((rowLess_weak h field).comap rows.get)
  cases descending with
  | false => exact hsort
  | true => exact List.pairwise_reverse.mpr hsort

/-! ### Buckets -/

/-- Two texts with the separator between them, in one step: neither is searched for markers. -/
def separated (a b : QString) : QString := a ++ Char.ofNat 1 :: b

/-- The bucket of a connection.  The empty text is the bucket of what has no attribution. -/
def groupKeyFor (g : GroupBy) (c : Connection) : QString :=
  match g with
  | .Interface => c.iface
  | .Process =>
      if c.process.valid then
        arg (arg "%1\x01%2".toList (number c.process.pid.toNatClampNeg)) c.process.comm
      else []
  | .Container => if c.container.valid then separated c.container.runtime c.container.id else []
  | .None | .Count => []

def groupLabelFor (g : GroupBy) (c : Connection) : QString :=
  match g with
  | .Interface => if c.iface.isEmpty then "(unattributed)".toList else c.iface
  | .Process =>
      if !c.process.valid then "(unattributed)".toList
      else arg (arg "%1 [%2]".toList (if c.process.comm.isEmpty then "?".toList else c.process.comm))
        (number c.process.pid.toNatClampNeg)
  | .Container =>
      if !c.container.valid then "(no container)".toList
      else (if c.container.name.isEmpty then c.container.id else c.container.name) ++
        " (".toList ++ c.container.runtime ++ ")".toList
  | .None | .Count => []

structure GroupSummary (F : Type) where
  rxRate : F
  txRate : F
  rxBytes : UInt64 := 0
  txBytes : UInt64 := 0
  minSrc : ℕ := 0
  label : QString := []
  deriving DecidableEq, Repr

def aggVal (sortField : ColumnId) (g : GroupSummary F) : F :=
  match sortField with
  | .RxRate => g.rxRate
  | .TxRate => g.txRate
  | .RxTotal => Double.ofInt g.rxBytes.toNat
  | .TxTotal => Double.ofInt g.txBytes.toNat
  | _ => Double.ofInt 0

/-- The comparator of buckets when they are sorted like rows.  `compare` is `QString::compare` without
regard to case. -/
def groupLess (compare : QString → QString → Int) (sortField : ColumnId) (sortDesc : Bool)
    (a b : GroupSummary F) : Bool :=
  if sortField = .Flow ∨ sortField = .Process ∨ sortField = .Container then
    let c := compare a.label b.label
    if c ≠ 0 then if sortDesc then decide (c > 0) else decide (c < 0)
    else decide (a.minSrc < b.minSrc)
  else
    let va := aggVal sortField a
    let vb := aggVal sortField b
    if Double.eq va vb then decide (a.minSrc < b.minSrc)
    else if sortDesc then Double.lt vb va else Double.lt va vb

def orderedGroupIndices (compare : QString → QString → Int) {n : ℕ} (g : Fin n → GroupSummary F)
    (sortField : ColumnId) (sortDesc sortWithinGroups : Bool) : List (Fin n) :=
  if sortWithinGroups then
    StdSort.stable.sort (fun a b => decide ((g a).minSrc < (g b).minSrc)) (List.finRange n)
  else
    StdSort.stable.sort (fun a b => groupLess compare sortField sortDesc (g a) (g b))
      (List.finRange n)

theorem orderedGroupIndices_perm (compare : QString → QString → Int) {n : ℕ}
    (g : Fin n → GroupSummary F) (sortField : ColumnId) (sortDesc sortWithinGroups : Bool) :
    (orderedGroupIndices compare g sortField sortDesc sortWithinGroups).Perm (List.finRange n) := by
  unfold orderedGroupIndices
  split
  · exact StdSort.stable.perm _ _
  · exact StdSort.stable.perm _ _

/-- **With `sortWithinGroups` the buckets come by their first row**, whatever the sort. -/
theorem pairwise_minSrc (compare : QString → QString → Int) {n : ℕ} (g : Fin n → GroupSummary F)
    (sortField : ColumnId) (sortDesc : Bool) :
    (orderedGroupIndices compare g sortField sortDesc true).Pairwise fun a b =>
      (g a).minSrc ≤ (g b).minSrc := by
  refine (StdSort.stable.ordered (List.finRange n)
    (StrictWeak.linear.comap fun a => (g a).minSrc)).imp ?_
  intro a b hab
  rw [decide_eq_false_iff_not, not_lt] at hab
  exact hab

end Qiftop.Tui
