import Qiftop.Backend.Connection
import Qiftop.Lib.Hash

/-!
# Ui — the grouping proxy

`ui/ConnectionGroupProxy.cpp`: a model over the flat list of connections that shows it flat, or as a
tree of groups with the flows of a group below its header.  The source is a list of rows; each
handler gets the source as it is once the source has changed.

The persistent indexes clients hold are part of the state, since `begin`/`endInsertRows`,
`begin`/`endRemoveRows`, a reset and `changePersistentIndexList` move them.  A top-level index has
the internal id `topLevel`; an index on a child holds its group's *position* there, and nothing but
a layout change ever rewrites it.

How `QVariant`s compare is an argument, as is `std::sort`.  Repaints are not modelled.
-/

namespace Qiftop.Ui
open Qt Lib Backend

/-! ### The source -/

inductive ViewMode where
  | Flat | ByInterface | ByContainer | ByProcess
  deriving DecidableEq, Repr

inductive SortOrder where
  | AscendingOrder | DescendingOrder
  deriving DecidableEq, Repr

inductive PartialOrdering where
  | Less | Equivalent | Greater | Unordered
  deriving DecidableEq, Repr

/-- The sort values of a model. -/
inductive QVariant (F : Type) where
  | invalid
  | string (s : QString)
  | int (n : Int)
  | ulonglong (n : UInt64)
  | double (x : F)

/-- `ConnectionModel::Column`, by number. -/
inductive Column where
  | Iface | Flow | RxRate | TxRate | RxTotal | TxTotal | RxMax | TxMax | Process | Container
  deriving DecidableEq, Repr

def Column.ofInt : Int → Option Column
  | 0 => some .Iface | 1 => some .Flow | 2 => some .RxRate | 3 => some .TxRate
  | 4 => some .RxTotal | 5 => some .TxTotal | 6 => some .RxMax | 7 => some .TxMax
  | 8 => some .Process | 9 => some .Container | _ => none

/-- `ConnectionModel::ConnectionRole`. -/
def ConnectionRole : Int := 266

/-- What the proxy reads of a source row. -/
structure SrcRow (F : Type) where
  connection : Connection := {}
  rxRate : F
  txRate : F
  sortRole : Int → QVariant F
  /-- The sort value of a column as a number. -/
  sortDouble : Int → F

/-- `QString::arg` with two arguments, on the format "%1/%2". -/
def slashed (a b : QString) : QString := a ++ '/' :: b

def groupKeyFor (mode : ViewMode) (c : Connection) : QString :=
  match mode with
  | .Flat => []
  | .ByInterface => if c.iface.isEmpty then "(unattributed)".toList else c.iface
  | .ByContainer =>
      if !c.container.id.isEmpty then slashed c.container.runtime c.container.id
      else if !c.container.name.isEmpty then slashed c.container.runtime c.container.name
      else "(host)".toList
  | .ByProcess =>
      if c.process.pid > 0 then
        arg (arg "%1/%2".toList (number c.process.pid.toNatClampNeg)) c.process.comm
      else "(unattributed)".toList

def groupLabelFor (mode : ViewMode) (c : Connection) : QString :=
  match mode with
  | .Flat => []
  | .ByInterface => if c.iface.isEmpty then "(unattributed)".toList else c.iface
  | .ByContainer =>
      if c.container.id.isEmpty ∧ c.container.name.isEmpty then "(host)".toList
      else
        let display := if !c.container.name.isEmpty then c.container.name
          else c.container.id.take 12
        if c.container.runtime.isEmpty then display
        else c.container.runtime ++ ": ".toList ++ display
  | .ByProcess =>
      if c.process.pid > 0 then
        let name := if c.process.comm.isEmpty then
            arg "pid %1".toList (number c.process.pid.toNatClampNeg)
          else c.process.comm
        arg (arg "%1  [pid %2]".toList name) (number c.process.pid.toNatClampNeg)
      else "(unattributed)".toList

/-- Where a row goes when `count` rows are inserted from `first` on. -/
def shiftInserted (first count r : Nat) : Nat := if first ≤ r then r + count else r

/-- Where a row goes when the rows from `first` to `last` are removed. -/
def shiftRemoved (first last r : Nat) : Nat := if last < r then r - (last - first + 1) else r

/-! ### Indexes -/

inductive InternalId where
  | topLevel
  | group (gi : Nat)
  deriving DecidableEq, Repr

structure ModelIndex where
  row : Nat
  column : Nat
  internalId : InternalId
  deriving DecidableEq, Repr

/-- An index after rows were inserted on a level: it moves if it is on that level and not above. -/
def ModelIndex.inserted (level : InternalId) (first count : Nat) (p : ModelIndex) : ModelIndex :=
  if p.internalId = level ∧ first ≤ p.row then { p with row := p.row + count } else p

/-- An index after rows were removed on a level: it is gone with its subtree, or moves if it is on
that level and below. -/
def ModelIndex.removed (level : InternalId) (first last : Nat) (p : ModelIndex) :
    Option ModelIndex :=
  if p.internalId = level then
    if last < p.row then some { p with row := p.row - (last - first + 1) }
    else if first ≤ p.row then none
    else some p
  else
    match level, p.internalId with
    | .topLevel, .group gi => if first ≤ gi ∧ gi ≤ last then none else some p
    | _, _ => some p

/-! ### The proxy -/

structure Group where
  key : QString
  label : QString
  srcRows : List Nat
  deriving DecidableEq, Repr

structure GroupProxy (F : Type) where
  src : Option (List (SrcRow F)) := none
  mode : ViewMode := .Flat
  groups : List Group := []
  srcIndex : Hash Nat (Nat × Nat) := ∅
  sortColumn : Int := -1
  sortOrder : SortOrder := .AscendingOrder
  sortWithinGroups : Bool := true
  /-- The persistent indexes, `none` once invalidated. -/
  persistent : List (Option ModelIndex) := []

namespace GroupProxy

section
variable {F : Type} (s : GroupProxy F)

def rowCount : Nat := (s.src.getD []).length

def connectionAt (row : Nat) : Connection := ((s.src.getD [])[row]?).elim {} SrcRow.connection

/-- The group key of a source row. -/
def rowKey (row : Nat) : QString := groupKeyFor s.mode (s.connectionAt row)

def rowLabel (row : Nat) : QString := groupLabelFor s.mode (s.connectionAt row)

/-- The flows of a group with their places. -/
def places (groups : List Group) : List (Nat × Nat × Nat) :=
  groups.zipIdx.flatMap fun g => g.1.srcRows.zipIdx.map fun r => (r.1, g.2, r.2)

def refreshSrcIndex : GroupProxy F :=
  { s with srcIndex :=
      if s.mode = .Flat then ∅
      else (places s.groups).foldl (fun h e => h.insert e.1 e.2) ∅ }

def mapToSource (p : ModelIndex) : Option (Nat × Nat) :=
  match s.src with
  | none => none
  | some rows =>
      if s.mode = .Flat then
        if p.row < rows.length then some (p.row, p.column) else none
      else
        match p.internalId with
        | .topLevel => none
        | .group gi => do
            let g ← s.groups[gi]?
            let r ← g.srcRows[p.row]?
            if r < rows.length then some (r, p.column) else none

def mapFromSource (row column : Nat) : Option ModelIndex :=
  match s.src with
  | none => none
  | some rows =>
      if s.mode = .Flat then
        if row < rows.length then some ⟨row, column, .topLevel⟩ else none
      else (s.srcIndex.lookup row).map fun it => ⟨it.2, column, .group it.1⟩

/-! ### Persistent indexes -/

def insertRows (level : InternalId) (first count : Nat) : GroupProxy F :=
  { s with persistent := s.persistent.map fun p => p.map (·.inserted level first count) }

def removeRows (level : InternalId) (first last : Nat) : GroupProxy F :=
  { s with persistent := s.persistent.map fun p => p.bind (·.removed level first last) }

/-- `endResetModel`: no index survives. -/
def resetIndexes : GroupProxy F :=
  { s with persistent := s.persistent.map fun _ => none }

/-! ### Sorting -/

section
variable [Double F] (S : StdSort) (compare : QVariant F → QVariant F → PartialOrdering)

def cmpVariant (a b : QVariant F) : Bool :=
  if compare a b = .Equivalent then false
  else
    match s.sortOrder with
    | .AscendingOrder => decide (compare a b = .Less)
    | .DescendingOrder => decide (compare a b ≠ .Less)

def sortValue (row : Nat) (column : Int) : QVariant F :=
  ((s.src.getD [])[row]?).elim .invalid fun r => r.sortRole column

/-- `aggregateData` for the sort role. -/
def aggregateSort (g : Group) (column : Int) : QVariant F :=
  let sum (f : SrcRow F → F) : F := g.srcRows.foldl
    (fun acc r => Double.add acc (((s.src.getD [])[r]?).elim (Double.ofInt 0) f)) (Double.ofInt 0)
  let total (f : Connection → UInt64) : UInt64 :=
    g.srcRows.foldl (fun acc r => acc + f (s.connectionAt r)) 0
  match Column.ofInt column with
  | some .Iface => .string g.label
  | some .Flow => .int g.srcRows.length
  | some .RxRate => .double (sum SrcRow.rxRate)
  | some .TxRate => .double (sum SrcRow.txRate)
  | some .RxTotal => .ulonglong (total Connection.rxBytes)
  | some .TxTotal => .ulonglong (total Connection.txBytes)
  | some .RxMax => .double (sum fun r => r.sortDouble 6)
  | some .TxMax => .double (sum fun r => r.sortDouble 7)
  | some .Process => .string []
  | some .Container => .string []
  | none => .invalid

def sortChildren (g : Group) : Group :=
  { g with srcRows := S.sort (fun a b =>
      s.cmpVariant compare (s.sortValue a s.sortColumn) (s.sortValue b s.sortColumn)) g.srcRows }

def sortGroups (groups : List Group) : List Group :=
  let groups := groups.map (s.sortChildren S compare)
  if s.sortWithinGroups then groups
  else S.sort (fun a b =>
    s.cmpVariant compare (s.aggregateSort a s.sortColumn) (s.aggregateSort b s.sortColumn)) groups

def applyCurrentSort : GroupProxy F :=
  if s.sortColumn < 0 ∨ s.mode = .Flat ∨ s.groups.isEmpty then s
  else { s with groups := s.sortGroups S compare s.groups }

/-- What a persistent index is about: a group's key, and a source row for a child. -/
def identity (p : ModelIndex) : Option (QString × Option Nat) :=
  match p.internalId with
  | .topLevel => s.groups[p.row]?.map fun g => (g.key, none)
  | .group gi => do
      let g ← s.groups[gi]?
      let r ← g.srcRows[p.row]?
      some (g.key, some r)

/-- The index of an identity in the present layout. -/
def locate (column : Nat) (id : QString × Option Nat) : Option ModelIndex :=
  if id.1.isEmpty then none
  else
    match (Hash.positions Group.key s.groups).lookup id.1, id.2 with
    | none, _ => none
    | some gi, none => some ⟨gi, column, .topLevel⟩
    | some _, some r => (s.srcIndex.lookup r).map fun it => ⟨it.2, column, .group it.1⟩

def resortGroupsPreservingIndexes : GroupProxy F :=
  if s.sortColumn < 0 ∨ s.mode = .Flat ∨ s.groups.isEmpty ∨ s.src.isNone then s
  else
    let sorted := s.sortGroups S compare s.groups
    if sorted.map (fun g => (g.key, g.srcRows)) = s.groups.map (fun g => (g.key, g.srcRows)) then s
    else
      let t := refreshSrcIndex { s with groups := sorted }
      { t with persistent := s.persistent.map fun p => p.bind fun p =>
          (s.identity p).bind (t.locate p.column) }

/-! ### Rebuilding -/

/-- One source row of a rebuild. -/
def rebuildRow (st : List Group × Hash QString Nat) (r : Nat) : List Group × Hash QString Nat :=
  match st.2.lookup (s.rowKey r) with
  | some idx => (st.1.modify idx fun g => { g with srcRows := g.srcRows ++ [r] }, st.2)
  | none => (st.1 ++ [⟨s.rowKey r, s.rowLabel r, [r]⟩], st.2.insert (s.rowKey r) st.1.length)

def rebuild : GroupProxy F :=
  let s := { s with groups := [], srcIndex := ∅ }
  if s.src.isNone ∨ s.mode = .Flat then s
  else
    let groups := ((List.range s.rowCount).foldl s.rebuildRow ([], ∅)).1
    (applyCurrentSort { s with groups } S compare).refreshSrcIndex

/-- `beginResetModel`, `rebuild`, `endResetModel`. -/
def onSourceReset : GroupProxy F := (s.rebuild S compare).resetIndexes

def setSourceModel (src : Option (List (SrcRow F))) : GroupProxy F :=
  onSourceReset { s with src } S compare

/-- `rows` is the source once it has sorted itself for the new mode. -/
def setViewMode (mode : ViewMode) (rows : List (SrcRow F)) : GroupProxy F :=
  if mode = s.mode then s
  else onSourceReset { s with mode, src := s.src.map fun _ => rows } S compare

/-! ### Placing and removing one source row -/

/-- A flow at the end of a group. -/
def insertChild (gi srcRow : Nat) : GroupProxy F :=
  let childRow := (s.groups[gi]?.elim [] Group.srcRows).length
  insertRows { s with
    groups := s.groups.modify gi fun g => { g with srcRows := g.srcRows ++ [srcRow] } }
    (.group gi) childRow 1

/-- A group at the end. -/
def insertGroup (g : Group) : GroupProxy F :=
  insertRows { s with groups := s.groups ++ [g] } .topLevel s.groups.length 1

def removeChild (gi childRow : Nat) : GroupProxy F :=
  removeRows { s with
    groups := s.groups.modify gi fun g => { g with srcRows := g.srcRows.eraseIdx childRow } }
    (.group gi) childRow childRow

def removeGroup (gi : Nat) : GroupProxy F :=
  removeRows { s with groups := s.groups.eraseIdx gi } .topLevel gi gi

/-- The first group of a key. -/
def findGroup (key : QString) : Option Nat := s.groups.findIdx? fun g => g.key = key

/-- A source row joins the group of its key, or starts it. -/
def placeSourceRow (srcRow : Nat) : GroupProxy F :=
  match s.findGroup (s.rowKey srcRow) with
  | some gi => s.insertChild gi srcRow
  | none => s.insertGroup ⟨s.rowKey srcRow, s.rowLabel srcRow, [srcRow]⟩

/-- Every source row number of the groups changed. -/
def shiftRows (f : Nat → Nat) : GroupProxy F :=
  { s with groups := s.groups.map fun g => { g with srcRows := g.srcRows.map f } }

/-! ### Source handlers -/

/-- The source with new rows from `first` on. -/
def sourceInserted (first : Nat) (rows : List (SrcRow F)) : GroupProxy F :=
  { s with src := s.src.map fun old => old.take first ++ rows ++ old.drop first }

/-- The source without the rows from `first` to `last`. -/
def sourceRemoved (first last : Nat) : GroupProxy F :=
  { s with src := s.src.map fun old => old.take first ++ old.drop (last + 1) }

/-- The source with other rows. -/
def sourceChanged (rows : List (SrcRow F)) : GroupProxy F :=
  { s with src := s.src.map fun _ => rows }

/-- The groups' row numbers shifted, and the inserted rows placed. -/
def placeInserted (first count : Nat) : GroupProxy F :=
  (List.range' first count).foldl placeSourceRow (s.shiftRows (shiftInserted first count))

def onSourceRowsInserted (first : Nat) (rows : List (SrcRow F)) : GroupProxy F :=
  let s := s.sourceInserted first rows
  if s.mode = .Flat then s.insertRows .topLevel first rows.length
  else (s.placeInserted first rows.length).refreshSrcIndex.resortGroupsPreservingIndexes S compare

/-- One removed source row leaves its group; groups that become empty are noted. -/
def removeSourceRow (st : GroupProxy F × List Nat) (srcRow : Nat) : GroupProxy F × List Nat :=
  match st.1.groups.findIdx? fun g => srcRow ∈ g.srcRows with
  | none => st
  | some gi =>
      let childRow := (st.1.groups[gi]?.elim [] Group.srcRows).idxOf srcRow
      let s := st.1.removeChild gi childRow
      if (s.groups[gi]?.elim [] Group.srcRows).isEmpty ∧ gi ∉ st.2 then (s, st.2 ++ [gi])
      else (s, st.2)

/-- The removed rows taken out, the row numbers shifted, and the emptied groups erased from the
last to the first. -/
def takeRemoved (first last : Nat) : GroupProxy F :=
  let st := (List.range' first (last - first + 1)).foldl removeSourceRow (s, [])
  (S.sort (fun a b => decide (a > b)) st.2).foldl removeGroup
    (st.1.shiftRows (shiftRemoved first last))

def onSourceRowsRemoved (first last : Nat) : GroupProxy F :=
  let s := s.sourceRemoved first last
  if s.mode = .Flat then s.removeRows .topLevel first last
  else (s.takeRemoved S first last).refreshSrcIndex.resortGroupsPreservingIndexes S compare

/-- A flow leaves its group, and the group goes if that was its last. -/
def takeOut (gi childRow : Nat) : GroupProxy F :=
  let s := s.removeChild gi childRow
  if (s.groups[gi]?.elim [] Group.srcRows).isEmpty then s.removeGroup gi else s

/-- A source row whose key may have changed; whether it moved. -/
def regroupSourceRow (srcRow : Nat) : GroupProxy F × Bool :=
  let cur : Option (Nat × Nat × Group) := do
    let it ← s.srcIndex.lookup srcRow
    let g ← s.groups[it.1]?
    some (it.1, it.2, g)
  match cur with
  | none => ((s.placeSourceRow srcRow).refreshSrcIndex, true)
  | some (gi, childRow, g) =>
      if g.key = s.rowKey srcRow then
        ({ s with groups := s.groups.modify gi fun g => { g with label := s.rowLabel srcRow } },
          false)
      else (((s.takeOut gi childRow).placeSourceRow srcRow).refreshSrcIndex, true)

/-- One row of a change, and whether any moved. -/
def regroupStep (st : GroupProxy F × Bool) (srcRow : Nat) : GroupProxy F × Bool :=
  let r := st.1.regroupSourceRow srcRow
  (r.1, r.2 || st.2)

/-- `rows` is the source with its new data. -/
def onSourceDataChanged (first last : Nat) (roles : List Int) (rows : List (SrcRow F)) :
    GroupProxy F :=
  let s := s.sourceChanged rows
  if s.mode = .Flat then s
  else if roles.isEmpty ∨ ConnectionRole ∈ roles then
    let st := (List.range' first (last + 1 - first)).foldl regroupStep (s, false)
    if st.2 then st.1.resortGroupsPreservingIndexes S compare else st.1
  else s

/-- The source's own layout changed, leaving `rows`. -/
def onSourceLayoutChanged (rows : List (SrcRow F)) : GroupProxy F :=
  let s := s.sourceChanged rows
  if s.mode = .Flat then s else s.onSourceReset S compare

/-- `newOrder` lists the source's rows in the order its own sort gives them. -/
def sort (column : Int) (order : SortOrder) (newOrder : List Nat) : GroupProxy F :=
  let s := { s with sortColumn := column, sortOrder := order }
  match s.src with
  | none => s
  | some rows =>
      if s.mode = .Flat then
        { s with
          src := some (newOrder.filterMap fun r => rows[r]?)
          persistent := s.persistent.map fun p => p.bind fun p =>
            (newOrder.findIdx? fun r => r = p.row).map fun row => ⟨row, p.column, .topLevel⟩ }
      else s.resortGroupsPreservingIndexes S compare

def setSortWithinGroups (on : Bool) : GroupProxy F :=
  if s.sortWithinGroups = on then s
  else resortGroupsPreservingIndexes { s with sortWithinGroups := on } S compare

end

end

end GroupProxy

/-! ### Runs -/

/-- What can happen to a proxy.  Source signals carry the source's new rows. -/
inductive Event (F : Type) where
  | setSourceModel (src : Option (List (SrcRow F)))
  | setViewMode (mode : ViewMode) (rows : List (SrcRow F))
  | modelReset (rows : List (SrcRow F))
  | layoutChanged (rows : List (SrcRow F))
  | rowsInserted (first : Nat) (rows : List (SrcRow F))
  | rowsRemoved (first last : Nat)
  | dataChanged (first last : Nat) (roles : List Int) (rows : List (SrcRow F))
  | sort (column : Int) (order : SortOrder) (newOrder : List Nat)
  | setSortWithinGroups (on : Bool)

section
variable {F : Type} [Double F] (S : StdSort) (compare : QVariant F → QVariant F → PartialOrdering)

/-- Without a source there are no source signals. -/
def GroupProxy.step (s : GroupProxy F) : Event F → GroupProxy F
  | .setSourceModel src => s.setSourceModel S compare src
  | .setViewMode mode rows => s.setViewMode S compare mode rows
  | .modelReset rows =>
      if s.src.isNone then s else (s.sourceChanged rows).onSourceReset S compare
  | .layoutChanged rows => if s.src.isNone then s else s.onSourceLayoutChanged S compare rows
  | .rowsInserted first rows =>
      if s.src.isNone then s else s.onSourceRowsInserted S compare first rows
  | .rowsRemoved first last =>
      if s.src.isNone then s else s.onSourceRowsRemoved S compare first last
  | .dataChanged first last roles rows =>
      if s.src.isNone then s else s.onSourceDataChanged S compare first last roles rows
  | .sort column order newOrder => s.sort S compare column order newOrder
  | .setSortWithinGroups on => s.setSortWithinGroups S compare on

/-- Whether the event resets the proxy. -/
def Event.resets (s : GroupProxy F) : Event F → Bool
  | .setSourceModel _ | .modelReset _ | .layoutChanged _ => true
  | .setViewMode mode _ => decide (mode ≠ s.mode)
  | _ => false

/-- What Qt promises of a source's signals: they come from a source, with rows in range, and every
change of a connection is announced. -/
def Event.Ok (s : GroupProxy F) : Event F → Prop
  | .rowsInserted first _ => s.src.isSome ∧ first ≤ s.rowCount
  | .rowsRemoved first last => first ≤ last ∧ last < s.rowCount
  | .dataChanged first last roles rows =>
      first ≤ last ∧ last < s.rowCount ∧ rows.length = s.rowCount ∧
      ∀ r < rows.length, (first ≤ r ∧ r ≤ last ∧ (roles.isEmpty ∨ ConnectionRole ∈ roles)) ∨
        (rows[r]?).elim {} SrcRow.connection = s.connectionAt r
  | _ => True

instance (s : GroupProxy F) : (e : Event F) → Decidable (e.Ok s)
  | .rowsInserted first _ => inferInstanceAs (Decidable (s.src.isSome ∧ first ≤ s.rowCount))
  | .rowsRemoved first last => inferInstanceAs (Decidable (first ≤ last ∧ last < s.rowCount))
  | .dataChanged first last _ rows => inferInstanceAs (Decidable (first ≤ last ∧
      last < s.rowCount ∧ rows.length = s.rowCount ∧ ∀ r < rows.length, _ ∨ _))
  | .setSourceModel _ | .setViewMode _ _ | .modelReset _ | .layoutChanged _ | .sort _ _ _
  | .setSortWithinGroups _ => isTrue trivial

end

end Qiftop.Ui
