import Qiftop.Tui.Grouping
import Qiftop.Util.ConnectionHeuristics

/-!
# Tui — columns, cells and roles

The parts of `tui/TuiFormat.h` that say what a row of a table shows: the columns of the two views, the
cells of an interface, a connection and a group header, and the colour role of a row.  A rate and a total
as text, and what the aggregator calls a protocol and an endpoint, are parameters (`CellTexts`).

* `length_cellsForConnection`, `length_groupHeaderCells`: a row has one cell for each column.
-/

namespace Qiftop.Tui
open Qt Backend Aggregate

/-! ### Columns -/

structure Column where
  id : ColumnId
  title : QString
  rightAlign : Bool := false
  fixedWidth : ℕ := 0
  hideable : Bool := false
  deriving DecidableEq, Repr

structure OptionalColumns where
  process : Bool := false
  container : Bool := false
  deriving DecidableEq, Repr

def kRateW : ℕ := 11
def kTotalW : ℕ := 11
def kStateW : ℕ := 9
def kMtuW : ℕ := 6
def kErrW : ℕ := 11
def kIfaceNameW : ℕ := 16
def kProcessW : ℕ := 18
def kContainerW : ℕ := 22

/-- The columns of a view.  The one a table is grouped by is left out. -/
def columnsFor (v : View) (optional : OptionalColumns) (groupBy : GroupBy) : List Column :=
  match v with
  | .Interfaces =>
      [{ id := .Interface, title := "Interface".toList },
        { id := .RxRate, title := "RX rate".toList, rightAlign := true, fixedWidth := kRateW },
        { id := .TxRate, title := "TX rate".toList, rightAlign := true, fixedWidth := kRateW },
        { id := .RxTotal, title := "RX total".toList, rightAlign := true, fixedWidth := kTotalW },
        { id := .TxTotal, title := "TX total".toList, rightAlign := true, fixedWidth := kTotalW },
        { id := .Mtu, title := "MTU".toList, rightAlign := true, fixedWidth := kMtuW },
        { id := .State, title := "State".toList, fixedWidth := kStateW },
        { id := .ErrDrop, title := "Err/Drop".toList, rightAlign := true, fixedWidth := kErrW }]
  | .Connections =>
      [{ id := .Flow, title := "Flow".toList },
        { id := .RxRate, title := "RX rate".toList, rightAlign := true, fixedWidth := kRateW },
        { id := .TxRate, title := "TX rate".toList, rightAlign := true, fixedWidth := kRateW },
        { id := .RxTotal, title := "RX total".toList, rightAlign := true, fixedWidth := kTotalW },
        { id := .TxTotal, title := "TX total".toList, rightAlign := true, fixedWidth := kTotalW }] ++
      (if optional.process && groupBy ≠ .Process then
        [{ id := .Process, title := "Process".toList, fixedWidth := kProcessW, hideable := true }]
      else []) ++
      (if optional.container && groupBy ≠ .Container then
        [{ id := .Container, title := "Container".toList, fixedWidth := kContainerW, hideable := true }]
      else [])

/-- Where a column is shown, `-1` when it is not. -/
def visualIndexForColumn (cols : List Column) (field : ColumnId) : Int :=
  match cols.findIdx? fun c => c.id = field with
  | some i => i
  | none => -1

def groupByName : GroupBy → QString
  | .Interface => "interface".toList
  | .Process => "process".toList
  | .Container => "container".toList
  | .None | .Count => "off".toList

/-! ### Interfaces -/

/-- What the Interfaces view shows of an interface. -/
structure InterfaceStats where
  name : QString := []
  type : QString := []
  mtu : UInt32 := 0
  addresses : List QString := []
  rxBytes : UInt64 := 0
  txBytes : UInt64 := 0
  isUp : Bool := false
  isLoopback : Bool := false
  operState : UInt8 := 0
  rxErrors : UInt64 := 0
  txErrors : UInt64 := 0
  rxDropped : UInt64 := 0
  txDropped : UInt64 := 0
  deriving DecidableEq, Repr

structure InterfaceRow (F : Type) where
  current : InterfaceStats := {}
  rxRate : F
  txRate : F
  deriving DecidableEq, Repr

def operStateText (operState : UInt8) (isUp : Bool) : QString :=
  if operState = 1 then "absent".toList
  else if operState = 2 then "down".toList
  else if operState = 3 then "lower-dn".toList
  else if operState = 4 then "testing".toList
  else if operState = 5 then "dormant".toList
  else if operState = 6 then "up".toList
  else if isUp then "up".toList else "down".toList

section
variable {F : Type} [Double F]

/-- `combinedRate`, of an interface or a connection. -/
def combinedRate (rxRate txRate : F) : F := Double.add rxRate txRate

/-- What a numeric column of the Interfaces view compares. -/
def interfaceNumber (field : ColumnId) (r : InterfaceRow F) : F :=
  match field with
  | .RxRate => r.rxRate
  | .TxRate => r.txRate
  | .RxTotal => Double.ofInt r.current.rxBytes.toNat
  | .TxTotal => Double.ofInt r.current.txBytes.toNat
  | .Mtu => Double.ofInt r.current.mtu.toNat
  | .State => Double.ofInt r.current.operState.toNat
  | .ErrDrop => Double.ofInt (r.current.rxErrors + r.current.txErrors + r.current.rxDropped +
      r.current.txDropped).toNat
  | _ => Double.ofInt 0

def interfaceLess (field : ColumnId) (a b : InterfaceRow F) : Bool :=
  if field = .Interface then textLess a.current.name b.current.name
  else Double.lt (interfaceNumber field a) (interfaceNumber field b)

def sortedInterfaceIndices (rows : List (InterfaceRow F)) (field : ColumnId) (descending : Bool) :
    List (Fin rows.length) :=
  let idx := StdSort.stable.sort (fun a b => interfaceLess field (rows.get a) (rows.get b))
    (List.finRange rows.length)
  if descending then idx.reverse else idx

def interfaceKey (r : InterfaceRow F) : QString := r.current.name

/-! ### Roles -/

/-- The roles a row of a table can have. -/
inductive Role where
  | Normal | Outbound | Inbound | Forwarded | Stale | GroupHeader
  deriving DecidableEq, Repr

def rowRoleForInterface (r : InterfaceRow F) : Role :=
  if r.current.isLoopback then .Stale
  else if !r.current.isUp || r.current.operState == 2 || r.current.operState == 1 then .Stale
  else if Double.lt (Double.ofInt 0) (combinedRate r.rxRate r.txRate) then .Outbound
  else .Normal

def rowRoleForConnection (localAddrs loopbackAddrs : Finset QHostAddress) (r : Row F) : Role :=
  if r.stale then .Stale
  else if Heuristics.isForwardedFlow r.current localAddrs loopbackAddrs then .Forwarded
  else match r.current.direction with
    | .Outbound => .Outbound
    | .Inbound => .Inbound
    | .Unknown => .Normal

/-! ### Cells -/

/-- The texts of single values. -/
structure CellTexts (F : Type) where
  formatByteRate : F → QString
  formatBytes : UInt64 → QString
  protoLabel : Connection → QString
  endpointText : Endpoint → QString

def emDash : Char := Char.ofNat 0x2014

/-- `QString::leftJustified`. -/
def leftJustified (s : QString) (width : ℕ) : QString := s ++ List.replicate (width - s.length) ' '

def processCellText (c : Connection) : QString :=
  if c.process.valid then
    let pid := number c.process.pid.toNatClampNeg
    let name := if c.process.comm.isEmpty then arg "pid %1".toList pid else c.process.comm
    arg (arg "%1 [%2]".toList name) pid
  else
    match c.reason with
    | .Forwarded => emDash :: " forwarded ".toList ++ [emDash]
    | .Orphaned => emDash :: " orphaned ".toList ++ [emDash]
    | .NoLocalSocket => emDash :: " no socket ".toList ++ [emDash]
    | .Resolved => [emDash]

def containerCellText (c : Connection) : QString :=
  let ci := c.container
  if ci.runtime.isEmpty && ci.name.isEmpty && ci.id.isEmpty then "(host)".toList
  else
    let display := if !ci.name.isEmpty then ci.name else ci.id.take 12
    let primary := if ci.runtime.isEmpty then display else ci.runtime ++ ':' :: display
    if c.containerChain.length ≥ 2 then primary ++ [' ', Char.ofNat 0x25b8] else primary

variable (texts : CellTexts F)

def cellsForInterface (r : InterfaceRow F) : List QString :=
  let s := r.current
  let detail := (if s.isLoopback then ["loopback".toList]
      else if !s.type.isEmpty then [s.type] else []) ++
    (if !s.addresses.isEmpty then [", ".toList.intercalate s.addresses] else [])
  let name := if !detail.isEmpty then
      leftJustified s.name kIfaceNameW ++ [emDash, ' '] ++ "  ".toList.intercalate detail
    else s.name
  let errs := number (s.rxErrors + s.txErrors).toNat
  let drops := number (s.rxDropped + s.txDropped).toNat
  [name, texts.formatByteRate r.rxRate, texts.formatByteRate r.txRate, texts.formatBytes s.rxBytes,
    texts.formatBytes s.txBytes, if 0 < s.mtu then number s.mtu.toNat else [emDash],
    operStateText s.operState s.isUp, arg (arg "%1/%2".toList errs) drops]

/-- The parts with the arrow between the ends, in one step: none is searched for markers. -/
def connectionFlowText (c : Connection) : QString :=
  texts.protoLabel c ++ "  ".toList ++ texts.endpointText c.local ++ [' ', Char.ofNat 0x2192, ' '] ++
    texts.endpointText c.remote

def cellsForConnection (r : Row F) (columns : List Column) : List QString :=
  columns.map fun col =>
    match col.id with
    | .Flow => connectionFlowText texts r.current
    | .RxRate => texts.formatByteRate r.rxRate
    | .TxRate => texts.formatByteRate r.txRate
    | .RxTotal => texts.formatBytes r.current.rxBytes
    | .TxTotal => texts.formatBytes r.current.txBytes
    | .Process => processCellText r.current
    | .Container => containerCellText r.current
    | _ => []

def groupHeaderCells (columns : List Column) (labelCell : QString) (rxRate txRate : F)
    (rxBytes txBytes : UInt64) : List QString :=
  columns.map fun col =>
    match col.id with
    | .Flow => labelCell
    | .RxRate => texts.formatByteRate rxRate
    | .TxRate => texts.formatByteRate txRate
    | .RxTotal => texts.formatBytes rxBytes
    | .TxTotal => texts.formatBytes txBytes
    | _ => []

omit [Double F] in
@[simp] theorem length_cellsForConnection (r : Row F) (columns : List Column) :
    (cellsForConnection texts r columns).length = columns.length := List.length_map _

omit [Double F] in
@[simp] theorem length_groupHeaderCells (columns : List Column) (labelCell : QString) (rxRate txRate : F)
    (rxBytes txBytes : UInt64) :
    (groupHeaderCells texts columns labelCell rxRate txRate rxBytes txBytes).length = columns.length :=
  List.length_map _

end

end Qiftop.Tui
