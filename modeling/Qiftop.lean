import Qiftop.Lib.Hash
import Qiftop.Lib.Run
import Qiftop.Lib.Significand
import Qiftop.Lib.Wire
import Qiftop.Lib.Bytes
import Qiftop.Lib.Dissector
import Qiftop.Lib.Agreement
import Qiftop.Lib.Largest
import Qiftop.Lib.Lease
import Qiftop.Lib.Ranges
import Qiftop.Lib.Regex
import Qiftop.Qt.Binary64
import Qiftop.Qt.Prelude
import Qiftop.Qt.Text
import Qiftop.Qt.Arg
import Qiftop.Backend.Connection
import Qiftop.Backend.ConnectionKeys
import Qiftop.Backend.Conntrack
import Qiftop.Backend.Attribution
import Qiftop.Backend.MemoisedAttribution
import Qiftop.Backend.ProcStat
import Qiftop.Backend.CgroupParse
import Qiftop.Backend.CgroupChain
import Qiftop.Backend.CgroupClassifier
import Qiftop.Backend.ConntrackMonitor
import Qiftop.Backend.CgroupNames
import Qiftop.Backend.ResolverTuning
import Qiftop.Backend.ResolverDeepWorker
import Qiftop.Backend.DeepQueue
import Qiftop.Backend.ProcessResolverFactory
import Qiftop.Backend.BpfBirthResolver
import Qiftop.Backend.BirthFreshness
import Qiftop.Backend.BirthRaces
import Qiftop.Backend.BirthRecycling
import Qiftop.Backend.SockDiagDump
import Qiftop.Backend.DumpWalk
import Qiftop.Backend.SockDiagResolver
import Qiftop.Backend.NetnsScanner
import Qiftop.Backend.SocketKeys
import Qiftop.Backend.LocalKeys
import Qiftop.Backend.NetnsMerge
import Qiftop.Backend.NetnsOrder
import Qiftop.Backend.LruCache
import Qiftop.Util.ConnectionHeuristics
import Qiftop.Dbus.Types
import Qiftop.Dbus.Marshal
import Qiftop.Dbus.RoundTrip
import Qiftop.Backend.BsdFlowKey
import Qiftop.Backend.BsdCapture
import Qiftop.Backend.BsdAccounting
import Qiftop.Backend.BsdFragments
import Qiftop.Backend.BsdSocketResolver
import Qiftop.Backend.BsdLedger
import Qiftop.Dns.QtDnsResolver
import Qiftop.Dns.LastStore
import Qiftop.Aggregate.ConnectionAggregator
import Qiftop.Aggregate.Rows
import Qiftop.Aggregate.Signals
import Qiftop.Aggregate.Table
import Qiftop.Aggregate.Udp
import Qiftop.Aggregate.UdpMonotone
import Qiftop.Aggregate.UdpLedger
import Qiftop.Aggregate.Order
import Qiftop.Aggregate.Conservation
import Qiftop.Aggregate.Patch
import Qiftop.Aggregate.Relabel
import Qiftop.Aggregate.Reorder
import Qiftop.Agent.ConnectionsService
import Qiftop.Agent.Convergence
import Qiftop.Agent.ServiceMirror
import Qiftop.Agent.AttributionHintManager
import Qiftop.Agent.Config
import Qiftop.Agent.IdleManager
import Qiftop.Agent.IdleLadder
import Qiftop.Agent.HintAdmission
import Qiftop.Agent.ProcessDetails
import Qiftop.Agent.Application
import Qiftop.Agent.DeepPass
import Qiftop.Agent.TopTalkers
import Qiftop.Agent.Transports
import Qiftop.Util.HandoffServer
import Qiftop.Util.HandoffStats
import Qiftop.Util.PrivilegeEscalator
import Qiftop.Util.HandoffAuth
import Qiftop.Util.HandoffEnds
import Qiftop.Util.HandoffFraming
import Qiftop.Lib.Partition
import Qiftop.Ui.ConnectionGroupProxy
import Qiftop.Ui.GroupSplit
import Qiftop.Ui.GroupPartition
import Qiftop.Ui.GroupIndexes
import Qiftop.Ui.IndexesFollow
import Qiftop.Lib.Csv
import Qiftop.Lib.Shell
import Qiftop.Lib.Bucket
import Qiftop.Lib.KeyOrder
import Qiftop.Lib.Formula
import Qiftop.Config.Settings
import Qiftop.Util.ConnectionFilter
import Qiftop.Util.Exporter
import Qiftop.Util.FilterGrammar
import Qiftop.Util.FilterAccepts
import Qiftop.Util.FilterDepth
import Qiftop.Util.FilterOperators
import Qiftop.Tui.TuiFormat
import Qiftop.Tui.Grouping
import Qiftop.Tui.GroupDetail
import Qiftop.Tui.TuiCells
import Qiftop.Tui.Viewport
import Qiftop.Tui.BuildFrame
import Qiftop.Tui.Wrap
import Qiftop.Tui.Keys
import Qiftop.Tui.Writes
import Qiftop.Tui.KeyRuns
import Qiftop.Tui.KeySessions
import Qiftop.Tui.TuiSettings
import Qiftop.Tui.Repaint
import Qiftop.Tui.Folding
import Qiftop.Tui.Input
import Qiftop.Tui.Screen
