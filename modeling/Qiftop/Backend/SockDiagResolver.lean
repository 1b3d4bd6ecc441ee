import Qiftop.Backend.DumpWalk

/-!
# Backend — the process of a flow in the host's namespace

`backend/linux/SockDiagResolver.cpp`.  The resolver holds the table of sockets and, for each socket
inode, a process that holds it.  A flow leads to a socket by its own key or, for UDP, by its local end;
the socket leads to the process, whose start time must still be the one noted.

Addresses are needed by their values here, so a flow is what a lookup reads of a `Connection`.
-/

namespace Qiftop.Backend
open Lib SockDiag

/-- What a lookup reads of a flow. -/
structure SockFlow where
  proto : L4Proto
  localAddress : HostAddress
  localPort : UInt16
  remoteAddress : HostAddress
  remotePort : UInt16
  deriving DecidableEq, Repr

def IPPROTO_TCP : UInt8 := 6
def IPPROTO_UDP : UInt8 := 17

/-- A process as it was when it was found. -/
structure PidStamp where
  pid : Int32
  startTime : UInt64
  deriving DecidableEq, Repr

structure SockDiagResolver where
  ready : Bool := true
  keyToInode : SocketTable
  inodeToPid : Hash UInt64 PidStamp

namespace SockDiagResolver

/-- The entry of a flow, after the fallback for UDP: its local end, unless a wildcard socket of the port
disagrees, else the wildcard. -/
def findSocket (s : SockDiagResolver) (proto : UInt8) (flow : SockFlow) : Option UInt64 :=
  match s.keyToInode.lookup (makeFlowKey proto flow.localAddress flow.localPort flow.remoteAddress
    flow.remotePort) with
  | some inode => some inode
  | none =>
      if proto = IPPROTO_UDP then
        let itLocal := s.keyToInode.lookup (makeLocalKey proto flow.localAddress flow.localPort)
        let anyAddr := if flow.localAddress.isIPv6 then HostAddress.AnyIPv6 else .AnyIPv4
        let itWildcard := s.keyToInode.lookup (makeLocalKey proto anyAddr flow.localPort)
        match itLocal, itWildcard with
        | some l, some w => if isAmbiguousLocalInode w || decide (w ≠ l) then none else some l
        | some l, none => some l
        | none, _ => itWildcard
      else none

/-- `resolvePid`, on the tables as they are after the refresh. -/
def resolvePid (s : SockDiagResolver) (pidStartTime : Int32 → Option UInt64) (flow : SockFlow) : Int32 :=
  if !s.ready then 0
  else
    let proto := if flow.proto = .Tcp then IPPROTO_TCP else if flow.proto = .Udp then IPPROTO_UDP else 0
    if proto = 0 then 0
    else
      match s.findSocket proto flow with
      | none => 0
      | some inode =>
          if isAmbiguousLocalInode inode then 0
          else
            match s.inodeToPid.lookup inode with
            | none => 0
            | some itPid =>
                match pidStartTime itPid.pid with
                | none => 0
                | some stNow => if stNow ≠ itPid.startTime then 0 else itPid.pid

end SockDiagResolver

end Qiftop.Backend
