import Mathlib.Data.Finset.Insert
import Qiftop.Backend.Connection

/-!
# Util — connection heuristics

`util/ConnectionHeuristics.h`: whether a flow is forwarded, why it is or is not attributed, which
end opened it, and the two smoothing formulas.  Address sets are finite sets.
-/

namespace Qiftop.Heuristics
open Qt Backend

/-- Neither end is an address of this host. -/
def isForwardedFlow (c : Connection) (localAddrs loopbackAddrs : Finset QHostAddress) : Bool :=
  let isOurs := fun a => decide (a ∈ loopbackAddrs) || decide (a ∈ localAddrs)
  !isOurs c.local.address && !isOurs c.remote.address

def attributionReason (c : Connection) (localAddrs loopbackAddrs : Finset QHostAddress) :
    AttributionReason :=
  if 0 < c.process.pid then .Resolved
  else if isForwardedFlow c localAddrs loopbackAddrs then .Forwarded
  else if c.proto = .Tcp then
    match c.tcpState with
    | .FinWait | .CloseWait | .LastAck | .TimeWait | .Close => .Orphaned
    | _ => .NoLocalSocket
  else .NoLocalSocket

/-- A flow is resolved exactly when it has a process. -/
theorem attributionReason_eq_resolved_iff (c : Connection)
    (localAddrs loopbackAddrs : Finset QHostAddress) :
    attributionReason c localAddrs loopbackAddrs = .Resolved ↔ 0 < c.process.pid := by
  unfold attributionReason
  by_cases hp : 0 < c.process.pid
  · simp [hp]
  · simp only [hp, if_false, iff_false]
    split
    · exact nofun
    · split
      · split <;> exact nofun
      · exact nofun

/-- The end with the ephemeral port opened the flow; failing that, the only local end did. -/
def inferDirection (c : Connection) (localAddrs loopbackAddrs : Finset QHostAddress)
    (ephemeralLow ephemeralHigh : UInt16) : Direction :=
  if c.proto ≠ .Tcp ∧ c.proto ≠ .Udp then .Unknown
  else
    let lEph := decide (ephemeralLow ≤ c.local.port) && decide (c.local.port ≤ ephemeralHigh)
    let rEph := decide (ephemeralLow ≤ c.remote.port) && decide (c.remote.port ≤ ephemeralHigh)
    if lEph && !rEph then .Outbound
    else if rEph && !lEph then .Inbound
    else
      let lLocal := decide (c.local.address ∈ localAddrs) || decide (c.local.address ∈ loopbackAddrs)
      let rLocal := decide (c.remote.address ∈ localAddrs) ||
        decide (c.remote.address ∈ loopbackAddrs)
      if lLocal && !rLocal then .Outbound
      else if rLocal && !lLocal then .Inbound
      else .Unknown

section Smoothing
variable {F : Type} [Double F]

/-- Exponential moving average with time constant `tauMs`. -/
def emaUpdate (prev raw dtMs tauMs : F) : F :=
  if Double.le tauMs (Double.ofInt 0) || Double.le dtMs (Double.ofInt 0) then raw
  else
    let alpha := Double.div dtMs (Double.add tauMs dtMs)
    Double.add (Double.mul alpha raw) (Double.mul (Double.sub (Double.ofInt 1) alpha) prev)

/-- Cubic ease-out. -/
def easeOutCubic (t : F) : F :=
  let u := Double.sub (Double.ofInt 1) t
  Double.sub (Double.ofInt 1) (Double.mul (Double.mul u u) u)

end Smoothing

/-- A protocol without ports has no direction. -/
theorem inferDirection_of_portless {c : Connection} (h : c.proto ≠ .Tcp ∧ c.proto ≠ .Udp)
    (la lo : Finset QHostAddress) (l u : UInt16) : inferDirection c la lo l u = .Unknown := by
  rw [inferDirection, if_pos h]

end Qiftop.Heuristics
